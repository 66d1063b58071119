import Fixpp.Model.Prelude

/-!
# What a frame is

A frame on the wire is a BeginString, a BodyLength that counts the body, a body that
ends a field, and the CheckSum of everything in front of it. `WireFrame` carries those
rules, so that its bytes are a well-formed frame whatever produced them.
-/

namespace Fixpp.Interface

open Model

/-- The number that decimal digits spell, leading zeros or not. -/
def decimal (digits : Bytes) : ℕ := digits.foldl (fun value d => value * 10 + digitValue d) 0

theorem decimal_append (digits : Bytes) (d : UInt8) :
    decimal (digits ++ [d]) = decimal digits * 10 + digitValue d := by
  simp [decimal]

def checksum (bytes : Bytes) : ℕ := (bytes.map UInt8.toNat).sum % 256

structure WireFrame where
  beginString : Bytes
  lengthDigits : Bytes
  /-- The fields that the BodyLength counts, without the last delimiter. -/
  content : Bytes
  checkDigits : Bytes
  begin_clean : ∀ b ∈ beginString, b ≠ soh
  length_nonempty : lengthDigits ≠ []
  length_digits : ∀ b ∈ lengthDigits, isDigit b = true
  length_counts : decimal lengthDigits = content.length + 1
  check_three : checkDigits.length = 3
  check_digits : ∀ b ∈ checkDigits, isDigit b = true
  check_sums : decimal checkDigits = checksum
    (ascii "8=" ++ beginString ++ [soh] ++ (ascii "9=" ++ lengthDigits ++ [soh]) ++
      (content ++ [soh]))

namespace WireFrame

variable (f : WireFrame)

def head : Bytes :=
  ascii "8=" ++ f.beginString ++ [soh] ++ (ascii "9=" ++ f.lengthDigits ++ [soh])

/-- What the BodyLength counts. -/
def body : Bytes := f.content ++ [soh]

/-- The CheckSum field. -/
def trailer : Bytes := ascii "10=" ++ f.checkDigits ++ [soh]

def bytes : Bytes := f.head ++ f.body ++ f.trailer

theorem length_head : f.head.length = f.beginString.length + f.lengthDigits.length + 6 := by
  simp only [head, ascii, List.length_append, List.length_map, List.length_singleton]
  simp
  omega

theorem length_body : f.body.length = f.content.length + 1 := by
  rw [body, List.length_append, List.length_singleton]

theorem length_trailer : f.trailer.length = 7 := by
  simp [trailer, ascii, f.check_three]

theorem length_bytes : f.bytes.length = f.head.length + f.body.length + 7 := by
  rw [bytes, List.length_append, List.length_append, length_trailer]

end WireFrame

end Fixpp.Interface
