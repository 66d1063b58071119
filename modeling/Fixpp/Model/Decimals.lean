import Fixpp.Model.BodyBuilder

/-!
# Decimals

A decimal is a 64-bit mantissa with an 8-bit exponent of ten; the least mantissa marks an
invalid one. `decimal_traits<pod_decimal>` has `to_chars` into a buffer of a given size, and
`from_chars`. The digits of a loop of `from_chars` are the ones in front of the first byte that
is none.
-/

namespace Fixpp.Model

def int64Max : ℕ := 9223372036854775807

def maxSerializedBytes : ℕ := 41

/-- `to_chars` into `size` bytes. -/
def PodDecimal.toCharsInto (size : ℕ) (v : PodDecimal) : Except Error Bytes :=
  match v.toChars with
  | none => .error .decimalInvalidInput
  | some text => if size < text.length then .error .decimalBufferTooSmall else .ok text

/-- The variables of the digit loops of `from_chars`. -/
structure DecimalScan where
  mantissa : ℕ := 0
  exponent : ℤ := 0
  overflow : Bool := false

/-- A round of the loop over the integer digits or, with `fraction`, of the one over the
fractional digits. -/
def DecimalScan.digit (fraction : Bool) (s : DecimalScan) (c : UInt8) : DecimalScan :=
  if s.overflow then s
  else if (fraction ∧ s.exponent ≤ -38) ∨ s.mantissa > (int64Max - digitValue c) / 10 then
    { s with overflow := true }
  else
    { s with mantissa := s.mantissa * 10 + digitValue c
             exponent := if fraction then s.exponent - 1 else s.exponent }

/-- `from_chars` behind its loops, with `rest` unread. -/
def DecimalScan.finish (s : DecimalScan) (negative : Bool) (rest : Bytes) :
    Except Error PodDecimal :=
  if rest ≠ [] then .error .decimalInvalidInput
  else if s.overflow then .error .decimalOverflow
  else
    let mantissa : ℤ := if negative then -s.mantissa else s.mantissa
    if mantissa = int64Min then .error .decimalOverflow else .ok ⟨mantissa, s.exponent⟩

/-- `from_chars` behind the sign. -/
def fromUnsignedChars (negative : Bool) (src : Bytes) : Except Error PodDecimal :=
  if ¬src.head?.any isDigit then .error .decimalInvalidInput
  else
    let whole := (src.takeWhile isDigit).foldl (DecimalScan.digit false) {}
    match src.dropWhile isDigit with
    | 46 :: frac =>
      if ¬frac.head?.any isDigit then .error .decimalInvalidInput
      else ((frac.takeWhile isDigit).foldl (DecimalScan.digit true) whole).finish negative
        (frac.dropWhile isDigit)
    | rest => whole.finish negative rest

def PodDecimal.fromChars : Bytes → Except Error PodDecimal
  | [] => .error .decimalInvalidInput
  | 43 :: rest => fromUnsignedChars false rest
  | 45 :: rest => fromUnsignedChars true rest
  | c :: rest => fromUnsignedChars false (c :: rest)

/-! ## The comparison

Two decimals with different exponents are compared without a division: the mantissa with the
larger exponent is scaled up by a widening product, and for an exponent gap of 19 or more it
dominates without one. The build selects one of two bodies of the product. -/

/-- `pod_decimal`, with the fixed widths of its members. -/
structure MachineDecimal where
  mantissa : Int64
  exponent : Int8
  deriving DecidableEq, Repr

namespace MachineDecimal

/-- `mul_u64_wide` where the compiler has 128-bit integers: the high and the low word. -/
def mulU64Wide (a b : UInt64) : UInt64 × UInt64 :=
  let p := a.toNat * b.toNat % 2 ^ 128
  (UInt64.ofNat (p / 2 ^ 64), UInt64.ofNat p)

/-- `mul_u64_wide` in 32-bit limbs. -/
def mulU64WidePortable (a b : UInt64) : UInt64 × UInt64 :=
  let aLo := a &&& 0xFFFFFFFF
  let aHi := a >>> 32
  let bLo := b &&& 0xFFFFFFFF
  let bHi := b >>> 32
  let t := aLo * bLo
  let w0 := t &&& 0xFFFFFFFF
  let k := t >>> 32
  let t := aHi * bLo + k
  let w1 := t &&& 0xFFFFFFFF
  let w2 := t >>> 32
  let t := aLo * bHi + w1
  let k := t >>> 32
  (aHi * bHi + w2 + k, t <<< 32 ||| w0)

inductive WideMul
  | int128
  | portable
  deriving DecidableEq, Repr

def WideMul.mul : WideMul → UInt64 → UInt64 → UInt64 × UInt64
  | .int128 => mulU64Wide
  | .portable => mulU64WidePortable

/-- `kPow10`, for indices up to 18. -/
def kPow10 (k : ℕ) : UInt64 := UInt64.ofNat (10 ^ k)

/-- `INT64_MIN`. -/
def isInvalid (a : MachineDecimal) : Bool := a.mantissa = Int64.minValue

def magnitude (a : MachineDecimal) : UInt64 :=
  (if a.mantissa < 0 then -a.mantissa else a.mantissa).toUInt64

/-- A magnitude times a power of ten against another magnitude. -/
def scaledVsOther (build : WideMul) (k : ℕ) (scaled other : UInt64) : Ordering :=
  if k ≥ 19 then .gt
  else
    let product := build.mul scaled (kPow10 k)
    if product.1 ≠ 0 ∨ product.2 > other then .gt
    else if product.2 = other then .eq
    else .lt

def compare (build : WideMul) (a b : MachineDecimal) : Ordering :=
  if a.isInvalid ∧ b.isInvalid then .eq
  else if a.isInvalid then .gt
  else if b.isInvalid then .lt
  else
    let aNeg := a.mantissa < 0
    let bNeg := b.mantissa < 0
    if decide aNeg ≠ decide bNeg then (if aNeg then .lt else .gt)
    else if a.exponent = b.exponent then compareOfLessAndEq a.mantissa b.mantissa
    else if a.mantissa = 0 ∧ b.mantissa = 0 then .eq
    else if a.mantissa = 0 then (if bNeg then .gt else .lt)
    else if b.mantissa = 0 then (if aNeg then .lt else .gt)
    else
      let ae := a.exponent.toInt
      let be := b.exponent.toInt
      let aScales := ae > be
      let k := if aScales then ae - be else be - ae
      let magScaled := if aScales then a.magnitude else b.magnitude
      let other := if aScales then b.magnitude else a.magnitude
      let cmpScaled := scaledVsOther build k.toNat magScaled other
      let magCmp := if aScales then cmpScaled else cmpScaled.swap
      if aNeg then magCmp.swap else magCmp

end MachineDecimal

end Fixpp.Model
