import Fixpp.Model.Resend

/-!
# The writer's buffer

`Writer` writes each field behind the one before into the caller's buffer, with six zeros for
the BodyLength behind the first field. `commit` moves the body left over the digits it does not
need, writes the digits and appends the CheckSum. `Writer.frame` is what comes of it
(`commit_appendAll`). A size is exact except for the BodyLength, which is cast to 32 bits.
-/

namespace Fixpp.Model.Writer

/-- `Writer`: the destination and how far it is written. -/
structure State where
  dst : Bytes
  pos : ℕ := 0
  bodyStart : Option ℕ := none
  blDigitCount : ℕ := 0
  blDigitPos : Option ℕ := none
  overflow : Bool := false
  deriving DecidableEq, Repr

/-- `memcpy` or `memmove` into the buffer: `bytes` at `pos`. -/
def overwrite (dst : Bytes) (pos : ℕ) (bytes : Bytes) : Bytes :=
  dst.take pos ++ bytes ++ dst.drop (pos + bytes.length)

/-- A write: whether there was room for it, and the writer behind it. -/
abbrev Write := State → Bool × State

def writeByte (b : UInt8) : Write := fun w =>
  if w.pos ≥ w.dst.length then (false, { w with overflow := true })
  else (true, { w with dst := overwrite w.dst w.pos [b], pos := w.pos + 1 })

def writeSpan (s : Bytes) : Write := fun w =>
  if s.length > w.dst.length - w.pos then (false, { w with overflow := true })
  else (true, { w with dst := overwrite w.dst w.pos s, pos := w.pos + s.length })

def writeTagEq (tag : ℕ) : Write := fun w =>
  if w.pos + (renderU32 tag).length + 1 > w.dst.length then (false, { w with overflow := true })
  else (true, { w with
    dst := overwrite w.dst w.pos (renderU32 tag ++ [equalsSign])
    pos := w.pos + (renderU32 tag).length + 1 })

/-- One write behind another; the first one without room ends the call. -/
def Write.andThen (first second : Write) : Write := fun w =>
  match first w with
  | (true, w') => second w'
  | (false, w') => (false, w')

/-- Fields of the writer other than the buffer are set. -/
def record (f : State → State) : Write := fun w => (true, f w)

def writeField (f : Field) : Write :=
  (writeTagEq f.1).andThen ((writeSpan f.2).andThen (writeByte soh))

def writeZeros : ℕ → Write
  | 0 => fun w => (true, w)
  | n + 1 => (writeByte 48).andThen (writeZeros n)

/-- The BodyLength field with its placeholder, behind the first field. -/
def writePlaceholder : Write :=
  (writeByte 57).andThen <| (writeByte equalsSign).andThen <|
    (record fun w =>
    { w with blDigitPos := some w.pos, blDigitCount := maxBodyLengthDigits }).andThen <|
    (writeZeros maxBodyLengthDigits).andThen <| (writeByte soh).andThen <|
    record fun w => { w with bodyStart := some w.pos }

/-- Whether the field was written, else `wire_field_value_truncated`. -/
def appendRaw (f : Field) : Write := fun w =>
  if w.overflow then (false, w)
  else if w.bodyStart = none then ((writeField f).andThen writePlaceholder) w
  else writeField f w

/-- The values of `std::uint32_t`. -/
def u32Limit : ℕ := 2 ^ 32

/-- The digits and the SOH of the BodyLength, patched in at `digitPos`. -/
def patchBodyLength (dst : Bytes) (digitPos bodyLength : ℕ) : Bytes :=
  overwrite dst digitPos (renderU32 bodyLength ++ [soh])

/-- The end of `commit`: the CheckSum behind the body, which ends at `bodyEnd`. -/
def appendChecksum (dst : Bytes) (bodyEnd : ℕ) : Except Error (ℕ × Bytes) :=
  if bodyEnd + 7 > dst.length then .error .wireFieldValueTruncated
  else .ok (bodyEnd + 7,
    overwrite dst bodyEnd (ascii "10=" ++ checksumDigits (dst.take bodyEnd) ++ [soh]))

/-- The number of bytes of the frame and the buffer that begins with them. -/
def commit (w : State) : Except Error (ℕ × Bytes) :=
  if w.overflow then .error .wireFieldValueTruncated
  else
    match w.bodyStart, w.blDigitPos with
    | some bodyStart, some digitPos =>
      if w.pos < bodyStart then .error .wireFieldValueTruncated
      else
        let bodyLength := (w.pos - bodyStart) % u32Limit
        let actualDigits := (renderU32 bodyLength).length
        if actualDigits > w.blDigitCount then .error .wireFrameTooLarge
        else
          let gap := w.blDigitCount - actualDigits
          if bodyStart < gap then .error .wireFieldValueTruncated
          else
            let body := (w.dst.drop bodyStart).take (w.pos - bodyStart)
            let moved := if gap > 0 then overwrite w.dst (bodyStart - gap) body else w.dst
            appendChecksum (patchBodyLength moved digitPos bodyLength) (w.pos - gap)
    | _, _ => .error .wireFieldValueTruncated

def appendAll : List Field → State → List Bool × State
  | [], w => ([], w)
  | f :: rest, w =>
    let (ok, w') := appendRaw f w
    let (oks, w'') := appendAll rest w'
    (ok :: oks, w'')

end Fixpp.Model.Writer
