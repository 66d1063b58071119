import Fixpp.Model.Fields
import Fixpp.Model.Framer

/-!
# The strict framer

`Framer::feed` without `resync_on_garble`: the first framing error fails the call, empties the
carry and drops the frames that the call had produced. The sums of offsets and lengths are
exact; the running BodyLength is a `size_t`, because the test against the limit wraps for limits
of one digit.
-/

namespace Fixpp.Model.StrictFramer

open Framer (Config CarryBuffer FrameView Candidate checkTrailer)

inductive ParsedFrame
  | complete (frameLen bodyOff bodyLen : ℕ)
  | incomplete
  | error (code : Error)
  deriving DecidableEq, Repr

/-- The values of `std::size_t`. -/
def sizeLimit : ℕ := 2 ^ 64

/-- `a - b` as `std::size_t`. -/
def sizeSub (a b : ℕ) : ℕ := (a + sizeLimit - b) % sizeLimit

def readBodyLength (maxFrameBytes : ℕ) : ℕ → Bytes → Except Error ℕ
  | value, [] => .ok value
  | value, d :: rest =>
    if isDigit d = false then .error .wireInvalidBodyLength
    else if value > sizeSub maxFrameBytes (digitValue d) / 10 then .error .wireFrameTooLarge
    else readBodyLength maxFrameBytes ((value * 10 + digitValue d) % sizeLimit) rest

variable (maxFrameBytes : ℕ)

/-- The end of `parse_frame`, from the body on. -/
def parseTail (bytes : Bytes) (bodyOff bodyLen : ℕ) : ParsedFrame :=
  if bodyOff > bytes.length then .incomplete
  else if bodyOff + bodyLen > bytes.length then .incomplete
  else if bodyOff + bodyLen + 7 > bytes.length then .incomplete
  else
    match checkTrailer bytes bodyOff bodyLen with
    | .frame frameLen _ _ =>
      if frameLen > maxFrameBytes then .error .wireFrameTooLarge
      else .complete frameLen bodyOff bodyLen
    | .garble kind _ _ => .error kind
    | .incomplete => .incomplete
    | .tooLarge => .error .wireFrameTooLarge

/-- The BodyLength field, from the byte behind the BeginString's SOH on. -/
def parseLength (bytes : Bytes) (beginLen : ℕ) : Bytes → ParsedFrame
  | [] => .incomplete
  | [_] => .incomplete
  | tag :: eq :: rest =>
    if tag ≠ 57 ∨ eq ≠ equalsSign then .error .wireInvalidBodyLength
    else
      match splitValue rest with
      | (_, []) => .incomplete
      | (digits, _ :: _) =>
        if digits = [] then .error .wireInvalidBodyLength
        else
          match readBodyLength maxFrameBytes 0 digits with
          | .error code => .error code
          | .ok bodyLength =>
            if bodyLength = 0 then .error .wireInvalidBodyLength
            else if bodyLength > maxFrameBytes then .error .wireFrameTooLarge
            else parseTail maxFrameBytes bytes (2 + beginLen + 1 + 2 + digits.length + 1)
              bodyLength

def parseFrame (bytes : Bytes) : ParsedFrame :=
  match bytes with
  | [] => .incomplete
  | tag :: rest =>
    if tag ≠ 56 then .error .wireFramingResync
    else
      match rest with
      | [] => .incomplete
      | eq :: value =>
        if eq ≠ equalsSign then .error .wireFramingResync
        else
          match splitValue value with
          | (_, []) => .incomplete
          | (beginString, _ :: after) =>
            parseLength maxFrameBytes bytes beginString.length after

/-- The framer's state across feeds, with the carry buffer it is used with. -/
structure State where
  carry : CarryBuffer
  pending : ℕ := 0
  deriving DecidableEq, Repr

/-- The loop of `feed`, from what the call has produced and the bytes behind it: the
frames and the unread rest, or the error that ends the call. -/
def feedLoop (cfg : Config) (outSize : ℕ) : ℕ → List FrameView → Bytes →
    Except Error (List FrameView × Bytes)
  | 0, produced, source => .ok (produced, source)
  | fuel + 1, produced, source =>
    if source = [] then .ok (produced, source)
    else if produced.length = outSize then .ok (produced, source)
    else
      match parseFrame cfg.maxFrameBytes source with
      | .incomplete => .ok (produced, source)
      | .error code => .error code
      | .complete frameLen bodyOff bodyLen =>
        feedLoop cfg outSize fuel (produced ++ [⟨source.take frameLen, bodyOff, bodyLen⟩])
          (source.drop frameLen)

def failed (carry : CarryBuffer) (code : Error) : State × Except Error (List FrameView) :=
  ({ carry := carry.clear }, .error code)

/-- `Framer::feed` in strict mode, on an output span of `outSize` views. Every round of
the loop but the last takes a frame off the source, so the fuel is not used up. -/
def feed (cfg : Config) (st : State) (incoming : Bytes) (outSize : ℕ) :
    State × Except Error (List FrameView) :=
  let carry := if st.pending < st.carry.bytes.length then
      st.carry.consumeFront (st.carry.bytes.length - st.pending)
    else st.carry
  if carry.bytes.isEmpty then
    match feedLoop cfg outSize (incoming.length + 1) [] incoming with
    | .error code => failed carry code
    | .ok (frames, trailing) =>
      if trailing.length = 0 then ({ carry := carry.clear }, .ok frames)
      else
        match carry.clear.append trailing with
        | none => failed carry .wireFrameTooLarge
        | some carry' => ({ carry := carry', pending := trailing.length }, .ok frames)
  else
    match carry.append incoming with
    | none => failed carry .wireFrameTooLarge
    | some carry' =>
      match feedLoop cfg outSize (carry'.bytes.length + 1) [] carry'.bytes with
      | .error code => failed carry' code
      | .ok (frames, trailing) =>
        ({ carry := carry', pending := trailing.length }, .ok frames)

def fresh (capacity : ℕ) : State := { carry := { capacity := capacity } }

def pendingSuffix (st : State) : Bytes :=
  st.carry.bytes.drop (st.carry.bytes.length - st.pending)

/-- A call that reported no error: what it was given and what it returned. -/
structure Call where
  chunk : Bytes
  outSize : ℕ
  frames : List FrameView
  deriving DecidableEq, Repr

/-- What a run did: the calls in front of the first error, the state then, and the
error, if there is one. -/
structure Run where
  calls : List Call
  state : State
  error : Option Error
  deriving DecidableEq, Repr

def Run.fed (r : Run) : Bytes := r.calls.flatMap Call.chunk

def Run.frames (r : Run) : List FrameView := r.calls.flatMap Call.frames

/-- Feed chunks in order, each with the size of its output span, up to the first
error. -/
def feedAll (cfg : Config) : State → List (Bytes × ℕ) → Run
  | st, [] => ⟨[], st, none⟩
  | st, (chunk, outSize) :: rest =>
    match feed cfg st chunk outSize with
    | (st', .error code) => ⟨[], st', some code⟩
    | (st', .ok frames) =>
      let later := feedAll cfg st' rest
      { later with calls := ⟨chunk, outSize, frames⟩ :: later.calls }

end Fixpp.Model.StrictFramer
