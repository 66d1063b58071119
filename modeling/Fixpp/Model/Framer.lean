import Fixpp.Model.Prelude

/-!
# The resync framer

`Framer::feed` with `resync_on_garble` set: a feed frames what it can of a chunk and keeps the
unread rest in the carry buffer. A framing error other than an oversized message opens a garbled
region: bytes are discarded up to the next `8=FIX`. The counters of work done are left out.
-/

namespace Fixpp.Model.Framer

/-- `Framer::Config`, the fields the resync path reads. -/
structure Config where
  maxFrameBytes : ℕ := 256 * 1024
  maxBeginStringBytes : ℕ := 8

def bodyLengthDigitCap : ℕ := 10

/-- `resync_candidate`: what the bytes at a frame start turned out to be. A
garble with `throughEnd` is a complete frame with a wrong CheckSum. -/
inductive Candidate
  | frame (frameLen bodyOff bodyLen : ℕ)
  | incomplete
  | garble (kind : Error) (throughEnd : Bool) (frameLen : ℕ)
  | tooLarge
  deriving DecidableEq, Repr

/-- A garble that is searched past from its second byte. -/
def resyncGarble (kind : Error) : Candidate := .garble kind false 0

/-- Outcome of one of the two capped header scans: the number of value bytes,
the value read and the bytes behind the delimiter, or why the scan stopped. -/
inductive HeaderScan
  | found (count value : ℕ) (rest : Bytes)
  | stopped (why : Candidate)
  deriving DecidableEq, Repr

/-- The BeginString value: at most `cap` bytes before its SOH. `count` bytes of
it have been read. -/
def scanBeginString (cap : ℕ) : ℕ → Bytes → HeaderScan
  | _, [] => .stopped .incomplete
  | count, b :: rest =>
    if b = soh then .found count 0 rest
    else if count = cap then .stopped (resyncGarble .wireFramingResync)
    else scanBeginString cap (count + 1) rest

/-- The BodyLength digits: at most `bodyLengthDigitCap` of them, refused as too
large as soon as the value exceeds the largest frame. -/
def scanBodyLength (maxFrameBytes : ℕ) : ℕ → ℕ → Bytes → HeaderScan
  | _, _, [] => .stopped .incomplete
  | count, value, b :: rest =>
    if b = soh then .found count value rest
    else if isDigit b = false then .stopped (resyncGarble .wireInvalidBodyLength)
    else if count = bodyLengthDigitCap then .stopped (resyncGarble .wireInvalidBodyLength)
    else if digitValue b > maxFrameBytes ∨ value > (maxFrameBytes - digitValue b) / 10 then
      .stopped .tooLarge
    else scanBodyLength maxFrameBytes (count + 1) (value * 10 + digitValue b) rest

/-- The byte at an offset; the callers stay inside the buffer. -/
def byteAt (bytes : Bytes) (i : ℕ) : UInt8 := bytes.getD i 0

def checksumOf (bytes : Bytes) (n : ℕ) : ℕ := ((bytes.take n).map UInt8.toNat).sum % 256

/-- The trailer of a candidate whose declared extent is in the buffer. -/
def checkTrailer (bytes : Bytes) (bodyOff bodyLen : ℕ) : Candidate :=
  let checksumOff := bodyOff + bodyLen
  let frameLen := checksumOff + 7
  if byteAt bytes checksumOff ≠ 49 ∨ byteAt bytes (checksumOff + 1) ≠ 48 ∨
      byteAt bytes (checksumOff + 2) ≠ equalsSign then
    resyncGarble .wireInvalidBodyLength
  else if byteAt bytes (checksumOff - 1) ≠ soh then resyncGarble .wireInvalidBodyLength
  else if isDigit (byteAt bytes (checksumOff + 3)) = false ∨
      isDigit (byteAt bytes (checksumOff + 4)) = false ∨
      isDigit (byteAt bytes (checksumOff + 5)) = false then
    resyncGarble .wireChecksumMismatch
  else if byteAt bytes (checksumOff + 6) ≠ soh then resyncGarble .wireChecksumMismatch
  else
    let encoded := digitValue (byteAt bytes (checksumOff + 3)) * 100 +
      digitValue (byteAt bytes (checksumOff + 4)) * 10 +
      digitValue (byteAt bytes (checksumOff + 5))
    if encoded ≠ checksumOf bytes checksumOff then
      .garble .wireChecksumMismatch true frameLen
    else .frame frameLen bodyOff bodyLen

variable (cfg : Config)

/-- What follows the two header scans: `bodyOff` and the declared body length are
known, the frame's extent is compared with the limit and the buffer. -/
def frameExtent (bytes : Bytes) (bodyOff bodyLen : ℕ) : Candidate :=
  let frameLen := bodyOff + bodyLen + 7
  if frameLen > cfg.maxFrameBytes then .tooLarge
  else if frameLen > bytes.length then .incomplete
  else checkTrailer bytes bodyOff bodyLen

/-- The BodyLength field of a candidate, from the byte behind the BeginString's
SOH on. `beginLen` is the length of the BeginString value. -/
def parseBodyLength (bytes : Bytes) (beginLen : ℕ) : Bytes → Candidate
  | [] => .incomplete
  | [_] => .incomplete
  | tag :: eq :: rest =>
    if tag ≠ 57 ∨ eq ≠ equalsSign then resyncGarble .wireInvalidBodyLength
    else
      match scanBodyLength cfg.maxFrameBytes 0 0 rest with
      | .stopped why => why
      | .found count value _ =>
        if count = 0 ∨ value = 0 then resyncGarble .wireInvalidBodyLength
        else frameExtent cfg bytes (2 + beginLen + 1 + 2 + count + 1) value

/-- Frame the candidate at the start of `bytes`. -/
def parseResyncCandidate (bytes : Bytes) : Candidate :=
  match bytes with
  | [] => .incomplete
  | tag :: rest =>
    if tag ≠ 56 then resyncGarble .wireFramingResync
    else
      match rest with
      | [] => .incomplete
      | eq :: value =>
        if eq ≠ equalsSign then resyncGarble .wireFramingResync
        else
          match scanBeginString cfg.maxBeginStringBytes 0 value with
          | .stopped why => why
          | .found beginLen _ after => parseBodyLength cfg bytes beginLen after

/-- `resync_start`, the bytes `8=FIX`. -/
def resyncStart : Bytes := [56, 61, 70, 73, 88]

inductive Match
  | whole
  | runsOut
  | differs
  deriving DecidableEq, Repr

def matchPattern : Bytes → Bytes → Match
  | [], _ => .whole
  | _ :: _, [] => .runsOut
  | p :: ps, b :: bs => if b = p then matchPattern ps bs else .differs

/-- The distance to the next `8=FIX`, or, with none, the length of a trailing proper prefix of it
that the next feed must see. -/
def findResyncStart : Bytes → ℕ ⊕ ℕ
  | [] => .inr 0
  | b :: rest =>
    match matchPattern resyncStart (b :: rest) with
    | .whole => .inl 0
    | .runsOut => .inr (rest.length + 1)
    | .differs => (findResyncStart rest).map (· + 1) id

/-- `pmr_carry_buffer`: bytes up to a fixed capacity. -/
structure CarryBuffer where
  bytes : Bytes := []
  capacity : ℕ
  deriving DecidableEq, Repr

namespace CarryBuffer

/-- `append`, refused past the capacity. -/
def append (c : CarryBuffer) (incoming : Bytes) : Option CarryBuffer :=
  if c.bytes.length + incoming.length > c.capacity then none
  else some { c with bytes := c.bytes ++ incoming }

def consumeFront (c : CarryBuffer) (n : ℕ) : CarryBuffer := { c with bytes := c.bytes.drop n }

def clear (c : CarryBuffer) : CarryBuffer := { c with bytes := [] }

end CarryBuffer

/-- The bytes of a frame and where its body lies in them. -/
structure FrameView where
  bytes : Bytes
  bodyOff : ℕ
  bodyLen : ℕ
  deriving DecidableEq, Repr

/-- What one feed disregarded. -/
structure GarbleSummary where
  regions : ℕ := 0
  firstKind : Option Error := none
  discarded : ℕ := 0
  deriving DecidableEq, Repr

/-- The framer's state across feeds, with the carry buffer it is used with. -/
structure State where
  carry : CarryBuffer
  pending : ℕ := 0
  searching : Bool := false
  garbles : GarbleSummary := {}
  deriving DecidableEq, Repr

structure Loop where
  offset : ℕ := 0
  produced : List FrameView := []
  searching : Bool
  garbles : GarbleSummary := {}
  deriving DecidableEq, Repr

inductive Pass
  | again (l : Loop)
  | leave (l : Loop)
  | tooLarge (l : Loop)
  deriving DecidableEq, Repr

/-- The loop body behind the search: the candidate at `offset`. -/
def resolveCandidate (source : Bytes) (l : Loop) : Pass :=
  match parseResyncCandidate cfg (source.drop l.offset) with
  | .incomplete => .leave l
  | .frame frameLen bodyOff bodyLen =>
    .again { l with
      offset := l.offset + frameLen
      produced := l.produced ++ [⟨(source.drop l.offset).take frameLen, bodyOff, bodyLen⟩] }
  | .tooLarge => if l.produced.length > 0 then .leave l else .tooLarge l
  | .garble kind throughEnd frameLen =>
    -- A call that produced a frame stops before resolving what follows.
    if l.produced.length > 0 then .leave l
    else
      let skip := if throughEnd then frameLen else 1
      .again { l with
        offset := l.offset + skip
        searching := true
        garbles :=
          { regions := l.garbles.regions + 1
            firstKind := if l.garbles.regions = 0 then some kind else l.garbles.firstKind
            discarded := l.garbles.discarded + skip } }

def loopBody (source : Bytes) (l : Loop) : Pass :=
  if l.searching then
    match findResyncStart (source.drop l.offset) with
    | .inr held =>
      .leave { l with
        offset := source.length - held
        garbles := { l.garbles with
          discarded := l.garbles.discarded + (source.length - held - l.offset) } }
    | .inl start =>
      resolveCandidate cfg source { l with
        offset := l.offset + start
        searching := false
        garbles := { l.garbles with discarded := l.garbles.discarded + start } }
  else resolveCandidate cfg source l

/-- The loop of `feed_resync_`; an oversized message ends it with an error. Every
pass that goes on moves `offset`, so the callers' fuel of one more than the
source's length is never used up. -/
def feedLoop (cfg : Config) (source : Bytes) (outSize : ℕ) : ℕ → Loop → Except Loop Loop
  | 0, l => .ok l
  | fuel + 1, l =>
    if l.offset < source.length ∧ l.produced.length < outSize then
      match loopBody cfg source l with
      | .again l' => feedLoop cfg source outSize fuel l'
      | .leave l' => .ok l'
      | .tooLarge l' => .error l'
    else .ok l

/-- The carry is emptied and the error reported. -/
def failTooLarge (carry : CarryBuffer) (garbles : GarbleSummary) :
    State × Except Error (List FrameView) :=
  ({ carry := carry.clear, garbles := garbles }, .error .wireFrameTooLarge)

/-- The carry at the start of a feed: emptied when nothing is pending, moved to
the front when the incoming bytes would not fit behind it. -/
def settleCarry (st : State) (incoming : Bytes) : CarryBuffer :=
  if st.pending = 0 then st.carry.clear
  else if st.pending < st.carry.bytes.length ∧
      st.carry.bytes.length + incoming.length > st.carry.capacity then
    st.carry.consumeFront (st.carry.bytes.length - st.pending)
  else st.carry

/-- The end of a feed that read the carry: its tail stays pending. -/
def finishInCarry (carry : CarryBuffer) (source : Bytes) (l : Loop) :
    State × Except Error (List FrameView) :=
  ({ carry := carry, pending := source.length - l.offset, searching := l.searching
     garbles := l.garbles }, .ok l.produced)

/-- The end of a feed that read the chunk itself: its tail goes to the carry. -/
def finishOutside (carry : CarryBuffer) (source : Bytes) (l : Loop) :
    State × Except Error (List FrameView) :=
  if source.length - l.offset = 0 then
    ({ carry := carry, pending := 0, searching := l.searching, garbles := l.garbles },
      .ok l.produced)
  else
    match carry.append (source.drop l.offset) with
    | none => failTooLarge carry l.garbles
    | some carry' =>
      ({ carry := carry', pending := source.length - l.offset, searching := l.searching
         garbles := l.garbles }, .ok l.produced)

/-- `Framer::feed_resync_` on an output span of `outSize` views. -/
def feedResync (st : State) (incoming : Bytes) (outSize : ℕ) :
    State × Except Error (List FrameView) :=
  let carry := settleCarry st incoming
  let fresh : Loop := { searching := st.searching }
  if carry.bytes.isEmpty then
    match feedLoop cfg incoming outSize (incoming.length + 1) fresh with
    | .error l => failTooLarge carry l.garbles
    | .ok l => finishOutside carry incoming l
  else
    match carry.append incoming with
    | none => failTooLarge carry {}
    | some carry' =>
      let source := carry'.bytes.drop (carry'.bytes.length - st.pending - incoming.length)
      match feedLoop cfg source outSize (source.length + 1) fresh with
      | .error l => failTooLarge carry' l.garbles
      | .ok l => finishInCarry carry' source l

def fresh (capacity : ℕ) : State := { carry := { capacity := capacity } }

/-- `pending_bytes()` as bytes: the unread suffix of the stream. -/
def pendingSuffix (st : State) : Bytes :=
  st.carry.bytes.drop (st.carry.bytes.length - st.pending)

structure Collected where
  frames : List FrameView := []
  discarded : ℕ := 0
  deriving DecidableEq, Repr

def Collected.add (c : Collected) (frames : List FrameView) (discarded : ℕ) : Collected :=
  ⟨c.frames ++ frames, c.discarded + discarded⟩

/-- Feed chunks in order, each with the size of its output span, and stop at the
first error. -/
def feedAll (cfg : Config) : State → Collected → List (Bytes × ℕ) → Except Error (State × Collected)
  | st, c, [] => .ok (st, c)
  | st, c, (chunk, outSize) :: rest =>
    match feedResync cfg st chunk outSize with
    | (_, .error e) => .error e
    | (st', .ok frames) => feedAll cfg st' (c.add frames st'.garbles.discarded) rest

/-- Drain with empty feeds until one puts out no frame. `outSizes i` is the
output size of the `i`-th of them. -/
def drain (cfg : Config) (outSizes : ℕ → ℕ) : ℕ → State → Collected →
    Except Error (State × Collected)
  | 0, st, c => .ok (st, c)
  | fuel + 1, st, c =>
    match feedResync cfg st [] (outSizes 0) with
    | (_, .error e) => .error e
    | (st', .ok frames) =>
      let c' := c.add frames st'.garbles.discarded
      if frames.isEmpty then .ok (st', c')
      else drain cfg (fun i => outSizes (i + 1)) fuel st' c'

structure Yield where
  frames : List FrameView
  discarded : ℕ
  pending : Bytes
  deriving DecidableEq, Repr

/-- Feed all chunks to a fresh framer and drain it. Each draining feed that puts
out a frame shortens what is pending, so the fuel is not used up. -/
def feedAndDrain (capacity : ℕ) (chunks : List (Bytes × ℕ)) (outSizes : ℕ → ℕ) :
    Except Error Yield := do
  let (st, c) ← feedAll cfg (fresh capacity) {} chunks
  let (st', c') ← drain cfg outSizes (st.pending + 1) st c
  pure ⟨c'.frames, c'.discarded, pendingSuffix st'⟩

end Fixpp.Model.Framer
