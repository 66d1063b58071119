import Fixpp.Model.Framer

/-!
# Reading an accepted connection

`read_first_frame_bounded` reads up to the first frame of an accepted connection. The accept
loop hands that frame to the session and leaves what was read behind it to `run_read_pump`,
which reads on with a framer of its own. The transport is a stream of bytes and, for each read,
how many of them it has ready. A byte budget is below the largest size value.
-/

namespace Fixpp.Model.Framer

/-! ## The first frame -/

/-- How the join of a read and the deadline ends. -/
inductive ReadEnd
  | bytes (ready : ℕ)
  | failed
  | deadline
  deriving DecidableEq, Repr

structure FirstFrameRead where
  offset : ℕ
  len : ℕ
  garbles : GarbleSummary
  deriving DecidableEq, Repr

def GarbleSummary.sum (sum g : GarbleSummary) : GarbleSummary where
  regions := sum.regions + g.regions
  firstKind := if sum.regions = 0 ∧ g.regions ≠ 0 then g.firstKind else sum.firstKind
  discarded := sum.discarded + g.discarded

/-- The locals of `read_first_frame_bounded`, and the bytes still in the stream. -/
structure FirstFrameReader where
  buf : Bytes := []
  left : Bytes
  framer : State
  garbles : GarbleSummary := {}
  deriving DecidableEq, Repr

/-- What `read_first_frame_bounded` returns: a frame, `transport_handshake_timeout`, the
error of a read or of a feed, or `wire_frame_too_large` of its budget check; `reading`
while it waits for a read. -/
inductive FirstFrameEnd
  | frame (r : FirstFrameRead)
  | timedOut
  | readFailed
  | refused (e : Error)
  | overBudget
  | reading
  deriving DecidableEq, Repr

/-- The size of `read_buf`, here and in the pump (`kReadPumpReadSize`). -/
def readSize : ℕ := 4096

/-- The loop of `read_first_frame_bounded`, one round a read. -/
def readFirstFrame (cfg : Config) (maxBytes : ℕ) :
    FirstFrameReader → List ReadEnd → FirstFrameReader × FirstFrameEnd
  | rd, [] => (rd, .reading)
  | rd, .deadline :: _ => (rd, .timedOut)
  | rd, .failed :: _ => (rd, .readFailed)
  | rd, .bytes ready :: reads =>
    let want := min readSize (maxBytes + 1 - rd.buf.length)
    let chunk := rd.left.take (min ready want)
    let (framer, fed) := feedResync cfg rd.framer chunk 1
    let rd := { buf := rd.buf ++ chunk, left := rd.left.drop (min ready want), framer := framer
                garbles := rd.garbles.sum framer.garbles : FirstFrameReader }
    match fed with
    | .error e => (rd, .refused e)
    | .ok (f :: _) =>
      let stop := rd.buf.length - framer.pending
      (rd, .frame ⟨stop - f.bytes.length, f.bytes.length, rd.garbles⟩)
    | .ok [] =>
      if rd.buf.length > maxBytes then (rd, .overBudget)
      else readFirstFrame cfg maxBytes rd reads

variable (cfg : Config)

def readFirstFrameBounded (maxBytes : ℕ) (stream : Bytes) (reads : List ReadEnd) :
    FirstFrameReader × FirstFrameEnd :=
  readFirstFrame cfg maxBytes { left := stream, framer := fresh (maxBytes + 1) } reads

/-! ## The pump -/

/-- What else ends the pump, from the frames handed to the session so far: the
establishment deadline at the head of the loop, and in front of a frame the deadline or
an error of `on_inbound_frame`. -/
structure PumpFate where
  expired : List Bytes → Bool
  refused : List Bytes → Bytes → Bool

/-- Feed what was read and drain, one frame a feed; `none` if the pump ends. A feed that
puts out a frame takes bytes, so the callers' fuel is not used up. -/
def pumpFeed (cfg : Config) (fate : PumpFate) :
    ℕ → State → Bytes → List Bytes → Option (State × List Bytes)
  | 0, st, _, handed => some (st, handed)
  | fuel + 1, st, incoming, handed =>
    match feedResync cfg st incoming 1 with
    | (_, .error _) => none
    | (st', .ok []) => some (st', handed)
    | (st', .ok (f :: _)) =>
      if fate.refused handed f.bytes then none
      else pumpFeed cfg fate fuel st' [] (handed ++ [f.bytes])

/-- The read loop of the pump, up to where it waits for its next read. -/
def pumpReads (cfg : Config) (fate : PumpFate) :
    State → List Bytes → List Bytes → Option (List Bytes)
  | _, handed, [] => if fate.expired handed then none else some handed
  | st, handed, chunk :: reads =>
    if fate.expired handed then none
    else
      match pumpFeed cfg fate (st.pending + chunk.length + 1) st chunk handed with
      | none => none
      | some (st', handed') => pumpReads cfg fate st' handed' reads

/-- `run_read_pump`, on the carry `open()` allocated: the frames handed to the session
when it waits for its next read, behind those handed before. -/
def runReadPump (fate : PumpFate) (initial : Bytes) (handed reads : List Bytes) :
    Option (List Bytes) :=
  let st := fresh (cfg.maxFrameBytes + readSize)
  if initial.isEmpty then pumpReads cfg fate st handed reads
  else
    match pumpFeed cfg fate (initial.length + 1) st initial handed with
    | none => none
    | some (st', handed') => pumpReads cfg fate st' handed' reads

/-- `run_accept_loop` on a connection for its session: all bytes read when the pump waits
for its next read, and the frames handed to the session. -/
def runAccepted (maxBytes : ℕ) (fate : PumpFate) (stream : Bytes) (firstReads : List ReadEnd)
    (reads : List Bytes) : Option (Bytes × List Bytes) :=
  match readFirstFrameBounded cfg maxBytes stream firstReads with
  | (rd, .frame r) =>
    let firstFrame := (rd.buf.drop r.offset).take r.len
    let surplus := rd.buf.drop (r.offset + r.len)
    (runReadPump cfg fate surplus [firstFrame] reads).map (rd.buf ++ reads.flatten, ·)
  | _ => none

end Fixpp.Model.Framer
