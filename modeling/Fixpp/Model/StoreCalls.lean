import Fixpp.Model.Fields

/-!
# Calls on a message store

What the memory store and the file store have in common: the directions, the lookup of a range
in the retained entries, and the walk that hands the frames found to a visitor.
-/

namespace Fixpp.Model

inductive Direction
  | inbound
  | outbound
  deriving DecidableEq, Repr

/-- `++` on a `seqnum_t`, which has 32 bits. -/
def succSeqnum (n : ℕ) : ℕ := (n + 1) % 2 ^ 32

def slice (bytes : Bytes) (offset len : ℕ) : Bytes := (bytes.drop offset).take len

/-- What `on_frame` answers: a `visit_result`, an error, or an exception. `abort`
carries the visitor's `abort_error()`. -/
inductive Visit
  | cont
  | stop
  | abort (e : Error)
  | failed (e : Error)
  | threw
  deriving DecidableEq, Repr

/-- A `retrieve_visitor`: its answer to the last frame of those it was handed. -/
abbrev Visitor := List (ℕ × Bytes) → Visit

inductive StoreCall
  | store (seq : ℕ) (frame : Bytes) (dir : Direction)
  | retrieve (first last : ℕ) (dir : Direction) (visitor : Visitor)
  | nextSeqnum (dir : Direction) (increment : Bool)
  | reset
  | resetTo (nextIn nextOut : ℕ)

/-- What a call returns, and the frames a `retrieve` handed to its visitor. -/
inductive StoreReply
  | done (result : Except Error Unit)
  | number (result : Except Error ℕ)
  | walked (visited : List (ℕ × Bytes)) (result : Except Error Unit)
  deriving DecidableEq

def resetToTargetsValid (nextIn nextOut : ℕ) : Bool :=
  (nextIn == 1 || nextIn == 2) && (nextOut == 1 || nextOut == 2)

/-- The two counters of a reset, by direction. -/
def targets (nextIn nextOut : ℕ) : Direction → ℕ
  | .inbound => nextIn
  | .outbound => nextOut

section Entries

variable {ε : Type} (seqOf : ε → ℕ)

/-- The entry of a number: its place is its distance from the first entry's. -/
def lookUpSeq (entries : List ε) (s : ℕ) : Option ε :=
  match entries with
  | [] => none
  | front :: _ =>
    if s < seqOf front then none
    else
      match entries[s - seqOf front]? with
      | none => none
      | some e => if seqOf e = s then some e else none

/-- The loop over `s` of `retrieve()`, up to the first number without an entry; the
flag is `gap_hit`. Past the last place the lookup finds nothing, so `fuel` one
above the number of entries lets the loop end as the source's does. -/
def snapshotFrom (entries : List ε) (tail : ℕ) : ℕ → ℕ → List ε × Bool
  | 0, _ => ([], true)
  | fuel + 1, s =>
    if tail < s then ([], false)
    else
      match lookUpSeq seqOf entries s with
      | none => ([], true)
      | some e =>
        let rest := snapshotFrom entries tail fuel (succSeqnum s)
        (e :: rest.1, rest.2)

/-- The end of the range, and of an open range the number before the next one. -/
def tailEnd (last next : ℕ) : ℕ :=
  if last = 0 then (if next = seqnumMin then 0 else (next + 2 ^ 32 - 1) % 2 ^ 32) else last

/-- The part of `retrieve()` under the lock: the entries to visit and `gap_hit`. -/
def snapshotRange (entries : List ε) (next first last : ℕ) : List ε × Bool :=
  let tail := tailEnd last next
  if tail < first ∨ tail < seqnumMin then ([], false)
  else snapshotFrom seqOf entries tail (entries.length + 1) first

/-- `on_frame`'s answer as the loop takes it: go on, or end with a result. -/
def Visit.ends : Visit → Option (Except Error Unit)
  | .cont => none
  | .stop => some (.ok ())
  | .abort e => some (.error e)
  | .failed e => some (.error e)
  | .threw => some (.error .storeVisitorAborted)

/-- The loop over the entries found: each is read and handed to the visitor. `seen`
is what the visitor was handed before. -/
def walkEntries (read : ε → Except Error Bytes) (visitor : Visitor) (gap : Bool) :
    List ε → List (ℕ × Bytes) → List (ℕ × Bytes) × Except Error Unit
  | [], seen => (seen, if gap then .error .storeSeqnumGap else .ok ())
  | e :: rest, seen =>
    match read e with
    | .error err => (seen, .error err)
    | .ok frame =>
      let seen := seen ++ [(seqOf e, frame)]
      match (visitor seen).ends with
      | some result => (seen, result)
      | none => walkEntries read visitor gap rest seen

/-- `retrieve()` of both stores behind their own entry tests. -/
def retrieveEntries (read : ε → Except Error Bytes) (entries : List ε)
    (next first last : ℕ) (visitor : Visitor) : List (ℕ × Bytes) × Except Error Unit :=
  if first = 0 then ([], .error .storeSeqnumInvalid)
  else if last ≠ 0 ∧ last < first then ([], .error .storeInvalidRange)
  else
    let found := snapshotRange seqOf entries next first last
    walkEntries seqOf read visitor found.2 found.1 []

/-- `next_seqnum()` on a counter: what it returns, or the overflow. -/
def readCounter (current : ℕ) (increment : Bool) : Except Error ℕ :=
  if increment ∧ current = seqnumMax then .error .storeSeqnumOverflow else .ok current

/-- A frame joins the entries of its direction; one with the number of the last
entry takes its place. -/
def indexFrame (entries : List ε) (e : ε) : List ε :=
  match entries.getLast? with
  | none => entries ++ [e]
  | some back => if seqOf back = seqOf e then entries.dropLast ++ [e] else entries ++ [e]

end Entries

/-! ## The memory store

The frames of both directions lie in one slab. A bounded store has a slot of fixed size for each
frame, the inbound ones first; an unbounded store appends to a slab that grows. The entries of a
direction say where each frame lies. -/

inductive CapacityPolicy
  | bounded
  | unbounded
  deriving DecidableEq, Repr

structure MemoryStoreConfig where
  policy : CapacityPolicy := .bounded
  inboundCapacity : ℕ := 10000
  outboundCapacity : ℕ := 10000
  maxFrameBytes : ℕ := 256 * 1024
  deriving DecidableEq, Repr

structure MemoryEntry where
  seq : ℕ
  bytesLen : ℕ
  slabOffset : ℕ
  deriving DecidableEq, Repr

/-- `MemoryStore`. `slab` is the fixed slab of a bounded store and the growing one of
an unbounded store. -/
structure MemoryStore where
  slab : Bytes
  entries : Direction → List MemoryEntry
  next : Direction → ℕ
  generation : ℕ := 0

/-- `memcpy` into a slab. -/
def copyInto (slab : Bytes) (offset : ℕ) (frame : Bytes) : Bytes :=
  slab.take offset ++ frame ++ slab.drop (offset + frame.length)

namespace MemoryStoreConfig

variable (cfg : MemoryStoreConfig)

def capacity : Direction → ℕ
  | .inbound => cfg.inboundCapacity
  | .outbound => cfg.outboundCapacity

def slabOffsetFor (localIdx : ℕ) (dir : Direction) : ℕ :=
  (match dir with
    | .inbound => localIdx
    | .outbound => cfg.inboundCapacity + localIdx) * cfg.maxFrameBytes

def construct : MemoryStore where
  slab :=
    match cfg.policy with
    | .bounded =>
      List.replicate ((cfg.inboundCapacity + cfg.outboundCapacity) * cfg.maxFrameBytes) 0
    | .unbounded => []
  entries := fun _ => []
  next := fun _ => seqnumMin

end MemoryStoreConfig

namespace MemoryStore

variable (cfg : MemoryStoreConfig) (s : MemoryStore)

def store (seq : ℕ) (frame : Bytes) (dir : Direction) : MemoryStore × Except Error Unit :=
  if seq ≠ s.next dir then (s, .error .storeSeqnumOutOfOrder)
  else if cfg.policy = .bounded ∧ cfg.capacity dir ≤ (s.entries dir).length then
    (s, .error .storeCapacityExhausted)
  else if cfg.maxFrameBytes < frame.length then (s, .error .storeIoFailure)
  else
    let offset :=
      match cfg.policy with
      | .bounded => cfg.slabOffsetFor (s.entries dir).length dir
      | .unbounded => s.slab.length
    ({ s with
        slab := copyInto s.slab offset frame
        entries := Function.update s.entries dir (s.entries dir ++ [⟨seq, frame.length, offset⟩])
        next := Function.update s.next dir (succSeqnum (s.next dir)) }, .ok ())

/-- One iteration of the walk of `retrieve()`. The generation is that of the snapshot;
an unbounded store copies the bytes with the snapshot, a bounded one reads them here. -/
def readEntry (generation : ℕ) (e : MemoryEntry) : Except Error Bytes :=
  if s.generation ≠ generation then .error .storeIoFailure
  else .ok (slice s.slab e.slabOffset e.bytesLen)

def retrieve (first last : ℕ) (dir : Direction) (visitor : Visitor) :
    List (ℕ × Bytes) × Except Error Unit :=
  retrieveEntries MemoryEntry.seq (s.readEntry s.generation) (s.entries dir) (s.next dir) first last
    visitor

def nextSeqnum (dir : Direction) (increment : Bool) : MemoryStore × Except Error ℕ :=
  match readCounter (s.next dir) increment with
  | .error e => (s, .error e)
  | .ok current =>
    (if increment then { s with next := Function.update s.next dir (succSeqnum (s.next dir)) }
      else s, .ok current)

/-- `reset()` and `reset_to()` behind the check of its targets: a bounded store keeps its
slab. -/
def resetWith (next : Direction → ℕ) : MemoryStore :=
  { slab :=
      match cfg.policy with
      | .bounded => s.slab
      | .unbounded => []
    entries := fun _ => []
    next := next
    generation := s.generation + 1 }

def resetTo (nextIn nextOut : ℕ) : MemoryStore × Except Error Unit :=
  if resetToTargetsValid nextIn nextOut then (s.resetWith cfg (targets nextIn nextOut), .ok ())
  else (s, .error .sessionInvalidArgument)

def serve : StoreCall → MemoryStore × StoreReply
  | .store seq frame dir => ((s.store cfg seq frame dir).1, .done (s.store cfg seq frame dir).2)
  | .retrieve first last dir visitor =>
    (s, .walked (s.retrieve first last dir visitor).1 (s.retrieve first last dir visitor).2)
  | .nextSeqnum dir increment =>
    ((s.nextSeqnum dir increment).1, .number (s.nextSeqnum dir increment).2)
  | .reset => (s.resetWith cfg (targets 1 1), .done (.ok ()))
  | .resetTo nextIn nextOut =>
    ((s.resetTo cfg nextIn nextOut).1, .done (s.resetTo cfg nextIn nextOut).2)

end MemoryStore

end Fixpp.Model
