import Fixpp.Model.Fields
import Fixpp.Foundation.Scan
import Fixpp.Foundation.Probing

/-!
# The field readers of the wire

`OffsetTable::build`, `MessageView::field_iterator` and the session's `scan_frame_header` each
cut a frame into fields, with their own arming of the Length+Data carry and their own saturation
of the count.

A position `i` in a frame of `n` bytes is kept as the bytes from `i` on.
-/

namespace Fixpp.Model

open Foundation

/-- A field of a frame: its tag, where its value starts and where it ends. -/
structure FieldSpan where
  tag : ℕ := 0
  start : ℕ := 0
  stop : ℕ := 0
  deriving DecidableEq, Repr

def FieldSpan.value (frame : Bytes) (f : FieldSpan) : Bytes :=
  (frame.drop f.start).take (f.stop - f.start)

/-- What a reader makes of a frame: the fields up to the first malformed one, and
where that one starts. -/
@[ext] structure FieldCut where
  fields : List FieldSpan
  malformedAt : Option ℕ
  deriving DecidableEq, Repr

/-- Where the loop over the digits of a tag stops: at an equals sign, an SOH or
the end of the frame, or at a byte it refuses. -/
inductive TagStop
  | nonDigit
  | outOfRange
  | at (tag : ℕ) (rest : Bytes)
  deriving DecidableEq, Repr

/-- The loop over the digits of a tag, the same in the three readers. -/
def scanTag : ℕ → Bytes → TagStop
  | tag, [] => .at tag []
  | tag, b :: rest =>
    if b = equalsSign ∨ b = soh then .at tag (b :: rest)
    else if isDigit b = false then .nonDigit
    else match accumulateTagDigit tag b with
      | none => .outOfRange
      | some tag' => scanTag tag' rest

/-! ## The offset table -/

/-- `accumulate_bounded`, on 32-bit words: the subtraction wraps for a bound below
the digit. -/
def accumulateBounded (acc : ℕ) (c : UInt8) (cap : ℕ) : ℕ :=
  if acc > ((cap + 2 ^ 32 - digitValue c) % 2 ^ 32) / 10 then cap
  else (acc * 10 + digitValue c) % 2 ^ 32

/-- The count a Length value declares: its leading digits, saturating at `cap`. -/
def declaredLength (cap : ℕ) : ℕ → Bytes → ℕ
  | acc, [] => acc
  | acc, c :: rest =>
    if isDigit c = false then acc else declaredLength cap (accumulateBounded acc c cap) rest

structure OffsetTable.Entry where
  offset : ℕ
  length : ℕ
  tag : ℕ
  deriving DecidableEq, Repr

/-- The entry pushed for a field, in 32-bit words. -/
def OffsetTable.Entry.ofSpan (f : FieldSpan) : OffsetTable.Entry :=
  { offset := f.start % 2 ^ 32, length := (f.stop - f.start) % 2 ^ 32, tag := f.tag }

def OffsetTable.Entry.span (e : OffsetTable.Entry) : FieldSpan :=
  { tag := e.tag, start := e.offset, stop := e.offset + e.length }

inductive TableStatus
  | ok
  | invalidFieldFormat
  | tagOutOfRange
  | offsetTableFull
  deriving DecidableEq, Repr

/-- `pending_data_tag` and `pending_data_len`: the Data tag the field before
counts, 0 for none, and the count. -/
structure PendingData where
  tag : ℕ := 0
  len : ℕ := 0
  deriving DecidableEq, Repr

variable (hooks : DictHooks)

/-- One round of the loop of `OffsetTable::build` over a frame of `n` bytes, up to
its check of the entry cap. A counted value does not arm the carry. -/
def OffsetTable.readField (n : ℕ) (pending : PendingData) (bytes : Bytes) :
    Except TableStatus (FieldSpan × Bytes × PendingData) :=
  match scanTag 0 bytes with
  | .nonDigit => .error .invalidFieldFormat
  | .outOfRange => .error .tagOutOfRange
  | .at _ [] => .error .invalidFieldFormat
  | .at tag (b :: value) =>
    if b ≠ equalsSign ∨ value.length + 1 = bytes.length then .error .invalidFieldFormat
    else if pending.tag ≠ 0 ∧ tag = pending.tag then
      if pending.len > value.length then .error .invalidFieldFormat
      else match value.drop pending.len with
        | [] => .error .invalidFieldFormat
        | e :: rest =>
          if e ≠ soh then .error .invalidFieldFormat
          else
            .ok ({ tag := tag, start := n - value.length,
                   stop := n - value.length + pending.len }, rest, {})
    else
      let split := splitValue value
      let dataTag := hooks tag
      .ok ({ tag := tag, start := n - value.length,
             stop := n - value.length + split.1.length }, split.2.drop 1,
           if dataTag ≠ 0 then
             { tag := dataTag, len := declaredLength (min n seqnumMax) 0 split.1 }
           else {})

/-- Where the loop of `OffsetTable::build` ends: the entries it pushed, the
status, and the bytes from the field it stopped at. -/
structure BuildEnd where
  entries : List OffsetTable.Entry
  status : TableStatus
  stop : Bytes
  deriving DecidableEq, Repr

/-- The loop of `OffsetTable::build`, one round of `fuel` a field. -/
def OffsetTable.buildLoop (maxOffsetEntries : ℕ) (hooks : DictHooks) (n : ℕ) :
    ℕ → List OffsetTable.Entry → PendingData → Bytes → BuildEnd
  | _, entries, _, [] => ⟨entries, .ok, []⟩
  | 0, entries, _, _ :: _ => ⟨entries, .ok, []⟩
  | fuel + 1, entries, pending, b :: bytes =>
    match OffsetTable.readField hooks n pending (b :: bytes) with
    | .error status => ⟨entries, status, b :: bytes⟩
    | .ok (field, rest, pending') =>
      if entries.length ≥ maxOffsetEntries then ⟨entries, .offsetTableFull, b :: bytes⟩
      else
        OffsetTable.buildLoop maxOffsetEntries hooks n fuel
          (entries ++ [OffsetTable.Entry.ofSpan field]) pending' rest

variable (maxOffsetEntries : ℕ)

/-- The loop over a whole frame; a field takes at least one byte. -/
def OffsetTable.buildEnd (hooks : DictHooks) (frame : Bytes) : BuildEnd :=
  OffsetTable.buildLoop maxOffsetEntries hooks frame.length frame.length [] {} frame

def TableStatus.isMalformed : TableStatus → Bool
  | .invalidFieldFormat | .tagOutOfRange => true
  | .ok | .offsetTableFull => false

/-- The fields of the table before a failed build clears it, and where the field
it reports as malformed starts. -/
def tableCut (hooks : DictHooks) (frame : Bytes) : FieldCut :=
  let e := OffsetTable.buildEnd maxOffsetEntries hooks frame
  ⟨e.entries.map OffsetTable.Entry.span,
    if e.status.isMalformed then some (frame.length - e.stop.length) else none⟩

structure OffsetTable where
  entries : List OffsetTable.Entry
  status : TableStatus
  deriving DecidableEq, Repr

/-- A failed build leaves an empty table. -/
def OffsetTable.build (hooks : DictHooks) (frame : Bytes) : OffsetTable :=
  let e := OffsetTable.buildEnd maxOffsetEntries hooks frame
  { entries := if e.status = .ok then e.entries else [], status := e.status }

def defaultMaxOffsetEntries : ℕ := 4096

/-- The entry cap of every parse of a session with this inbound limit. -/
def entryCapFor (limit : ℕ) : ℕ := limit / 3 + 1

/-- The entries a parse of a frame reserves up front. -/
def reserveFor (entryCap frameBytes : ℕ) : ℕ := min entryCap (frameBytes / 3 + 1)

/-- The entries `OffsetTable::build` has storage for before the first round; a push onto
as many of them grows it. -/
def OffsetTable.reserved (reserveEntries : ℕ) : ℕ :=
  min reserveEntries maxOffsetEntries

/-! ## The field iterator -/

structure FieldIterator where
  pos : Bytes
  next : Bytes := []
  cur : FieldSpan := {}
  done : Bool := false
  fault : FieldFault := .none
  faultLengthTag : ℕ := 0
  prevData : PendingData := {}
  deriving DecidableEq, Repr

/-- The first fault stays. -/
def FieldIterator.recordFault (it : FieldIterator) (kind : FieldFault) (lengthTag : ℕ) :
    FieldIterator :=
  if it.fault = .none then { it with fault := kind, faultLengthTag := lengthTag } else it

/-- The value half of `advance`: field `tag` has `value` and what follows it. An
over-long count is cut to the frame, a count up to the end of the frame is kept,
and both are faults; a count that ends before a byte other than SOH stops the
walk. -/
def FieldIterator.readValue (n : ℕ) (it : FieldIterator) (tag : ℕ) (value : Bytes) :
    FieldIterator :=
  let start := n - value.length
  let carry := it.prevData
  let lengthTag := it.cur.tag
  let it := { it with prevData := {} }
  if carry.tag ≠ 0 ∧ tag = carry.tag then
    if carry.len > value.length then
      { it.recordFault .lengthDataMismatch lengthTag with
        cur := { tag := tag, start := start, stop := start + value.length }, next := [] }
    else match value.drop carry.len with
      | e :: rest =>
        if e ≠ soh then { it.recordFault .lengthDataMismatch lengthTag with done := true }
        else
          { it with
            cur := { tag := tag, start := start, stop := start + carry.len }, next := rest }
      | [] =>
        { it.recordFault .lengthDataMismatch lengthTag with
          cur := { tag := tag, start := start, stop := start + carry.len }, next := [] }
  else
    let split := splitValue value
    let it := { it with
      cur := { tag := tag, start := start, stop := start + split.1.length }
      next := split.2.drop 1 }
    let dataTag := hooks tag
    if dataTag ≠ 0 then
      { it with prevData := { tag := dataTag, len := parseBoundedU32 0 split.1 } }
    else it

/-- `field_iterator::advance`. An empty tag is a fault and read as tag 0. -/
def FieldIterator.advance (n : ℕ) (it : FieldIterator) : FieldIterator :=
  match it.pos with
  | [] => { it with done := true, cur := {} }
  | _ :: _ =>
    match scanTag 0 it.pos with
    | .nonDigit => { it.recordFault .malformedTag 0 with done := true }
    | .outOfRange => { it.recordFault .malformedTag 0 with done := true }
    | .at _ [] => { it.recordFault .malformedTag 0 with done := true }
    | .at tag (b :: value) =>
      if b ≠ equalsSign then { it.recordFault .malformedTag 0 with done := true }
      else if value.length + 1 = it.pos.length then
        (it.recordFault .malformedTag 0).readValue hooks n tag value
      else it.readValue hooks n tag value

/-- The constructor: the first field of the frame. -/
def FieldIterator.begin (frame : Bytes) : FieldIterator :=
  FieldIterator.advance hooks frame.length { pos := frame }

def FieldIterator.incr (n : ℕ) (it : FieldIterator) : FieldIterator :=
  FieldIterator.advance hooks n { it with pos := it.next }

/-- The walk `begin()` to `end()` from an iterator on, one round of `fuel` a
field, up to the first position at which it records a fault. -/
def FieldIterator.cutFrom (hooks : DictHooks) (n : ℕ) : ℕ → FieldIterator → FieldCut
  | 0, _ => ⟨[], none⟩
  | fuel + 1, it =>
    if it.fault ≠ .none then ⟨[], some (n - it.pos.length)⟩
    else if it.done then ⟨[], none⟩
    else
      let c := FieldIterator.cutFrom hooks n fuel (it.incr hooks n)
      ⟨it.cur :: c.fields, c.malformedAt⟩

def iteratorCut (frame : Bytes) : FieldCut :=
  FieldIterator.cutFrom hooks frame.length (frame.length + 1) (FieldIterator.begin hooks frame)

/-! ## The header scan -/

/-- One round of the loop of `scan_frame_header` over a frame of `n` bytes: the
field it reads, where the next one starts and the carry for it. -/
def headerRead (n : ℕ) : Reader LengthDataCarry FieldSpan UInt8 :=
  fun carry bytes =>
    match readTag false 0 bytes with
    | none => none
    | some (tag, value) =>
      match carry.readValue hooks tag value with
      | none => none
      | some (_, rest, carry') =>
        some ({ tag := tag, start := n - value.length, stop := n - rest.length },
          rest.drop 1, carry')

/-- The fields `scan_frame_header` reads before any fault, and where the field
with the fault starts. -/
def headerCut (frame : Bytes) : FieldCut :=
  let c := (headerRead hooks frame.length).cut frame.length {} frame
  ⟨c.items, c.stuck.map fun bytes => frame.length - bytes.length⟩

/-! ## The hash overlay of the offset table

`OffsetTable::build` ends with an open-addressed index of the first entries of the tags, which
`OffsetTable::find` looks a tag up in. The bound on the rounds of both loops is the length of the
way here. -/

open OffsetTable

/-- The hash of a 16-bit tag. -/
def mix (tag : ℕ) (seed : UInt32) : UInt32 :=
  let h := (2166136261 ^^^ seed ^^^ (UInt32.ofNat tag &&& 0xFF)) * 16777619
  (h ^^^ (UInt32.ofNat tag >>> 8 &&& 0xFF)) * 16777619

/-- The loop of `OffsetTable::overlay_cap_for`, a round of `fuel` a doubling. -/
def doubleUpTo (want : ℕ) : ℕ → ℕ → ℕ
  | 0, cap => cap
  | fuel + 1, cap => if cap < want then doubleUpTo want fuel (cap <<< 1) else cap

def overlayCapFor (n : ℕ) : ℕ :=
  let want := n * 5 / 4 + 1
  doubleUpTo want want 8

def maxBuildProbe : ℕ := 128

/-- `mask`, in 32 bits. -/
def overlayMask (overlay : List ℕ) : ℕ := (overlay.length - 1) % 2 ^ 32

/-- The slots for a tag, in the order they are visited. -/
def overlayWay (seed : UInt32) (mask rounds tag : ℕ) : List ℕ :=
  List.iterate (fun slot => (slot + 1) &&& mask) ((mix tag seed).toNat &&& mask) rounds

/-- The index of the entry a slot refers to; a slot with 0 is empty. -/
def overlayAt (overlay : List ℕ) (slot : ℕ) : Option ℕ :=
  match overlay.getD slot 0 with
  | 0 => none
  | e + 1 => some e

variable (entries : List OffsetTable.Entry)

def OffsetTable.tagAt (i : ℕ) : ℕ :=
  (entries[i]?.map (·.tag)).getD 0

/-- One round of the loop of `OffsetTable::build` over its entries: the slot gets the
32-bit index of entry `e`, plus one. -/
def OffsetTable.indexEntry (seed : UInt32) (overlay : List ℕ) (e : ℕ) : List ℕ :=
  let tag := tagAt entries e
  match probe (overlayAt overlay) (tagAt entries) tag
      (overlayWay seed (overlayMask overlay) maxBuildProbe tag) with
  | none => overlay
  | some slot =>
    if overlayAt overlay slot = none then overlay.set slot ((e + 1) % 2 ^ 32) else overlay

def OffsetTable.overlayUpTo (seed : UInt32) (count : ℕ) : List ℕ :=
  (List.range count).foldl (indexEntry entries seed)
    (List.replicate (overlayCapFor entries.length) 0)

/-- `overlay_`, with the seed the build took; a failed build leaves none. -/
def OffsetTable.overlay (table : OffsetTable) (seed : UInt32) : List ℕ :=
  if table.status = .ok then overlayUpTo table.entries seed table.entries.length
  else []

/-- The errors of `OffsetTable::find`. -/
inductive FindFault
  | failedBuild (status : TableStatus)
  | requiredFieldMissing
  deriving DecidableEq, Repr

/-- The loop of `OffsetTable::find`. -/
def OffsetTable.seek (overlay : List ℕ) (seed : UInt32) (tag : ℕ) : Option OffsetTable.Entry := do
  let slot ← probe (overlayAt overlay) (tagAt entries) tag
    (overlayWay seed (overlayMask overlay) (overlay.length + 1) tag)
  let e ← overlayAt overlay slot
  entries[e]?

def OffsetTable.find (table : OffsetTable) (seed : UInt32) (tag : ℕ) :
    Except FindFault OffsetTable.Entry :=
  if table.status ≠ .ok then .error (.failedBuild table.status)
  else if table.overlay seed = [] then .error .requiredFieldMissing
  else
    match seek table.entries (table.overlay seed) seed tag with
    | none => .error .requiredFieldMissing
    | some e => .ok e

end Fixpp.Model
