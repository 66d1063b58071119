import Fixpp.Model.Session

/-!
# Answering a ResendRequest

`replay_outbound_range_` walks the numbers of a requested range: a stored application message is
sent again with PossDupFlag, everything else joins an open gap that one SequenceReset-GapFill
closes. `build_replay_frame` rebuilds a stored frame field by field.
-/

namespace Fixpp.Model

open Foundation

/-! ## The writer -/

namespace Writer

/-- `render_u32`: the decimal digits of a number. -/
def renderU32 (n : ℕ) : Bytes := (Nat.toDigits 10 n).map fun c => UInt8.ofNat c.toNat

/-- `append_raw`: one field on the wire. -/
def fieldBytes (f : Field) : Bytes := renderU32 f.1 ++ equalsSign :: f.2 ++ [soh]

/-- `max_bl_digits`. -/
def maxBodyLengthDigits : ℕ := 6

def checksumDigits (bytes : Bytes) : Bytes :=
  let sum := (bytes.map UInt8.toNat).sum % 256
  [sum / 100, sum / 10 % 10, sum % 10].map fun d => UInt8.ofNat (48 + d)

/-- The frame of a list of appended fields in a buffer of `capacity` bytes:
BodyLength behind the first field, CheckSum at the end. While fields are
appended the BodyLength slot has its full six digits. -/
def frame (capacity : ℕ) : List Field → Option Bytes
  | [] => none
  | first :: rest =>
    let head := fieldBytes first
    let body := rest.flatMap fieldBytes
    if head.length + 3 + maxBodyLengthDigits + body.length > capacity then none
    else
      let digits := renderU32 body.length
      if digits.length > maxBodyLengthDigits then none
      else
        let bytes := head ++ ascii "9=" ++ digits ++ [soh] ++ body
        if bytes.length + 7 > capacity then none
        else some (bytes ++ ascii "10=" ++ checksumDigits bytes ++ [soh])

end Writer

/-! ## Rebuilding a stored frame -/

/-- Canonical decimal tags only. -/
def parseOutboundTag (digits : Bytes) : Option ℕ :=
  if digits = [] ∨ digits.head? = some 48 then none
  else digits.foldl (fun acc c => acc.bind fun tag =>
    if isDigit c then accumulateTagDigit tag c else none) (some 0)

/-- A field of a stored frame. -/
inductive FieldScan
  | ok (field : Field)
  | malformed
  | badTag
  | badCount

def skipField (bytes : Bytes) : Bytes := (bytes.dropWhile (· ≠ soh)).drop 1

/-- One field, the bytes behind it and the carry for the next. -/
def scanField (hooks : DictHooks) (carry : LengthDataCarry) (bytes : Bytes) :
    FieldScan × Bytes × LengthDataCarry :=
  let split := bytes.span fun b => b ≠ equalsSign ∧ b ≠ soh
  let reset := { carry with dataTag := 0 }
  match split.2 with
  | [] => (.malformed, [], reset)
  | b :: value =>
    if b ≠ equalsSign then (.malformed, skipField split.2, reset)
    else match parseOutboundTag split.1 with
      | none =>
        (if split.1.all isDigit then .badTag else .malformed, skipField split.2, reset)
      | some tag =>
        match carry.readValue hooks tag value with
        | none => (.badCount, [], carry)
        | some (v, rest, carry') => (.ok (tag, v), rest.drop 1, carry')

/-- The fields of a stored frame; malformed ones are skipped. -/
def storedFields (hooks : DictHooks) : ℕ → LengthDataCarry → Bytes → Except Error (List Field)
  | 0, _, _ => .ok []
  | _, _, [] => .ok []
  | fuel + 1, carry, b :: bytes =>
    match scanField hooks carry (b :: bytes) with
    | (.badTag, _, _) => .error .wireTagOutOfRange
    | (.badCount, _, _) => .error .wireInvalidFieldFormat
    | (.malformed, rest, carry') => storedFields hooks fuel carry' rest
    | (.ok field, rest, carry') =>
      match storedFields hooks fuel carry' rest with
      | .error e => .error e
      | .ok fields => .ok (field :: fields)

/-- The first pass: the SendingTime of the stored frame, when it has one, or the
fault met before it. -/
def findSendingTime (hooks : DictHooks) : ℕ → LengthDataCarry → Bytes → Except Error (Option Bytes)
  | 0, _, _ => .ok none
  | _, _, [] => .ok none
  | fuel + 1, carry, b :: bytes =>
    match scanField hooks carry (b :: bytes) with
    | (.badTag, _, _) => .error .wireTagOutOfRange
    | (.badCount, _, _) => .error .wireInvalidFieldFormat
    | (.malformed, rest, carry') => findSendingTime hooks fuel carry' rest
    | (.ok field, rest, carry') =>
      if field.1 = 52 then .ok (some field.2) else findSendingTime hooks fuel carry' rest

def replayHeaderTags : List ℕ := [8, 34, 35, 49, 52, 56]

/-- The fields that are recomputed or inserted again. -/
def replayDroppedTags : List ℕ := [9, 10, 43, 122]

/-- `append_possdup`: the PossDup fields of the resent frame. -/
def possdupFields (sendingTime : Bytes) (original : Option Bytes) : List Field :=
  (if original = none then [(52, sendingTime)] else []) ++
    [(43, ascii "Y"), (122, if original.getD [] = [] then sendingTime else original.getD [])]

/-- The write loop: copy the fields, restamp SendingTime and insert the PossDup
fields in front of the first field outside the header. -/
def replayFields (sendingTime : Bytes) (possdup : List Field) : Bool → List Field → List Field
  | inserted, [] => if inserted then [] else possdup
  | inserted, (tag, value) :: rest =>
    if tag ∈ replayDroppedTags then replayFields sendingTime possdup inserted rest
    else
      let field := (tag, if tag = 52 then sendingTime else value)
      if inserted = false ∧ tag ∉ replayHeaderTags then
        possdup ++ field :: replayFields sendingTime possdup true rest
      else field :: replayFields sendingTime possdup inserted rest

/-- `CaptureVisitor::kCapBufSize`. -/
def captureBytes : ℕ := 4096

/-- `kRpBufSize`. -/
def replayBytes : ℕ := captureBytes + 256

/-- The fields of the frame to send, as the `Writer` gets them. -/
def buildReplayFrame (hooks : DictHooks) (stored resendSendingTime : Bytes) :
    Except Error (List Field) :=
  match findSendingTime hooks stored.length {} stored with
  | .error e => .error e
  | .ok original =>
    let sendingTime := if resendSendingTime = [] then original.getD [] else resendSendingTime
    if sendingTime = [] then .error .wireRequiredFieldMissing
    else match storedFields hooks stored.length {} stored with
      | .error e => .error e
      | .ok fields =>
        let out := replayFields sendingTime (possdupFields sendingTime original) false fields
        match Writer.frame replayBytes out with
        | none => .error .wireFieldValueTruncated
        | some _ => .ok out

/-! ## The walk -/

inductive ReplayOutcome
  | completed
  | superseded
  deriving DecidableEq, Repr

abbrev ReplayResult := Except Error ReplayOutcome

/-- `is_admin_type` of the walk: here a Logon is a session-level message. -/
def isReplayAdminType (msgType : Bytes) : Bool :=
  msgType ∈ [ascii "0", ascii "1", ascii "2", ascii "3", ascii "4", ascii "5", ascii "A"]

variable (cfg : SessionConfig)

def emitGapfill (arm : Option FsmState) (atSeq newSeqNo : ℕ) : Handler ReplayResult := do
  let s ← Traced.get
  if arm.any s.logonArmSuperseded then pure (.ok .superseded)
  else do
    let a ← Traced.ask
    if a.built = false then pure (.error .dispatchAborted)
    else do
      let passed ← fireToAdmin cfg
      if passed = false then pure (.error .appCallbackThrew)
      else do
        let r ← transmit (.gapFill atSeq newSeqNo)
        match r with
        | .ok _ => pure (.ok .completed)
        | .error _ => pure (.error .dispatchAborted)

/-- What the store holds for one number of the walk. -/
inductive Slot
  | absent
  | stored (frame : Bytes)
  | unreadable (e : Error)
  deriving DecidableEq, Repr

/-- `retrieve(k, k, outbound)` into the capture buffer: a number the store does
not hold, or holds out of range, is absent; a frame longer than the buffer and
any other error end the walk. -/
def retrieveSlot (k : ℕ) : Handler Slot := do
  let a ← suspend
  let s ← Traced.get
  match a.store with
  | .cancelled => Traced.throw .cancelled
  | .threw => Traced.throw .other
  | .failed e =>
    if e = .storeSeqnumGap ∨ e = .storeSeqnumInvalid ∨ e = .storeInvalidRange then pure .absent
    else pure (.unreadable e)
  | .done =>
    match s.store.bind (MessageStore.retrieve · k) with
    | none => pure .absent
    | some frame =>
      if frame.length > captureBytes then pure (.unreadable .dispatchAborted)
      else pure (.stored frame)

/-- The stored frame is an application message. -/
def appPresent (frame : Bytes) : Bool :=
  let msgType := (scanFrameHeader cfg.hooks frame).msgType
  msgType ≠ [] && !isReplayAdminType msgType

/-- The fresh SendingTime stamp of a resend; empty without a clock. -/
def resendStamp : Handler Bytes := do
  if cfg.clock then do
    let a ← Traced.ask
    pure a.bytes
  else pure []

/-- What the walk does with a slot: nothing to resend, an application message that
cannot be rebuilt, or a frame to resend. -/
inductive Resend
  | skip
  | unbuildable
  | frame (fields : List Field)
  deriving DecidableEq, Repr

def replayOf (slot : Slot) : Handler Resend :=
  match slot with
  | .stored frame =>
    if appPresent cfg frame then do
      let stamp ← resendStamp cfg
      match buildReplayFrame cfg.hooks frame stamp with
      | .ok fields => pure (.frame fields)
      | .error _ => pure .unbuildable
    else pure .skip
  | _ => pure .skip

/-- Send the GapFill that closes an open gap, then go on. -/
def closeGap (arm : Option FsmState) (gap : Option ℕ) (k : ℕ) (next : Handler ReplayResult) :
    Handler ReplayResult :=
  match gap with
  | none => next
  | some start => do
    let g ← emitGapfill cfg arm start k
    match g with
    | .ok .completed => next
    | other => pure other

/-- The loop over `k`, with `count` numbers left and the start of the open gap. -/
def replayWalk (cfg : SessionConfig) (arm : Option FsmState) :
    ℕ → ℕ → Option ℕ → Handler ReplayResult
  | 0, k, gap => closeGap cfg arm gap k (pure (.ok .completed))
  | count + 1, k, gap => do
    let slot ← retrieveSlot k
    match slot with
    | .unreadable e => pure (.error e)
    | slot => do
      let replay ← replayOf cfg slot
      let s ← Traced.get
      match replay with
      | .skip => replayWalk cfg arm count (k + 1) (some (gap.getD k))
      | .unbuildable =>
        if arm.any s.logonArmSuperseded then pure (.ok .superseded)
        else replayWalk cfg arm count (k + 1) (some (gap.getD k))
      | .frame fields =>
        closeGap cfg arm gap k do
          let s ← Traced.get
          if arm.any s.logonArmSuperseded then pure (.ok .superseded)
          else do
            let r ← transmit (.replay fields)
            match r with
            | .error _ => pure (.error .dispatchAborted)
            | .ok _ => replayWalk cfg arm count (k + 1) none

/-- `our_last`: the last number of the store, 0 without one. -/
def readOurLast : Handler (Except Error ℕ) := do
  let s ← Traced.get
  if s.store = none then pure (.ok 0)
  else do
    let a ← suspend
    let s ← Traced.get
    match a.store with
    | .done => pure (.ok ((s.store.getD {}).nextOutbound - 1))
    | .failed e => pure (.error e)
    | .cancelled => Traced.throw .cancelled
    | .threw => Traced.throw .other

/-- `eff_end`: through-current and a range past the store end at the store's last
number. -/
def effectiveEnd (ourLast requestedEnd : ℕ) (throughCurrent : Bool) : ℕ :=
  if throughCurrent = true ∨ (ourLast > 0 ∧ requestedEnd > ourLast) then ourLast else requestedEnd

/-- The NewSeqNo of the single GapFill sent when there is nothing to walk. -/
def fallbackNewSeqNo (s : Session) (requestedEnd : ℕ) (throughCurrent : Bool) : ℕ :=
  if throughCurrent then s.seqnums.nextOutbound else (requestedEnd + 1) % (seqnumMax + 1)

def replayOutboundRange (beginSeq requestedEnd : ℕ) (throughCurrent : Bool)
    (arm : Option FsmState) : Handler ReplayResult := do
  let last ← readOurLast
  match last with
  | .error e => pure (.error e)
  | .ok ourLast => do
    let s ← Traced.get
    let effEnd := effectiveEnd ourLast requestedEnd throughCurrent
    if s.store = none ∨ ourLast = 0 ∨ beginSeq > effEnd then
      emitGapfill cfg arm (if beginSeq > 0 then beginSeq else 1)
        (fallbackNewSeqNo s requestedEnd throughCurrent)
    else replayWalk cfg arm (effEnd + 1 - beginSeq) beginSeq none

end Fixpp.Model
