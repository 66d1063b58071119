import Fixpp.Model.Resend

/-!
# Inbound dispatch of an established session

`on_inbound_active_` and its slow arms: what the session does with a frame in LogonReceived or
Active. The dictionary tables and the validator are not modelled: a `Frame` comes with their
answers, and every answer is covered.
-/

namespace Fixpp.Model

open Foundation

structure RejectDecision where
  reason : ℕ
  refTagId : ℕ
  namesThirdField : Bool := false
  deriving DecidableEq, Repr

/-- The number a rejected frame is named by: the first one it carries when a FIXT
refusal names it, else the last. -/
def RejectDecision.refSeqNum (d : RejectDecision) (hdr : FrameHeader) : ℕ :=
  parseSeqnum (if d.namesThirdField then hdr.faultRefSeqNum else hdr.msgSeqNum)

def RejectDecision.refMsgType (d : RejectDecision) (hdr : FrameHeader) : Bytes :=
  if d.namesThirdField then hdr.faultRefMsgType else hdr.msgType

inductive InboundValidation
  | pass
  | reject (decision : RejectDecision)
  | parseFailed
  deriving DecidableEq, Repr

/-- Why a FIXT route refuses the frame's ApplVerID. -/
inductive RouteRefusal
  | emptyValue
  | unusable
  deriving DecidableEq, Repr

/-- An inbound frame with what the dictionary tables say about it: the Length+Data
pairs of its route, the route's refusal, the place of a repeated MsgType, and the
verdict of the validator. The `logon…` fields are what the Logon interpreter, the
version registry and the authorization policy answer. -/
structure Frame where
  bytes : Bytes
  hooks : DictHooks := fun _ => 0
  routeRefusal : Option RouteRefusal := none
  routeApplication : Bool := false
  headerRepeatsMsgType : Bool := false
  validation : InboundValidation := .pass
  logonInterpreted : Bool := true
  logonVersionRefusal : Option (ℕ × ℕ) := none
  logonCredentialsAccepted : Bool := true

def Frame.header (f : Frame) : FrameHeader := scanFrameHeader f.hooks f.bytes

def refuseActiveFrame (f : Frame) : InboundValidation :=
  if f.header.msgType ≠ f.header.faultRefMsgType then
    .reject { reason := if f.headerRepeatsMsgType then 13 else 14, refTagId := 35
              namesThirdField := true }
  else match f.routeRefusal with
    | some .emptyValue => .reject { reason := 4, refTagId := 1128, namesThirdField := true }
    | some .unusable => .reject { reason := 5, refTagId := 1128, namesThirdField := true }
    | none => .pass

variable (cfg : SessionConfig) (hdr : FrameHeader)

/-- The validation gate of the active arm: the FIXT refusal first, then the
validator, which Reject and Logout bypass. -/
def activeValidation (f : Frame) : InboundValidation :=
  if cfg.validateInboundMessages && cfg.validator then
    match if cfg.fixtRouting then refuseActiveFrame f else .pass with
    | .pass =>
      if f.header.msgType ≠ ascii "3" ∧ f.header.msgType ≠ ascii "5" then f.validation else .pass
    | refused => refused
  else .pass

/-! ## Steps of the arms -/

/-- `next_seqnum(inbound, increment)` of a persistent store. -/
def persistInboundAdvance (arm : Option FsmState) : Handler Outcome := do
  if cfg.storeIsPersistent then do
    let a ← suspend
    match a.store with
    | .done => do
      Traced.modify fun s => { s with store := s.store.map MessageStore.incrementInbound }
      pure (.ok ())
    | .failed _ => do
      disconnectUnlessSuperseded arm
      pure (.error .storeIoFailure)
    | .cancelled => do
      disconnectUnlessSuperseded arm
      pure (.error .storeCancelled)
    | .threw => Traced.throw .other
  else pure (.ok ())

/-- `check_inbound` on the live manager. -/
def checkInbound (seq : ℕ) : Handler Outcome := do
  let s ← Traced.get
  if s.lifecycle = .closedDrained then pure (.error .sessionAlreadyClosed)
  else match s.seqnums.checkInbound seq with
    | .error e => pure (.error e)
    | .ok m => do
      Traced.act (fun s => { s with seqnums := m }) (.takeUp seq)
      pure (.ok ())

def exitAwaitingResend : Handler Unit := do
  let s ← Traced.get
  Traced.act (fun s => { s with resend := {} }) (.exitAwaitingResend s.seqnums.nextInbound)

def closeFilledResendGap : Handler Unit := do
  let s ← Traced.get
  if s.resend.awaitingResend = true ∧ s.resend.outstandingEnd > 0 ∧
      s.seqnums.nextInbound > s.resend.outstandingEnd then exitAwaitingResend
  else pure ()

/-- A rejected frame at the expected number is taken up; a Logon and a SequenceReset never are. -/
def consumeRejectedSeqnum (seq : ℕ) (msgType : Bytes) : Handler Outcome := do
  if msgType = ascii "A" ∨ msgType = ascii "4" then pure (.ok ())
  else do
    let chk ← checkInbound seq
    match chk with
    | .error .storeSeqnumOverflow => disconnectWith (.error .storeSeqnumOverflow)
    | .error _ => pure (.ok ())
    | .ok _ => do
      closeFilledResendGap
      persistInboundAdvance cfg none

def maxShippedMsgTypeLength : ℕ := 2

def rejectUnparseable : Handler Outcome :=
  let refMsgType :=
    if hdr.faultRefMsgType.length ≤ maxShippedMsgTypeLength then hdr.faultRefMsgType else []
  if hdr.fault = .lengthDataMismatch then
    emitSessionReject cfg (parseSeqnum hdr.faultRefSeqNum) hdr.faultLengthTag refMsgType 5
      (ascii "Malformed field: Length does not match its Data field") none
  else
    emitSessionReject cfg (parseSeqnum hdr.faultRefSeqNum) 0 refMsgType 0
      (ascii "Malformed field: invalid tag") none

/-- `dispose_unparseable_` in LogonReceived and Active. -/
def disposeUnparseable : Handler Outcome := do
  if parseSeqnum hdr.faultRefSeqNum = 0 then pure (.ok ())
  else if hdr.faultRefMsgType = ascii "A" then disconnectWith (.ok ())
  else do
    let consumed ← onlyIf (hdr.faultRefMsgType ≠ ascii "4")
      (consumeRejectedSeqnum cfg (parseSeqnum hdr.faultRefSeqNum) hdr.faultRefMsgType)
    onOk consumed (rejectUnparseable cfg hdr)

/-- A frame above the expected number finds the resend overdue. `true` when the session answered
with a Logout. -/
def resendGapDeadline : Handler (Option Outcome) := do
  let s ← Traced.get
  if parseSeqnum hdr.msgSeqNum > s.seqnums.nextInbound ∧ s.resend.awaitingResend = true ∧
      cfg.clock = true then do
    let a ← Traced.ask
    if a.holds then pure none
    else do
      let r ← inboundLogoutLeaf cfg
        (ascii "ResendRequest unanswered, expecting MsgSeqNum " ++
          Writer.renderU32 s.seqnums.nextInbound)
      match r with
      | .error e => pure (some (.error e))
      | .ok _ => do
        recordStateTransition .disconnected
        pure (some (.ok ()))
  else pure none

def unlessOverdue (next : Handler Outcome) : Handler Outcome := do
  let expired ← resendGapDeadline cfg hdr
  match expired with
  | some r => pure r
  | none => next

/-- `answer_pending_test_request_`: `false` for a Heartbeat that answers another
TestRequest. -/
def answerPendingTestRequest (testReqId : Bytes) : Handler Bool := do
  let s ← Traced.get
  if testReqId ≠ [] ∧ testReqId ≠ s.pendingTestReqId then do
    recordStateTransition .disconnected
    pure false
  else do
    Traced.modify fun s => { s with pendingTestReqId := [] }
    pure true

/-- Hand a frame to a callback; one whose late parse fails never reaches it. -/
def dispatchTo (e : Event) : Handler CallbackOutcome := do
  let a ← Traced.ask
  if a.callback = .parseFailed then pure .parseFailed
  else do
    Traced.act id e
    pure a.callback

/-- What a callback's outcome means to an arm that goes on after a rejection. -/
def afterCallback (outcome : CallbackOutcome) (rejected accepted : Handler Outcome) :
    Handler Outcome :=
  match outcome with
  | .parseFailed => closeOnLateParseFailure cfg
  | .threw => closeOnThrow cfg
  | .rejected => rejected
  | .accepted => accepted

/-- `apply_inbound_sequence_reset`. Moving forward ends a resend that is awaited;
a NewSeqNo below the expected number is rejected. -/
def applyInboundSequenceReset (newSeqno refSeq : ℕ) : Handler Outcome := do
  let s ← Traced.get
  let expected := s.seqnums.nextInbound
  if h : newSeqno = 0 then pure (.ok ())
  else if newSeqno > expected then
    if s.lifecycle = .closedDrained then disconnectWith (.error .sessionAlreadyClosed)
    else do
      Traced.act (fun s => { s with
        seqnums := s.seqnums.setNextInbound newSeqno (Nat.pos_of_ne_zero h) }) (.jump newSeqno)
      if s.resend.awaitingResend then do
        exitAwaitingResend
        pure (.ok ())
      else pure (.ok ())
  else if newSeqno < expected then inboundRejectLeaf cfg refSeq 36 (ascii "4") 5 none
  else pure (.ok ())

/-! ## The slow arms -/

def onValidateFailed (v : InboundValidation) : Handler Outcome :=
  match v with
  | .pass => pure (.ok ())
  | .parseFailed => closeOnLateParseFailure cfg
  | .reject d =>
    unlessOverdue cfg hdr do
      let consumed ← consumeRejectedSeqnum cfg (d.refSeqNum hdr) (d.refMsgType hdr)
      onOk consumed
        (emitSessionReject cfg (d.refSeqNum hdr) d.refTagId (d.refMsgType hdr) d.reason [] none)

def rejectAndLogout (refTagId : ℕ) : Handler Outcome := do
  let consumed ← consumeRejectedSeqnum cfg (parseSeqnum hdr.msgSeqNum) hdr.msgType
  onOk consumed do
    let rejected ← inboundRejectLeaf cfg (parseSeqnum hdr.msgSeqNum) refTagId hdr.msgType 10 none
    onOk rejected do
      let loggedOut ← inboundLogoutLeaf cfg []
      onOk loggedOut (disconnectWith (.ok ()))

def onSendingTimeReject : Handler Outcome :=
  rejectAndLogout cfg hdr 52

/-- The reset itself, behind `fromAdmin`. -/
def applyResetMode : Handler Outcome := do
  if cfg.validateSequenceNumbers then do
    let applied ← applyInboundSequenceReset cfg (parseSeqnum hdr.newSeqno)
      (parseSeqnum hdr.msgSeqNum)
    onOk applied (unlessOverdue cfg hdr (pure (.ok ())))
  else pure (.ok ())

/-- A SequenceReset the application refused is not applied. -/
def refuseResetMode : Handler Outcome := do
  let r ← inboundRejectBestEffortLeaf cfg (parseSeqnum hdr.msgSeqNum) hdr.msgType
  onOk r (unlessOverdue cfg hdr (pure (.ok ())))

/-- `on_inbound_active_sequence_reset_`: a SequenceReset in reset mode. -/
def onSequenceReset : Handler Outcome := do
  if cfg.application then do
    let outcome ← dispatchTo (.fromAdmin (parseSeqnum hdr.msgSeqNum))
    afterCallback cfg outcome (refuseResetMode cfg hdr) (applyResetMode cfg hdr)
  else applyResetMode cfg hdr

/-- `enter_awaiting_resend`, then the ResendRequest. -/
def askForResend (nextExpected seq : ℕ) : Handler Outcome := do
  Traced.act (fun s => { s with
    resend := { awaitingResend := true, outstandingBegin := nextExpected
                outstandingEnd := seq - 1 } })
    (.enterAwaitingResend nextExpected (seq - 1))
  inboundResendRequestLeaf cfg nextExpected (seq - 1)

/-- `on_inbound_active_too_high_`: a Heartbeat still answers a TestRequest. -/
def onTooHigh (nextExpected seq : ℕ) : Handler Outcome := do
  let s ← Traced.get
  if hdr.msgType = ascii "0" ∧ s.pendingTestReqId ≠ [] then do
    let answered ← answerPendingTestRequest hdr.testReqId
    if answered then askForResend cfg nextExpected seq else pure (.ok ())
  else askForResend cfg nextExpected seq

/-- A PossDup frame whose OrigSendingTime is missing or unreadable: the frame is
taken up and rejected, and the session goes on. -/
def rejectOrigSendingTime : Handler Outcome :=
  unlessOverdue cfg hdr do
    let consumed ← consumeRejectedSeqnum cfg (parseSeqnum hdr.msgSeqNum) hdr.msgType
    onOk consumed (inboundRejectLeaf cfg (parseSeqnum hdr.msgSeqNum) 122 hdr.msgType 1 none)

/-- `on_inbound_active_poss_dup_`, with `gated` for a frame that goes on to the
gate. The parse of OrigSendingTime and its comparison with SendingTime are
answers. -/
def onPossDup (gated : Handler Outcome) : Handler Outcome := do
  if hdr.origSendingTime = [] then rejectOrigSendingTime cfg hdr
  else do
    let parsed ← Traced.ask
    if parsed.holds = false then rejectOrigSendingTime cfg hdr
    else do
      let ordered ← Traced.ask
      if ordered.holds then gated else rejectAndLogout cfg hdr 122

/-- A frame that passed no gate is dropped: the event says so when its number is
above the expected one. -/
def passOver (seq : ℕ) (chkError : Error) : Handler Outcome := do
  let s ← Traced.get
  if chkError = .sessionSeqnumTooHigh then do
    Traced.act id (.passedOver seq s.seqnums.nextInbound)
    pure (.ok ())
  else pure (.ok ())

/-- A Heartbeat off the sequence is dropped; above it, it may answer a TestRequest. -/
def dropHeartbeat (seq : ℕ) (chkError : Error) : Handler Outcome := do
  let s ← Traced.get
  if chkError = .sessionSeqnumTooHigh ∧ s.resend.awaitingResend = true ∧
      s.pendingTestReqId ≠ [] then do
    let answered ← answerPendingTestRequest hdr.testReqId
    if answered then passOver seq chkError else pure (.ok ())
  else passOver seq chkError

/-- Hand a frame over without taking its number up. -/
def deliverOutOfSequence (e : Event) : Handler Outcome := do
  let outcome ← dispatchTo e
  afterCallback cfg outcome (pure (.ok ())) (pure (.ok ()))

def onOutOfSequence (seq : ℕ) (chkError : Error) : Handler Outcome :=
  if chkError = .storeSeqnumOverflow then disconnectWith (.error chkError)
  else unlessOverdue cfg hdr <| if hdr.msgType = ascii "0" then dropHeartbeat hdr seq chkError
    else if hdr.possDupFlag = ascii "Y" then
      if isAdminMsgtype hdr.msgType then passOver seq chkError
      else if cfg.redeliverPossDup && cfg.application then deliverOutOfSequence cfg (.fromApp seq)
      else passOver seq chkError
    else if cfg.validateSequenceNumbers = false then
      if cfg.application then
        deliverOutOfSequence cfg
          (if isAdminMsgtype hdr.msgType then .fromAdmin seq else .fromApp seq)
      else pure (.ok ())
    else if chkError = .sessionSeqnumTooHigh then passOver seq chkError
    else disconnectWith (.ok ())

def settle : Handler Outcome := persistInboundAdvance cfg none

def onGapFill : Handler Outcome := do
  if cfg.validateSequenceNumbers then do
    let persisted ← settle cfg
    onOk persisted (applyInboundSequenceReset cfg (parseSeqnum hdr.newSeqno)
      (parseSeqnum hdr.msgSeqNum))
  else if cfg.application then do
    let outcome ← dispatchTo (.fromAdmin (parseSeqnum hdr.msgSeqNum))
    afterCallback cfg outcome (settle cfg) (settle cfg)
  else settle cfg

def finishLogout : Handler Outcome := do
  let persisted ← settle cfg
  onOk persisted (disconnectWith (.ok ()))

/-- `on_inbound_active_logout_`. Here a callback that throws disconnects without
closing. -/
def onLogout : Handler Outcome := do
  Traced.modify fun s => { s with logoutSeen := true }
  let s ← Traced.get
  let replied ← onlyIf (s.fsm = .active) (inboundLogoutLeaf cfg [])
  onOk replied <|
    if cfg.application then do
      let outcome ← dispatchTo (.fromAdmin (parseSeqnum hdr.msgSeqNum))
      match outcome with
      | .parseFailed => closeOnLateParseFailure cfg
      | .threw => disconnectWith (.error .appCallbackThrew)
      | .rejected => do
        let r ← inboundRejectBestEffortLeaf cfg (parseSeqnum hdr.msgSeqNum) hdr.msgType
        onOk r (finishLogout cfg)
      | .accepted => finishLogout cfg
    else finishLogout cfg

def onTestRequest : Handler Outcome := do
  let replied ← inboundHeartbeatReplyLeaf cfg hdr.testReqId
  onOk replied (settle cfg)

def onResendRequest : Handler Outcome := do
  let replayed ← replayOutboundRange cfg (parseSeqnum hdr.beginSeqno) (parseSeqnum hdr.endSeqno)
    (parseSeqnum hdr.endSeqno == 0) none
  match replayed with
  | .error e => disconnectWith (.error e)
  | .ok _ => settle cfg

/-- `on_inbound_active_unsupported_`, and the veto of `fromAdmin`. -/
def onUnsupported : Handler Outcome := do
  let persisted ← settle cfg
  onOk persisted (emitSessionReject cfg (parseSeqnum hdr.msgSeqNum) 0 hdr.msgType 3 [] none)

/-- `on_inbound_active_from_app_failed_` after a veto of `fromApp`. -/
def onFromAppVeto : Handler Outcome := do
  let r ← inboundBusinessRejectLeaf cfg (parseSeqnum hdr.msgSeqNum) hdr.msgType
  onOk r (settle cfg)

/-! ## The dispatch -/

def onHeartbeat : Handler Outcome := do
  let s ← Traced.get
  if s.pendingTestReqId ≠ [] then do
    let answered ← answerPendingTestRequest hdr.testReqId
    if answered then settle cfg else pure (.ok ())
  else settle cfg

/-- What an Active session does with a frame that was taken up, behind the
`fromAdmin` observation. -/
def dispatchByType (seq : ℕ) : Handler Outcome :=
  if hdr.msgType = ascii "0" then onHeartbeat cfg hdr
  else if hdr.msgType = ascii "1" then onTestRequest cfg hdr
  else if hdr.msgType = ascii "2" then onResendRequest cfg hdr
  else if cfg.application then do
    let outcome ← dispatchTo (.fromApp seq)
    afterCallback cfg outcome (onFromAppVeto cfg hdr) (settle cfg)
  else if isAdminMsgtype hdr.msgType then settle cfg
  else onUnsupported cfg hdr

def dispatchTaken (seq : ℕ) : Handler Outcome := do
  if hdr.msgType = ascii "4" then onGapFill cfg hdr
  else if hdr.msgType = ascii "5" then onLogout cfg hdr
  else if hdr.msgType = ascii "3" then settle cfg
  else do
    let s ← Traced.get
    if s.fsm = .active then
      if cfg.application && isAdminMsgtype hdr.msgType then do
        let outcome ← dispatchTo (.fromAdmin seq)
        afterCallback cfg outcome (onUnsupported cfg hdr) (dispatchByType cfg hdr seq)
      else dispatchByType cfg hdr seq
    else settle cfg

/-- `check_inbound` and what follows from it. -/
def gate (seq : ℕ) : Handler Outcome := do
  let chk ← checkInbound seq
  match chk with
  | .error e => onOutOfSequence cfg hdr seq e
  | .ok _ => do
    closeFilledResendGap
    dispatchTaken cfg hdr seq

def sequenceGate (seq : ℕ) : Handler Outcome := do
  let s ← Traced.get
  if seq = 0 then disconnectWith (.ok ())
  else if seq > s.seqnums.nextInbound ∧ s.resend.awaitingResend = false ∧
      cfg.validateSequenceNumbers = true then
    onTooHigh cfg hdr s.seqnums.nextInbound seq
  else if hdr.possDupFlag = ascii "Y" ∧ hdr.msgType ≠ ascii "4" then
    onPossDup cfg hdr (gate cfg hdr seq)
  else gate cfg hdr seq

/-- `inbound_sending_time_ok_`, which Reject and Logout bypass. -/
def inboundSendingTimeOk : Handler Bool := do
  if hdr.msgType ≠ ascii "3" ∧ hdr.msgType ≠ ascii "5" ∧ cfg.clock = true then do
    let a ← Traced.ask
    pure (hdr.sendingTime ≠ [] && a.holds)
  else pure true

/-- The identity and SendingTime checks in front of the gate. -/
def identityGate : Handler Outcome := do
  if hdr.beginString ≠ cfg.beginString then disconnectWith (.ok ())
  else if cfg.checkCompId = true ∧
      (hdr.senderCompId ≠ cfg.targetCompId ∨ hdr.targetCompId ≠ cfg.senderCompId) then
    disconnectWith (.ok ())
  else do
    let timely ← inboundSendingTimeOk cfg hdr
    if timely = false then onSendingTimeReject cfg hdr
    else if hdr.msgType = ascii "4" ∧ hdr.gapFillFlag ≠ ascii "Y" then onSequenceReset cfg hdr
    else sequenceGate cfg hdr (parseSeqnum hdr.msgSeqNum)

/-- `on_inbound_active_` in LogonReceived or Active. -/
def onInboundActive (f : Frame) : Handler Outcome :=
  if f.header.msgTypeIsThird = false then pure (.ok ())
  else if f.header.fault ≠ .none then disposeUnparseable cfg f.header
  else match activeValidation cfg f with
    | .pass => identityGate cfg f.header
    | v => onValidateFailed cfg f.header v

end Fixpp.Model
