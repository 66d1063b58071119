import Fixpp.Model.Inbound

/-!
# Logon arms and runs of a session

`on_inbound_not_connected_` (the acceptor) and `on_inbound_logon_sent_` (the initiator) take a
session to Active; `emit_initiator_logon_` follows the installation of a connection.
`onInboundFrame` is the entry of every frame and `step` one step of a run. What the liveness
loop does to the session is an `EnvAct`.
-/

namespace Fixpp.Model

open Foundation

/-! ## Hydration and resets -/

/-- A read of the store: its error, or the store at the time of the answer. -/
def readStore : Handler (Except Error MessageStore) := do
  let a ← suspend
  let s ← Traced.get
  match a.store with
  | .done => pure (.ok (s.store.getD {}))
  | .failed e => pure (.error e)
  | .cancelled => pure (.error .storeCancelled)
  | .threw => Traced.throw .other

variable (cfg : SessionConfig) (hdr : FrameHeader)

/-- Load the durable counters once, or again when forced. -/
def ensureHydrated (applyInboundSeed force : Bool) (arm : Option FsmState) : Handler Outcome := do
  let s ← Traced.get
  if (s.hydrated = true ∧ force = false) ∨ cfg.storeIsPersistent = false then pure (.ok ())
  else do
    let inbound ← readStore
    match inbound with
    | .error e => do
      disconnectUnlessSuperseded arm
      pure (.error e)
    | .ok st => do
      let outbound ← readStore
      match outbound with
      | .error e => do
        disconnectUnlessSuperseded arm
        pure (.error e)
      | .ok st' => do
        let s ← Traced.get
        if s.lifecycle = .closedDrained then do
          disconnectUnlessSuperseded arm
          pure (.error .sessionAlreadyClosed)
        else do
          let seed := if applyInboundSeed then st else {}
          Traced.act (fun s => { s with
            seqnums := s.seqnums.hydrate seed.nextInbound st'.nextOutbound seed.inbound_pos
            hydrated := true })
            (.inboundReset seed.nextInbound)
          pure (.ok ())

def resetManager (nextIn nextOut : ℕ) (h : 0 < nextIn) : Handler Outcome := do
  let s ← Traced.get
  if s.lifecycle = .closedDrained then pure (.error .sessionAlreadyClosed)
  else do
    Traced.act (fun s => { s with seqnums := s.seqnums.hydrate nextIn nextOut h })
      (.inboundReset nextIn)
    pure (.ok ())

def resetStore (nextIn nextOut : ℕ) (h : 0 < nextIn) : Handler Outcome := do
  let s ← Traced.get
  if s.store = none then pure (.ok ())
  else do
    let a ← suspend
    match a.store with
    | .done => do
      Traced.modify fun s => { s with
        store := s.store.map fun st => st.resetTo nextIn nextOut h }
      pure (.ok ())
    | .failed e => pure (.error e)
    | .cancelled => pure (.error .storeCancelled)
    | .threw => Traced.throw .other

/-- `reset_seqnums_to_one_durable(fatal)`. -/
def resetSeqnumsToOneDurable : Handler Outcome := do
  let manager ← resetManager seqnumMin seqnumMin Nat.one_pos
  onOk manager (resetStore seqnumMin seqnumMin Nat.one_pos)

/-- `run_reset_unit_` and what the Logon arms make of its result: a refused store
reset ends the arm of a persistent session only. -/
def runResetUnit (nextIn nextOut : ℕ) (h : 0 < nextIn) (arm : FsmState) : Handler Outcome := do
  let manager ← resetManager nextIn nextOut h
  match manager with
  | .error e => do
    disconnectUnlessSuperseded (some arm)
    pure (.error e)
  | .ok _ => do
    let stored ← resetStore nextIn nextOut h
    match stored with
    | .ok _ => pure (.ok ())
    | .error e =>
      if cfg.storeIsPersistent then do
        disconnectUnlessSuperseded (some arm)
        pure (.error e)
      else pure (.ok ())

/-! ## Parts both arms share -/

/-- `co_return` without effect once the arm is superseded. -/
def unlessSuperseded (arm : FsmState) (next : Handler Outcome) : Handler Outcome := do
  let s ← Traced.get
  if s.logonArmSuperseded arm then pure (.ok ()) else next

def shouldRefusePosture (posture : SessionPosture) (indicator : Bytes) : Bool :=
  if indicator ≠ [] ∧ indicator ≠ ascii "Y" ∧ indicator ≠ ascii "N" then true
  else match posture with
    | .production => indicator = ascii "Y"
    | .test => indicator ≠ ascii "Y"

def logonRejectDisconnects (refTagId : ℕ) : Bool :=
  cfg.fixtRouting && hdr.msgType = ascii "A" && refTagId ∈ [1137, 1130, 372]

variable (f : Frame)

def establishmentFrameRefused : Bool :=
  cfg.fixtRouting && cfg.validateInboundMessages &&
    (f.routeApplication || f.header.msgType ≠ f.header.faultRefMsgType)

def establishmentValidation : InboundValidation :=
  if cfg.validateInboundMessages && cfg.validator &&
      f.header.msgType ≠ ascii "3" && f.header.msgType ≠ ascii "5" then f.validation
  else .pass

/-- The checks in front of a Logon: header order, a superseded arm, unreadable
fields, the route, dictionary validation and the Logon interpreter. -/
def logonPrelude (arm : FsmState) (next : Handler Outcome) : Handler Outcome :=
  let hdr := f.header
  if hdr.msgTypeIsThird = false then pure (.ok ())
  else unlessSuperseded arm <| if hdr.fault ≠ .none then disconnectWith (.ok ())
    else if establishmentFrameRefused cfg f then disconnectWith (.ok ())
    else match establishmentValidation cfg f with
      | .parseFailed => closeOnLateParseFailure cfg
      | .reject d => do
        let r ← emitSessionReject cfg (parseSeqnum hdr.msgSeqNum) d.refTagId hdr.msgType
          d.reason [] (some arm)
        onOk r <|
          if logonRejectDisconnects cfg hdr d.refTagId then do
            disconnectUnlessSuperseded (some arm)
            pure (.ok ())
          else pure (.ok ())
      | .pass => if f.logonInterpreted then next else disconnectWith (.ok ())

/-- `check_inbound` of a Logon; with NextExpectedMsgSeqNum a number that is too
high is tolerated. The value tells whether the Logon was taken up. -/
def takeUpLogon (seq : ℕ) (next : Bool → Handler Outcome) : Handler Outcome := do
  let chk ← checkInbound seq
  match chk with
  | .ok _ => next true
  | .error e =>
    if cfg.enableNextExpectedMsgSeqNum = true ∧ e = .sessionSeqnumTooHigh then next false
    else disconnectWith (.ok ())

/-- The mutual-TLS authorization, which consumes the identity. -/
def authorizePeer (next : Handler Outcome) : Handler Outcome := do
  let s ← Traced.get
  if cfg.mtls then
    match s.livePeerId with
    | some pid => do
      Traced.modify fun s => { s with livePeerId := none }
      if cfg.compidAuthorizationPolicy.authorize pid cfg.targetCompId then next
      else disconnectWith (.ok ())
    | none => disconnectWith (.ok ())
  else next

/-- A Reject of the Logon with its RefTagID and reason, then the end of the arm. -/
def rejectLogon (refusal : ℕ × ℕ) (arm : FsmState) : Handler Outcome := do
  let r ← inboundRejectLeaf cfg (parseSeqnum hdr.msgSeqNum) refusal.1 (ascii "A") refusal.2
    (some arm)
  onOk r do
    disconnectUnlessSuperseded (some arm)
    pure (.ok ())

/-- `logon_789_outcome`, or the error of the arm. -/
inductive Honored
  | failed (e : Error)
  | inSyncContinue
  | ended
  deriving DecidableEq, Repr

def refuseNextExpected (text : Bytes) (arm : FsmState) : Handler Honored := do
  let r ← emitLeaf cfg { arm := some arm, toAdminFirst := true, assignRefused := .ignored }
    fun _ => .logout text
  match r with
  | .error e => pure (.failed e)
  | .ok _ => do
    let s ← Traced.get
    if s.logonArmSuperseded arm then pure .ended
    else do
      recordStateTransition .disconnected
      pure .ended

def honorPeerNextExpected (raw : Bytes) (nextOutboundRef : ℕ) (arm : FsmState) :
    Handler Honored := do
  let x := parseSeqnum raw
  if x = 0 then refuseNextExpected cfg (ascii "NextExpectedMsgSeqNum invalid") arm
  else if x > nextOutboundRef then
    refuseNextExpected cfg
      (ascii "NextExpectedMsgSeqNum too high, expecting " ++ Writer.renderU32 nextOutboundRef ++
        ascii " but received " ++ Writer.renderU32 x) arm
  else if x < nextOutboundRef then do
    let s ← Traced.get
    let r ← replayOutboundRange cfg x (s.seqnums.nextOutbound - 1) true (some arm)
    match r with
    | .ok .completed => pure .inSyncContinue
    | .ok .superseded => pure .ended
    | .error e => do
      let s ← Traced.get
      if s.logonArmSuperseded arm then pure .ended
      else do
        recordStateTransition .disconnected
        pure (.failed e)
  else pure .inSyncContinue

/-- NextExpectedMsgSeqNum, when it is enabled and present. -/
def honorIfPresent (nextOutboundRef : ℕ) (arm : FsmState) : Handler Honored :=
  if cfg.enableNextExpectedMsgSeqNum && hdr.nextExpectedPresent then
    honorPeerNextExpected cfg hdr.nextExpectedMsgSeqNum nextOutboundRef arm
  else pure .inSyncContinue

/-- The change to Active, `onLogon` and the durable advance. -/
def becomeActive (persists : Bool) : Handler Outcome := do
  recordStateTransition .active
  let onLogon ← fireToAdmin cfg
  if onLogon = false then closeOnThrow cfg
  else onlyIf persists (persistInboundAdvance cfg (some .active))

def completeLogon (nextOutboundRef : ℕ) (arm : FsmState) (persists : Bool) :
    Handler Outcome := do
  let honored ← honorIfPresent cfg hdr nextOutboundRef arm
  match honored with
  | .failed e => pure (.error e)
  | .ended => pure (.ok ())
  | .inSyncContinue => unlessSuperseded arm (becomeActive cfg persists)

/-! ## The acceptor's arm -/

/-- The counters are loaded again at every Logon. -/
def refreshActive : Bool :=
  cfg.refreshOnLogon && cfg.resetSeqnumPolicy ≠ .bilateralStrict

/-- The reset unit of a Logon: the Logon itself is number 1 when it was taken up. -/
def logonResetUnit (advanced : Bool) (unitOut : ℕ) (arm : FsmState) : Handler Outcome :=
  if advanced then runResetUnit cfg (seqnumMin + 1) unitOut (Nat.succ_pos _) arm
  else runResetUnit cfg seqnumMin unitOut Nat.one_pos arm

/-- The part behind the authorization checks: LogonReceived, the reset a peer
asked for, the reply and the change to Active. -/
def acceptLogon (peerSentReset advanced : Bool) : Handler Outcome := do
  recordStateTransition .logonReceived
  let unit ← onlyIf (peerSentReset && !cfg.resetOnLogon)
    (logonResetUnit cfg advanced seqnumMin .logonReceived)
  onOk unit <| unlessSuperseded .logonReceived do
    let replied ← inboundAcceptorReplyLogonLeaf cfg peerSentReset
    onOk replied.2 <| unlessSuperseded .logonReceived <|
      completeLogon cfg hdr replied.1 .logonReceived
        (advanced && !peerSentReset && !cfg.resetOnLogon)

def authorizeLogon (peerSentReset advanced : Bool) : Handler Outcome :=
  if peerSentReset = false ∧ cfg.resetSeqnumPolicy = .bilateralStrict then
    disconnectWith (.error .sessionSeqnumResetMismatch)
  else authorizePeer cfg <|
    match f.logonVersionRefusal with
    | some refusal => rejectLogon cfg f.header refusal .notConnected
    | none =>
      if f.logonCredentialsAccepted then acceptLogon cfg f.header peerSentReset advanced
      else disconnectWith (.ok ())

/-- The SendingTime of a Logon is accurate, as far as a clock can tell. -/
def logonTimely : Handler Bool := do
  if cfg.clock then do
    let a ← Traced.ask
    pure (hdr.sendingTime ≠ [] && a.holds)
  else pure true

def onInboundNotConnected : Handler Outcome :=
  let hdr := f.header
  let seq := parseSeqnum hdr.msgSeqNum
  let peerSentReset : Bool := hdr.resetSeqnumFlag = ascii "Y"
  logonPrelude cfg f .notConnected <| if seq = 0 then disconnectWith (.ok ())
    else do
      let hydrated ← ensureHydrated cfg (!(peerSentReset || cfg.resetOnLogon)) (refreshActive cfg)
        (some .notConnected)
      onOk hydrated <| unlessSuperseded .notConnected <|
        if cfg.posture.any (shouldRefusePosture · hdr.testMessageIndicator) then
          refuseLogonWithLogout cfg (ascii "TestMessageIndicator posture mismatch") .notConnected
        else do
          let timely ← logonTimely cfg hdr
          if timely = false then rejectLogon cfg hdr (52, 10) .notConnected
          else do
            let reset ← onlyIf cfg.resetOnLogon resetSeqnumsToOneDurable
            match reset with
            | .error e => do
              disconnectUnlessSuperseded (some .notConnected)
              pure (.error e)
            | .ok _ =>
              unlessSuperseded .notConnected <|
                takeUpLogon cfg seq (authorizeLogon cfg f peerSentReset)

/-! ## The initiator's arm -/

/-- The reset of the initiator's arm: the peer's answer carried 141=Y. -/
def initiatorReset (advanced : Bool) : Handler Outcome := do
  let s ← Traced.get
  Traced.modify fun s => { s with ownLogonSentResetFlag := false }
  logonResetUnit cfg advanced
    (if s.ownLogonSentResetFlag = true ∧ s.seqnums.nextOutbound = seqnumMin + 1 then seqnumMin + 1
      else seqnumMin) .logonSent

def finishConfirm (persists : Bool) : Handler Outcome :=
  authorizePeer cfg do
    let s ← Traced.get
    completeLogon cfg hdr s.seqnums.nextOutbound .logonSent persists

def confirmLogon (peerSentReset advanced : Bool) : Handler Outcome :=
  match if cfg.fixtRouting && cfg.validateInboundMessages then f.logonVersionRefusal else none with
  | some refusal => rejectLogon cfg f.header refusal .logonSent
  | none =>
    if peerSentReset = false ∧ cfg.resetSeqnumPolicy = .bilateralStrict then
      disconnectWith (.error .sessionSeqnumResetMismatch)
    else if peerSentReset then do
      let unit ← initiatorReset cfg advanced
      onOk unit (unlessSuperseded .logonSent
        (finishConfirm cfg f.header (advanced && !peerSentReset)))
    else finishConfirm cfg f.header (advanced && !peerSentReset)

def sendingTimeError : Handler Bytes := do
  if hdr.sendingTime = [] then pure (ascii "SendingTime(52) missing")
  else do
    let parsed ← Traced.ask
    pure (if parsed.holds then ascii "SendingTime(52) accuracy"
      else ascii "SendingTime(52) malformed")

def onInboundLogonSent : Handler Outcome :=
  let hdr := f.header
  let seq := parseSeqnum hdr.msgSeqNum
  let peerSentReset : Bool := hdr.resetSeqnumFlag = ascii "Y"
  logonPrelude cfg f .logonSent <|
    if cfg.posture.any (shouldRefusePosture · hdr.testMessageIndicator) then
      refuseLogonWithLogout cfg (ascii "TestMessageIndicator posture mismatch") .logonSent
    else do
      let timely ← logonTimely cfg hdr
      if timely = false then do
        let text ← sendingTimeError hdr
        let r ← inboundLogonSentLogoutLeaf cfg text
        onOk r do
          disconnectUnlessSuperseded (some .logonSent)
          pure (.ok ())
      else if seq = 0 then disconnectWith (.ok ())
      else takeUpLogon cfg seq (confirmLogon cfg f peerSentReset)

/-! ## Entry and runs -/

def onInboundLogoutSent : Handler Outcome :=
  if f.header.msgTypeIsThird = true ∧ f.header.fault = .none ∧ f.header.msgType = ascii "5" then
    disconnectWith (.ok ())
  else pure (.ok ())

/-- `superseded` of the entry: a Logon arm of a session that is closing. -/
def entrySuperseded (s : Session) (entered : FsmState) : Bool :=
  (entered = .notConnected || entered = .logonSent) &&
    (s.lifecycle ≠ .opened || s.engineStopRequested)

def inboundArm (entered : FsmState) : Handler Outcome :=
  match entered with
  | .logonReceived => onInboundActive cfg f
  | .active => onInboundActive cfg f
  | .notConnected => onInboundNotConnected cfg f
  | .logonSent => onInboundLogonSent cfg f
  | .logoutSent => onInboundLogoutSent f
  | .disconnected => pure (.ok ())

def abortOutcome (superseded : Bool) : Abort → Outcome
  | .cancelled => if superseded then .ok () else .error .storeCancelled
  | .other => .error .dispatchAborted

def afterAbort (entered : FsmState) (e : Abort) : Handler Outcome := do
  let s ← Traced.get
  if entrySuperseded s entered = false ∧ s.fsm ≠ .disconnected then do
    recordStateTransition .disconnected
    pure (abortOutcome false e)
  else pure (abortOutcome (entrySuperseded s entered) e)

def onInboundFrame : Handler Outcome := do
  let s ← Traced.get
  let entered := s.fsm
  let r ← Traced.catching (inboundArm cfg f entered) (afterAbort entered)
  let s ← Traced.get
  if r = .error .storeCancelled ∧ entrySuperseded s entered = true then pure (.ok ()) else pure r

def emitInitiatorLogon : Handler Outcome := do
  let hydrated ← ensureHydrated cfg (!cfg.resetOnLogon) (refreshActive cfg) none
  onOk hydrated do
    let reset ← onlyIf cfg.resetOnLogon resetSeqnumsToOneDurable
    match reset with
    | .error e => disconnectWith (.error e)
    | .ok _ => do
      let s ← Traced.get
      let anyResetKnob := cfg.resetOnLogon || cfg.resetOnLogout || cfg.resetOnDisconnect
      let atOne : Bool := s.seqnums.nextOutbound = seqnumMin ∧ s.seqnums.nextInbound = seqnumMin
      let resetFlag : Bool :=
        cfg.resetSeqnumPolicy = .bilateralStrict ∨ (anyResetKnob = true ∧ atOne = true)
      Traced.modify fun s => { s with ownLogonSentResetFlag := resetFlag }
      emitLeaf cfg
        { buildRefused := some .wireFrameTooLarge, emitRefused := .disconnects }
        fun seq => .logon seq resetFlag
          (if cfg.enableNextExpectedMsgSeqNum then some s.seqnums.nextInbound else none)

/-- `install_reconnected_transport`, then `emit_initiator_logon_`. The identity is
what the handshake bound. -/
def driveReconnect (identity : Option PeerIdentity) : Handler Outcome := do
  Traced.act (fun s => { s with livePeerId := identity }) .connected
  recordStateTransition .logonSent
  Traced.catching (emitInitiatorLogon cfg) (afterAbort .active)

def attachAcceptedTransport (identity : Option PeerIdentity) : Handler Outcome := do
  Traced.act (fun s => { s with livePeerId := identity }) .connected
  pure (.ok ())

inductive Input
  | frame (f : Frame)
  | accept (identity : Option PeerIdentity)
  | reconnect (identity : Option PeerIdentity)
  | env (act : EnvAct)

def Input.connects : Input → Bool
  | .accept _ => true
  | .reconnect _ => true
  | _ => false

/-- The program of a step. A connection is accepted once, before any Logon, and a
session that is closing does not reconnect. -/
def Input.program : Input → Handler Outcome
  | .frame f => onInboundFrame cfg f
  | .accept identity => do
    let s ← Traced.get
    if s.fsm = .notConnected then attachAcceptedTransport identity else pure (.ok ())
  | .reconnect identity => do
    let s ← Traced.get
    if s.lifecycle = .opened then driveReconnect cfg identity else pure (.ok ())
  | .env act => do
    act.perform
    pure (.ok ())

structure Step where
  input : Input
  answers : List Answer := []

def step (s : Session) (t : Step) : Session × List Event :=
  ((t.input.program cfg).runFrom s t.answers).2

/-- One step of a run with the session it started from and its events. -/
structure Entry where
  before : Session
  step : Step
  events : List Event
  after : Session

def history (cfg : SessionConfig) : Session → List Step → List Entry
  | _, [] => []
  | s, t :: rest =>
    let r := step cfg s t
    { before := s, step := t, events := r.2, after := r.1 } :: history cfg r.1 rest

def eventsOf (entries : List Entry) : List Event := entries.flatMap Entry.events

end Fixpp.Model
