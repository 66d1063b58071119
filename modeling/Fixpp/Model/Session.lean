import Fixpp.Foundation.Traced
import Fixpp.Model.Authorization
import Fixpp.Model.Sequence

/-!
# The session and what it does while it is suspended

The state of `Session` that the inbound dispatch reads and writes, the events a run is observed
by, and the steps the handlers share.

The session runs on one strand, so another coroutine (`EnvAct`) acts only where a handler waits.
A handler reads its `Answer`s one after the other: at each wait, what happened meanwhile and how
the wait ended; at each callback, how it ended. Whether a deadline has passed, a SendingTime is
accurate or a frame could be built are answers too.
-/

namespace Fixpp.Model

open Foundation

inductive FsmState
  | notConnected
  | logonSent
  | logonReceived
  | active
  | logoutSent
  | disconnected
  deriving DecidableEq, Repr

/-- `lifecycle`, from `open` on. -/
inductive Lifecycle
  | opened
  | closing
  | closedDrained
  deriving DecidableEq, Repr

inductive ResetSeqnumPolicy
  | bilateralStrict
  | bilateralLenient
  | unilateral
  deriving DecidableEq, Repr

inductive SessionPosture
  | production
  | test
  deriving DecidableEq, Repr

/-- `SessionConfig` and the engine parts a session is opened with, as far as the
dispatch reads them. -/
structure SessionConfig where
  beginString : Bytes := ascii "FIX.4.4"
  senderCompId : Bytes := ascii "US"
  targetCompId : Bytes := ascii "PEER"
  checkCompId : Bool := true
  validateSequenceNumbers : Bool := true
  redeliverPossDup : Bool := false
  validateInboundMessages : Bool := false
  resetOnLogon : Bool := false
  resetOnLogout : Bool := false
  resetOnDisconnect : Bool := false
  refreshOnLogon : Bool := false
  enableNextExpectedMsgSeqNum : Bool := false
  resetSeqnumPolicy : ResetSeqnumPolicy := .bilateralLenient
  posture : Option SessionPosture := none
  /-- An `Application` is registered. -/
  application : Bool := true
  /-- An `effective_clock_` is set. -/
  clock : Bool := true
  /-- `session_route_.validator` is set. -/
  validator : Bool := false
  fixtRouting : Bool := false
  /-- `store_is_persistent_`; a session with such a store has a store. -/
  storeIsPersistent : Bool := false
  /-- The security profile is one of the mutual-TLS ones. -/
  mtls : Bool := false
  compidAuthorizationPolicy : CompIdAuthorizationPolicy := {}
  allowPosDup : Bool := false
  /-- `session_hooks(inbound_tv_)`. -/
  hooks : DictHooks := fun _ => 0
  /-- `inbound_tv_->is_header_tag`. -/
  isHeaderTag : ℕ → Bool := fun _ => false

/-- The AwaitingResend part of `ReconnectFsm`: the flag and the range recorded
with it. -/
structure ResendState where
  awaitingResend : Bool := false
  outstandingBegin : ℕ := 0
  outstandingEnd : ℕ := 0
  deriving DecidableEq, Repr

/-- The part of `Session` the dispatch works on. `livePeerId` is the identity
the handshake bound. -/
structure Session where
  fsm : FsmState := .notConnected
  lifecycle : Lifecycle := .opened
  engineStopRequested : Bool := false
  seqnums : SeqnumManager := {}
  resend : ResendState := {}
  pendingTestReqId : Bytes := []
  hydrated : Bool := false
  ownLogonSentResetFlag : Bool := false
  logoutSeen : Bool := false
  teardownResetDone : Bool := false
  livePeerId : Option PeerIdentity := none
  store : Option MessageStore := none
  deriving DecidableEq, Repr

abbrev Field := ℕ × Bytes

/-- A frame the session sends. The `gapEnd` of a ResendRequest is the recorded
end of the gap it asks for; the wire carries EndSeqNo 0. -/
inductive Reply
  | logon (seq : ℕ) (resetSeqNumFlag : Bool) (nextExpected : Option ℕ)
  | logout (text : Bytes)
  | reject (refSeqNum refTagId : ℕ) (refMsgType : Bytes) (reason : ℕ) (text : Bytes)
  | businessReject (refSeqNum : ℕ) (refMsgType : Bytes)
  | heartbeat (testReqId : Bytes)
  | resendRequest (beginSeqNo endSeqNo gapEnd : ℕ)
  | gapFill (msgSeqNum newSeqNo : ℕ)
  | replay (fields : List Field)
  deriving DecidableEq, Repr

inductive Event
  | transition (newState : FsmState)
  | connected
  /-- `check_inbound` accepted a frame's number. -/
  | takeUp (seq : ℕ)
  /-- A SequenceReset moved the expected number forward. -/
  | jump (newSeqNo : ℕ)
  /-- The inbound counter was set by a reset or by hydration. -/
  | inboundReset (next : ℕ)
  /-- A message was handed to `fromApp` or `fromAdmin`. -/
  | fromApp (seq : ℕ)
  | fromAdmin (seq : ℕ)
  | sent (reply : Reply)
  | enterAwaitingResend (beginSeqNo endSeqNo : ℕ)
  | exitAwaitingResend (expected : ℕ)
  /-- A frame above the expected number was dropped at the sequence gate. -/
  | passedOver (seq expected : ℕ)
  /-- Another coroutine looked at the session while a handler waited. -/
  | observed (s : Session)
  deriving DecidableEq, Repr

/-- What another coroutine on the strand does to the session. -/
inductive EnvAct
  /-- A state is recorded as `Disconnected`: liveness, close, a failed send. -/
  | disconnect
  | beginClose
  /-- The Logout of a graceful close went out. -/
  | logoutSent
  /-- The teardown reset of `close()`, and whether the store took it. -/
  | teardownReset (stored : Bool)
  /-- `close()` drained the counters' lock and ended. -/
  | drain
  | engineStop
  /-- The liveness loop asked for a Heartbeat. -/
  | testRequest (id : Bytes)
  /-- Senders assigned, took back or reconciled outbound numbers. -/
  | outbound (next : ℕ)
  | observe
  deriving DecidableEq, Repr

inductive CallbackOutcome
  | accepted
  | rejected
  | threw
  | parseFailed
  deriving DecidableEq, Repr

/-- How a store call ended; a cancellation may be returned or thrown. -/
inductive StoreOutcome
  | done
  | failed (e : Error)
  | cancelled
  | threw
  deriving DecidableEq, Repr

/-- One answer of the environment; the field that is read depends on the
question. The defaults are the good outcomes. -/
structure Answer where
  meanwhile : List EnvAct := []
  store : StoreOutcome := .done
  written : Bool := true
  built : Bool := true
  toAdmin : Bool := true
  callback : CallbackOutcome := .accepted
  holds : Bool := true
  bytes : Bytes := []
  deriving DecidableEq, Repr

instance : Inhabited Answer := ⟨{}⟩

/-- An exception that leaves a handler: a cancelled wait, or anything else. -/
inductive Abort
  | cancelled
  | other
  deriving DecidableEq, Repr

abbrev Handler := Traced Session Event Answer Abort

abbrev Outcome := Except Error Unit

namespace Session

/-- The states in which frames pass the sequence gate. -/
def up (s : Session) : Bool := s.fsm = .logonReceived || s.fsm = .active

def logonArmSuperseded (s : Session) (arm : FsmState) : Bool :=
  s.lifecycle = .closing || s.engineStopRequested || s.fsm ≠ arm

end Session

def recordStateTransition (st : FsmState) : Handler Unit :=
  Traced.act (fun s => { s with fsm := st }) (.transition st)

def Session.down (s : Session) : Bool := s.fsm = .disconnected || s.fsm = .logoutSent

/-- One step of another coroutine. `close()` resets and drains after it has
recorded the end of the session. -/
def EnvAct.perform : EnvAct → Handler Unit
  | .disconnect => recordStateTransition .disconnected
  | .beginClose => Traced.modify fun s =>
    if s.lifecycle = .opened then { s with lifecycle := .closing } else s
  | .logoutSent => do
    let s ← Traced.get
    if s.lifecycle = .closing ∧ s.fsm ≠ .notConnected ∧ s.fsm ≠ .logonSent then
      recordStateTransition .logoutSent
    else pure ()
  | .teardownReset stored => do
    let s ← Traced.get
    if s.lifecycle = .closing ∧ s.down = true then
      Traced.act (fun s => { s with
        seqnums := s.seqnums.resetToOne
        teardownResetDone := true
        store := s.store.map fun st => if stored then st.resetTo seqnumMin seqnumMin Nat.one_pos
          else st })
        (.inboundReset seqnumMin)
    else pure ()
  | .drain => Traced.modify fun s =>
    if s.lifecycle = .closing ∧ s.down = true then { s with lifecycle := .closedDrained } else s
  | .engineStop => Traced.modify fun s => { s with engineStopRequested := true }
  | .testRequest id => Traced.modify fun s =>
    if s.fsm = .active then { s with pendingTestReqId := id } else s
  | .outbound next => Traced.modify fun s =>
    { s with seqnums := s.seqnums.setNextOutbound next }
  | .observe => do
    let s ← Traced.get
    Traced.act id (.observed s)

def meanwhile : List EnvAct → Handler Unit
  | [] => pure ()
  | a :: rest => do
    a.perform
    meanwhile rest

/-- Wait: others act, then the answer arrives. -/
def suspend : Handler Answer := do
  let a ← Traced.ask
  meanwhile a.meanwhile
  pure a

def disconnectUnlessSuperseded (arm : Option FsmState) : Handler Unit := do
  let s ← Traced.get
  if arm.any s.logonArmSuperseded then pure ()
  else if s.fsm ≠ .disconnected then recordStateTransition .disconnected
  else pure ()

/-- `co_return std::unexpected(e)` behind a recorded `Disconnected`. -/
def disconnectWith (r : Outcome) : Handler Outcome := do
  recordStateTransition .disconnected
  pure r

/-- Continue unless the step before failed (`if (!r) co_return r`). -/
def onOk (r : Outcome) (next : Handler Outcome) : Handler Outcome :=
  match r with
  | .ok _ => next
  | .error e => pure (.error e)

def onlyIf (c : Bool) (x : Handler Outcome) : Handler Outcome := if c then x else pure (.ok ())

/-- The teardown reset of `close()`, made once when the configuration asks for
it. -/
def teardownReset (cfg : SessionConfig) : Handler Unit := do
  let s ← Traced.get
  if s.teardownResetDone = false ∧
      ((s.logoutSeen && cfg.resetOnLogout) || cfg.resetOnDisconnect) then do
    let a ← suspend
    meanwhile [.teardownReset (a.store == .done)]
  else pure ()

variable (cfg : SessionConfig)

/-- `close(terminal)`. A close that is already running is joined: it ends
disconnected and drained. -/
def close : Handler Unit := do
  let s ← Traced.get
  match s.lifecycle with
  | .closedDrained => pure ()
  | .closing => do
    let _ ← suspend
    meanwhile [.disconnect, .drain]
  | .opened => do
    meanwhile [.beginClose]
    disconnectUnlessSuperseded none
    let _ ← suspend
    teardownReset cfg
    let _ ← suspend
    meanwhile [.drain]

def closeOnLateParseFailure : Handler Outcome := do
  close cfg
  pure (.ok ())

def closeOnThrow : Handler Outcome := do
  close cfg
  pure (.error .appCallbackThrew)

/-- `assign_outbound` on the live manager; its lock is refused once drained. -/
def assignOutbound : Handler (Except Error ℕ) := do
  let s ← Traced.get
  if s.lifecycle = .closedDrained then pure (.error .sessionAlreadyClosed)
  else match s.seqnums.assignOutbound with
    | .error e => pure (.error e)
    | .ok (seq, m) => do
      Traced.modify fun s => { s with seqnums := s.seqnums.setNextOutbound m.nextOutbound }
      pure (.ok seq)

/-- `fire_to_admin_`: `false` when the callback threw. -/
def fireToAdmin : Handler Bool := do
  if cfg.application then do
    let a ← Traced.ask
    pure a.toAdmin
  else pure true

/-- The transmit step: the write gate and the transport's write. -/
def transmit (reply : Reply) : Handler Outcome := do
  let a ← suspend
  if a.written then do
    Traced.act id (.sent reply)
    pure (.ok ())
  else pure (.error .dispatchAborted)

/-- The counter reconciliation after a refused store call: the durable number,
when it can be read. -/
def reconcileOutbound : Handler Unit := do
  let a ← suspend
  let s ← Traced.get
  match a.store, s.store with
  | .done, some st =>
    Traced.modify fun s => { s with seqnums := s.seqnums.setNextOutbound st.nextOutbound }
  | _, _ => pure ()

/-- What becomes of the store step of `store_then_emit`. -/
inductive StoreStep
  | proceed
  | stop (e : Error)
  deriving DecidableEq, Repr

/-- `stamped_seq >= peek_outbound()`: another frame's refusal moved the counter
back while this one was suspended. -/
def refuseStale (seq : ℕ) : Handler StoreStep := do
  let s ← Traced.get
  if s.seqnums.nextOutbound ≤ seq then pure (.stop .dispatchAborted) else pure .proceed

/-- A store call on the store as it is when the call runs: the environment's
answer, unless the store itself refuses the number. -/
def storeCall (answer : StoreOutcome) (st : MessageStore) (seq : ℕ) (bytes : Bytes) :
    StoreOutcome :=
  match answer, st.store seq bytes with
  | .done, .error e => .failed e
  | outcome, _ => outcome

/-- The store step: a cancelled call takes the number back and leaves by an
exception, a refusal by a persistent store ends the emission, anything else goes
on to the transport unless the number is no longer behind the counter. -/
def storeStep (seq : ℕ) (bytes : Bytes) (arm : Option FsmState) : Handler StoreStep := do
  let s ← Traced.get
  if s.store = none then pure .proceed
  else do
    let a ← suspend
    let s ← Traced.get
    match storeCall a.store (s.store.getD {}) seq bytes with
    | .cancelled => do
      Traced.modify fun s => { s with seqnums := s.seqnums.takeBackOutbound seq }
      disconnectUnlessSuperseded arm
      Traced.throw .cancelled
    | .failed e =>
      if cfg.storeIsPersistent then do
        reconcileOutbound
        pure (.stop e)
      else refuseStale seq
    | .threw => refuseStale seq
    | .done => do
      Traced.modify fun s => { s with store := ((s.store.getD {}).store seq bytes).toOption }
      refuseStale seq

/-- `store_then_emit` for a reply of the session; `bytes` is what is stored. -/
def storeThenEmit (seq : ℕ) (bytes : Bytes) (reply : Reply) (arm : Option FsmState) :
    Handler Outcome := do
  let step ← storeStep cfg seq bytes arm
  match step with
  | .stop e => pure (.error e)
  | .proceed => do
    let s ← Traced.get
    if arm.any s.logonArmSuperseded then pure (.ok ()) else transmit reply

/-! ## Replies -/

/-- What a reply leaf does when a step of it fails: go on as if the reply had
been sent, record `Disconnected` and return the error, or record it and return
success. -/
inductive Refused
  | ignored
  | disconnects
  | disconnectsQuietly
  deriving DecidableEq, Repr

structure LeafPolicy where
  /-- The Logon arm the reply belongs to. -/
  arm : Option FsmState := none
  /-- The error of a builder failure; without one the reply is just not sent. -/
  buildRefused : Option Error := none
  /-- `toAdmin` runs before the number is assigned. -/
  toAdminFirst : Bool := false
  assignRefused : Refused := .disconnects
  emitRefused : Refused := .ignored

def Refused.conclude (r : Refused) (arm : Option FsmState) (e : Error) : Handler Outcome :=
  match r with
  | .ignored => pure (.ok ())
  | .disconnects => do
    disconnectUnlessSuperseded arm
    pure (.error e)
  | .disconnectsQuietly => do
    disconnectUnlessSuperseded arm
    pure (.ok ())

def afterToAdmin (next : Handler Outcome) : Handler Outcome := do
  let passed ← fireToAdmin cfg
  if passed then next else disconnectWith (.error .appCallbackThrew)

def afterAssign (p : LeafPolicy) (next : Handler Outcome) : Handler Outcome := do
  let assigned ← assignOutbound
  match assigned with
  | .ok _ => next
  | .error e => p.assignRefused.conclude none e

def emitStep (p : LeafPolicy) (seq : ℕ) (bytes : Bytes) (reply : Reply) : Handler Outcome := do
  let emitted ← storeThenEmit cfg seq bytes reply p.arm
  match emitted with
  | .ok _ => pure (.ok ())
  | .error e => p.emitRefused.conclude p.arm e

/-- A reply leaf: peek the number, build, assign and `toAdmin` in the leaf's
order, store and send. -/
def emitLeaf (p : LeafPolicy) (reply : ℕ → Reply) : Handler Outcome := do
  let s ← Traced.get
  let seq := s.seqnums.nextOutbound
  let a ← Traced.ask
  if a.built = false then
    match p.buildRefused with
    | none => pure (.ok ())
    | some e => disconnectWith (.error e)
  else if p.toAdminFirst then
    afterToAdmin cfg (afterAssign p (emitStep cfg p seq a.bytes (reply seq)))
  else afterAssign p (afterToAdmin cfg (emitStep cfg p seq a.bytes (reply seq)))

def inboundRejectLeaf (refSeq refTagId : ℕ) (refMsgType : Bytes) (reason : ℕ)
    (arm : Option FsmState) : Handler Outcome :=
  emitLeaf cfg { arm := arm } fun _ => .reject refSeq refTagId refMsgType reason []

def inboundRejectBestEffortLeaf (refSeq : ℕ) (refMsgType : Bytes) : Handler Outcome :=
  emitLeaf cfg { assignRefused := .ignored } fun _ => .reject refSeq 0 refMsgType 3 []

def inboundLogoutLeaf (text : Bytes) : Handler Outcome :=
  emitLeaf cfg { toAdminFirst := true } fun _ => .logout text

def inboundLogonSentLogoutLeaf (text : Bytes) : Handler Outcome :=
  emitLeaf cfg { arm := some .logonSent } fun _ => .logout text

/-- The range is open, EndSeqNo 0. A refused number disconnects and still returns success. -/
def inboundResendRequestLeaf (beginSeqno gapEnd : ℕ) : Handler Outcome :=
  emitLeaf cfg
    { buildRefused := some .dispatchAborted
      toAdminFirst := true
      assignRefused := .disconnectsQuietly
      emitRefused := .disconnects }
    fun _ => .resendRequest beginSeqno 0 gapEnd

def inboundHeartbeatReplyLeaf (testReqId : Bytes) : Handler Outcome :=
  emitLeaf cfg { toAdminFirst := true, emitRefused := .disconnects } fun _ => .heartbeat testReqId

/-- `emit_session_reject_`, both overloads. -/
def emitSessionReject (refSeq refTagId : ℕ) (refMsgType : Bytes) (reason : ℕ) (text : Bytes)
    (arm : Option FsmState) : Handler Outcome :=
  emitLeaf cfg { arm := arm, emitRefused := .disconnects }
    fun _ => .reject refSeq refTagId refMsgType reason text

/-- `inbound_acceptor_reply_logon_leaf_`, with the number it stamped. -/
def inboundAcceptorReplyLogonLeaf (peerSentReset : Bool) : Handler (ℕ × Outcome) := do
  let s ← Traced.get
  let bilateral := cfg.resetSeqnumPolicy = .bilateralStrict ∨
    cfg.resetSeqnumPolicy = .bilateralLenient
  let nextExpected := if cfg.enableNextExpectedMsgSeqNum then some s.seqnums.nextInbound else none
  let r ← emitLeaf cfg
    { arm := some .logonReceived
      buildRefused := some .wireFrameTooLarge
      emitRefused := .disconnects }
    fun seq => .logon seq (decide bilateral && peerSentReset) nextExpected
  pure (s.seqnums.nextOutbound, r)

def refuseLogonWithLogout (text : Bytes) (arm : FsmState) : Handler Outcome := do
  let r ← emitLeaf cfg { arm := some arm, toAdminFirst := true } fun _ => .logout text
  onOk r do
    disconnectUnlessSuperseded (some arm)
    pure (.ok ())

/-- `inbound_business_reject_leaf_`: `toApp` may keep the reject back; when it
throws, the session closes. -/
def inboundBusinessRejectLeaf (refSeq : ℕ) (refMsgType : Bytes) : Handler Outcome := do
  let s ← Traced.get
  let seq := s.seqnums.nextOutbound
  let p : LeafPolicy := { emitRefused := .disconnects }
  let a ← Traced.ask
  if a.built = false then pure (.ok ())
  else if cfg.application then
    match a.callback with
    | .accepted => afterAssign p (emitStep cfg p seq a.bytes (.businessReject refSeq refMsgType))
    | .threw => closeOnThrow cfg
    | .rejected => pure (.ok ())
    | .parseFailed => afterAssign p (emitStep cfg p seq a.bytes (.businessReject refSeq refMsgType))
  else afterAssign p (emitStep cfg p seq a.bytes (.businessReject refSeq refMsgType))

end Fixpp.Model
