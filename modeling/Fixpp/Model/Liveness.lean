import Fixpp.Model.Inbound

/-!
# The liveness loop

`run_liveness_loop` of an Active session: a Heartbeat when nothing went out for HeartBtInt, a
TestRequest when nothing came in, and the end of the session when the TestRequest stays
unanswered. Time is the steady clock's, in nanoseconds.

What happens while the loop is suspended is a list of `LiveAct`s. A sleep ends at its deadline
or later, and the store step of an emission is an answer here.
-/

namespace Fixpp.Model

open Foundation

/-- The session and the clock values the loop reads: `last_inbound_steady_`,
`last_outbound_steady_`, `next_test_request_id_` and `unanswered_tr_`. -/
structure Liveness where
  session : Session := {}
  now : ℕ := 0
  lastInbound : ℕ := 0
  lastOutbound : ℕ := 0
  nextTestRequestId : ℕ := 0
  unansweredTr : Bool := false
  deriving DecidableEq, Repr

inductive LiveEvent
  /-- A TestRequest was handed to the transport; `due` is the end of the silence it asks
  about. -/
  | handedOver (id : Bytes) (due time : ℕ)
  /-- A TestRequest was not handed over, and the loop went on. -/
  | unsent (id : Bytes)
  | heartbeat (time : ℕ)
  /-- A Heartbeat answered the pending TestRequest. -/
  | answered (id : Bytes)
  /-- The loop ended the session for an unanswered TestRequest. -/
  | unanswered (id : Bytes) (time : ℕ)
  deriving DecidableEq, Repr

/-- What happens on the strand while the loop is suspended. -/
inductive LiveAct
  | elapse (d : ℕ)
  /-- A sound frame reached the Active arm. -/
  | frame
  /-- A Heartbeat was accepted, with its TestReqID. -/
  | heartbeat (testReqId : Bytes)
  | sent
  | disconnect
  deriving DecidableEq, Repr

/-- How the store step of an emission ended. -/
inductive EmitStore
  | proceed
  | refused (e : Error)
  | cancelled
  deriving DecidableEq, Repr

/-- One answer of the environment. The defaults are the good outcomes. -/
structure LiveAnswer where
  meanwhile : List LiveAct := []
  /-- The sleep was not cancelled. -/
  woken : Bool := true
  built : Bool := true
  toAdmin : Bool := true
  assigned : Bool := true
  store : EmitStore := .proceed
  /-- A transport is attached. -/
  attached : Bool := true
  written : Bool := true
  deriving DecidableEq, Repr

instance : Inhabited LiveAnswer := ⟨{}⟩

abbrev Live := Traced Liveness LiveEvent LiveAnswer Abort

def Liveness.disconnected (s : Liveness) : Liveness :=
  { s with session := { s.session with fsm := .disconnected } }

/-- One step of another coroutine. The refresh of the inbound time precedes the
TestReqID rule of a Heartbeat. -/
def LiveAct.perform : LiveAct → Live Unit
  | .elapse d => Traced.modify fun s => { s with now := s.now + d }
  | .frame => Traced.modify fun s => { s with lastInbound := s.now }
  | .heartbeat testReqId => do
    Traced.modify fun s => { s with lastInbound := s.now }
    let s ← Traced.get
    if s.session.pendingTestReqId = [] then pure ()
    else
      match (answerPendingTestRequest testReqId).runFrom s.session [] with
      | (.ok true, session, _) =>
        Traced.act (fun s => { s with session := session, unansweredTr := false })
          (.answered s.session.pendingTestReqId)
      | (_, session, _) => Traced.modify fun s => { s with session := session }
  | .sent => Traced.modify fun s => { s with lastOutbound := s.now }
  | .disconnect => Traced.modify Liveness.disconnected

def elapsing : List LiveAct → Live Unit
  | [] => pure ()
  | a :: rest => do
    a.perform
    elapsing rest

/-- Wait: others act, then the answer arrives. -/
def liveSuspend : Live LiveAnswer := do
  let a ← Traced.ask
  elapsing a.meanwhile
  pure a

/-- `sleep_until(deadline)`: never early; a cancelled sleep leaves by an exception. -/
def sleepUntil (deadline : ℕ) : Live Unit := do
  let a ← liveSuspend
  if a.woken then Traced.modify fun s => { s with now := max s.now deadline }
  else Traced.throw .cancelled

inductive Turn
  | again
  | leave
  deriving DecidableEq, Repr

/-- `Disconnected` and `co_return`. -/
def leaveDisconnected : Live Turn := do
  Traced.modify Liveness.disconnected
  pure .leave

/-- `store_then_emit`, as the loop uses it; `handed` is the event of the hand-over and
`unsent` what is logged without a transport. -/
def emitLive (handed : ℕ → LiveEvent) (unsent : Live Unit) : Live Outcome := do
  let a ← liveSuspend
  match a.store with
  | .cancelled => do
    Traced.modify Liveness.disconnected
    Traced.throw .cancelled
  | .refused e => pure (.error e)
  | .proceed =>
    if a.attached then do
      let s ← Traced.get
      Traced.act id (handed s.now)
      let w ← liveSuspend
      if w.written then do
        Traced.modify fun s => { s with lastOutbound := s.now }
        pure (.ok ())
      else pure (.error .dispatchAborted)
    else do
      unsent
      Traced.modify fun s => { s with lastOutbound := s.now }
      pure (.ok ())

variable (cfg : SessionConfig)

/-- `toAdmin`, `assign_outbound` and the emission of a frame of the loop; a frame that
could not be built is skipped. -/
def emitAdmin (handed : ℕ → LiveEvent) (unsent : Live Unit) : Live Turn := do
  let a ← Traced.ask
  if a.built = false then do
    unsent
    pure .again
  else if cfg.application = true ∧ a.toAdmin = false then leaveDisconnected
  else do
    let b ← liveSuspend
    if b.assigned = false then leaveDisconnected
    else do
      let emitted ← emitLive handed unsent
      match emitted with
      | .ok _ => pure .again
      | .error _ => leaveDisconnected

def testReqIdOf (n : ℕ) : Bytes := ascii "TR" ++ Writer.renderU32 n

def testRequestTurn (heartBtInt inboundDeadline : ℕ) : Live Turn := do
  let s ← Traced.get
  let n := (s.nextTestRequestId + 1) % 2 ^ 32
  Traced.modify fun s => { s with
    nextTestRequestId := n
    session := { s.session with pendingTestReqId := testReqIdOf n }
    unansweredTr := false }
  let emitted ← emitAdmin cfg (.handedOver (testReqIdOf n) inboundDeadline)
    (Traced.act id (.unsent (testReqIdOf n)))
  match emitted with
  | .leave => pure .leave
  | .again => do
    let s ← Traced.get
    if s.session.fsm ≠ .active then pure .leave
    else do
      sleepUntil (inboundDeadline + heartBtInt + 1)
      let s ← Traced.get
      if s.session.fsm ≠ .active then pure .leave
      else if s.session.pendingTestReqId ≠ [] then do
        Traced.act (fun s => { s.disconnected with unansweredTr := true })
          (.unanswered s.session.pendingTestReqId s.now)
        pure .leave
      else pure .again

def heartbeatTurn (heartBtInt : ℕ) : Live Turn := do
  let s ← Traced.get
  if s.lastOutbound + heartBtInt ≤ s.now then do
    let emitted ← emitAdmin cfg .heartbeat (pure ())
    match emitted with
    | .leave => pure .leave
    | .again => do
      let s ← Traced.get
      if s.session.fsm ≠ .active then pure .leave else pure .again
  else pure .again

def livenessTurn (heartBtInt : ℕ) : Live Turn := do
  let s ← Traced.get
  let outboundDeadline := s.lastOutbound + heartBtInt
  let inboundDeadline := s.lastInbound + heartBtInt
  sleepUntil (if outboundDeadline < inboundDeadline then outboundDeadline else inboundDeadline)
  let s ← Traced.get
  if s.session.fsm ≠ .active then pure .leave
  else do
    let beat ← heartbeatTurn cfg heartBtInt
    match beat with
    | .leave => pure .leave
    | .again => do
      let s ← Traced.get
      if s.lastInbound + heartBtInt > s.now then pure .again
      else testRequestTurn cfg heartBtInt inboundDeadline

/-- The passes of the loop, at most `fuel` of them. -/
def livenessLoop (cfg : SessionConfig) (heartBtInt : ℕ) : ℕ → Live Unit
  | 0 => pure ()
  | fuel + 1 => do
    let s ← Traced.get
    if s.session.fsm = .active then do
      let turn ← livenessTurn cfg heartBtInt
      match turn with
      | .again => livenessLoop cfg heartBtInt fuel
      | .leave => pure ()
    else pure ()

/-- HeartBtInt in nanoseconds, 30 s unless it is configured. -/
def heartBtInt (heartbeatInterval : Option ℕ) : ℕ := 10 ^ 9 * heartbeatInterval.getD 30

def runLivenessLoop (heartbeatInterval : Option ℕ) (fuel : ℕ) : Live Unit :=
  if heartBtInt heartbeatInterval = 0 ∨ cfg.clock = false then pure ()
  else Traced.catching (livenessLoop cfg (heartBtInt heartbeatInterval) fuel) fun _ => pure ()

/-! ## The loop on an exact clock

`run_liveness_loop` of an Active session as a machine on the steady clock: here a sleep ends at
its deadline, at once if that is past, every frame can be built and an emission takes no time.
Between its two sleeps the loop is one step. It does not read `threshold`. -/

structure CadenceConfig where
  heartBtInt : ℕ
  /-- Without it the loop is not run. -/
  pos : 0 < heartBtInt := by decide
  testRequestThreshold : Option ℕ := none

/-- The sleep of the loop: the main one, with the `inbound_deadline` it was computed from, or
the grace window. -/
inductive LoopSleep
  | main (inboundDeadline deadline : ℕ)
  | grace (deadline : ℕ)
  deriving DecidableEq

structure Cadence where
  now : ℕ
  lastInbound : ℕ
  lastOutbound : ℕ
  /-- The last transmission of the Active session. -/
  lastSent : Option ℕ := none
  pendingTestReq : Bool := false
  active : Bool := true
  sleep : LoopSleep
  deriving DecidableEq

inductive CadenceAct
  | elapse (d : ℕ)
  /-- A good inbound frame; a Heartbeat may answer the pending TestRequest. -/
  | frame (answers : Bool)
  | sent
  | disconnect
  | wake

inductive Transmission
  | heartbeat
  | testRequest
  | application
  deriving DecidableEq

namespace Cadence

variable (cfg : CadenceConfig) (s : Cadence)

def transmit : Cadence := { s with lastOutbound := s.now, lastSent := s.now }

/-- The head of the loop, up to its sleep. -/
def toSleep : Cadence :=
  let outboundDeadline := s.lastOutbound + cfg.heartBtInt
  let inboundDeadline := s.lastInbound + cfg.heartBtInt
  let deadline := if outboundDeadline < inboundDeadline then outboundDeadline else inboundDeadline
  { s with sleep := .main inboundDeadline deadline }

/-- The session enters Active on an inbound frame, some time behind its last emission. -/
def entered (lastOutbound waited : ℕ) : Cadence :=
  let now := lastOutbound + waited
  toSleep cfg { now, lastInbound := now, lastOutbound, sleep := .grace 0 }

def deadline : ℕ :=
  match s.sleep with
  | .main _ deadline | .grace deadline => deadline

/-- The loop behind its main sleep. -/
def afterSleep (inboundDeadline : ℕ) : Cadence × List Transmission :=
  let beat := if s.lastOutbound + cfg.heartBtInt ≤ s.now then (s.transmit, [.heartbeat]) else (s, [])
  if beat.1.lastInbound + cfg.heartBtInt > beat.1.now then (beat.1.toSleep cfg, beat.2)
  else ({ beat.1.transmit with
            pendingTestReq := true
            sleep := .grace (inboundDeadline + cfg.heartBtInt + 1) }, beat.2 ++ [.testRequest])

def wake : Cadence × List Transmission :=
  match s.sleep with
  | .main inboundDeadline _ => s.afterSleep cfg inboundDeadline
  | .grace _ => if s.pendingTestReq then ({ s with active := false }, []) else (s.toSleep cfg, [])

/-- A step of an Active session; time does not pass the end of a sleep. -/
def step : CadenceAct → Cadence × List Transmission
  | .elapse d => (if s.now + d ≤ s.deadline then { s with now := s.now + d } else s, [])
  | .frame answers =>
    ({ s with lastInbound := s.now, pendingTestReq := s.pendingTestReq && !answers }, [])
  | .sent => (s.transmit, [.application])
  | .disconnect => ({ s with active := false }, [])
  | .wake => if s.deadline ≤ s.now then s.wake cfg else (s, [])

/-- A session that is no longer Active does nothing. -/
def run (s : Cadence) (acts : List CadenceAct) : Cadence :=
  acts.foldl (fun s a => if s.active then (s.step cfg a).1 else s) s

end Cadence

end Fixpp.Model
