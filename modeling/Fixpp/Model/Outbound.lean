import Fixpp.Foundation.Machine
import Fixpp.Model.OutboundFrame

/-!
# Concurrent emissions

The application's sends, the liveness loop, the Logout of a close and the driver of the
connection emit frames. Each emission peeks a number, builds its frame, assigns the number and
calls the store without a suspension in between; then it waits in its store call and at the
write gate while the others go on. `Outlet` is the session with the emissions under way, and
`OutStep` a continuation the strand runs.

The store's lock and the write gate are first in, first out, except that a cancelled call may
leave the queue before its turn. A session serves one connection, as it does under an Engine.
-/

namespace Fixpp.Model

open Foundation

inductive Emitter
  /-- `Session::send` and the liveness loop. -/
  | sender
  /-- The Logout of a graceful `close()`. -/
  | closer
  /-- The connect loop and the inbound arms it runs, one after the other. -/
  | driver
  deriving DecidableEq, Repr

/-- A call of `store_then_emit` that has not returned. -/
structure Emission where
  id : ℕ
  emitter : Emitter
  arm : Option FsmState
  transmit : Bool
  /-- `stamped_seq`. -/
  seq : ℕ
  frame : Bytes
  deriving DecidableEq, Repr

inductive OutEvent
  /-- The store took the bytes under the number. -/
  | stored (id seq : ℕ) (bytes : Bytes)
  /-- The store call of an emission failed or was cancelled. -/
  | storeRefused (id : ℕ)
  /-- The frame was handed to the transport. -/
  | handed (id seq : ℕ) (frame : Bytes)
  | outboundReset
  deriving DecidableEq, Repr

/-- The session and its emissions: those in their store call in call order, those
that read the durable number back (with the number once it was read), and those
at the write gate in order of arrival. -/
structure Outlet where
  session : Session
  calls : List Emission := []
  reconciling : List (Emission × Option ℕ) := []
  gate : List Emission := []
  nextId : ℕ := 0
  logoutBegun : Bool := false
  shut : Bool := false
  deriving DecidableEq, Repr

inductive OutStep
  /-- An emission up to its store call; `build` is the frame builder, `none` when
  it or the callback refuses. -/
  | begin (emitter : Emitter) (arm : Option FsmState) (transmit : Bool) (build : ℕ → Option Bytes)
  /-- The first store call in flight returns. -/
  | storeReturns (answer : StoreOutcome)
  /-- A store call in flight is cancelled. -/
  | storeCancelled (i : ℕ)
  /-- The read of the durable number returns, or fails. -/
  | readReturns (i : ℕ) (read : Bool)
  /-- The number that was read becomes the counter. -/
  | counterReconciled (i : ℕ)
  /-- The first emission at the write gate gets it. -/
  | gateOpens
  /-- An emission leaves the gate's queue: its wait was cancelled. -/
  | gateLeft (i : ℕ)
  | transition (newState : FsmState)
  | beginClose
  | engineStop
  /-- `close()` closed the transport. -/
  | closeTransport
  /-- `ensure_hydrated_` and `refresh_on_logon`. -/
  | hydrate
  /-- A reset of a Logon arm to `next`, and whether the store took it. -/
  | logonReset (next : ℕ) (stored : Bool)
  /-- The teardown reset of `close()`, and whether the store took it. -/
  | teardownReset (stored : Bool)

namespace Outlet

variable (cfg : SessionConfig) (o : Outlet)

def inFlight : List Emission := o.calls ++ o.reconciling.map Prod.fst ++ o.gate

def next : ℕ := o.session.seqnums.nextOutbound

def loggingOn : Bool :=
  o.session.fsm = .notConnected || o.session.fsm = .logonSent || o.session.fsm = .logonReceived

def driverBusy : Bool := o.inFlight.any fun e => e.emitter = .driver

/-- `logon_arm_superseded_` for an emission of a Logon arm. -/
def superseded (e : Emission) : Bool := e.arm.any o.session.logonArmSuperseded

/-- When a coroutine comes to emit: a send and the liveness loop test for
`Active`, `close()` for `Active` or `LogonReceived`, and the driver emits one
frame after the other in any state. Only the Logon arms of the driver pass their
state along. -/
def mayBegin (emitter : Emitter) (arm : Option FsmState) : Bool :=
  match emitter with
  | .sender => arm = none && o.session.fsm = .active
  | .closer => arm = none && o.session.lifecycle = .closing && !o.logoutBegun &&
      (o.session.fsm = .active || o.session.fsm = .logonReceived)
  | .driver => !o.driverBusy && (arm = none || o.loggingOn)

def setNext (n : ℕ) : Outlet :=
  { o with session := { o.session with seqnums := o.session.seqnums.setNextOutbound n } }

/-- Behind the store step: a superseded arm and a frame that is only stored end
here, any other goes to the write gate. -/
def requestGate (e : Emission) : Outlet :=
  if o.superseded e || !e.transmit then o else { o with gate := o.gate ++ [e] }

/-- An emission up to its store call, or to the write gate when there is none. -/
def launch (e : Emission) : Outlet :=
  if o.session.store = none ∨ skipsStore cfg.hooks e.frame = true then o.requestGate e
  else { o with calls := o.calls ++ [e] }

/-- Peek, build, assign, and the store call. -/
def begin (emitter : Emitter) (arm : Option FsmState) (transmit : Bool) (build : ℕ → Option Bytes) :
    Outlet :=
  if o.mayBegin emitter arm = false then o
  else match build o.next, o.session.seqnums.assignOutbound with
    | some frame, .ok (seq, m) =>
      let e : Emission := ⟨o.nextId, emitter, arm, transmit, seq, frame⟩
      launch cfg
        { o.setNext m.nextOutbound with
          nextId := o.nextId + 1
          logoutBegun := o.logoutBegun || emitter = .closer } e
    | _, _ => o

def takeBack (e : Emission) : Outlet :=
  { o with session := { o.session with
      seqnums := o.session.seqnums.takeBackOutbound e.seq
      fsm := if o.superseded e then o.session.fsm else .disconnected } }

/-- The test behind the store call: a number that is no longer behind the counter
is not transmitted. -/
def refuseStale (e : Emission) : Outlet :=
  if o.next ≤ e.seq then o else o.requestGate e

/-- What follows the store call of `e`, which has left the queue. -/
def settle (e : Emission) (answer : StoreOutcome) : Outlet × List OutEvent :=
  let bytes := storedImage cfg.hooks e.frame
  match storeCall answer (o.session.store.getD {}) e.seq bytes with
  | .cancelled => (o.takeBack e, [.storeRefused e.id])
  | .failed _ =>
    if cfg.storeIsPersistent then
      ({ o with reconciling := o.reconciling ++ [(e, none)] }, [.storeRefused e.id])
    else (o.refuseStale e, [.storeRefused e.id])
  | .threw => (o.refuseStale e, [])
  | .done =>
    let st := ((o.session.store.getD {}).store e.seq bytes).toOption
    (refuseStale { o with session := { o.session with store := st } } e, [.stored e.id e.seq bytes])

/-- The states `record_state_transition_` leads to: the Logon exchange, `Active`
when its arm is not superseded and has emitted its frames, and the end. -/
def mayRecord : FsmState → Bool
  | .notConnected => false
  | .logonSent | .logonReceived => o.loggingOn
  | .active => o.loggingOn && o.session.lifecycle = .opened && !o.session.engineStopRequested &&
      !o.driverBusy
  | .logoutSent | .disconnected => true

def resetTo (next : ℕ) (stored : Bool) : Outlet :=
  { o.setNext next with session := { (o.setNext next).session with
      store := o.session.store.map fun st =>
        if stored then { st with frames := [], nextOutbound := next } else st } }

/-- One continuation. A step whose turn it is not changes nothing. -/
def step : OutStep → Outlet × List OutEvent
  | .begin emitter arm transmit build => (o.begin cfg emitter arm transmit build, [])
  | .storeReturns answer =>
    match o.calls with
    | [] => (o, [])
    | e :: rest => settle cfg { o with calls := rest } e answer
  | .storeCancelled i =>
    match o.calls[i]? with
    | none => (o, [])
    | some e => settle cfg { o with calls := o.calls.eraseIdx i } e .cancelled
  | .readReturns i read =>
    match o.reconciling[i]? with
    | some (e, none) =>
      if read then
        let durable := (o.session.store.getD {}).nextOutbound
        ({ o with reconciling := o.reconciling.set i (e, some durable) }, [])
      else ({ o with reconciling := o.reconciling.eraseIdx i }, [])
    | _ => (o, [])
  | .counterReconciled i =>
    match o.reconciling[i]? with
    | some (_, some durable) =>
      ({ o with reconciling := o.reconciling.eraseIdx i }.setNext durable, [])
    | _ => (o, [])
  | .gateOpens =>
    match o.gate with
    | [] => (o, [])
    | e :: rest =>
      ({ o with gate := rest }, if o.shut then [] else [.handed e.id e.seq e.frame])
  | .gateLeft i => ({ o with gate := o.gate.eraseIdx i }, [])
  | .transition st =>
    (if o.mayRecord st then { o with session := { o.session with fsm := st } } else o, [])
  | .beginClose =>
    (if o.session.lifecycle = .opened then
      { o with session := { o.session with lifecycle := .closing } } else o, [])
  | .engineStop => ({ o with session := { o.session with engineStopRequested := true } }, [])
  | .closeTransport => ({ o with shut := o.shut || o.session.lifecycle ≠ .opened }, [])
  | .hydrate =>
    match o.session.store with
    | some st =>
      if cfg.storeIsPersistent ∧ o.loggingOn = true then (o.setNext st.nextOutbound, [])
      else (o, [])
    | none => (o, [])
  | .logonReset next stored =>
    if o.loggingOn = true ∧ o.driverBusy = false ∧ o.logoutBegun = false then
      (o.resetTo next stored, [.outboundReset])
    else (o, [])
  | .teardownReset stored =>
    if o.shut then (o.resetTo seqnumMin stored, [.outboundReset]) else (o, [])

def run (steps : List OutStep) : Outlet × List OutEvent :=
  runSteps (step cfg) o steps

end Outlet

end Fixpp.Model
