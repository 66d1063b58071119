import Fixpp.Foundation.Machine
import Fixpp.Model.Session

/-!
# The engine: sends, role loops and the teardown

An `Engine` owns a registry of sessions and one role loop per session. Its own state belongs to
the control strand and that of a session to the session's strand; `send` and `stop` may be
called from any thread. An `Action` is what one of the calls does up to its next suspension, or,
on a thread of its own, to its next access to the shared state.

A role loop publishes one session in its life, which has the name of the entry, its place in the
registry.
-/

namespace Fixpp.Model

abbrev SendResult := Except Error Unit

structure SessionEntry where
  /-- `session_strand` was made by `start()`. -/
  sessionStrand : Bool
  /-- `session` was published. -/
  session : Bool := false
  liveTransport : Bool := false
  deriving DecidableEq, Repr

/-- A published session, as far as the engine reads it. -/
structure Published where
  state : FsmState := .notConnected
  /-- `engine_stop_noted`. -/
  stopNoted : Bool := false
  deriving DecidableEq, Repr

inductive SendPhase
  /-- In the send counter, `stopped_` not yet read. -/
  | enrolled (id : ℕ)
  /-- Refused by `stopped_`, about to return. -/
  | refused
  /-- Past `stopped_`, the snapshot not yet loaded. -/
  | admitted (id : ℕ)
  /-- The session was in the snapshot: the body waits for the session's strand. -/
  | hit (id : ℕ)
  /-- It was not: the lookup waits for the control strand. -/
  | miss (id : ℕ)
  /-- The lookup found a session: the body waits for the session's strand. -/
  | queued (id : ℕ)
  | sending (id : ℕ)
  /-- On the way back to the caller. -/
  | returning (result : SendResult)
  | done (result : SendResult)
  deriving DecidableEq, Repr

inductive LoopPhase
  /-- Before the publication: accepting, connecting, opening. -/
  | opening
  /-- The publication waits for the control strand. -/
  | publishing
  | pumping
  /-- The withdrawal waits for the control strand. -/
  | unpublishing
  | ending
  | ended
  deriving DecidableEq, Repr

/-- Where a call of `Engine::stop` is. The loops over the registry carry the entry
they are at. -/
inductive StopPhase
  /-- Past the guard: the teardown waits for the control strand. -/
  | passed
  /-- Step 1, at an entry, on the control strand. -/
  | noting (k : ℕ)
  /-- Step 1, waiting for the strand of the entry, with the session read before. -/
  | emitting (k : ℕ) (session : Bool)
  /-- Step 2. -/
  | closingTransports
  /-- Waiting for the closes of step 2. -/
  | joiningCloses (pending : ℕ)
  /-- Step 3, at the test for a counter of the role loops. -/
  | joiningLoops
  /-- Step 3, inside the wait for the role loops. -/
  | awaitingLoops
  /-- Step 3, waiting for the sends. -/
  | draining
  /-- Step 4, at an entry, on the control strand. -/
  | closingSessions (k : ℕ)
  /-- Step 4, waiting for the strand of the entry. -/
  | dispatching (k : ℕ)
  /-- Step 4, inside `Session::close`. -/
  | closing (k : ℕ)
  /-- Step 5. -/
  | clearing
  /-- The teardown is over; the sinks are left. -/
  | flushing
  | returned
  deriving DecidableEq, Repr

inductive TeardownStep
  | flag
  /-- The cancellation of an entry's role loop. -/
  | cancel (k : ℕ)
  | cancelAcceptScopes
  | closeTransport (k : ℕ)
  /-- The role loops have ended and their counter is released. -/
  | joinLoops
  | drainSends
  /-- `Session::close` of an entry's session begins. -/
  | closeSession (k : ℕ)
  | clear
  | shutdownSinks
  deriving DecidableEq, Repr

/-- Something was used after its release. -/
inductive Fault
  /-- `outstanding_counter_`, by a call of `stop`. -/
  | releasedCounter (j : ℕ)
  /-- An entry of the registry, by a call of `stop`. -/
  | releasedEntry (j : ℕ)
  /-- An entry of the registry, by its role loop. -/
  | releasedLoopEntry (id : ℕ)
  deriving DecidableEq, Repr

/-- What the engine is observed by. Sends and stops have numbers in the order of
their calls. -/
inductive EngineEvent
  | begun (i : ℕ)
  /-- A send read `stopped_` as false behind its enrolment. -/
  | admitted (i : ℕ)
  | consulted (i : ℕ)
  /-- A send entered `Session::send` of a session. -/
  | entered (i id : ℕ)
  | completed (i : ℕ) (result : SendResult)
  | loopEnded (id : ℕ)
  /-- A call of `stop` did a step of the teardown. -/
  | performed (j : ℕ) (step : TeardownStep)
  | fault (f : Fault)
  deriving DecidableEq, Repr

structure Engine where
  stopped : Bool := false
  registry : List SessionEntry
  /-- `reader_snapshot_`: which entries have a session. -/
  readerSnapshot : List Bool := []
  sessions : ℕ → Published := fun _ => {}
  sends : List SendPhase := []
  sendCounter : ℕ := 0
  loops : List LoopPhase
  /-- The counter that the role loops share. -/
  outstanding : ℕ
  /-- The engine's own pointer to it, `outstanding_counter_`. -/
  outstandingCounter : Bool
  stops : List StopPhase := []

inductive Action
  | send (id : ℕ)
  /-- A send goes on; `answer` is what `Session::send` returns if it is there. -/
  | advance (i : ℕ) (answer : SendResult)
  /-- A role loop goes on, or unwinds from where it is. -/
  | loop (id : ℕ) (unwinds : Bool)
  | transition (id : ℕ) (state : FsmState)
  /-- A call of `stop` tests the flag. -/
  | callStop
  | stop (j : ℕ)
  /-- A transport that a call of `stop` closes is closed. -/
  | transportClosed (j : ℕ)
  deriving DecidableEq, Repr

namespace Engine

/-- The engine with `n` registered sessions, before or right after `start()`. -/
def registered (n : ℕ) (started : Bool) : Engine where
  registry := List.replicate n { sessionStrand := started }
  loops := if started then List.replicate n .opening else []
  outstanding := if started then n else 0
  outstandingCounter := started

variable (s : Engine)

def publishReaderSnapshot : Engine :=
  { s with readerSnapshot := s.registry.map SessionEntry.session }

/-! ## `Engine::send` -/

def setSend (i : ℕ) (p : SendPhase) : Engine := { s with sends := s.sends.set i p }

/-- `send` up to the increment of the counter. -/
def enrol (id : ℕ) : Engine × List EngineEvent :=
  ({ s with sends := s.sends ++ [.enrolled id], sendCounter := s.sendCounter + 1 },
    [.begun s.sends.length])

def admissionGate (i id : ℕ) : Engine × List EngineEvent :=
  if s.stopped then (s.setSend i .refused, [])
  else (s.setSend i (.admitted id), [.admitted i])

def lookUp (i id : ℕ) : Engine :=
  s.setSend i (if s.readerSnapshot[id]? = some true then .hit id else .miss id)

/-- What the miss path finds on the control strand. -/
def consult (id : ℕ) : SendPhase :=
  if s.stopped then .returning (.error .sessionInvalidStateForSend)
  else match s.registry[id]? with
    | none => .returning (.error .sessionInvalidArgument)
    | some entry =>
      if entry.session then .queued id
      else .returning (.error .sessionInvalidStateForSend)

/-- The part on the session's strand that both paths share. -/
def enter (i id : ℕ) : Engine × List EngineEvent :=
  if (s.sessions id).state = .active then (s.setSend i (.sending id), [.entered i id])
  else (s.setSend i (.returning (.error .sessionInvalidStateForSend)), [])

def complete (i : ℕ) (result : SendResult) : Engine × List EngineEvent :=
  ({ s.setSend i (.done result) with sendCounter := s.sendCounter - 1 }, [.completed i result])

/-- A send goes on. Only the hit path asks the session for the stop of the engine. -/
def advanceSend (i : ℕ) (answer : SendResult) : Engine × List EngineEvent :=
  match s.sends[i]? with
  | none => (s, [])
  | some (.enrolled id) => s.admissionGate i id
  | some (.admitted id) => (s.lookUp i id, [])
  | some .refused => s.complete i (.error .sessionInvalidStateForSend)
  | some (.hit id) =>
    if (s.sessions id).stopNoted then
      (s.setSend i (.returning (.error .sessionInvalidStateForSend)), [])
    else s.enter i id
  | some (.miss id) => (s.setSend i (s.consult id), [.consulted i])
  | some (.queued id) => s.enter i id
  | some (.sending _) => (s.setSend i (.returning answer), [])
  | some (.returning result) => s.complete i result
  | some (.done _) => (s, [])

/-! ## The role loops -/

def setLoop (id : ℕ) (p : LoopPhase) : Engine := { s with loops := s.loops.set id p }

/-- `publish_entry` and the new snapshot. A loop that is refused closes its session
and returns. -/
def publishEntry (id : ℕ) (entry : SessionEntry) : Engine :=
  if s.stopped then s.setLoop id .ending
  else
    ({ s.setLoop id .pumping with
        registry := s.registry.set id { entry with session := true, liveTransport := true }
      }).publishReaderSnapshot

/-- `unpublish_entry` and the new snapshot. -/
def unpublishEntry (id : ℕ) (entry : SessionEntry) : Engine :=
  ({ s.setLoop id .ending with
      registry := s.registry.set id { entry with liveTransport := false }
    }).publishReaderSnapshot

/-- A role loop goes on. It holds a reference to its entry until it returns. The
steps on the control strand are waited out when the loop is cancelled. -/
def advanceLoop (id : ℕ) (unwinds : Bool) : Engine × List EngineEvent :=
  match s.loops[id]? with
  | none => (s, [])
  | some .ended => (s, [])
  | some p =>
    match s.registry[id]? with
    | none => (s, [.fault (.releasedLoopEntry id)])
    | some entry =>
      match p with
      | .opening => (s.setLoop id (if unwinds then .ending else .publishing), [])
      | .publishing => (s.publishEntry id entry, [])
      | .pumping => (s.setLoop id (if unwinds then .ending else .unpublishing), [])
      | .unpublishing => (s.unpublishEntry id entry, [])
      | _ => ({ s.setLoop id .ended with outstanding := s.outstanding - 1 }, [.loopEnded id])

/-! ## `Engine::stop` -/

def setStop (j : ℕ) (p : StopPhase) : Engine := { s with stops := s.stops.set j p }

/-- `stop` up to the hop to the control strand. -/
def guardStop : Engine × List EngineEvent :=
  ({ s with stops := s.stops ++ [if s.stopped then .returned else .passed] }, [])

/-- The end of a loop over the registry, at its end or behind a clear. -/
def endIteration (j k : ℕ) (next : StopPhase) (events : List EngineEvent) :
    Engine × List EngineEvent :=
  if k = s.registry.length then (s.setStop j next, events)
  else (s.setStop j .returned, [.fault (.releasedEntry j)])

/-- Step 1 at an entry: with a strand the cancellation is handed to it. -/
def noteEntry (j k : ℕ) : Engine × List EngineEvent :=
  match s.registry[k]? with
  | none => s.endIteration j k .closingTransports [.performed j .cancelAcceptScopes]
  | some entry =>
    if entry.sessionStrand then (s.setStop j (.emitting k entry.session), [])
    else (s.setStop j (.noting (k + 1)), [.performed j (.cancel k)])

def noteEngineStop (k : ℕ) : Engine :=
  { s with sessions := fun id =>
      if id = k then { s.sessions k with stopNoted := true } else s.sessions id }

/-- Step 1 on the strand of an entry. -/
def emitCancel (j k : ℕ) (session : Bool) : Engine × List EngineEvent :=
  if k < s.registry.length then
    ((if session then s.noteEngineStop k else s).setStop j (.noting (k + 1)),
      [.performed j (.cancel k)])
  else (s.setStop j .returned, [.fault (.releasedEntry j)])

/-- The entries whose transport step 2 closes. -/
def toClose : List ℕ :=
  (List.range s.registry.length).filter fun k =>
    (s.registry[k]?).any fun entry => entry.liveTransport && entry.sessionStrand

/-- Step 2: all closes are begun at once. -/
def closeTransports (j : ℕ) : Engine × List EngineEvent :=
  (s.setStop j (.joiningCloses s.toClose.length),
    s.toClose.map fun k => .performed j (.closeTransport k))

/-- Step 3: the test of the counter, with the release behind it. -/
def testLoops (j : ℕ) : Engine × List EngineEvent :=
  if s.outstanding = 0 then
    ({ s.setStop j .draining with outstandingCounter := false }, [.performed j .joinLoops])
  else (s.setStop j .awaitingLoops, [])

/-- Step 4 at an entry. -/
def closeEntry (j k : ℕ) : Engine × List EngineEvent :=
  match s.registry[k]? with
  | none => s.endIteration j k .clearing []
  | some entry =>
    if entry.session && entry.sessionStrand then (s.setStop j (.dispatching k), [])
    else (s.setStop j (.closingSessions (k + 1)), [])

def sessionClosed (k : ℕ) : Engine :=
  { s with sessions := fun id =>
      if id = k then { s.sessions k with state := .disconnected } else s.sessions id }

/-- Step 5. -/
def clearRegistry (j : ℕ) : Engine × List EngineEvent :=
  (({ s.setStop j .flushing with registry := [] }).publishReaderSnapshot, [.performed j .clear])

def advanceStop (j : ℕ) : Engine × List EngineEvent :=
  match s.stops[j]? with
  | none => (s, [])
  | some .passed => ({ s.setStop j (.noting 0) with stopped := true }, [.performed j .flag])
  | some (.noting k) => s.noteEntry j k
  | some (.emitting k session) => s.emitCancel j k session
  | some .closingTransports => s.closeTransports j
  | some (.joiningCloses pending) =>
    if pending = 0 then (s.setStop j .joiningLoops, []) else (s, [])
  | some .joiningLoops =>
    if s.outstandingCounter then s.testLoops j else (s.setStop j .draining, [])
  | some .awaitingLoops =>
    -- The pointer was tested before the wait, not behind it.
    if s.outstandingCounter then s.testLoops j
    else (s.setStop j .returned, [.fault (.releasedCounter j)])
  | some .draining =>
    if s.sendCounter = 0 then (s.setStop j (.closingSessions 0), [.performed j .drainSends])
    else (s, [])
  | some (.closingSessions k) => s.closeEntry j k
  | some (.dispatching k) => (s.setStop j (.closing k), [.performed j (.closeSession k)])
  | some (.closing k) => ((s.sessionClosed k).setStop j (.closingSessions (k + 1)), [])
  | some .clearing => s.clearRegistry j
  | some .flushing => (s.setStop j .returned, [.performed j .shutdownSinks])
  | some .returned => (s, [])

def joinClose (j : ℕ) : Engine :=
  match s.stops[j]? with
  | some (.joiningCloses pending) => s.setStop j (.joiningCloses (pending - 1))
  | _ => s

def step : Action → Engine × List EngineEvent
  | .send id => s.enrol id
  | .advance i answer => s.advanceSend i answer
  | .loop id unwinds => s.advanceLoop id unwinds
  | .transition id state =>
    ({ s with sessions := fun other =>
        if other = id then { s.sessions id with state } else s.sessions other }, [])
  | .callStop => s.guardStop
  | .stop j => s.advanceStop j
  | .transportClosed j => (s.joinClose j, [])

end Engine

end Fixpp.Model
