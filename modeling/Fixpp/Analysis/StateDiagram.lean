import Fixpp.Analysis.SessionOutline

/-!
# The diagram of session states

Every state a session records follows from the one before it, whatever the handlers wait for and
whoever acts meanwhile. So a session becomes Active only out of a Logon exchange, and one that has
ended comes back only by a new connection.
-/

namespace Fixpp.Analysis.StateDiagram

open Foundation Model

/-- The diagram: any state may end, and a new connection may be dialed in any. -/
inductive Edge : FsmState → FsmState → Prop
  | ended (a : FsmState) : Edge a .disconnected
  | dialed (a : FsmState) : Edge a .logonSent
  | received : Edge .notConnected .logonReceived
  | accepted : Edge .logonReceived .active
  | confirmed : Edge .logonSent .active
  | loggedOut {a : FsmState} (hconnected : a ≠ .notConnected) (hlogon : a ≠ .logonSent) :
      Edge a .logoutSent

/-- The observer holds the state recorded last. -/
def diagram : Monitor Event FsmState where
  next
    | _, .transition st => st
    | m, _ => m
  allows
    | m, .transition st => Edge m st
    | _, _ => True

/-- The session is in the state the observer has seen. -/
def At (m : FsmState) (s : Session) : Prop := s.fsm = m

variable {cfg : SessionConfig} {arm entered : FsmState}

theorem ambient_at : Ambient diagram (fun _ => True) At where
  disconnected m _ _ := ⟨.ended m, rfl⟩
  loggedOut _ _ h _ hn hl := ⟨.loggedOut (h ▸ hn) (h ▸ hl), rfl⟩
  closing _ _ h _ := h
  tornDown _ _ _ h _ _ := ⟨trivial, h⟩
  drained _ _ h _ _ := h
  stopped _ _ h := h
  testRequested _ _ _ h := h
  numbered _ _ _ h := h
  stored _ _ _ _ _ h _ := h
  sent _ _ _ h _ := ⟨trivial, h⟩
  observed _ _ h := ⟨trivial, h⟩

theorem uptake_at : Uptake diagram True At At :=
  have hdispatch : Dispatching diagram True At :=
    { ambient_at with
      awaiting := fun _ _ _ _ h => ⟨trivial, h⟩
      awaited := fun _ _ h => ⟨trivial, h⟩
      fromAdmin := fun _ _ _ h => ⟨trivial, h⟩
      fromApp := fun _ _ _ h _ => ⟨trivial, h⟩
      passedOver := fun _ _ _ h => ⟨trivial, h⟩
      logoutSeen := fun _ _ h => h }
  { idle := hdispatch
    taken := hdispatch
    settled := fun _ _ h => h
    takeUp := fun _ _ _ _ h _ => ⟨trivial, h⟩
    persisted := fun _ _ h => h
    jumped := fun _ _ _ _ h _ => ⟨trivial, h⟩ }

theorem halt_at : Halt diagram At (Aborted diagram entered At) At :=
  { ambient_at.unasking with
    ends := fun _ _ h => h
    aborts := aborted_of_ambient ambient_at entered }

/-- An arm that goes on is in its own state, and leaves it by an edge. -/
theorem leads_transition {st : FsmState} (h : Edge arm st) : Leads diagram (Proceeding arm At)
    (fun s => { s with fsm := st }) (.transition st) At := by
  rintro m s ⟨rfl, hgoes⟩
  have harm : s.fsm = arm := by
    simp only [Session.logonArmSuperseded, Bool.or_eq_false_iff, decide_eq_false_iff_not] at hgoes
    exact not_not.mp hgoes.2
  rw [harm]
  exact ⟨h, rfl⟩

theorem acceptorOutline (f : Frame) :
    AcceptorOutline diagram cfg f (fun _ => True) (fun _ => True) At
      (Aborted diagram .notConnected At)
      ⟨At, fun _ => At, At, At, At, At, fun _ => At, fun _ => At, fun _ => At, fun _ => At,
        fun _ => At, fun _ => At⟩ where
  start := halt_at
  answers _ _ _ _ _ := trivial
  kept _ _ h _ := h.1
  read _ _ h := h
  seen _ := halt_at.stage _
  seeded _ _ _ _ _ h := ⟨trivial, h⟩
  hydrated := halt_at.stage _
  checked _ _ _ _ h := h
  timely := halt_at.stage _
  knob _ _ _ h := ⟨trivial, h⟩
  resetting := halt_at.stage _
  knobStored _ _ h := h
  unreset _ _ _ h := h
  ready := halt_at.stage _
  takeUp _ _ _ h _ := ⟨trivial, h.1⟩
  tolerated _ _ _ h _ := h.1
  taken _ := halt_at.stage _
  consumed _ _ _ h := h
  unguarded _ _ _ _ h := h
  guarded _ _ _ _ _ h _ _ := h
  authorized _ := halt_at.stage _
  recorded _ := leads_transition .received
  received _ := halt_at.stage _
  unitManager _ _ _ _ _ h := ⟨trivial, h⟩
  unit _ := halt_at.stage _
  unitStored _ _ _ h := h
  unitVolatile _ _ _ _ h := h
  noUnit _ _ _ _ h := h
  answered _ := halt_at
  activated _ := leads_transition .accepted
  active _ := halt_at
  persisted _ _ _ _ h := h

theorem initiatorOutline (f : Frame) :
    InitiatorOutline diagram cfg f (fun _ => True) (fun _ => True) At (Aborted diagram .logonSent At)
      ⟨At, At, fun _ => At, fun _ => At, fun _ => At, fun _ => At, fun _ => At, fun _ => At⟩ where
  start := halt_at
  answers _ _ := trivial
  checked _ _ _ _ h := h
  timely := halt_at.stage _
  takeUp _ _ _ h _ := ⟨trivial, h.1⟩
  tolerated _ _ _ h _ := h.1
  taken _ := halt_at.stage _
  passed _ _ _ _ h := h
  versioned _ := halt_at.stage _
  flagged _ _ _ h := h
  unitManager _ _ _ _ _ h := ⟨trivial, h⟩
  between _ := ambient_at.unasking
  unit _ _ := halt_at.stage _
  unitStored _ _ _ _ h := h
  unitVolatile _ _ _ _ h := h
  noUnit _ _ _ _ h := h
  confirmed _ := halt_at.stage _
  consumed _ _ _ h := h
  unguarded _ _ _ _ h := h
  guarded _ _ _ _ _ h _ _ := h
  authorized _ := halt_at
  activated _ := leads_transition .confirmed
  active _ := halt_at
  persisted _ _ _ _ h := h

theorem connectOutline : ConnectOutline diagram cfg At (Aborted diagram .active At)
      ⟨At, fun _ => At, At, At, At⟩ where
  dialing := halt_at.stage _
  kept _ _ h _ := h
  read _ _ h := h
  seen _ := halt_at.stage _
  seeded _ _ _ _ _ h := ⟨trivial, h⟩
  hydrated := halt_at.stage _
  knob _ _ _ h := ⟨trivial, h⟩
  resetting := halt_at.stage _
  knobStored _ _ h := h
  unreset _ _ _ h := h
  ready := halt_at
  flagged _ _ _ h := h

theorem ends_program (input : Input) (s : Session) : EndsIn diagram (fun _ => True)
    (fun m s' => At m s' ∧ s' = s) At At (input.program cfg) := by
  have hforget : ∀ {x : Handler Outcome} {E : Assertion FsmState},
      EndsIn diagram (fun _ => True) At At E x →
        EndsIn diagram (fun _ => True) (fun m s' => At m s' ∧ s' = s) At E x := by
    intro x E hx
    exact .pre hx fun _ _ h => ⟨h.1.1, h.2⟩
  cases input with
  | frame f =>
    exact ends_frame_of_arms ambient_at
      (fun _ => hforget (uptake_at.onInboundActive fun _ _ => trivial).spec)
      (fun _ => hforget (acceptorOutline f).onInboundNotConnected)
      fun _ => hforget (initiatorOutline f).onInboundLogonSent
  | accept identity =>
    apply EndsIn.reading
    split
    · exact ends_accept identity fun _ _ h => ⟨trivial, h.1⟩
    · exact .pure _ fun _ _ h => h.1.1
  | reconnect identity =>
    apply EndsIn.reading
    split
    · exact (ends_driveReconnect connectOutline identity (C := At) (fun _ _ h => ⟨trivial, h.1⟩)
        fun m _ _ => ⟨.dialed m, rfl⟩).spec
    · exact .pure _ fun _ _ h => h.1.1
  | env act => exact ends_env ambient_at cfg act fun _ _ h => h.1

/-- Every state recorded in a run follows by an edge from the one recorded before it, and the
session is in the state recorded last. -/
theorem states_follow_diagram (cfg : SessionConfig) (s : Session) (steps : List Step) :
    diagram.Accepts s.fsm (eventsOf (history cfg s steps)) ∧
      (steps.foldl (fun s t => (step cfg s t).1) s).fsm =
        diagram.run s.fsm (eventsOf (history cfg s steps)) := by
  induction steps generalizing s with
  | nil => exact ⟨trivial, rfl⟩
  | cons t steps ih =>
    obtain ⟨hfirst, hat⟩ := (ends_program t.input s).step ⟨rfl, rfl⟩ trivial
    obtain ⟨hrest, hlast⟩ := ih (step cfg s t).1
    rw [hat] at hrest hlast
    have hevents : eventsOf (history cfg s (t :: steps)) =
        (step cfg s t).2 ++ eventsOf (history cfg (step cfg s t).1 steps) := rfl
    rw [hevents, Monitor.accepts_append, Monitor.run_append]
    exact ⟨⟨hfirst, hrest⟩, hlast⟩

end Fixpp.Analysis.StateDiagram
