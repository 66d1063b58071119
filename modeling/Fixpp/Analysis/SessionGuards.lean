import Fixpp.Analysis.InboundDelivery

/-!
# What a session lets through

A message reaches `fromApp` only through the dispatch of an established session, and the session
becomes Active only behind the authorization of the peer, whose identity is the one the last
connection brought.
-/

namespace Fixpp.Analysis.SessionGuards

open Foundation Model InboundDelivery GapRecovery

def Authorized (cfg : SessionConfig) (bound : Option PeerIdentity) : Prop :=
  ∃ pid, bound = some pid ∧ cfg.compidAuthorizationPolicy.authorize pid cfg.targetCompId = true

/-- The two gates: `fromApp` needs `apps`, Active needs `admits`. -/
def guards (apps admits : Prop) : Monitor Event Unit where
  next _ _ := ()
  allows _
    | .fromApp _ => apps
    | .transition .active => admits
    | _ => True

/-- The session holds no identity but the bound one. -/
def Bound (bound : Option PeerIdentity) (_ : Unit) (s : Session) : Prop :=
  s.livePeerId = none ∨ s.livePeerId = bound

section Steps

variable {cfg : SessionConfig} {apps admits : Prop} {bound : Option PeerIdentity}

theorem ambient_bound : Ambient (guards apps admits) (fun _ => True) (Bound bound) where
  disconnected _ _ h := ⟨trivial, h⟩
  loggedOut _ _ h _ _ _ := ⟨trivial, h⟩
  closing _ _ h _ := h
  tornDown _ _ _ h _ _ := ⟨trivial, h⟩
  drained _ _ h _ _ := h
  stopped _ _ h := h
  testRequested _ _ _ h := h
  numbered _ _ _ h := h
  stored _ _ _ _ _ h _ := h
  sent _ _ _ h _ := ⟨trivial, h⟩
  observed _ _ h := ⟨trivial, h⟩

theorem uptake_bound : Uptake (guards apps admits) apps (Bound bound) (Bound bound) :=
  have hdispatch : Dispatching (guards apps admits) apps (Bound bound) :=
    { ambient_bound with
      awaiting := fun _ _ _ _ h => ⟨trivial, h⟩
      awaited := fun _ _ h => ⟨trivial, h⟩
      fromAdmin := fun _ _ _ h => ⟨trivial, h⟩
      fromApp := fun _ _ _ h happ => ⟨happ, h⟩
      passedOver := fun _ _ _ h => ⟨trivial, h⟩
      logoutSeen := fun _ _ h => h }
  { idle := hdispatch
    taken := hdispatch
    settled := fun _ _ h => h
    takeUp := fun _ _ _ _ h _ => ⟨trivial, h⟩
    persisted := fun _ _ h => h
    jumped := fun _ _ _ _ h _ => ⟨trivial, h⟩ }

def Admitted (cfg : SessionConfig) (bound : Option PeerIdentity) (m : Unit) (s : Session) : Prop :=
  Bound bound m s ∧ (cfg.mtls = true → Authorized cfg bound)

theorem halt_bound (entered : FsmState) :
    Halt (guards apps admits) (Bound bound) (Aborted (guards apps admits) entered (Bound bound))
      (Bound bound) :=
  { ambient_bound.unasking with
    ends := fun _ _ h => h
    aborts := aborted_of_ambient ambient_bound entered }

theorem halt_admitted (entered : FsmState) :
    Halt (guards apps admits) (Bound bound) (Aborted (guards apps admits) entered (Bound bound))
      (Admitted cfg bound) :=
  { (ambient_bound.and_steady (.const (cfg.mtls = true → Authorized cfg bound))).unasking with
    ends := fun _ _ h => h.1
    aborts := fun m s h => aborted_of_ambient ambient_bound entered m s h.1 }

theorem admitted_of_authorized {m : Unit} {s : Session} {pid : PeerIdentity} (h : Bound bound m s)
    (hid : s.livePeerId = some pid)
    (hauth : cfg.compidAuthorizationPolicy.authorize pid cfg.targetCompId = true) :
    Admitted cfg bound m { s with livePeerId := none } := by
  refine ⟨.inl rfl, fun _ => ⟨pid, ?_, hauth⟩⟩
  rcases h with hnone | hbound
  · rw [hnone] at hid
    cases hid
  · exact hbound.symm.trans hid

theorem acceptorOutline (hadmits : (cfg.mtls = true → Authorized cfg bound) → admits) (f : Frame) :
    AcceptorOutline (guards apps admits) cfg f (fun _ => True) (fun _ => True) (Bound bound)
      (Aborted (guards apps admits) .notConnected (Bound bound))
      { start := Bound bound, seen := fun _ => Bound bound, hydrated := Bound bound
        timely := Bound bound, resetting := Bound bound, ready := Bound bound
        taken := fun _ => Bound bound, authorized := fun _ => Admitted cfg bound
        received := fun _ => Admitted cfg bound, unit := fun _ => Admitted cfg bound
        answered := fun _ => Admitted cfg bound, active := fun _ => Admitted cfg bound } where
  start := halt_bound _
  answers _ _ _ _ _ := trivial
  kept _ _ h _ := h.1
  read _ _ h := h
  seen _ := (halt_bound _).stage _
  seeded _ _ _ _ _ h := ⟨trivial, h⟩
  hydrated := (halt_bound _).stage _
  checked _ _ _ _ h := h
  timely := (halt_bound _).stage _
  knob _ _ _ h := ⟨trivial, h⟩
  resetting := (halt_bound _).stage _
  knobStored _ _ h := h
  unreset _ _ _ h := h
  ready := (halt_bound _).stage _
  takeUp _ _ _ h _ := ⟨trivial, h.1⟩
  tolerated _ _ _ h _ := h.1
  taken _ := (halt_bound _).stage _
  consumed _ _ _ _ := .inl rfl
  unguarded hno _ _ _ h := ⟨h, fun hmtls => absurd hmtls (by simp [hno])⟩
  guarded _ _ _ _ _ h hid hauth := admitted_of_authorized h hid hauth
  authorized _ := (halt_admitted _).stage _
  recorded _ _ _ h := ⟨trivial, h.1⟩
  received _ := (halt_admitted _).stage _
  unitManager _ _ _ _ _ h := ⟨trivial, h⟩
  unit _ := (halt_admitted _).stage _
  unitStored _ _ _ h := h
  unitVolatile _ _ _ _ h := h
  noUnit _ _ _ _ h := h
  answered _ := halt_admitted _
  activated _ _ _ h := ⟨hadmits h.1.2, h.1⟩
  active _ := halt_admitted _
  persisted _ _ _ _ h := h.1

theorem initiatorOutline (hadmits : (cfg.mtls = true → Authorized cfg bound) → admits) (f : Frame) :
    InitiatorOutline (guards apps admits) cfg f (fun _ => True) (fun _ => True) (Bound bound)
      (Aborted (guards apps admits) .logonSent (Bound bound))
      { start := Bound bound, timely := Bound bound, taken := fun _ => Bound bound
        versioned := fun _ => Bound bound, unit := fun _ => Bound bound
        confirmed := fun _ => Bound bound, authorized := fun _ => Admitted cfg bound
        active := fun _ => Admitted cfg bound } where
  start := halt_bound _
  answers _ _ := trivial
  checked _ _ _ _ h := h
  timely := (halt_bound _).stage _
  takeUp _ _ _ h _ := ⟨trivial, h.1⟩
  tolerated _ _ _ h _ := h.1
  taken _ := (halt_bound _).stage _
  passed _ _ _ _ h := h
  versioned _ := (halt_bound _).stage _
  flagged _ _ _ h := h
  unitManager _ _ _ _ _ h := ⟨trivial, h⟩
  between _ := ambient_bound.unasking
  unit _ _ := (halt_bound _).stage _
  unitStored _ _ _ _ h := h
  unitVolatile _ _ _ _ h := h
  noUnit _ _ _ _ h := h
  confirmed _ := (halt_bound _).stage _
  consumed _ _ _ _ := .inl rfl
  unguarded hno _ _ _ h := ⟨h, fun hmtls => absurd hmtls (by simp [hno])⟩
  guarded _ _ _ _ _ h hid hauth := admitted_of_authorized h hid hauth
  authorized _ := halt_admitted _
  activated _ _ _ h := ⟨hadmits h.1.2, h.1⟩
  active _ := halt_admitted _
  persisted _ _ _ _ h := h.1

theorem connectOutline : ConnectOutline (guards apps admits) cfg (Bound bound)
      (Aborted (guards apps admits) .active (Bound bound))
      { dialing := Bound bound, seen := fun _ => Bound bound, hydrated := Bound bound
        resetting := Bound bound, ready := Bound bound } where
  dialing := (halt_bound _).stage _
  kept _ _ h _ := h
  read _ _ h := h
  seen _ := (halt_bound _).stage _
  seeded _ _ _ _ _ h := ⟨trivial, h⟩
  hydrated := (halt_bound _).stage _
  knob _ _ _ h := ⟨trivial, h⟩
  resetting := (halt_bound _).stage _
  knobStored _ _ h := h
  unreset _ _ _ h := h
  ready := halt_bound _
  flagged _ _ _ h := h

/-- A frame passes the gates; it reaches `fromApp` only in an established session with
an application, and only when the classifier takes it for an application message. -/
theorem ends_frame (hadmits : (cfg.mtls = true → Authorized cfg bound) → admits) {f : Frame}
    {s : Session}
    (happ : s.up = true → cfg.application = true → isAdminMsgtype f.header.msgType = false → apps) :
    EndsIn (guards apps admits) (fun _ => True) (fun m s' => Bound bound m s' ∧ s' = s)
      (Bound bound) (Bound bound) (onInboundFrame cfg f) := by
  have hforget : ∀ {x : Handler Outcome} {E : Assertion Unit},
      EndsIn (guards apps admits) (fun _ => True) (Bound bound) (Bound bound) E x →
        EndsIn (guards apps admits) (fun _ => True) (fun m s' => Bound bound m s' ∧ s' = s)
          (Bound bound) E x := fun hx =>
    .pre hx fun _ _ h => ⟨h.1.1, h.2⟩
  exact ends_frame_of_arms ambient_bound
    (fun hup => hforget (uptake_bound.onInboundActive (happ hup)).spec)
    (fun _ => hforget (acceptorOutline hadmits f).onInboundNotConnected)
    fun _ => hforget (initiatorOutline hadmits f).onInboundLogonSent

end Steps

/-! ## The peer behind an Active session -/

/-- The identity an entry of a run installs, when it installs a connection. -/
def installed (e : Entry) : Option (Option PeerIdentity) :=
  match e.step.input with
  | .accept identity => if e.before.fsm = .notConnected then some identity else none
  | .reconnect identity => if e.before.lifecycle = .opened then some identity else none
  | _ => none

/-- The identity of the last connection of a run, `first` before there is one. -/
def lastIdentity (first : Option PeerIdentity) (entries : List Entry) : Option PeerIdentity :=
  entries.foldl (fun bound e => (installed e).getD bound) first

/-- Step lemma: behind a step the session holds no identity but that of the last
connection, and it became Active only in a frame, for an authorized identity. -/
theorem entry_bound {cfg : SessionConfig} (hmtls : cfg.mtls = true) {bound : Option PeerIdentity}
    {e : Entry} (hs : Bound bound () e.before) (hevents : e.events = (step cfg e.before e.step).2)
    (hafter : e.after = (step cfg e.before e.step).1) :
    Bound ((installed e).getD bound) () e.after ∧ (Event.transition .active ∈ e.events →
        (∃ f, e.step.input = .frame f) ∧ Authorized cfg bound) := by
  -- the other steps never make the session Active
  have hquiet : ∀ {b : Option PeerIdentity},
      EndsIn (guards True False) (fun _ => True) (fun m s => Bound bound m s ∧ s = e.before)
        (Bound b) (Bound b) (e.step.input.program cfg) →
      Bound b () e.after ∧ (.transition .active ∈ e.events →
        (∃ f, e.step.input = .frame f) ∧ Authorized cfg bound) := by
    intro b hprogram
    obtain ⟨hacc, hV⟩ := hprogram.step ⟨hs, rfl⟩ trivial
    rw [hevents, hafter]
    exact ⟨hV, fun hmem => (Monitor.allows_of_mem hacc hmem).elim⟩
  have hkeep : EndsIn (guards True False) (fun _ => True)
      (fun m s => Bound bound m s ∧ s = e.before) (Bound bound) (Bound bound)
      (pure (.ok ()) : Handler Outcome) := .pure _ fun _ _ h => h.1.1
  cases hinput : e.step.input with
  | frame f =>
    have hprogram : EndsIn (guards True (Authorized cfg bound)) (fun _ => True)
        (fun m s => Bound bound m s ∧ s = e.before) (Bound bound) (Bound bound)
        (e.step.input.program cfg) := by
      rw [hinput]
      exact ends_frame (fun h => h hmtls) fun _ _ _ => trivial
    obtain ⟨hacc, hV⟩ := hprogram.step ⟨hs, rfl⟩ trivial
    have hsame : (installed e).getD bound = bound := by simp [installed, hinput]
    rw [hsame, hevents, hafter]
    exact ⟨hV, fun hmem => ⟨⟨f, rfl⟩, Monitor.allows_of_mem hacc hmem⟩⟩
  | accept identity =>
    rw [← hinput]
    refine hquiet ?_
    rw [hinput]
    refine .reading ?_
    by_cases hfsm : e.before.fsm = .notConnected
    · have hnew : (installed e).getD bound = identity := by simp [installed, hinput, hfsm]
      rw [hnew, if_pos hfsm]
      exact ends_accept identity fun _ _ _ => ⟨trivial, .inr rfl⟩
    have hold : (installed e).getD bound = bound := by simp [installed, hinput, hfsm]
    rw [hold, if_neg hfsm]
    exact hkeep
  | reconnect identity =>
    rw [← hinput]
    refine hquiet ?_
    rw [hinput]
    refine .reading ?_
    by_cases hopen : e.before.lifecycle = .opened
    · have hnew : (installed e).getD bound = identity := by simp [installed, hinput, hopen]
      rw [hnew, if_pos hopen]
      refine (ends_driveReconnect connectOutline identity (C := Bound identity)
        (fun _ _ _ => ⟨trivial, .inr rfl⟩) fun _ _ h => ⟨trivial, h⟩).spec
    · have hold : (installed e).getD bound = bound := by simp [installed, hinput, hopen]
      rw [hold, if_neg hopen]
      exact hkeep
  | env act =>
    have hsame : (installed e).getD bound = bound := by simp [installed, hinput]
    rw [← hinput, hsame]
    refine hquiet ?_
    rw [hinput]
    exact ends_env ambient_bound cfg act fun _ _ h => h.1

/-- Run lemma: with a mutual-TLS profile, the session becomes Active only in a frame, and the policy
authorizes the configured CompID for the identity the handshake of the last connection bound. -/
theorem active_behind_authorized_identity (cfg : SessionConfig) (hmtls : cfg.mtls = true)
    (s : Session) (hs : s.livePeerId = none) (steps : List Step) (before after : List Entry)
    (e : Entry) (hrun : history cfg s steps = before ++ e :: after)
    (hactive : Event.transition .active ∈ e.events) :
    (∃ f, e.step.input = .frame f) ∧ ∃ pid, lastIdentity none before = some pid ∧
        cfg.compidAuthorizationPolicy.authorize pid cfg.targetCompId = true := by
  suffices hgeneral : ∀ (first : Option PeerIdentity) (s : Session) (steps : List Step)
      (before : List Entry), Bound first () s → history cfg s steps = before ++ e :: after →
      (∃ f, e.step.input = .frame f) ∧ Authorized cfg (lastIdentity first before) from
    hgeneral none s steps before (.inl hs) hrun
  intro first s steps before
  -- the identity of the last connection is carried along the entries in front of `e`
  induction before generalizing first s steps with
  | nil =>
    intro hbound hsplit
    cases steps with
    | nil => cases hsplit
    | cons t rest =>
      obtain ⟨rfl, -⟩ := List.cons.inj hsplit
      exact (entry_bound hmtls hbound rfl rfl).2 hactive
  | cons d before ih =>
    intro hbound hsplit
    cases steps with
    | nil => cases hsplit
    | cons t rest =>
      obtain ⟨rfl, htail⟩ := List.cons.inj hsplit
      exact ih _ _ rest (entry_bound hmtls hbound rfl rfl).1 htail

def named (cn : String) : PeerIdentity := { subjectDn := ascii ("CN=" ++ cn) }

/-- A session that only `ACME` may log on to, as the CompID it is configured for. -/
def guarded (mtls : Bool) : SessionConfig :=
  { mtls := mtls, compidAuthorizationPolicy := { bindings := [(ascii "ACME", ascii "PEER")] } }

theorem active_behind_authorized_identity_acme :
    let accepted : Step := { input := .accept (some (named "ACME")) }
    let connected := (step (guarded true) {} accepted).1
    let logon := frameStep (peerLogon "34=1")
    .transition .active ∈ (step (guarded true) connected logon).2 ∧ ∃ pid, lastIdentity none
          [{ before := {}, step := accepted, events := [.connected], after := connected }] = some pid ∧
        (guarded true).compidAuthorizationPolicy.authorize pid (guarded true).targetCompId = true :=
  ⟨by decide, (active_behind_authorized_identity (guarded true) rfl {} rfl
    [{ input := .accept (some (named "ACME")) }, frameStep (peerLogon "34=1")] _ []
    { before := (step (guarded true) {} { input := .accept (some (named "ACME")) }).1
      step := frameStep (peerLogon "34=1")
      events := (step (guarded true)
        (step (guarded true) {} { input := .accept (some (named "ACME")) }).1
        (frameStep (peerLogon "34=1"))).2
      after := (step (guarded true)
        (step (guarded true) {} { input := .accept (some (named "ACME")) }).1
        (frameStep (peerLogon "34=1"))).1 } rfl (by decide)).2⟩

/-- Without mutual TLS the policy is not asked: a peer it does not know becomes the
counterparty of an Active session. -/
theorem active_without_authorization :
    Event.transition .active ∈ eventsOf (history (guarded false) {}
      [{ input := .accept (some (named "EVE")) }, frameStep (peerLogon "34=1")]) ∧
      (guarded false).compidAuthorizationPolicy.authorize (named "EVE")
        (guarded false).targetCompId = false := by
  decide

/-! ## What reaches the application -/

def sessionLevel (msgType : Bytes) : Bool :=
  msgType ∈ [ascii "0", ascii "1", ascii "2", ascii "3", ascii "4", ascii "5", ascii "A"]

/-- In a run in which no Logon reaches an established session with an application, no
frame with a session-level type is handed to `fromApp`. -/
theorem session_messages_stay (cfg : SessionConfig) (s : Session) (steps : List Step)
    (hlogon : ∀ e ∈ history cfg s steps, ∀ f, e.step.input = .frame f → e.before.up = true →
      cfg.application = true → f.header.msgType ≠ ascii "A") :
    ∀ e ∈ history cfg s steps, ∀ f, e.step.input = .frame f → ∀ seq,
      Event.fromApp seq ∈ e.events → sessionLevel f.header.msgType = false := by
  intro e he f hf seq hmem
  have hprogram : EndsIn (guards (sessionLevel f.header.msgType = false) True) (fun _ => True)
      (fun m s' => Bound e.before.livePeerId m s' ∧ s' = e.before) (Bound e.before.livePeerId)
      (Bound e.before.livePeerId) (e.step.input.program cfg) := by
    rw [hf]
    refine ends_frame (fun _ => trivial) fun hup happ hadmin => ?_
    -- the classifier knows the session-level types but the Logon
    have hnot := hlogon e he f hf hup happ
    simp only [isAdminMsgtype, List.mem_cons, decide_eq_false_iff_not, not_or] at hadmin
    simp [sessionLevel, hadmin, hnot]
  obtain ⟨hacc, -⟩ := hprogram.step ⟨.inr rfl, rfl⟩ trivial
  rw [(mem_history he).1] at hmem
  exact Monitor.allows_of_mem hacc hmem

theorem session_messages_stay_order :
    Event.fromApp 5 ∈ (step {} expectsFive (frameStep (order "34=5"))).2 ∧
      sessionLevel (Frame.header { bytes := fieldsOf (order "34=5") }).msgType = false := by
  refine ⟨by decide, session_messages_stay {} expectsFive [frameStep (order "34=5")] ?_
    { before := expectsFive, step := frameStep (order "34=5")
      events := (step {} expectsFive (frameStep (order "34=5"))).2
      after := (step {} expectsFive (frameStep (order "34=5"))).1 } (List.mem_cons_self ..)
    { bytes := fieldsOf (order "34=5") } rfl 5 (by decide)⟩
  intro e he f hf _ _
  obtain rfl | he := List.mem_cons.mp he
  · cases hf
    decide
  · cases he

/-- A second Logon of an Active session, at the expected number, is handed to
`fromApp`. -/
theorem second_logon_reaches_fromApp :
    sessionLevel (Frame.header { bytes := fieldsOf (peerLogon "34=5") }).msgType = true ∧
      (step {} expectsFive (frameStep (peerLogon "34=5"))).2 = [.takeUp 5, .fromApp 5] := by
  decide

end Fixpp.Analysis.SessionGuards
