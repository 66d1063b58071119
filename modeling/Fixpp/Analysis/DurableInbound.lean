import Fixpp.Analysis.InboundDelivery

/-!
# The durable inbound counter

A session with a persistent store counts the messages it took up twice: in the live manager and,
behind every frame, in the store, which may lag behind but must not be ahead. `Sane` says so.
An initiator comes back with the next connection, so a reset its peer asked for has to reach the
store.
-/

namespace Fixpp.Analysis.DurableInbound

open Foundation Model InboundDelivery GapRecovery List Session

variable {k j : ℕ} {avoided : List FsmState} {V : Session → Prop}

/-- The store is at least `k` numbers behind, or the session was closed. -/
def Sane (k : ℕ) (s : Session) : Prop := Torn s ∨ durable s + k ≤ s.seqnums.nextInbound

def Drained (s : Session) : Prop := s.lifecycle = .closedDrained → s.down = true

/-- Whoever looks at an Active session finds the store not ahead. -/
def watch : Monitor Event Unit where
  next _ _ := ()
  allows _
    | .observed s => s.fsm = .active → durable s ≤ s.seqnums.nextInbound
    | _ => True

/-! ## What survives a wait -/

variable {s : Session} {A : Session → Prop} {arm entered : FsmState} {cfg : SessionConfig}

theorem Sane.le (h : Sane k s) (hs : s.down = false) : durable s + k ≤ s.seqnums.nextInbound := by
  obtain ⟨-, hdown⟩ | hle := h
  · rw [hs] at hdown
    cases hdown
  · exact hle

theorem Sane.mono (h : Sane k s) (hjk : j ≤ k) : Sane j s :=
  h.imp_right fun hle => by omega

theorem Sane.step {s' : Session} (h : Sane j s) (hfsm : s'.fsm = s.fsm)
    (hlife : s'.lifecycle = s.lifecycle)
    (hle : durable s + j ≤ s.seqnums.nextInbound → durable s' + k ≤ s'.seqnums.nextInbound) :
    Sane k s' := by
  refine h.imp (fun ht => ?_) hle
  unfold Torn down at ht ⊢
  rwa [hfsm, hlife]

theorem steady_drained : Steady Drained := by
  intro s s' hd h
  cases hd with
  | disconnected => exact fun _ => rfl
  | loggedOut => exact fun _ => rfl
  | closing => exact fun hc => by cases hc
  | drained _ hdown => exact fun _ => hdown
  | _ => exact h

theorem steady_fsm {F : FsmState → Prop} (hdisc : F .disconnected) (hlogout : F .logoutSent) :
    Steady fun s => F s.fsm := by
  intro s s' hd h
  cases hd with
  | disconnected => exact hdisc
  | loggedOut => exact hlogout
  | _ => exact h

theorem steady_sane (k : ℕ) : Steady (Sane k) := steady_counters fun d n => d + k ≤ n

/-- `A` holds, in none of the given states. -/
def Within (avoided : List FsmState) (A : Session → Prop) (s : Session) : Prop :=
  Drained s ∧ s.fsm ∉ avoided ∧ A s

theorem steady_within (hA : Steady A) (hdisc : .disconnected ∉ avoided)
    (hlogout : .logoutSent ∉ avoided) : Steady (Within avoided A) :=
  steady_drained.and ((steady_fsm (F := (· ∉ avoided)) hdisc hlogout).and hA)

theorem ambient_of_steady (hA : Steady A)
    (hobs : ∀ s, A s → s.fsm = .active → durable s ≤ s.seqnums.nextInbound) :
    Ambient watch (fun _ => True) (fun _ s => A s) where
  disconnected _ s h := ⟨trivial, hA s _ .disconnected h⟩
  loggedOut _ s h hc hn hl := ⟨trivial, hA s _ (.loggedOut hc hn hl) h⟩
  closing _ s h ho := hA s _ (.closing ho) h
  tornDown _ s stored h hc hdown := ⟨trivial, hA s _ (.tornDown stored hc hdown) h⟩
  drained _ s h hc hdown := hA s _ (.drained hc hdown) h
  stopped _ s h := hA s _ .stopped h
  testRequested _ s id h := hA s _ (.testRequested id) h
  numbered _ s next h := hA s _ (.numbered next) h
  stored _ s seq bytes st h hst := hA s _ (.stored seq bytes st hst) h
  sent _ _ _ h _ := ⟨trivial, h⟩
  observed _ s h := ⟨hobs s h, h⟩

/-- The arm cannot be going on: the session left its state or is ending. -/
def Left (arm : FsmState) (s : Session) : Prop :=
  s.fsm ≠ arm ∨ s.lifecycle ≠ .opened ∨ s.engineStopRequested = true

theorem not_left (hfsm : s.fsm = arm) (hopen : s.lifecycle = .opened)
    (hstop : s.engineStopRequested = false) : ¬Left arm s := by
  simp [Left, hfsm, hopen, hstop]

theorem left_of_superseded (h : s.logonArmSuperseded arm = true) : Left arm s := by
  simp only [logonArmSuperseded, Bool.or_eq_true, decide_eq_true_eq] at h
  obtain (hc | hstop) | hfsm := h
  · exact .inr (.inl (by rw [hc]; exact nofun))
  · exact .inr (.inr hstop)
  · exact .inl hfsm

theorem left_of_entrySuperseded (h : entrySuperseded s entered = true) : Left arm s := by
  simp only [entrySuperseded, Bool.and_eq_true, Bool.or_eq_true, decide_eq_true_eq] at h
  exact .inr h.2

/-- A place of a Logon arm: what holds there is enough once the arm cannot go on. -/
theorem stage_of_steady (hA : Steady A) (harm : arm ≠ .disconnected)
    (hobs : ∀ s, A s → s.fsm = .active → durable s ≤ s.seqnums.nextInbound)
    (hends : ∀ s, A s → Left arm s → V s) :
    Stage watch arm (fun _ s => V s) (Aborted watch entered fun _ s => V s) (fun _ s => A s) :=
  { (ambient_of_steady hA hobs).unasking with
    ends := by
      rintro m s h (hdown | hsup)
      · exact hends s h (.inl (by rw [hdown]; exact harm.symm))
      · exact hends s h (left_of_superseded hsup)
    aborts := by
      intro m s h
      unfold Aborted
      split
      · exact ⟨trivial, hends _ (hA s _ .disconnected h) (.inl harm.symm)⟩
      rename_i hno
      by_cases hdown : s.fsm = .disconnected
      · exact hends s h (.inl (by rw [hdown]; exact harm.symm))
      cases hsup : entrySuperseded s entered with
      | true => exact hends s h (left_of_entrySuperseded hsup)
      | false => exact absurd ⟨hsup, hdown⟩ hno }

theorem halt_of_steady (hA : Steady A)
    (hobs : ∀ s, A s → s.fsm = .active → durable s ≤ s.seqnums.nextInbound) (hends : ∀ s, A s → V s) :
    Halt watch (fun _ s => V s) (Aborted watch entered fun _ s => V s) (fun _ s => A s) :=
  { (ambient_of_steady hA hobs).unasking with
    ends := fun _ s h => hends s h
    aborts := (stage_of_steady hA (nofun : FsmState.notConnected ≠ .disconnected) hobs
      fun s h _ => hends s h).aborts }

theorem open_of_proceeding (hs : Drained s) (h : s.logonArmSuperseded arm = false)
    (harm : arm ≠ .disconnected ∧ arm ≠ .logoutSent) :
    s.fsm = arm ∧ s.lifecycle = .opened ∧ s.engineStopRequested = false ∧ s.down = false := by
  simp only [logonArmSuperseded, Bool.or_eq_false_iff, decide_eq_false_iff_not,
    not_not] at h
  obtain ⟨⟨hclosing, hstop⟩, hfsm⟩ := h
  have hup : s.down = false := by simp [down, hfsm, harm]
  refine ⟨hfsm, ?_, hstop, hup⟩
  cases hlife : s.lifecycle with
  | opened => rfl
  | closing => exact absurd hlife hclosing
  | closedDrained =>
    have hdown := hs hlife
    rw [hup] at hdown
    cases hdown

theorem hydrated_of_not_hydrates {force : Bool} (hstore : cfg.storeIsPersistent = true)
    (h : hydrates cfg force s = false) : s.hydrated = true ∧ force = false := by
  simpa [hydrates, hstore] using h

/-! ## What moves the counters -/

theorem durable_storeReset (n out : ℕ) (h : 0 < n) (s : Session) :
    durable (storeReset n out h s) ≤ n := by
  unfold durable storeReset
  cases s.store with
  | none => exact h
  | some st => exact Nat.le_refl n

theorem durable_incremented (s : Session) :
    durable { s with store := s.store.map MessageStore.incrementInbound } ≤ durable s + 1 := by
  unfold durable
  cases hst : s.store with
  | none => simp
  | some st => simp [MessageStore.incrementInbound]

theorem sane_storeReset {n out : ℕ} (h : 0 < n) (hs : Torn s ∨ s.seqnums.nextInbound = n) :
    Sane 0 (storeReset n out h s) := by
  refine hs.imp id fun hlive => ?_
  have hle := durable_storeReset n out h s
  show durable (storeReset n out h s) + 0 ≤ s.seqnums.nextInbound
  omega

theorem sane_takeUp {seq : ℕ} {counters : SeqnumManager} (h : Sane 0 s)
    (hcheck : s.seqnums.checkInbound seq = .ok counters) :
    Sane 1 { s with seqnums := counters } := by
  obtain ⟨hseq, hnext⟩ := SeqnumManager.checkInbound_ok hcheck
  refine h.step rfl rfl fun hle => ?_
  show durable s + 1 ≤ counters.nextInbound
  omega

theorem sane_persisted (h : Sane 1 s) :
    Sane 0 { s with store := s.store.map MessageStore.incrementInbound } := by
  refine h.step rfl rfl fun hle => ?_
  have hinc := durable_incremented s
  exact Nat.le_trans hinc hle

theorem sane_seeded {st : MessageStore} {next : ℕ} (h : Torn s ∨ durable s = st.nextInbound) :
    Sane 0 (seededWith st next s) :=
  h.imp id fun hst => Nat.le_of_eq hst

/-- An established session: `A k` says how far the store is behind. -/
theorem uptake_within {A : ℕ → Session → Prop} (hsteady : ∀ k, Steady (Within avoided (A k)))
    (hsane : ∀ k s, A k s → s.fsm = .active → Sane k s)
    (hstep : ∀ j k s s', A j s → s'.fsm = s.fsm → s'.lifecycle = s.lifecycle →
      (Sane j s → Sane k s') → A k s') :
    Uptake watch True (fun _ s => Within avoided (A 0) s) (fun _ s => Within avoided (A 1) s) :=
  have hother : ∀ {j k : ℕ} {s s' : Session}, Within avoided (A j) s → s'.fsm = s.fsm →
      s'.lifecycle = s.lifecycle → (Sane j s → Sane k s') → Within avoided (A k) s' := by
    rintro j k s s' ⟨hdrained, hfsm, hA⟩ hfsm' hlife hk
    refine ⟨?_, by rwa [hfsm'], hstep j k s s' hA hfsm' hlife hk⟩
    unfold Drained down at hdrained ⊢
    rwa [hfsm', hlife]
  have hdispatch : ∀ k, Dispatching watch True (fun _ s => Within avoided (A k) s) := fun k =>
    { ambient_of_steady (hsteady k) fun s h hactive => by
        have hle := (hsane k s h.2.2 hactive).le (by simp [down, hactive])
        omega with
      awaiting := fun _ s b e h => ⟨trivial, hother h rfl rfl fun hs => hs⟩
      awaited := fun _ s h => ⟨trivial, hother h rfl rfl fun hs => hs⟩
      fromAdmin := fun _ _ _ h => ⟨trivial, h⟩
      fromApp := fun _ _ _ h _ => ⟨trivial, h⟩
      passedOver := fun _ _ _ h => ⟨trivial, h⟩
      logoutSeen := fun _ s h => hother h rfl rfl fun hs => hs }
  { idle := hdispatch 0
    taken := hdispatch 1
    settled := fun _ s h => hother h rfl rfl fun hs => hs.mono (Nat.zero_le _)
    takeUp := fun _ s seq counters h hcheck =>
      ⟨trivial, hother h rfl rfl fun hs => sane_takeUp hs hcheck⟩
    persisted := fun _ s h => hother h rfl rfl sane_persisted
    jumped := fun _ s n hn h hlt => ⟨trivial, hother h rfl rfl fun hs =>
      hs.step rfl rfl fun hle => by
        show durable s + 0 ≤ n
        omega⟩ }

/-! ## The acceptor -/

/-- An acceptor between its steps. A session that has loaded its counters and still
waits for a Logon was refused none that reset them. -/
structure AcceptorKeeps (s : Session) : Prop where
  drained : Drained s
  notSent : s.fsm ≠ .logonSent
  active : s.fsm = .active → Sane 0 s
  waiting : s.fsm = .notConnected →
    s.lifecycle = .opened → s.engineStopRequested = false → s.hydrated = true → Sane 0 s

theorem steady_acceptorKeeps : Steady AcceptorKeeps := fun s s' hd h =>
  { drained := steady_drained s s' hd h.drained
    notSent := steady_fsm (F := (· ≠ .logonSent)) nofun nofun s s' hd h.notSent
    active := (steady_sane 0).inState .active nofun nofun s s' hd h.active
    waiting := (steady_sane 0).onceHydrated.whileOpen.inState .notConnected nofun nofun
      s s' hd h.waiting }

theorem AcceptorKeeps.observed (h : AcceptorKeeps s) (hactive : s.fsm = .active) :
    durable s ≤ s.seqnums.nextInbound :=
  (h.active hactive).le (by simp [down, hactive])

/-- The peer's reset is still to come. -/
def resetPending (cfg : SessionConfig) (f : Frame) : Bool := sentReset f && !cfg.resetOnLogon

/-- How far the store is behind a Logon that was taken up, until it is persisted. -/
def lag (advanced : Bool) : ℕ := if advanced then 1 else 0

def beforeReceived (A : Session → Prop) : Session → Prop := Within [.active, .logonSent] A

def beforeActive (A : Session → Prop) : Session → Prop :=
  Within [.active, .logonSent, .notConnected] A

def established (A : Session → Prop) : Session → Prop := Within [.logonSent, .notConnected] A

section Acceptor

variable {A : Session → Prop}

theorem stage_beforeReceived (hA : Steady A) :
    Stage watch .notConnected (fun _ s => AcceptorKeeps s)
      (Aborted watch .notConnected fun _ s => AcceptorKeeps s) (fun _ s => beforeReceived A s) := by
  refine stage_of_steady (steady_within hA (by decide) (by decide)) nofun ?_ ?_
  · rintro s ⟨-, hfsm, -⟩ hactive
    simp [hactive] at hfsm
  rintro s ⟨hdrained, hfsm, -⟩ hleft
  simp only [mem_cons, not_mem_nil, or_false, not_or] at hfsm
  refine ⟨hdrained, hfsm.2, fun h => absurd h hfsm.1, fun hn ho hstop _ =>
    absurd hleft (not_left hn ho hstop)⟩

theorem halt_beforeActive (hA : Steady A) : Halt watch (fun _ s => AcceptorKeeps s)
      (Aborted watch .notConnected fun _ s => AcceptorKeeps s) (fun _ s => beforeActive A s) := by
  refine halt_of_steady (steady_within hA (by decide) (by decide)) ?_ ?_
  · rintro s ⟨-, hfsm, -⟩ hactive
    simp [hactive] at hfsm
  rintro s ⟨hdrained, hfsm, -⟩
  simp only [mem_cons, not_mem_nil, or_false, not_or] at hfsm
  exact ⟨hdrained, hfsm.2.1, fun h => absurd h hfsm.1, fun h => absurd h hfsm.2.2⟩

theorem keeps_of_established {s : Session} (h : established (fun s => s.fsm = .active → Sane 0 s) s) :
    AcceptorKeeps s := by
  obtain ⟨hdrained, hfsm, hsane⟩ := h
  simp only [mem_cons, not_mem_nil, or_false, not_or] at hfsm
  exact ⟨hdrained, hfsm.1, hsane, fun h => absurd h hfsm.2⟩

theorem halt_established (k : ℕ) : Halt watch (fun _ s => AcceptorKeeps s)
      (Aborted watch .notConnected fun _ s => AcceptorKeeps s)
      (fun _ s => established (Sane k) s) := by
  have hkeeps : ∀ s, established (Sane k) s → AcceptorKeeps s := fun s h =>
    keeps_of_established ⟨h.1, h.2.1, fun _ => h.2.2.mono (Nat.zero_le _)⟩
  exact halt_of_steady (steady_within (steady_sane k) (by decide) (by decide))
    (fun s h => (hkeeps s h).observed) hkeeps

theorem acceptor_uptake :
    Uptake watch True (fun _ s => established (fun s => s.fsm = .active → Sane 0 s) s)
      (fun _ s => established (fun s => s.fsm = .active → Sane 1 s) s) := by
  refine uptake_within (A := fun k s => s.fsm = .active → Sane k s) (fun k => ?_)
    (fun _ _ h => h) fun j k s s' h hfsm _ hsane hactive => hsane (h (hfsm ▸ hactive))
  exact steady_within ((steady_sane k).inState .active nofun nofun) (by decide) (by decide)

end Acceptor

def acceptorPlaces (cfg : SessionConfig) (f : Frame) : AcceptorPlaces Unit where
  start _ s := AcceptorKeeps s ∧ s.fsm ≠ .active
  seen st _ s := beforeReceived (fun s => Torn s ∨ durable s = st.nextInbound) s
  hydrated _ s := beforeReceived (fun s => (sentReset f || cfg.resetOnLogon) = false → Sane 0 s) s
  timely _ s := beforeReceived (fun s => (sentReset f || cfg.resetOnLogon) = false → Sane 0 s) s
  resetting _ s := beforeReceived (fun s => Torn s ∨ s.seqnums.nextInbound = seqnumMin) s
  ready _ s := beforeReceived (fun s => resetPending cfg f = false → Sane 0 s) s
  taken a _ s := beforeReceived (fun s => resetPending cfg f = false → Sane (lag a) s) s
  authorized a _ s := beforeReceived (fun s => resetPending cfg f = false → Sane (lag a) s) s
  received a _ s := beforeActive (fun s => resetPending cfg f = false → Sane (lag a) s) s
  unit a _ s := beforeActive
    (fun s => sentReset f = true ∧ (Torn s ∨ s.seqnums.nextInbound = unitIn a)) s
  answered a _ s := beforeActive (Sane (lag (a && !sentReset f && !cfg.resetOnLogon))) s
  active a _ s := established (Sane (lag (a && !sentReset f && !cfg.resetOnLogon))) s

theorem acceptorOutline (hstore : cfg.storeIsPersistent = true) (f : Frame) :
    AcceptorOutline watch cfg f (fun _ => True) (fun _ => True) (fun _ s => AcceptorKeeps s)
      (Aborted watch .notConnected fun _ s => AcceptorKeeps s) (acceptorPlaces cfg f) where
  start := halt_of_steady
    (steady_acceptorKeeps.and (steady_fsm (F := (· ≠ .active)) nofun nofun))
    (fun _ h hactive => absurd hactive h.2) fun _ h => h.1
  answers _ _ _ _ _ := trivial
  kept _ s h hkept := by
    obtain ⟨⟨hkeeps, hactive⟩, hgo⟩ := h
    obtain ⟨hfsm, hopen, hstop, -⟩ := open_of_proceeding hkeeps.drained hgo (by decide)
    refine ⟨hkeeps.drained, by simp [hfsm], fun _ => ?_⟩
    exact hkeeps.waiting hfsm hopen hstop (hydrated_of_not_hydrates hstore hkept).1
  read _ s h := ⟨h.1.drained, by simp [h.1.notSent, h.2], .inr rfl⟩
  seen st := stage_beforeReceived (steady_counters fun d _ => d = st.nextInbound)
  seeded st next _ _ s h := by
    obtain ⟨hdrained, hfsm, hseen⟩ := h
    refine ⟨trivial, hdrained, hfsm, fun hwithheld => ?_⟩
    rw [hwithheld]
    exact sane_seeded hseen
  hydrated := stage_beforeReceived (.imp fun _ => steady_sane 0)
  checked _ _ _ _ h := h
  timely := stage_beforeReceived (.imp fun _ => steady_sane 0)
  knob _ _ _ h := ⟨trivial, h.1, h.2.1, .inr rfl⟩
  resetting := stage_beforeReceived (steady_counters fun _ n => n = seqnumMin)
  knobStored _ _ h := ⟨h.1, h.2.1, fun _ => sane_storeReset Nat.one_pos h.2.2⟩
  unreset hno _ s h := by
    obtain ⟨hdrained, hfsm, hsane⟩ := h
    refine ⟨hdrained, hfsm, fun hpending => hsane ?_⟩
    simpa [resetPending, hno] using hpending
  ready := stage_beforeReceived (.imp fun _ => steady_sane 0)
  takeUp _ s counters h hcheck :=
    ⟨trivial, h.1.1, h.1.2.1, fun hpending => sane_takeUp (h.1.2.2 hpending) hcheck⟩
  tolerated _ _ _ h _ := h.1
  taken a := stage_beforeReceived (.imp fun _ => steady_sane (lag a))
  consumed _ _ _ h := h
  unguarded _ _ _ _ h := h
  guarded _ _ _ _ _ h _ _ := h
  authorized a := stage_beforeReceived (.imp fun _ => steady_sane (lag a))
  recorded a _ s h := by
    obtain ⟨⟨hdrained, -, hsane⟩, hgo⟩ := h
    obtain ⟨-, hopen, -, hup⟩ := open_of_proceeding hdrained hgo (by decide)
    refine ⟨trivial, fun hclosed => ?_, by simp, fun hpending => .inr ((hsane hpending).le hup)⟩
    exact absurd (hopen.symm.trans hclosed) nofun
  received a := (halt_beforeActive (.imp fun _ => steady_sane (lag a))).stage _
  unitManager hreset _ _ _ _ h := ⟨trivial, h.1, h.2.1, hreset, .inr rfl⟩
  unit a := (halt_beforeActive ((Steady.const _).and
    (steady_counters fun _ n => n = unitIn a))).stage _
  unitStored a _ _ h := by
    obtain ⟨hdrained, hfsm, hreset, hlive⟩ := h
    refine ⟨hdrained, hfsm, (sane_storeReset (unitIn_pos a) hlive).mono ?_⟩
    simp [hreset, lag]
  unitVolatile hno := absurd hstore (by simp [hno])
  noUnit hno a _ _ h := by
    obtain ⟨hdrained, hfsm, hsane⟩ := h
    refine ⟨hdrained, hfsm, (hsane hno).mono ?_⟩
    cases a <;> cases sentReset f <;> cases cfg.resetOnLogon <;> decide
  answered a := halt_beforeActive (steady_sane _)
  activated a _ s h := by
    obtain ⟨⟨hdrained, -, hsane⟩, hgo⟩ := h
    obtain ⟨-, hopen, -, hup⟩ := open_of_proceeding hdrained hgo (by decide)
    refine ⟨trivial, fun hclosed => ?_, by simp, .inr (hsane.le hup)⟩
    exact absurd (hopen.symm.trans hclosed) nofun
  active a := halt_established _
  persisted a hpersists _ s h := by
    obtain ⟨hdrained, hfsm, hsane⟩ := h
    rw [hpersists] at hsane
    exact keeps_of_established ⟨hdrained, hfsm, fun _ => sane_persisted hsane⟩

/-! ## The initiator -/

/-- The counters are loaded once and kept for every later connection. -/
def keepsCounters (cfg : SessionConfig) : Prop :=
  cfg.resetOnLogon = false ∧ refreshActive cfg = false

/-- An initiator between its steps. -/
structure InitiatorKeeps (cfg : SessionConfig) (s : Session) : Prop where
  drained : Drained s
  up : s.up = true → Sane 0 s
  dialed : s.fsm = .logonSent → s.lifecycle = .opened → s.engineStopRequested = false → Sane 0 s
  kept : keepsCounters cfg → s.hydrated = true → Sane 0 s

theorem up_iff : s.up = true ↔ s.fsm = .logonReceived ∨ s.fsm = .active := by
  simp [up]

theorem steady_initiatorKeeps (cfg : SessionConfig) : Steady (InitiatorKeeps cfg) :=
  fun s s' hd h =>
  { drained := steady_drained s s' hd h.drained
    up := fun hup => (up_iff.mp hup).elim
      ((steady_sane 0).inState .logonReceived nofun nofun s s' hd
        fun hr => h.up (up_iff.mpr (.inl hr)))
      ((steady_sane 0).inState .active nofun nofun s s' hd
        fun ha => h.up (up_iff.mpr (.inr ha)))
    dialed := (steady_sane 0).whileOpen.inState .logonSent nofun nofun s s' hd h.dialed
    kept := Steady.imp (c := keepsCounters cfg) (fun _ => (steady_sane 0).onceHydrated) s s' hd
      h.kept }

theorem InitiatorKeeps.observed (h : InitiatorKeeps cfg s) (hactive : s.fsm = .active) :
    durable s ≤ s.seqnums.nextInbound :=
  (h.up (up_iff.mpr (.inr hactive))).le (by simp [down, hactive])

theorem keeps_of_sane (hdrained : Drained s) (h : Sane k s) : InitiatorKeeps cfg s :=
  have hsane : Sane 0 s := h.mono (Nat.zero_le k)
  ⟨hdrained, fun _ => hsane, fun _ _ _ => hsane, fun _ _ => hsane⟩

def dialing (A : Session → Prop) : Session → Prop := Within [.logonReceived, .active] A

section Initiator

variable {cfg : SessionConfig} {A : Session → Prop} {entered : FsmState}

/-- A place in front of Active; what it leaves has to be fit for the next connection. -/
theorem stage_dialing (hA : Steady A)
    (hkept : ∀ s, A s → keepsCounters cfg → s.hydrated = true → Sane 0 s) :
    Stage watch .logonSent (fun _ s => InitiatorKeeps cfg s)
      (Aborted watch entered fun _ s => InitiatorKeeps cfg s) (fun _ s => dialing A s) := by
  refine stage_of_steady (steady_within hA (by decide) (by decide)) nofun ?_ ?_
  · rintro s ⟨-, hfsm, -⟩ hactive
    simp [hactive] at hfsm
  rintro s ⟨hdrained, hfsm, hA⟩ hleft
  simp only [mem_cons, not_mem_nil, or_false] at hfsm
  refine ⟨hdrained, fun hup => absurd (up_iff.mp hup) hfsm, fun hn ho hstop =>
    absurd hleft (not_left hn ho hstop), hkept s hA⟩

theorem halt_sane (avoided : List FsmState) (k : ℕ) (hdisc : .disconnected ∉ avoided)
    (hlogout : .logoutSent ∉ avoided) :
    Halt watch (fun _ s => InitiatorKeeps cfg s)
      (Aborted watch entered fun _ s => InitiatorKeeps cfg s)
      (fun _ s => Within avoided (Sane k) s) := by
  have hkeeps : ∀ s, Within avoided (Sane k) s → InitiatorKeeps cfg s := fun s h =>
    keeps_of_sane h.1 h.2.2
  exact halt_of_steady (steady_within (steady_sane k) hdisc hlogout)
    (fun s h => (hkeeps s h).observed) hkeeps

theorem initiator_uptake :
    Uptake watch True (fun _ s => Within [] (Sane 0) s) (fun _ s => Within [] (Sane 1) s) :=
  uptake_within (A := Sane) (fun k => steady_within (steady_sane k) nofun nofun)
    (fun _ _ h _ => h) fun _ _ _ _ h _ _ hsane => hsane h

def connectPlaces (cfg : SessionConfig) : ConnectPlaces Unit where
  dialing _ s := dialing (fun s => keepsCounters cfg → s.hydrated = true → Sane 0 s) s
  seen st _ s := dialing (fun s => (keepsCounters cfg → s.hydrated = true → Sane 0 s) ∧
    (Torn s ∨ durable s = st.nextInbound)) s
  hydrated _ s := dialing (fun s => cfg.resetOnLogon = false → Sane 0 s) s
  resetting _ s := dialing (fun s => cfg.resetOnLogon = true ∧
    (Torn s ∨ s.seqnums.nextInbound = seqnumMin)) s
  ready _ s := dialing (Sane 0) s

theorem steady_kept (cfg : SessionConfig) :
    Steady fun s => keepsCounters cfg → s.hydrated = true → Sane 0 s :=
  .imp fun _ => (steady_sane 0).onceHydrated

theorem connectOutline (hstore : cfg.storeIsPersistent = true) :
    ConnectOutline watch cfg (fun _ s => InitiatorKeeps cfg s)
      (Aborted watch .active fun _ s => InitiatorKeeps cfg s) (connectPlaces cfg) where
  dialing := stage_dialing (steady_kept cfg) fun _ h => h
  kept _ s h hno := by
    obtain ⟨hhydrated, hrefresh⟩ := hydrated_of_not_hydrates hstore hno
    exact ⟨h.1, h.2.1, fun hknob => h.2.2 ⟨hknob, hrefresh⟩ hhydrated⟩
  read _ _ h := ⟨h.1, h.2.1, h.2.2, .inr rfl⟩
  seen st := stage_dialing ((steady_kept cfg).and (steady_counters fun d _ => d = st.nextInbound))
    fun _ h => h.1
  seeded st next _ _ s h := by
    obtain ⟨hdrained, hfsm, -, hseen⟩ := h
    refine ⟨trivial, hdrained, hfsm, fun hknob => ?_⟩
    rw [hknob]
    exact sane_seeded hseen
  hydrated := stage_dialing (.imp fun _ => steady_sane 0) fun _ h hkeeps _ => h hkeeps.1
  knob hknob _ _ h := ⟨trivial, h.1, h.2.1, hknob, .inr rfl⟩
  resetting := stage_dialing ((Steady.const _).and (steady_counters fun _ n => n = seqnumMin))
    fun _ h hkeeps _ => absurd h.1 (by simp [hkeeps.1])
  knobStored _ _ h := ⟨h.1, h.2.1, sane_storeReset Nat.one_pos h.2.2.2⟩
  unreset hno _ _ h := ⟨h.1, h.2.1, h.2.2 hno⟩
  ready := halt_sane _ 0 (by decide) (by decide)
  flagged _ _ _ h := h

/-- The store takes the reset a peer asked for, where the next connection relies on it. -/
def unitStores (cfg : SessionConfig) (f : Frame) (answers : List Answer) : Prop :=
  keepsCounters cfg → sentReset f = true → (answers.headD default).store = .done

instance (cfg : SessionConfig) (f : Frame) (answers : List Answer) :
    Decidable (unitStores cfg f answers) :=
  inferInstanceAs (Decidable (_ ∧ _ → _ → _))

def initiatorPlaces (cfg : SessionConfig) (f : Frame) : InitiatorPlaces Unit where
  start _ s := InitiatorKeeps cfg s ∧ s.up = false
  timely _ s := InitiatorKeeps cfg s ∧ s.up = false
  taken a _ s := dialing (Sane (lag a)) s
  versioned a _ s := dialing (Sane (lag a)) s
  unit a _ s := dialing (fun s => sentReset f = true ∧
    (Torn s ∨ s.seqnums.nextInbound = unitIn a)) s
  confirmed a _ s := dialing (Sane (lag (a && !sentReset f))) s
  authorized a _ s := dialing (Sane (lag (a && !sentReset f))) s
  active a _ s := Within [] (Sane (lag (a && !sentReset f))) s

theorem not_up_iff {s : Session} : s.up = false ↔ s.fsm ∉ [.logonReceived, .active] := by
  simp [up]

theorem halt_start : Halt watch (fun _ s => InitiatorKeeps cfg s)
      (Aborted watch entered fun _ s => InitiatorKeeps cfg s)
      (fun _ s => InitiatorKeeps cfg s ∧ s.up = false) := by
  refine halt_of_steady ((steady_initiatorKeeps cfg).and ?_) (fun _ h => h.1.observed)
    fun _ h => h.1
  intro s s' hd h
  exact not_up_iff.mpr (steady_fsm (F := (· ∉ [.logonReceived, .active])) (by decide) (by decide)
    s s' hd (not_up_iff.mp h))

theorem dialed_of_proceeding {s : Session}
    (h : Proceeding .logonSent (fun (_ : Unit) s => InitiatorKeeps cfg s ∧ s.up = false) () s) :
    dialing (Sane 0) s := by
  obtain ⟨⟨hkeeps, hup⟩, hgo⟩ := h
  obtain ⟨hfsm, hopen, hstop, -⟩ := open_of_proceeding hkeeps.drained hgo (by decide)
  exact ⟨hkeeps.drained, not_up_iff.mp hup, hkeeps.dialed hfsm hopen hstop⟩

theorem initiatorOutline (hstore : cfg.storeIsPersistent = true) (f : Frame) :
    InitiatorOutline watch cfg f
      (fun answers => unitStores cfg f (if cfg.clock then answers.tail else answers))
      (unitStores cfg f) (fun _ s => InitiatorKeeps cfg s)
      (Aborted watch .logonSent fun _ s => InitiatorKeeps cfg s) (initiatorPlaces cfg f) where
  start := halt_start
  answers _ h := h
  checked _ _ _ _ h := h
  timely := halt_start.stage _
  takeUp _ s counters h hcheck := by
    obtain ⟨hdrained, hfsm, hsane⟩ := dialed_of_proceeding h
    exact ⟨trivial, hdrained, hfsm, sane_takeUp hsane hcheck⟩
  tolerated _ _ _ h _ := dialed_of_proceeding h
  taken a := (halt_sane _ (lag a) (by decide) (by decide)).stage _
  passed _ _ _ _ h := h
  versioned a := (halt_sane _ (lag a) (by decide) (by decide)).stage _
  flagged _ _ _ h := h
  unitManager hreset _ _ _ _ h := ⟨trivial, h.1, h.2.1, hreset, .inr rfl⟩
  between a := by
    have hstage : Stage watch .logonSent (fun _ s => InitiatorKeeps { resetOnLogon := true } s)
        (Aborted watch .logonSent fun _ s => InitiatorKeeps { resetOnLogon := true } s)
        ((initiatorPlaces cfg f).unit a) :=
      stage_dialing ((Steady.const _).and (steady_counters fun _ n => n = unitIn a))
        fun _ _ hkeeps => absurd hkeeps.1 nofun
    exact hstage.toAmbient
  unit hfails a := by
    obtain ⟨answers, hdone, hfailed⟩ := hfails
    exact stage_dialing ((Steady.const _).and (steady_counters fun _ n => n = unitIn a))
      fun _ h hkeeps => absurd (hdone hkeeps h.1) hfailed
  unitStored a _ _ _ h := by
    obtain ⟨hdrained, hfsm, hreset, hlive⟩ := h
    refine ⟨hdrained, hfsm, (sane_storeReset (unitIn_pos a) hlive).mono ?_⟩
    simp [hreset, lag]
  unitVolatile hno := absurd hstore (by simp [hno])
  noUnit hno a _ _ h := by
    obtain ⟨hdrained, hfsm, hsane⟩ := h
    refine ⟨hdrained, hfsm, ?_⟩
    rw [hno]
    simpa using hsane
  confirmed a := (halt_sane _ _ (by decide) (by decide)).stage _
  consumed _ _ _ h := h
  unguarded _ _ _ _ h := h
  guarded _ _ _ _ _ h _ _ := h
  authorized a := halt_sane _ _ (by decide) (by decide)
  activated a _ s h := by
    obtain ⟨⟨hdrained, -, hsane⟩, hgo⟩ := h
    obtain ⟨-, hopen, -, hup⟩ := open_of_proceeding hdrained hgo (by decide)
    refine ⟨trivial, fun hclosed => ?_, nofun, .inr (hsane.le hup)⟩
    exact absurd (hopen.symm.trans hclosed) nofun
  active a := halt_sane _ _ nofun nofun
  persisted a hpersists _ s h := by
    obtain ⟨hdrained, hfsm, hsane⟩ := h
    rw [hpersists] at hsane
    exact keeps_of_sane hdrained (sane_persisted hsane)

end Initiator

/-! ## Steps and runs -/

section Runs

variable {cfg : SessionConfig}

/-- Step lemma of the acceptor. -/
theorem acceptor_step (hstore : cfg.storeIsPersistent = true) {s : Session} {t : Step}
    (hs : AcceptorKeeps s) (hrole : ∀ identity, t.input ≠ .reconnect identity) :
    watch.Accepts () (step cfg s t).2 ∧ AcceptorKeeps (step cfg s t).1 := by
  have hambient : Ambient watch (fun _ => True) (fun _ s => AcceptorKeeps s) :=
    ambient_of_steady steady_acceptorKeeps fun _ h => h.observed
  suffices hprogram : EndsIn watch (fun _ => True) (fun _ s' => AcceptorKeeps s' ∧ s' = s)
      (fun _ s => AcceptorKeeps s) (fun _ s => AcceptorKeeps s) (t.input.program cfg) from
    hprogram.step ⟨hs, rfl⟩ trivial
  cases hinput : t.input with
  | frame f =>
    refine ends_frame_of_arms hambient (fun hup => ?_) (fun hfsm => ?_)
      fun hfsm => absurd hfsm hs.notSent
    · refine .of_triple (acceptor_uptake.onInboundActive fun _ _ => trivial) ?_
        (fun _ _ h => keeps_of_established h) fun _ _ h => keeps_of_established h
      rintro m s' ⟨h, rfl⟩
      refine ⟨h.drained, ?_, h.active⟩
      obtain hfsm | hfsm := up_iff.mp hup <;> simp [hfsm]
    · refine .pre (acceptorOutline hstore f).onInboundNotConnected ?_
      rintro m w ⟨⟨h, hw⟩, hΦ⟩
      exact ⟨⟨h, by simp [hw, hfsm]⟩, hΦ⟩
  | accept identity =>
    refine .reading (.ite ?_ (.pure _ fun _ _ h => h.1.1))
    exact ends_accept identity fun _ _ h => ⟨trivial, { h.1 with }⟩
  | reconnect identity => exact absurd hinput (hrole identity)
  | env act => exact ends_env hambient cfg act fun _ _ h => h.1

/-- Step lemma of the initiator. -/
theorem initiator_step (hstore : cfg.storeIsPersistent = true) {s : Session} {t : Step}
    (hs : InitiatorKeeps cfg s) (hrole : ∀ identity, t.input ≠ .accept identity)
    (hframe : ∀ f, t.input = .frame f → s.fsm ≠ .notConnected)
    (hunit : ∀ f, t.input = .frame f → s.fsm = .logonSent →
      unitStores cfg f (if cfg.clock then t.answers.tail else t.answers)) :
    watch.Accepts () (step cfg s t).2 ∧ InitiatorKeeps cfg (step cfg s t).1 := by
  have hambient : Ambient watch (fun _ => True) (fun _ s => InitiatorKeeps cfg s) :=
    ambient_of_steady (steady_initiatorKeeps cfg) fun _ h => h.observed
  suffices hprogram : EndsIn watch (fun answers => answers = t.answers)
      (fun _ s' => InitiatorKeeps cfg s' ∧ s' = s) (fun _ s => InitiatorKeeps cfg s)
      (fun _ s => InitiatorKeeps cfg s) (t.input.program cfg) from
    hprogram.step ⟨hs, rfl⟩ rfl
  cases hinput : t.input with
  | frame f =>
    refine ends_frame_of_arms hambient (fun hup => ?_)
      (fun hfsm => absurd hfsm (hframe f hinput)) fun hfsm => ?_
    · refine .of_triple (initiator_uptake.onInboundActive fun _ _ => trivial) ?_
        (fun _ _ h => keeps_of_sane h.1 h.2.2) fun _ _ h => keeps_of_sane h.1 h.2.2
      rintro m s' ⟨h, rfl⟩
      exact ⟨h.drained, by simp, h.up hup⟩
    refine .pre (initiatorOutline hstore f).onInboundLogonSent ?_
    rintro m w ⟨⟨h, hw⟩, hanswers⟩
    refine ⟨⟨h, by simp [up, hw, hfsm]⟩, ?_⟩
    rw [hanswers]
    exact hunit f hinput hfsm
  | accept identity => exact absurd hinput (hrole identity)
  | reconnect identity =>
    refine .reading ?_
    by_cases hopen : s.lifecycle = .opened
    · rw [if_pos hopen]
      refine .of_triple (ends_driveReconnect (connectOutline hstore) identity
        (C := fun _ s => InitiatorKeeps cfg s ∧ s.lifecycle = .opened) ?_ ?_) (fun _ _ h => h)
        (fun _ _ h => h) fun _ _ h => h
      · rintro m s' ⟨h, rfl⟩
        exact ⟨trivial, { h with }, hopen⟩
      rintro m s' ⟨h, hopen'⟩
      refine ⟨trivial, fun hclosed => (by cases hopen'.symm.trans hclosed), by simp, ?_⟩
      exact fun hkeeps hhydrated => (h.kept hkeeps hhydrated).imp_left
        fun ht => absurd hopen' ht.1
    · rw [if_neg hopen]
      exact .pure _ fun _ _ h => h.1.1
  | env act => exact ends_env hambient cfg act fun _ _ h => h.1

end Runs

/-- The side of the connection a session is on. -/
inductive Role
  | acceptor
  | initiator
  deriving DecidableEq, Repr

/-- A step of a session of the role: an acceptor does not dial; an initiator accepts no
connection and reads frames only of one it dialed. -/
def Plays : Role → Entry → Prop
  | .acceptor, e =>
    match e.step.input with
    | .reconnect _ => False
    | _ => True
  | .initiator, e =>
    match e.step.input with
    | .accept _ => False
    | .frame _ => e.before.fsm ≠ .notConnected
    | _ => True

instance (role : Role) (e : Entry) : Decidable (Plays role e) := by
  unfold Plays
  split <;> split <;> infer_instance

/-- When the answer to a dialed Logon asks for a reset and the next connection relies on the live
counters, the store takes the reset. -/
def ResetStored (cfg : SessionConfig) (e : Entry) : Prop :=
  match e.step.input with
  | .frame f => e.before.fsm = .logonSent →
      unitStores cfg f (if cfg.clock then e.step.answers.tail else e.step.answers)
  | _ => True

instance (cfg : SessionConfig) (e : Entry) : Decidable (ResetStored cfg e) := by
  unfold ResetStored
  split <;> infer_instance

def Keeps (cfg : SessionConfig) : Role → Session → Prop
  | .acceptor => AcceptorKeeps
  | .initiator => InitiatorKeeps cfg

theorem Keeps.observed {role : Role} (h : Keeps cfg role s) (hactive : s.fsm = .active) :
    durable s ≤ s.seqnums.nextInbound := by
  cases role with
  | acceptor => exact AcceptorKeeps.observed h hactive
  | initiator => exact InitiatorKeeps.observed h hactive

theorem keeps_fresh (cfg : SessionConfig) (role : Role) (hfsm : s.fsm = .notConnected)
    (hopen : s.lifecycle = .opened) (hnew : s.hydrated = false) : Keeps cfg role s := by
  have hdrained : Drained s := fun hclosed => absurd (hopen.symm.trans hclosed) nofun
  cases role with
  | acceptor =>
    exact
      { drained := hdrained
        notSent := by simp [hfsm]
        active := by simp [hfsm]
        waiting := by simp [hnew] }
  | initiator =>
    exact
      { drained := hdrained
        up := by simp [up, hfsm]
        dialed := by simp [hfsm]
        kept := by simp [hnew] }

theorem keeps_step (hstore : cfg.storeIsPersistent = true) {role : Role} {e : Entry}
    (hs : Keeps cfg role e.before) (hplays : Plays role e) (hstored : ResetStored cfg e) :
    watch.Accepts () (step cfg e.before e.step).2 ∧
      Keeps cfg role (step cfg e.before e.step).1 := by
  cases role with
  | acceptor =>
    refine acceptor_step hstore hs fun identity hinput => ?_
    simp [Plays, hinput] at hplays
  | initiator =>
    refine initiator_step hstore hs (fun identity hinput => ?_) (fun f hinput => ?_)
      fun f hinput => ?_
    · simp [Plays, hinput] at hplays
    · simpa [Plays, hinput] using hplays
    · simpa only [ResetStored, hinput] using hstored

/-- Run lemma: a session with a persistent store that starts new and stays in its role, and whose
store takes the resets its peers ask for, is never Active with a durable inbound number ahead of the
live one. -/
theorem durable_inbound_not_ahead (cfg : SessionConfig) (hstore : cfg.storeIsPersistent = true)
    (role : Role) (s : Session) (hfsm : s.fsm = .notConnected) (hopen : s.lifecycle = .opened)
    (hnew : s.hydrated = false) (steps : List Step)
    (hplays : ∀ e ∈ history cfg s steps, Plays role e)
    (hstored : ∀ e ∈ history cfg s steps, ResetStored cfg e) :
    ∀ e ∈ history cfg s steps,
      (e.after.fsm = .active → durable e.after ≤ e.after.seqnums.nextInbound) ∧
        ∀ s', Event.observed s' ∈ e.events → s'.fsm = .active →
          durable s' ≤ s'.seqnums.nextInbound := by
  have hs : Keeps cfg role s := keeps_fresh cfg role hfsm hopen hnew
  clear hfsm hopen hnew
  -- every step starts from what the session keeps
  induction steps generalizing s with
  | nil => exact fun e he => nomatch he
  | cons t rest ih =>
    have hfirst := keeps_step hstore hs (hplays _ (mem_cons_self ..))
      (hstored _ (mem_cons_self ..))
    intro e he
    obtain rfl | he := mem_cons.mp he
    · exact ⟨hfirst.2.observed, fun s' hmem => Monitor.allows_of_mem hfirst.1 hmem⟩
    exact ih _ (fun e he => hplays e (mem_cons_of_mem _ he))
      (fun e he => hstored e (mem_cons_of_mem _ he)) hfirst.2 e he

def tenthDurable : Session :=
  { store := some { nextInbound := 10, nextOutbound := 7, inbound_pos := by decide } }

def resetAnswer (answers : List Answer) : Step := frameStep (peerLogon "34=10" ++ ["141=Y"]) answers

theorem durable_inbound_not_ahead_reset :
    let run := history { storeIsPersistent := true } tenthDurable
      [{ input := .reconnect none }, resetAnswer []]
    (run.map fun e => e.after.fsm) = [.logonSent, .active] ∧
      ∀ e ∈ run, (e.after.fsm = .active → durable e.after ≤ e.after.seqnums.nextInbound) ∧
        ∀ s', .observed s' ∈ e.events → s'.fsm = .active → durable s' ≤ s'.seqnums.nextInbound :=
  ⟨by decide +kernel, durable_inbound_not_ahead { storeIsPersistent := true } rfl .initiator
    tenthDurable rfl rfl rfl [{ input := .reconnect none }, resetAnswer []] (by decide +kernel)
    (by decide +kernel)⟩

/-- The store refuses the reset of the peer's answer, and the session does not load the durable
counter again: two connections later it is Active with the store 8 numbers ahead. -/
theorem durable_inbound_ahead_after_refused_reset :
    (history { storeIsPersistent := true } tenthDurable
      [{ input := .reconnect none }, resetAnswer [{}, { store := .failed .storeIoFailure }],
        { input := .reconnect none }, { input := .reconnect none },
        frameStep (peerLogon "34=2")]).map (fun e =>
          (e.after.fsm, durable e.after, e.after.seqnums.nextInbound)) =
      [(.logonSent, 10, 10), (.disconnected, 10, 2), (.disconnected, 10, 2), (.logonSent, 10, 2),
        (.active, 11, 3)] := by
  decide +kernel

end Fixpp.Analysis.DurableInbound
