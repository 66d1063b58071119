import Fixpp.Analysis.Ambience

/-!
# Outlines of the Logon arms

A Logon arm is a long row of checks, and it may stop at each of them. An outline names an
assertion for each place the arm passes through, with what leads from one place to the next. The
arm then ends in the assertion all places lead to.
-/

namespace Fixpp.Analysis

open Foundation Model
open Foundation.Traced (Triple Maintains Spec given Returns)

variable {μ : Type}
variable {p : LeafPolicy} {nextIn nextOut : ℕ}

/-- A place of the arm: `Q` survives what happens meanwhile. An arm that stops here is
superseded or has disconnected, and then `V` holds; one that leaves by an exception
leaves `E`. -/
structure Stage (M : Monitor Event μ) (arm : FsmState) (V E Q : μ → Session → Prop) : Prop
    extends Ambient M (fun r => Reply.asks r = false) Q where
  ends : ∀ m s, Q m s → s.fsm = .disconnected ∨ s.logonArmSuperseded arm = true → V m s
  aborts : ∀ m s, Q m s → E m s

/-- A place where the arm may stop as it is. -/
structure Halt (M : Monitor Event μ) (V E Q : μ → Session → Prop) : Prop
    extends Ambient M (fun r => Reply.asks r = false) Q where
  ends : ∀ m s, Q m s → V m s
  aborts : ∀ m s, Q m s → E m s

/-- The change `f`, logged as `e`, leads from `Q` to `Q'`. -/
def Leads (M : Monitor Event μ) (Q : μ → Session → Prop) (f : Session → Session) (e : Event)
    (Q' : μ → Session → Prop) : Prop :=
  ∀ m s, Q m s → M.allows m e ∧ Q' (M.next m e) (f s)

def Proceeding (arm : FsmState) (Q : μ → Session → Prop) (m : μ) (s : Session) : Prop :=
  Q m s ∧ s.logonArmSuperseded arm = false

/-- An arm that stops leaves `V`; if it goes on, `Q` holds. -/
def OrStops (V Q : μ → Session → Prop) (r : Outcome) (m : μ) (s : Session) : Prop :=
  match r with
  | .ok _ => Q m s
  | .error _ => V m s

/-- From `Q`, and `Φ` of the answers to come, the program ends in `V`, or by an
exception in `E`. -/
def EndsIn {α : Type} (M : Monitor Event μ) (Φ : List Answer → Prop) (Q V E : μ → Session → Prop)
    (x : Handler α) : Prop :=
  Spec M (given Φ Q) x (fun _ m w => V m w.state) E

def RefusedDown (r : Outcome) (s : Session) : Prop := ∀ e, r = .error e → s.fsm = .disconnected

section Results

theorem returns_disconnectWith (r : Outcome) : Returns RefusedDown (disconnectWith r) := by
  rintro w a ⟨⟩ e -
  rfl

theorem returns_disconnects (e : Error) : Returns RefusedDown (do
    disconnectUnlessSuperseded none
    pure (.error e) : Handler Outcome) := by
  intro w _ _ _ _
  have hrun : disconnectUnlessSuperseded none w =
      (if w.state.fsm ≠ .disconnected then recordStateTransition .disconnected
        else pure () : Handler Unit) w := rfl
  by_cases hfsm : w.state.fsm ≠ .disconnected
  · rw [if_pos hfsm] at hrun
    rw [Traced.bind_ok (hrun.trans rfl)]
    rfl
  rw [if_neg hfsm] at hrun
  rw [Traced.bind_ok (hrun.trans rfl)]
  exact not_not.mp hfsm

theorem returns_emitLeaf (cfg : SessionConfig) (hbuild : p.buildRefused = none)
    (hassign : p.assignRefused = .disconnects) (hemit : p.emitRefused = .ignored)
    (reply : ℕ → Reply) : Returns RefusedDown (emitLeaf cfg p reply) := by
  have hok : Returns RefusedDown (pure (.ok ()) : Handler Outcome) :=
    .pure fun _ e he => by cases he
  have hstep : ∀ seq bytes r, Returns RefusedDown (emitStep cfg p seq bytes r) := by
    intro seq bytes r
    refine .bind fun emitted => ?_
    cases emitted with
    | ok _ => exact hok
    | error e =>
      rw [hemit]
      exact hok
  have hassigned : ∀ {next : Handler Outcome}, Returns RefusedDown next →
      Returns RefusedDown (afterAssign p next) := by
    intro next hnext
    refine .bind fun assigned => ?_
    cases assigned with
    | ok _ => exact hnext
    | error e =>
      rw [hassign]
      exact returns_disconnects e
  have hadmin : ∀ {next : Handler Outcome}, Returns RefusedDown next →
      Returns RefusedDown (afterToAdmin cfg next) := fun hnext =>
    .bind fun _ => hnext.ite (returns_disconnectWith _)
  refine .bind fun s => .bind fun a => ?_
  refine .ite ?_ ((hadmin (hassigned (hstep _ _ _))).ite
    (hassigned (hadmin (hstep _ _ _))))
  rw [hbuild]
  exact hok

end Results

def preludePasses (cfg : SessionConfig) (f : Frame) : Prop :=
  f.header.msgTypeIsThird = true ∧ f.header.fault = .none ∧
    establishmentFrameRefused cfg f = false ∧ establishmentValidation cfg f = .pass ∧
      f.logonInterpreted = true

instance (cfg : SessionConfig) (f : Frame) : Decidable (preludePasses cfg f) :=
  inferInstanceAs (Decidable (_ ∧ _))

/-- A Logon with a readable number, of the posture the session has. -/
def LogonReadable (cfg : SessionConfig) (f : Frame) : Prop :=
  preludePasses cfg f ∧ parseSeqnum f.header.msgSeqNum ≠ 0 ∧
    cfg.posture.any (shouldRefusePosture · f.header.testMessageIndicator) = false

/-- The next answer may say that the SendingTime is accurate. -/
def MayBeTimely (Φ : List Answer → Prop) (cfg : SessionConfig) (f : Frame) : Prop :=
  cfg.clock = true →
    f.header.sendingTime ≠ [] ∧ ∃ answers, Φ answers ∧ (answers.headD default).holds = true

/-- The next answer may say that a store call failed. -/
def MayFail (Φ : List Answer → Prop) : Prop :=
  ∃ answers, Φ answers ∧ (answers.headD default).store ≠ .done

def hydrates (cfg : SessionConfig) (force : Bool) (s : Session) : Bool :=
  cfg.storeIsPersistent && (!s.hydrated || force)

section Steps

variable {Φ Ψ : List Answer → Prop} {M : Monitor Event μ} {arm : FsmState}
  {V E Q Q' : μ → Session → Prop} {α β : Type}

theorem Halt.stage (h : Halt M V E Q) (arm : FsmState) : Stage M arm V E Q :=
  { h with ends := fun m s hQ _ => h.ends m s hQ }

theorem Leads.act {f : Session → Session} {e : Event} (h : Leads M Q f e Q') :
    Triple M Q (Traced.act f e : Handler Unit) (fun _ => Q') E :=
  .act (fun m s hQ => (h m s hQ).1) fun m s hQ => (h m s hQ).2

theorem EndsIn.forget {x : Handler α} (hx : Triple M Q x (fun _ => V) E) :
    EndsIn M Φ (Proceeding arm Q) V E x :=
  .pre (hx.spec (Φ := Φ)) fun _ _ hQ => ⟨hQ.1.1, hQ.2⟩

theorem EndsIn.ite {c : Prop} [Decidable c] {x y : Handler α} (hx : EndsIn M Φ Q V E x)
    (hy : EndsIn M Φ Q V E y) : EndsIn M Φ Q V E (if c then x else y) := by
  split
  · exact hx
  · exact hy

theorem onOkEnds (r : Outcome) {next : Handler Outcome} (hnext : Triple M Q next (fun _ => V) E) :
    Triple M (OrStops V Q r) (onOk r next) (fun _ => V) E := by
  cases r with
  | ok _ => exact hnext
  | error e => exact .pure _ fun _ _ hV => hV

theorem onlyIfEnds {c : Bool} {x : Handler Outcome} (hx : c = true → Triple M Q x (OrStops V Q') E)
    (hskip : c = false → ∀ m s, Q m s → Q' m s) : Triple M Q (onlyIf c x) (OrStops V Q') E := by
  cases c with
  | true => exact hx rfl
  | false => exact .pure _ (hskip rfl)

namespace Stage

variable {between : μ → Session → Prop} {sends : Reply → Prop}

/-! ## Counters and store -/

theorem waitFor (h : Ambient M sends Q) (hΦ : ∀ answers, Φ answers → Ψ answers.tail) :
    Spec M (given Φ Q) suspend
      (fun a m w => (∃ answers, Φ answers ∧ answers.headD default = a) ∧ given Ψ Q m w)
      E := by
  refine .ask hΦ fun a ha => ?_
  refine .bind (Q := fun _ => given Ψ Q) ?_ fun _ =>
    .pure _ fun _ _ hP => ⟨ha, hP⟩
  exact ((h.meanwhile a.meanwhile).of_returns fun w => (meanwhile_runs a.meanwhile w).1).unasking
    fun w => (meanwhile_runs a.meanwhile w).2

/-- The live counters are reset; `Q'` holds until the store is. -/
theorem resetManager {hpos : 0 < nextIn} (hreset : Leads M Q
      (fun s => { s with seqnums := s.seqnums.hydrate nextIn nextOut hpos })
      (.inboundReset nextIn) Q') :
    Spec M (given Φ Q) (resetManager nextIn nextOut hpos) (fun r =>
      match r with
      | .ok _ => given Φ Q'
      | .error _ => given Φ Q) E := by
  refine .get fun s => ?_
  split
  · exact .pure _ fun _ _ hQ => ⟨hQ.1.2, hQ.2⟩
  refine .bind (Q := fun _ => given Φ Q') ?_ fun _ =>
    .pure _ fun _ _ hQ => hQ
  exact .act fun m s' hQ => hreset m s' hQ.2

theorem resetStore (hbetween : Ambient M sends between) {hpos : 0 < nextIn}
    (hstop : MayFail Φ → ∀ m s, between m s → E m s) (hreset : ∀ m s, between m s →
      Q' m { s with store := s.store.map fun st => st.resetTo nextIn nextOut hpos }) :
    Spec M (given Φ between) (resetStore nextIn nextOut hpos)
      (fun r m w =>
        match r with
        | .ok _ => Q' m w.state
        | .error _ => MayFail Φ ∧ between m w.state) E := by
  refine .get fun s => ?_
  split
  next hnone =>
    refine .pure _ ?_
    rintro m w ⟨⟨rfl, hQ⟩, -⟩
    have hsame := hreset m w.state hQ
    have hstore : w.state.store.map (fun st => st.resetTo nextIn nextOut hpos) =
        w.state.store := by
      rw [hnone]
      rfl
    rw [hstore] at hsame
    exact hsame
  refine .bind (.pre (P := given Φ between)
    (waitFor hbetween (Ψ := fun _ => True) fun _ _ => trivial) fun _ _ hP => ⟨hP.1.2, hP.2⟩) fun a => ?_
  refine Spec.conseq (Triple.assumed (Q := fun r m s =>
      match r with
      | .ok _ => Q' m s
      | .error _ => MayFail Φ ∧ between m s) ?_) (fun _ _ hP => ⟨hP.1, hP.2.1⟩) ?_ fun _ _ hE => hE
  · rintro ⟨answers, hA, rfl⟩
    cases hstore : (answers.headD default).store with
    | done =>
      exact .bind (Q := fun _ => Q') (.modify hreset) fun _ =>
        .pure _ fun _ _ hQ => hQ
    | failed e => exact .pure _ fun _ _ hQ => ⟨⟨answers, hA, by rw [hstore]; simp⟩, hQ⟩
    | cancelled => exact .pure _ fun _ _ hQ => ⟨⟨answers, hA, by rw [hstore]; simp⟩, hQ⟩
    | threw => exact .throw _ (hstop ⟨answers, hA, by rw [hstore]; simp⟩)
  rintro (_ | _) m w hQ <;> exact hQ

theorem resetSeqnumsToOneDurable (hbetween : Stage M arm V E between) (hmanager : Leads M Q
      (fun s => { s with seqnums := s.seqnums.hydrate seqnumMin seqnumMin Nat.one_pos })
      (.inboundReset seqnumMin) between) (hstore : ∀ m s, between m s → Q' m { s with
      store := s.store.map fun st => st.resetTo seqnumMin seqnumMin Nat.one_pos }) :
    Triple M Q resetSeqnumsToOneDurable (fun r m s =>
      match r with
      | .ok _ => Q' m s
      | .error _ => Q m s ∨ between m s) E := by
  refine Spec.triple (Spec.bind (resetManager hmanager) fun manager => ?_)
  cases manager with
  | error e => exact Spec.pure _ fun _ _ hP => .inl hP.1
  | ok _ =>
    refine Spec.conseq (resetStore (Φ := fun _ => True) hbetween.toAmbient
      (fun _ => hbetween.aborts) hstore) (fun _ _ hP => hP) ?_ fun _ _ hE => hE
    rintro (_ | _) m w hP
    · exact .inr hP.2
    · exact hP

/-! ## Ends of an arm -/

variable (h : Stage M arm V E Q)

include h

theorem next {x : Handler α} {f : α → Handler β} (hx : Maintains M Q x)
    (hf : ∀ a, Triple M Q (f a) (fun _ => V) E) : Triple M Q (x >>= f) (fun _ => V) E :=
  .bind (hx.conseq (fun _ _ hQ => hQ) (fun _ _ _ hQ => hQ) h.aborts) hf

theorem disconnects (r : Outcome) : Triple M Q (disconnectWith r) (fun _ => V) E :=
  .bind (Q := fun _ m s => Q m s ∧ s.fsm = .disconnected)
    (.act (fun m s hQ => (h.disconnected m s hQ).1) fun m s hQ =>
      ⟨(h.disconnected m s hQ).2, rfl⟩)
    fun _ => .pure _ fun m s hQ => h.ends m s hQ.1 (.inl hQ.2)

variable {a : Option FsmState} {next : Handler Outcome} {cfg : SessionConfig}

theorem leaves (ha : a = none ∨ a = some arm) :
    Triple M Q (Model.disconnectUnlessSuperseded a) (fun _ => V) E := by
  refine .get fun s => ?_
  by_cases hsup : a.any s.logonArmSuperseded = true
  · rw [if_pos hsup]
    refine .pure _ ?_
    rintro m s' ⟨rfl, hQ⟩
    rcases ha with rfl | rfl
    · simp at hsup
    · exact h.ends m s' hQ (.inr (by simpa using hsup))
  rw [if_neg hsup]
  split
  · refine .act (fun m s' hQ => (h.disconnected m s' hQ.2).1) fun m s' hQ => ?_
    exact h.ends _ _ (h.disconnected m s' hQ.2).2 (.inl rfl)
  next hfsm =>
  refine .pure _ ?_
  rintro m s' ⟨rfl, hQ⟩
  exact h.ends m s' hQ (.inl (by simpa using hfsm))

theorem stops (r : Outcome) :
    Triple M Q (do
      Model.disconnectUnlessSuperseded (some arm)
      pure r) (fun _ => V) E :=
  .bind (h.leaves (.inr rfl)) fun _ => .pure _ fun _ _ hV => hV

theorem fails (ha : a = none ∨ a = some arm) (e : Error) :
    Triple M Q (do
      Model.disconnectUnlessSuperseded a
      pure (.error e)) (OrStops V Q') E :=
  .bind (h.leaves ha) fun _ => .pure _ fun _ _ hV => hV

theorem endsUnlessSuperseded (hnext : EndsIn M Φ (Proceeding arm Q) V E next) :
    EndsIn M Φ Q V E (Model.unlessSuperseded arm next) := by
  refine .get fun s => ?_
  by_cases hsup : s.logonArmSuperseded arm = true
  · rw [if_pos hsup]
    refine .pure _ ?_
    rintro m w ⟨⟨rfl, hQ⟩, -⟩
    exact h.ends m w.state hQ (.inr hsup)
  rw [if_neg hsup]
  refine .pre hnext ?_
  rintro m w ⟨⟨rfl, hQ⟩, hΦ⟩
  exact ⟨⟨hQ, by simpa using hsup⟩, hΦ⟩

theorem unlessSuperseded (hnext : Triple M (Proceeding arm Q) next (fun _ => V) E) :
    Triple M Q (Model.unlessSuperseded arm next) (fun _ => V) E :=
  Spec.triple (h.endsUnlessSuperseded hnext.spec)

theorem afterLeaf (cfg : SessionConfig) (hbuild : p.buildRefused = none)
    (hassign : p.assignRefused = .disconnects) (hemit : p.emitRefused = .ignored)
    {reply : ℕ → Reply} (hreply : ∀ seq, Reply.asks (reply seq) = false) :
    Triple M Q (do
      let r ← Model.emitLeaf cfg p reply
      Model.onOk r do
        Model.disconnectUnlessSuperseded (some arm)
        pure (.ok ())) (fun _ => V) E := by
  have hkept : Maintains M Q (Model.emitLeaf cfg p reply) := h.emitLeaf cfg p hreply
  have hleaf := hkept.returning (returns_emitLeaf cfg hbuild hassign hemit reply)
  refine Triple.bind
    (hleaf.conseq (fun _ _ hQ => hQ) (fun _ _ _ hQ => hQ) h.aborts) fun r => ?_
  cases r with
  | ok _ => exact (h.stops _).pre fun _ _ hQ => hQ.1
  | error e =>
    exact Triple.pure _ fun m s hQ => h.ends m s hQ.1 (.inl (hQ.2 e rfl))

theorem rejectLogon (cfg : SessionConfig) (hdr : FrameHeader) (refusal : ℕ × ℕ) :
    Triple M Q (rejectLogon cfg hdr refusal arm) (fun _ => V) E :=
  h.afterLeaf cfg rfl rfl rfl fun _ => rfl

theorem refuseLogonWithLogout (cfg : SessionConfig) (text : Bytes) :
    Triple M Q (refuseLogonWithLogout cfg text arm) (fun _ => V) E :=
  h.afterLeaf cfg rfl rfl rfl fun _ => rfl

/-! ## Reads of the store and the reset unit -/

theorem readStore {S : MessageStore → μ → Session → Prop}
    (hseen : ∀ m s, Q m s → S (s.store.getD {}) m s) (hΦ : ∀ answers, Φ answers → Ψ answers.tail) :
    Spec M (given Φ Q) readStore (fun r =>
      match r with
      | .ok st => given Ψ (S st)
      | .error _ => given Ψ Q) E := by
  refine .bind (waitFor h.toAmbient hΦ) fun a => ?_
  refine .pre (P := given Ψ Q) ?_ fun _ _ hP => hP.2
  refine .get fun s => ?_
  cases a.store with
  | done =>
    refine .pure _ ?_
    rintro m w ⟨⟨rfl, hQ⟩, hA⟩
    exact ⟨hseen m w.state hQ, hA⟩
  | failed e => exact .pure _ fun _ _ hQ => ⟨hQ.1.2, hQ.2⟩
  | cancelled => exact .pure _ fun _ _ hQ => ⟨hQ.1.2, hQ.2⟩
  | threw => exact .throw _ fun m w hQ => h.aborts m w.state hQ.1.2

/-- Hydration, from an assertion `Q₀` that is read at once and need not survive a wait. -/
theorem ensureHydrated {Q₀ : μ → Session → Prop} (hQ₀ : ∀ m s, Q₀ m s → Q m s)
    {seen : MessageStore → μ → Session → Prop} (hseen : ∀ m s, Q m s → seen (s.store.getD {}) m s)
    (hstage : ∀ st, Stage M arm V E (seen st)) {seeds force : Bool} (ha : a = none ∨ a = some arm)
    (hΦ : ∀ m s answers, Q₀ m s → Φ answers →
      Ψ (if hydrates cfg force s then answers.tail.tail else answers))
    (hkept : ∀ m s, Q₀ m s → hydrates cfg force s = false → Q' m s)
    (hseeded : ∀ st next, Leads M (fun m s => seen st m s ∧ cfg.storeIsPersistent = true)
      (fun s => { s with
        seqnums := s.seqnums.hydrate (if seeds then st else {}).nextInbound next
          (if seeds then st else {}).inbound_pos
        hydrated := true })
      (.inboundReset (if seeds then st else {}).nextInbound) Q') :
    Spec M (given Φ Q₀) (ensureHydrated cfg seeds force a)
      (fun r m w => OrStops V Q' r m w.state ∧ (r = .ok () → Ψ w.answers)) E := by
  refine .get fun s => ?_
  by_cases hskip : (s.hydrated = true ∧ force = false) ∨ cfg.storeIsPersistent = false
  · rw [if_pos hskip]
    refine .pure _ ?_
    rintro m w ⟨⟨rfl, hQ⟩, hA⟩
    have hno : hydrates cfg force w.state = false := by
      unfold hydrates
      rcases hskip with hlatch | hvolatile
      · simp [hlatch.1, hlatch.2]
      · simp [hvolatile]
    have hanswers := hΦ m w.state w.answers hQ hA
    rw [hno] at hanswers
    exact ⟨hkept m w.state hQ hno, fun _ => hanswers⟩
  rw [if_neg hskip]
  have hpersistent : cfg.storeIsPersistent = true := by
    simpa using fun hno => hskip (.inr hno)
  have hyes : hydrates cfg force s = true := by
    unfold hydrates
    rw [hpersistent, Bool.true_and]
    cases hh : s.hydrated with
    | false => rfl
    | true =>
      cases force with
      | true => rfl
      | false => exact absurd (.inl ⟨hh, rfl⟩) hskip
  have hfails : ∀ {R : μ → Session → Prop} {Θ : List Answer → Prop} (e : Error),
      Stage M arm V E R → Spec M (given Θ R) (do
        Model.disconnectUnlessSuperseded a
        pure (.error e) : Handler Outcome)
        (fun r m w => OrStops V Q' r m w.state ∧ (r = .ok () → Ψ w.answers)) E := by
    intro R Θ e hR
    refine .bind (Q := fun _ m w => V m w.state) (hR.leaves ha).spec fun _ => ?_
    exact .pure _ fun _ _ hV => ⟨hV, fun hok => by cases hok⟩
  refine .pre
    (P := given (fun answers => Ψ answers.tail.tail) Q) ?_ ?_
  · refine .bind
      (h.readStore (Ψ := fun answers => Ψ answers.tail) hseen fun _ hA => hA) fun inbound => ?_
    cases inbound with
    | error e => exact hfails e h
    | ok st =>
      refine .bind
        ((hstage st).readStore (S := fun _ => seen st) (fun _ _ hP => hP) fun _ hA => hA)
        fun outbound => ?_
      cases outbound with
      | error e => exact hfails e (hstage st)
      | ok st' =>
        refine .get fun s' => ?_
        split
        · exact Spec.pre (hfails _ (hstage st)) fun _ _ hP => ⟨hP.1.2, hP.2⟩
        refine .bind (Q := fun _ => given Ψ Q') ?_ fun _ =>
          .pure _ fun _ _ hP => ⟨hP.1, fun _ => hP.2⟩
        exact .act fun m s'' hP =>
          hseeded st st'.nextOutbound m s'' ⟨hP.2, hpersistent⟩
  · rintro m w ⟨⟨rfl, hQ⟩, hA⟩
    have hanswers := hΦ m w.state w.answers hQ hA
    rw [hyes] at hanswers
    exact ⟨hQ₀ m w.state hQ, hanswers⟩

theorem runResetUnit (hbetween : Ambient M sends between) {hpos : 0 < nextIn}
    (hstop : MayFail Φ → Stage M arm V E between) (hmanager : Leads M Q
      (fun s => { s with seqnums := s.seqnums.hydrate nextIn nextOut hpos })
      (.inboundReset nextIn) between) (hstore : ∀ m s, between m s →
      Q' m { s with store := s.store.map fun st => st.resetTo nextIn nextOut hpos })
    (hvolatile : cfg.storeIsPersistent = false → ∀ m s, between m s → Q' m s) :
    Spec M (given Φ Q) (runResetUnit cfg nextIn nextOut hpos arm)
      (fun r m w => OrStops V Q' r m w.state) E := by
  refine Spec.bind (resetManager hmanager) fun manager => ?_
  cases manager with
  | error e =>
    exact Spec.pre ((h.fails (.inr rfl) e).spec (Φ := Φ))
      fun _ _ hP => hP
  | ok _ =>
    refine Spec.bind
      (resetStore hbetween (fun hf => (hstop hf).aborts) hstore) fun stored => ?_
    cases stored with
    | ok _ => exact Spec.pure _ fun _ _ hP => hP
    | error e =>
      refine Triple.assumed fun hfailing => ?_
      dsimp only
      split
      · exact (hstop hfailing).fails (.inr rfl) e
      next hno => exact Triple.pure _ (hvolatile (by simpa using hno))

/-! ## Taking the Logon up, authorization and the change to Active -/

theorem takeUpLogon {seq : ℕ} {taken : Bool → μ → Session → Prop} {next : Bool → Handler Outcome}
    (htakeUp : ∀ m s counters, Proceeding arm Q m s → s.seqnums.checkInbound seq = .ok counters →
      M.allows m (.takeUp seq) ∧ taken true (M.next m (.takeUp seq)) { s with seqnums := counters })
    (htolerated : cfg.enableNextExpectedMsgSeqNum = true → ∀ m s, Proceeding arm Q m s →
      s.seqnums.nextInbound < seq → taken false m s)
    (hnext : ∀ advanced, EndsIn M Φ (Proceeding arm (taken advanced)) V E (next advanced)) :
    EndsIn M Φ (Proceeding arm Q) V E (takeUpLogon cfg seq next) := by
  refine .bind (Q := fun r =>
    match r with
    | .ok _ => given Φ (Proceeding arm (taken true))
    | .error e => given Φ fun m s => Proceeding arm Q m s ∧
        (e = .sessionSeqnumTooHigh → s.seqnums.nextInbound < seq)) ?_ fun r => ?_
  · refine .get fun s => ?_
    split
    · exact .pure _ fun _ _ hP => ⟨⟨hP.1.2, fun he => by cases he⟩, hP.2⟩
    cases hchk : s.seqnums.checkInbound seq with
    | error e =>
      refine .pure _ ?_
      rintro m w ⟨⟨rfl, hP⟩, hΦ⟩
      refine ⟨⟨hP, fun he => ?_⟩, hΦ⟩
      rcases SeqnumManager.checkInbound_error hchk with ⟨hlow, -⟩ | ⟨-, hlt⟩ | ⟨hmax, -⟩
      · rw [hlow] at he
        cases he
      · exact hlt
      rw [hmax] at he
      cases he
    | ok counters =>
      refine .bind (Q := fun _ => given Φ (Proceeding arm (taken true)))
        (.act ?_) fun _ => .pure _ fun _ _ hP => hP
      rintro m s' ⟨rfl, hP⟩
      obtain ⟨hallow, htaken⟩ := htakeUp m s' counters hP hchk
      exact ⟨hallow, htaken, hP.2⟩
  · cases r with
    | ok _ => exact hnext true
    | error e =>
      dsimp only
      split
      next hc =>
        refine .pre (hnext false) ?_
        rintro m w ⟨⟨hP, hlt⟩, hΦ⟩
        exact ⟨⟨htolerated hc.1 m w.state hP (hlt hc.2), hP.2⟩, hΦ⟩
      · refine .pre ((h.disconnects _).spec (Φ := Φ)) ?_
        rintro m w ⟨⟨hP, -⟩, hΦ⟩
        exact ⟨hP.1, hΦ⟩

theorem authorizePeer (hopen : cfg.mtls = false → ∀ m s, Q m s → Q' m s)
    (hauthorized : cfg.mtls = true → ∀ m s pid, Q m s → s.livePeerId = some pid →
      cfg.compidAuthorizationPolicy.authorize pid cfg.targetCompId = true →
        Q' m { s with livePeerId := none })
    (hconsumed : ∀ m s, Q m s → Q m { s with livePeerId := none })
    (hnext : Triple M (Proceeding arm Q') next (fun _ => V) E) :
    Triple M (Proceeding arm Q) (authorizePeer cfg next) (fun _ => V) E := by
  refine .get fun s => ?_
  by_cases hmtls : cfg.mtls = true
  · rw [if_pos hmtls]
    cases hid : s.livePeerId with
    | none =>
      exact (h.disconnects _).pre fun _ _ hP => hP.2.1
    | some pid =>
      by_cases hauth : cfg.compidAuthorizationPolicy.authorize pid cfg.targetCompId = true
      · simp only [hauth, if_true]
        refine .bind (Q := fun _ => Proceeding arm Q') (.modify ?_)
          fun _ => hnext
        rintro m s' ⟨rfl, hQ, hgo⟩
        exact ⟨hauthorized hmtls m s' pid hQ hid hauth, hgo⟩
      simp only [hauth]
      refine .bind (Q := fun _ => Q) (.modify ?_) fun _ =>
        h.disconnects _
      rintro m s' ⟨-, hQ, -⟩
      exact hconsumed m s' hQ
  · rw [if_neg hmtls]
    refine hnext.pre ?_
    rintro m s' ⟨-, hQ, hgo⟩
    exact ⟨hopen (by simpa using hmtls) m s' hQ, hgo⟩

end Stage

namespace Halt

variable (h : Halt M V E Q) (cfg : SessionConfig)

theorem logonTimely {Q : μ → Session → Prop} (f : Frame)
    (hΦ : ∀ answers, Φ answers → Ψ (if cfg.clock then answers.tail else answers)) :
    Spec M (given Φ Q) (logonTimely cfg f.header)
      (fun timely m w => (timely = true → MayBeTimely Φ cfg f) ∧ given Ψ Q m w) E := by
  unfold Model.logonTimely
  by_cases hclock : cfg.clock = true
  · rw [if_pos hclock]
    refine .ask (Ψ := Ψ) (fun answers hA => ?_) fun a ha => ?_
    · have hnext := hΦ answers hA
      rwa [if_pos hclock] at hnext
    refine .pure _ fun _ _ hP => ⟨fun htimely _ => ?_, hP⟩
    obtain ⟨answers, hA, rfl⟩ := ha
    simp only [Bool.and_eq_true, decide_eq_true_eq] at htimely
    exact ⟨htimely.1, answers, hA, htimely.2⟩
  · rw [if_neg hclock]
    refine .pure _ fun _ w hP => ⟨fun _ hc => absurd hc hclock, hP.1, ?_⟩
    have hsame := hΦ w.answers hP.2
    rwa [if_neg hclock] at hsame

include h

theorem last {x : Handler α} (hx : Maintains M Q x) : Triple M Q x (fun _ => V) E :=
  hx.conseq (fun _ _ hQ => hQ) (fun _ => h.ends) h.aborts

theorem next {x : Handler α} {f : α → Handler β} (hx : Maintains M Q x)
    (hf : ∀ a, Triple M Q (f a) (fun _ => V) E) : Triple M Q (x >>= f) (fun _ => V) E :=
  (h.stage .active).next hx hf

theorem stop (a : α) : Triple M Q (pure a : Handler α) (fun _ => V) E := h.last (.pure a)

theorem logonPrelude (f : Frame) (arm : FsmState) {next : Handler Outcome}
    (hnext : preludePasses cfg f → EndsIn M Φ (Proceeding arm Q) V E next) :
    EndsIn M Φ Q V E (logonPrelude cfg f arm next) := by
  have hdisconnects : EndsIn M Φ (Proceeding arm Q) V E (Model.disconnectWith (.ok ())) :=
    EndsIn.forget (h.last (h.disconnectWith _))
  unfold Model.logonPrelude
  dsimp only
  split
  · exact (h.stop _).spec
  rename_i hthird
  refine (h.stage arm).endsUnlessSuperseded ?_
  split
  · exact hdisconnects
  rename_i hfault
  split
  · exact hdisconnects
  rename_i hroute
  split
  · exact EndsIn.forget (h.last (h.closeOnLateParseFailure cfg))
  · refine EndsIn.forget (h.next (h.emitLeaf cfg _ fun _ => rfl) fun r =>
      h.last (Ambient.onOk r (Maintains.ite ?_ (Maintains.pure _))))
    exact (h.disconnectUnlessSuperseded _).bind fun _ => Maintains.pure _
  next hvalid =>
  split
  next hlogon =>
    exact hnext ⟨by simpa using hthird, by simpa using hfault,
      by simpa using hroute, hvalid, hlogon⟩
  · exact hdisconnects

theorem honorIfPresent (hdr : FrameHeader) (nextOutboundRef : ℕ) (arm : FsmState) :
    Maintains M Q (honorIfPresent cfg hdr nextOutboundRef arm) := by
  have hrefuse : ∀ text, Maintains M Q (refuseNextExpected cfg text arm) := by
    intro text
    refine (h.emitLeaf cfg _ fun _ => rfl).bind fun r => ?_
    cases r with
    | error e => exact .pure _
    | ok _ =>
      exact .get fun _ => (Maintains.pure _).ite
        (h.recordDisconnected.bind fun _ => .pure _)
  refine .ite ?_ (.pure _)
  refine (hrefuse _).ite ((hrefuse _).ite (.ite ?_ (.pure _)))
  refine .get fun s =>
    (h.replayOutboundRange ⟨fun _ _ => rfl, fun _ => rfl⟩ cfg _ _ _ _).bind fun r => ?_
  match r with
  | .ok .completed => exact .pure _
  | .ok .superseded => exact .pure _
  | .error e =>
    exact .get fun _ => (Maintains.pure _).ite
      (h.recordDisconnected.bind fun _ => .pure _)

/-- The last part of both arms: `active` holds once the session is Active. -/
theorem completeLogon {active : μ → Session → Prop} (hactive : Halt M V E active) {persists : Bool}
    (cfg : SessionConfig) (hdr : FrameHeader) (nextOutboundRef : ℕ)
    (hchange : Leads M (Proceeding arm Q) (fun s => { s with fsm := .active })
      (.transition .active) active) (hpersisted : persists = true → ∀ m s, active m s →
      V m { s with store := s.store.map MessageStore.incrementInbound }) :
    Triple M Q (completeLogon cfg hdr nextOutboundRef arm persists) (fun _ => V) E := by
  refine h.next (h.honorIfPresent cfg hdr nextOutboundRef arm) fun honored => ?_
  cases honored with
  | failed e => exact h.stop _
  | ended => exact h.stop _
  | inSyncContinue =>
    refine (h.stage arm).unlessSuperseded ?_
    refine .bind (Q := fun _ => active) hchange.act fun _ => ?_
    refine hactive.next (Ambient.fireToAdmin cfg) fun onLogon => ?_
    split
    · exact hactive.last (hactive.closeOnThrow cfg)
    cases persists with
    | false => exact hactive.stop _
    | true =>
      unfold Model.onlyIf persistInboundAdvance
      rw [if_pos rfl]
      split
      · refine hactive.next hactive.wait fun a => ?_
        cases a.store with
        | done =>
          exact .bind (Q := fun _ => V) (.modify (hpersisted rfl))
            fun _ => .pure _ fun _ _ hV => hV
        | failed e => exact (hactive.stage .active).stops _
        | cancelled => exact (hactive.stage .active).stops _
        | threw => exact hactive.last (.throw _)
      · exact hactive.stop _

end Halt

end Steps

end Fixpp.Analysis
