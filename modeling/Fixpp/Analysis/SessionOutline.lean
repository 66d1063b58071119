import Fixpp.Analysis.LogonOutline
import Fixpp.Analysis.Uptake

/-!
# Outlines of a frame and of a connection

The records here list the places of the acceptor's Logon arm, of the initiator's and of a new
connection, each with the assertion that holds there and the steps that lead to it.
-/

namespace Fixpp.Analysis

open Foundation Model
open Foundation.Traced (Triple Maintains Spec given)

variable {μ : Type}

/-- An assertion about the observer and the session. -/
abbrev Assertion (μ : Type) := μ → Session → Prop

def sentReset (f : Frame) : Bool := f.header.resetSeqnumFlag = ascii "Y"

def unitIn (advanced : Bool) : ℕ := if advanced then seqnumMin + 1 else seqnumMin

theorem unitIn_pos (advanced : Bool) : 0 < unitIn advanced := by
  cases advanced <;> decide

def managerReset (nextIn nextOut : ℕ) (h : 0 < nextIn) (s : Session) : Session :=
  { s with seqnums := s.seqnums.hydrate nextIn nextOut h }

def storeReset (nextIn nextOut : ℕ) (h : 0 < nextIn) (s : Session) : Session :=
  { s with store := s.store.map fun st => st.resetTo nextIn nextOut h }

def seededWith (st : MessageStore) (nextOut : ℕ) (s : Session) : Session :=
  { s with seqnums := s.seqnums.hydrate st.nextInbound nextOut st.inbound_pos, hydrated := true }

theorem logonResetUnit_eq (cfg : SessionConfig) (advanced : Bool) (unitOut : ℕ) (arm : FsmState) :
    logonResetUnit cfg advanced unitOut arm =
      runResetUnit cfg (unitIn advanced) unitOut (unitIn_pos advanced) arm := by
  cases advanced <;> rfl

/-! ## The acceptor -/

/-- The places of `on_inbound_not_connected_`; a place behind the sequence check knows
whether the Logon was taken up. -/
structure AcceptorPlaces (μ : Type) where
  start : Assertion μ
  seen : MessageStore → Assertion μ
  hydrated : Assertion μ
  timely : Assertion μ
  resetting : Assertion μ
  ready : Assertion μ
  taken : Bool → Assertion μ
  authorized : Bool → Assertion μ
  received : Bool → Assertion μ
  unit : Bool → Assertion μ
  answered : Bool → Assertion μ
  active : Bool → Assertion μ

/-- What leads through the acceptor's arm. `Φ₀` holds of the answers at its start and
`Φ₁` of those behind hydration. -/
structure AcceptorOutline (M : Monitor Event μ) (cfg : SessionConfig) (f : Frame)
    (Φ₀ Φ₁ : List Answer → Prop) (V E : Assertion μ) (p : AcceptorPlaces μ) : Prop where
  start : Halt M V E p.start
  answers : ∀ m s answers, p.start m s → Φ₀ answers →
    Φ₁ (if hydrates cfg (refreshActive cfg) s then answers.tail.tail else answers)
  kept : ∀ m s, Proceeding .notConnected p.start m s →
    hydrates cfg (refreshActive cfg) s = false → p.hydrated m s
  read : ∀ m s, p.start m s → p.seen (s.store.getD {}) m s
  seen : ∀ st, Stage M .notConnected V E (p.seen st)
  seeded : ∀ st next, cfg.storeIsPersistent = true → Leads M (p.seen st)
    (seededWith (if !(sentReset f || cfg.resetOnLogon) then st else {}) next)
    (.inboundReset (if !(sentReset f || cfg.resetOnLogon) then st else {}).nextInbound) p.hydrated
  hydrated : Stage M .notConnected V E p.hydrated
  checked : LogonReadable cfg f → MayBeTimely Φ₁ cfg f → ∀ m s, p.hydrated m s → p.timely m s
  timely : Stage M .notConnected V E p.timely
  knob : cfg.resetOnLogon = true → Leads M p.timely (managerReset seqnumMin seqnumMin Nat.one_pos)
    (.inboundReset seqnumMin) p.resetting
  resetting : Stage M .notConnected V E p.resetting
  knobStored : ∀ m s, p.resetting m s → p.ready m (storeReset seqnumMin seqnumMin Nat.one_pos s)
  unreset : cfg.resetOnLogon = false → ∀ m s, p.timely m s → p.ready m s
  ready : Stage M .notConnected V E p.ready
  takeUp : ∀ m s counters, Proceeding .notConnected p.ready m s →
    s.seqnums.checkInbound (parseSeqnum f.header.msgSeqNum) = .ok counters →
      M.allows m (.takeUp (parseSeqnum f.header.msgSeqNum)) ∧
        p.taken true (M.next m (.takeUp (parseSeqnum f.header.msgSeqNum)))
          { s with seqnums := counters }
  tolerated : cfg.enableNextExpectedMsgSeqNum = true → ∀ m s, Proceeding .notConnected p.ready m s →
      s.seqnums.nextInbound < parseSeqnum f.header.msgSeqNum → p.taken false m s
  taken : ∀ a, Stage M .notConnected V E (p.taken a)
  consumed : ∀ a m s, p.taken a m s → p.taken a m { s with livePeerId := none }
  unguarded : cfg.mtls = false → ∀ a m s, p.taken a m s → p.authorized a m s
  guarded : cfg.mtls = true → ∀ a m s pid, p.taken a m s → s.livePeerId = some pid →
    cfg.compidAuthorizationPolicy.authorize pid cfg.targetCompId = true →
      p.authorized a m { s with livePeerId := none }
  authorized : ∀ a, Stage M .notConnected V E (p.authorized a)
  recorded : ∀ a, Leads M (Proceeding .notConnected (p.authorized a))
    (fun s => { s with fsm := .logonReceived }) (.transition .logonReceived) (p.received a)
  received : ∀ a, Stage M .logonReceived V E (p.received a)
  unitManager : sentReset f = true → cfg.resetOnLogon = false → ∀ a, Leads M (p.received a)
    (managerReset (unitIn a) seqnumMin (unitIn_pos a)) (.inboundReset (unitIn a)) (p.unit a)
  unit : ∀ a, Stage M .logonReceived V E (p.unit a)
  unitStored : ∀ a m s, p.unit a m s →
    p.answered a m (storeReset (unitIn a) seqnumMin (unitIn_pos a) s)
  unitVolatile : cfg.storeIsPersistent = false → ∀ a m s, p.unit a m s → p.answered a m s
  noUnit : (sentReset f && !cfg.resetOnLogon) = false → ∀ a m s, p.received a m s → p.answered a m s
  answered : ∀ a, Halt M V E (p.answered a)
  activated : ∀ a, Leads M (Proceeding .logonReceived (p.answered a))
    (fun s => { s with fsm := .active }) (.transition .active) (p.active a)
  active : ∀ a, Halt M V E (p.active a)
  persisted : ∀ a, (a && !sentReset f && !cfg.resetOnLogon) = true → ∀ m s, p.active a m s →
    V m { s with store := s.store.map MessageStore.incrementInbound }

namespace AcceptorOutline

variable {M : Monitor Event μ} {cfg : SessionConfig} {f : Frame} {Φ₀ Φ₁ : List Answer → Prop}
    {V E : Assertion μ} {p : AcceptorPlaces μ} (o : AcceptorOutline M cfg f Φ₀ Φ₁ V E p)

include o

theorem acceptLogon (a : Bool) : Triple M (Proceeding .notConnected (p.authorized a))
      (acceptLogon cfg f.header (sentReset f) a) (fun _ => V) E := by
  refine .bind (Q := fun _ => p.received a) (o.recorded a).act fun _ => ?_
  refine .bind (Q := OrStops V (p.answered a)) (onlyIfEnds (fun hunit => ?_) ?_)
    fun unit => onOkEnds unit ?_
  · have hflag : sentReset f = true ∧ cfg.resetOnLogon = false := by simpa using hunit
    rw [logonResetUnit_eq]
    exact Spec.triple ((o.received a).runResetUnit (o.unit a).toAmbient (fun _ => o.unit a)
      (o.unitManager hflag.1 hflag.2 a) (o.unitStored a) fun hv => o.unitVolatile hv a)
  · exact fun hno => o.noUnit hno a
  refine ((o.answered a).stage _).unlessSuperseded ?_
  refine .pre (P := p.answered a) ?_ fun _ _ hP => hP.1
  refine (o.answered a).next ?_ fun replied => ?_
  · exact .get fun _ =>
      ((o.answered a).emitLeaf cfg _ fun _ => rfl).bind fun _ => .pure _
  cases replied.2 with
  | error e => exact (o.answered a).stop _
  | ok _ =>
    refine ((o.answered a).stage _).unlessSuperseded ?_
    exact ((o.answered a).completeLogon (o.active a) cfg f.header _ (o.activated a)
      (o.persisted a)).pre fun _ _ hP => hP.1

theorem authorizeLogon (a : Bool) : Triple M (Proceeding .notConnected (p.taken a))
      (authorizeLogon cfg f (sentReset f) a) (fun _ => V) E := by
  have hend : ∀ {Q : Assertion μ} (r : Outcome), Stage M .notConnected V E Q →
      Triple M (Proceeding .notConnected Q) (disconnectWith r) (fun _ => V) E :=
    fun r hQ => (hQ.disconnects r).pre fun _ _ hP => hP.1
  unfold Model.authorizeLogon
  split
  · exact hend _ (o.taken a)
  refine (o.taken a).authorizePeer (fun h => o.unguarded h a) (fun h => o.guarded h a)
    (o.consumed a) ?_
  cases f.logonVersionRefusal with
  | some refusal =>
    exact ((o.authorized a).rejectLogon cfg f.header refusal).pre fun _ _ hP => hP.1
  | none =>
    dsimp only
    split
    · exact o.acceptLogon a
    · exact hend _ (o.authorized a)

theorem knobReset :
    Triple M p.timely (onlyIf cfg.resetOnLogon resetSeqnumsToOneDurable) (fun r m s =>
      match r with
      | .ok _ => p.ready m s
      | .error _ => p.timely m s ∨ p.resetting m s) E := by
  unfold Model.onlyIf
  split
  next hknob => exact Stage.resetSeqnumsToOneDurable o.resetting (o.knob hknob) o.knobStored
  next hno => exact .pure _ (o.unreset (by simpa using hno))

theorem onInboundNotConnected : EndsIn M Φ₀ p.start V E (onInboundNotConnected cfg f) := by
  refine o.start.logonPrelude cfg f .notConnected fun hpass => ?_
  by_cases hseq : parseSeqnum f.header.msgSeqNum = 0
  · rw [if_pos hseq]
    exact EndsIn.forget (o.start.last (o.start.disconnectWith _))
  rw [if_neg hseq]
  refine Spec.bind ((o.start.stage .notConnected).ensureHydrated (Ψ := Φ₁)
    (fun _ _ hP => hP.1) o.read o.seen (.inr rfl)
    (fun m s answers hP => o.answers m s answers hP.1) o.kept
    fun st next m s hP => o.seeded st next hP.2 m s hP.1) fun hydrated => ?_
  cases hydrated with
  | error e => exact Spec.pure _ fun _ _ hP => hP.1
  | ok _ =>
    refine Spec.pre (P := given Φ₁ p.hydrated)
      (o.hydrated.endsUnlessSuperseded ?_) fun _ _ hP => ⟨hP.1, hP.2 rfl⟩
    by_cases hposture : cfg.posture.any (shouldRefusePosture · f.header.testMessageIndicator) = true
    · rw [if_pos hposture]
      exact EndsIn.forget (o.hydrated.refuseLogonWithLogout cfg _)
    rw [if_neg hposture]
    refine Spec.pre (P := given Φ₁ p.hydrated) ?_
      fun _ _ hP => ⟨hP.1.1, hP.2⟩
    refine Spec.bind (Halt.logonTimely (Ψ := fun _ => True) cfg f fun _ _ => trivial)
      fun timely => ?_
    cases timely with
    | false =>
      exact Spec.pre
        ((o.hydrated.rejectLogon cfg f.header (52, 10)).spec (Φ := fun _ => True))
        fun _ _ hP => hP.2
    | true =>
      refine Spec.pre (Triple.assumed (φ := MayBeTimely Φ₁ cfg f)
        (P := p.hydrated) (Q := fun _ => V) fun hmay => ?_)
        fun _ _ hP => ⟨hP.1 rfl, hP.2.1⟩
      refine Triple.pre (P := p.timely) ?_
        (o.checked ⟨hpass, hseq, by simpa using hposture⟩ hmay)
      refine Triple.bind o.knobReset fun reset => ?_
      cases reset with
      | error e => exact Triple.or (o.timely.stops _) (o.resetting.stops _)
      | ok _ =>
        exact o.ready.unlessSuperseded (Spec.triple (o.ready.takeUpLogon
          o.takeUp o.tolerated fun a => (o.authorizeLogon a).spec))

end AcceptorOutline

/-! ## The initiator -/

/-- The version the initiator refuses an answer for. -/
def versionRefusal (cfg : SessionConfig) (f : Frame) : Option (ℕ × ℕ) :=
  if cfg.fixtRouting && cfg.validateInboundMessages then f.logonVersionRefusal else none

/-- The places of `on_inbound_logon_sent_`. -/
structure InitiatorPlaces (μ : Type) where
  start : Assertion μ
  timely : Assertion μ
  taken : Bool → Assertion μ
  versioned : Bool → Assertion μ
  unit : Bool → Assertion μ
  confirmed : Bool → Assertion μ
  authorized : Bool → Assertion μ
  active : Bool → Assertion μ

/-- What leads through the initiator's arm. `Φ₀` holds of the answers at its start and
`Φ₁` of those behind the SendingTime check. -/
structure InitiatorOutline (M : Monitor Event μ) (cfg : SessionConfig) (f : Frame)
    (Φ₀ Φ₁ : List Answer → Prop) (V E : Assertion μ) (p : InitiatorPlaces μ) : Prop where
  start : Halt M V E p.start
  answers : ∀ answers, Φ₀ answers → Φ₁ (if cfg.clock then answers.tail else answers)
  checked : LogonReadable cfg f → MayBeTimely Φ₀ cfg f → ∀ m s, p.start m s → p.timely m s
  timely : Stage M .logonSent V E p.timely
  takeUp : ∀ m s counters, Proceeding .logonSent p.timely m s →
    s.seqnums.checkInbound (parseSeqnum f.header.msgSeqNum) = .ok counters →
      M.allows m (.takeUp (parseSeqnum f.header.msgSeqNum)) ∧
        p.taken true (M.next m (.takeUp (parseSeqnum f.header.msgSeqNum)))
          { s with seqnums := counters }
  tolerated : cfg.enableNextExpectedMsgSeqNum = true → ∀ m s, Proceeding .logonSent p.timely m s →
    s.seqnums.nextInbound < parseSeqnum f.header.msgSeqNum → p.taken false m s
  taken : ∀ a, Stage M .logonSent V E (p.taken a)
  passed : versionRefusal cfg f = none → ∀ a m s, p.taken a m s → p.versioned a m s
  versioned : ∀ a, Stage M .logonSent V E (p.versioned a)
  flagged : ∀ a m s, p.versioned a m s → p.versioned a m { s with ownLogonSentResetFlag := false }
  unitManager : sentReset f = true → ∀ a out, Leads M (p.versioned a)
    (managerReset (unitIn a) out (unitIn_pos a)) (.inboundReset (unitIn a)) (p.unit a)
  between : ∀ a, Ambient M (fun r => Reply.asks r = false) (p.unit a)
  unit : MayFail Φ₁ → ∀ a, Stage M .logonSent V E (p.unit a)
  unitStored : ∀ a out m s, p.unit a m s →
    p.confirmed a m (storeReset (unitIn a) out (unitIn_pos a) s)
  unitVolatile : cfg.storeIsPersistent = false → ∀ a m s, p.unit a m s → p.confirmed a m s
  noUnit : sentReset f = false → ∀ a m s, p.versioned a m s → p.confirmed a m s
  confirmed : ∀ a, Stage M .logonSent V E (p.confirmed a)
  consumed : ∀ a m s, p.confirmed a m s → p.confirmed a m { s with livePeerId := none }
  unguarded : cfg.mtls = false → ∀ a m s, p.confirmed a m s → p.authorized a m s
  guarded : cfg.mtls = true → ∀ a m s pid, p.confirmed a m s → s.livePeerId = some pid →
    cfg.compidAuthorizationPolicy.authorize pid cfg.targetCompId = true →
      p.authorized a m { s with livePeerId := none }
  authorized : ∀ a, Halt M V E (p.authorized a)
  activated : ∀ a, Leads M (Proceeding .logonSent (p.authorized a))
    (fun s => { s with fsm := .active }) (.transition .active) (p.active a)
  active : ∀ a, Halt M V E (p.active a)
  persisted : ∀ a, (a && !sentReset f) = true → ∀ m s, p.active a m s →
    V m { s with store := s.store.map MessageStore.incrementInbound }

namespace InitiatorOutline

variable {M : Monitor Event μ} {cfg : SessionConfig} {f : Frame} {Φ₀ Φ₁ : List Answer → Prop}
    {V E : Assertion μ} {p : InitiatorPlaces μ} (o : InitiatorOutline M cfg f Φ₀ Φ₁ V E p)
    (a : Bool)

include o

theorem finishConfirm : Triple M (Proceeding .logonSent (p.confirmed a))
      (finishConfirm cfg f.header (a && !sentReset f)) (fun _ => V) E := by
  refine (o.confirmed a).authorizePeer (fun h => o.unguarded h a) (fun h => o.guarded h a)
    (o.consumed a) (.get fun s => ?_)
  exact ((o.authorized a).completeLogon (o.active a) cfg f.header _ (o.activated a)
    (o.persisted a)).pre fun _ _ hP => hP.2.1

theorem initiatorReset (hreset : sentReset f = true) (a : Bool) :
    Spec M (given Φ₁ (p.versioned a)) (initiatorReset cfg a)
      (fun r m w => OrStops V (p.confirmed a) r m w.state) E := by
  refine .get fun s => ?_
  refine .bind (Q := fun _ => given Φ₁ (p.versioned a))
    (.modify fun m s' hP => o.flagged a m s' hP.2) fun _ => ?_
  rw [logonResetUnit_eq]
  exact (o.versioned a).runResetUnit (o.between a) (fun hf => o.unit hf a)
    (o.unitManager hreset a _) (o.unitStored a _) fun hv => o.unitVolatile hv a

theorem confirmLogon :
    EndsIn M Φ₁ (Proceeding .logonSent (p.taken a)) V E (confirmLogon cfg f (sentReset f) a) := by
  unfold Model.confirmLogon
  rw [← versionRefusal]
  cases hversion : versionRefusal cfg f with
  | some refusal => exact .forget ((o.taken a).rejectLogon cfg f.header refusal)
  | none =>
    have hpassed : ∀ m s, Proceeding .logonSent (p.taken a) m s →
        Proceeding .logonSent (p.versioned a) m s :=
      fun m s hP => ⟨o.passed hversion a m s hP.1, hP.2⟩
    refine .ite (.forget ((o.taken a).disconnects _)) ?_
    split
    next hreset =>
      refine .bind (Q := fun r m w => OrStops V (p.confirmed a) r m w.state)
        (.pre (o.initiatorReset hreset a)
          fun m w hP => ⟨(hpassed m w.state hP.1).1, hP.2⟩) fun unit => ?_
      have hconfirmed := (o.confirmed a).unlessSuperseded (o.finishConfirm a)
      exact .pre ((onOkEnds unit hconfirmed).spec (Φ := fun _ => True))
        fun _ _ hP => ⟨hP, trivial⟩
    next hno =>
      refine .pre ((o.finishConfirm a).spec (Φ := Φ₁))
        fun m w hP => ⟨⟨o.noUnit (by simpa using hno) a m w.state (hpassed m w.state hP.1).1,
          hP.1.2⟩, hP.2⟩

theorem onInboundLogonSent : EndsIn M Φ₀ p.start V E (onInboundLogonSent cfg f) := by
  refine o.start.logonPrelude cfg f .logonSent fun hpass => ?_
  by_cases hposture : cfg.posture.any (shouldRefusePosture · f.header.testMessageIndicator) = true
  · rw [if_pos hposture]
    exact EndsIn.forget ((o.start.stage _).refuseLogonWithLogout cfg _)
  rw [if_neg hposture]
  refine Spec.bind (Halt.logonTimely cfg f o.answers) fun timely => ?_
  cases timely with
  | false =>
    refine Spec.pre (P := given (fun _ => True) p.start)
      (Q := fun _ m w => V m w.state) (E := E) (Triple.spec ?_)
      fun _ _ hP => ⟨hP.2.1.1, trivial⟩
    refine o.start.next ?_ fun text => (o.start.stage .logonSent).afterLeaf cfg rfl rfl rfl fun _ => rfl
    exact (Maintains.pure _).ite (Maintains.ask fun _ => Maintains.pure _)
  | true =>
    by_cases hseq : parseSeqnum f.header.msgSeqNum = 0
    · simp only [hseq, if_true]
      exact Spec.pre (((o.start.stage .logonSent).disconnects _).spec (Φ := Φ₁))
        fun _ _ hP => ⟨hP.2.1.1, hP.2.2⟩
    simp only [hseq, if_false, Bool.true_eq_false]
    have hready : ∀ m s, MayBeTimely Φ₀ cfg f → Proceeding .logonSent p.start m s →
        Proceeding .logonSent p.timely m s := fun m s hmay hP =>
      ⟨o.checked ⟨hpass, hseq, by simpa using hposture⟩ hmay m s hP.1, hP.2⟩
    exact Spec.pre
      (o.timely.takeUpLogon o.takeUp o.tolerated fun a => o.confirmLogon a)
      fun m w hP => ⟨hready m w.state (hP.1 trivial) hP.2.1, hP.2.2⟩

end InitiatorOutline

/-! ## Connections -/

/-- The places of `drive_reconnect` behind the installation of the transport. -/
structure ConnectPlaces (μ : Type) where
  dialing : Assertion μ
  seen : MessageStore → Assertion μ
  hydrated : Assertion μ
  resetting : Assertion μ
  ready : Assertion μ

/-- What leads through `emit_initiator_logon_`. -/
structure ConnectOutline (M : Monitor Event μ) (cfg : SessionConfig) (V E : Assertion μ)
    (p : ConnectPlaces μ) : Prop where
  dialing : Stage M .logonSent V E p.dialing
  kept : ∀ m s, p.dialing m s → hydrates cfg (refreshActive cfg) s = false → p.hydrated m s
  read : ∀ m s, p.dialing m s → p.seen (s.store.getD {}) m s
  seen : ∀ st, Stage M .logonSent V E (p.seen st)
  seeded : ∀ st next, cfg.storeIsPersistent = true → Leads M (p.seen st)
    (seededWith (if !cfg.resetOnLogon then st else {}) next)
    (.inboundReset (if !cfg.resetOnLogon then st else {}).nextInbound) p.hydrated
  hydrated : Stage M .logonSent V E p.hydrated
  knob : cfg.resetOnLogon = true → Leads M p.hydrated
    (managerReset seqnumMin seqnumMin Nat.one_pos) (.inboundReset seqnumMin) p.resetting
  resetting : Stage M .logonSent V E p.resetting
  knobStored : ∀ m s, p.resetting m s → p.ready m (storeReset seqnumMin seqnumMin Nat.one_pos s)
  unreset : cfg.resetOnLogon = false → ∀ m s, p.hydrated m s → p.ready m s
  ready : Halt M V E p.ready
  flagged : ∀ b m s, p.ready m s → p.ready m { s with ownLogonSentResetFlag := b }

variable {M : Monitor Event μ} {cfg : SessionConfig} {V I : Assertion μ} {sends : Reply → Prop}
    {Φ : List Answer → Prop} {s : Session}

theorem ConnectOutline.emitInitiatorLogon {E : Assertion μ} {p : ConnectPlaces μ}
    (o : ConnectOutline M cfg V E p) :
    Triple M p.dialing (emitInitiatorLogon cfg) (fun _ => V) E := by
  have hhydrate := o.dialing.ensureHydrated (Φ := fun _ => True) (Ψ := fun _ => True)
    (fun _ _ hP => hP) o.read o.seen (.inl rfl) (fun _ _ _ _ _ => trivial) o.kept
    fun st next m s hP => o.seeded st next hP.2 m s hP.1
  refine Triple.bind (Spec.triple (Spec.conseq hhydrate (fun _ _ hP => hP)
    (fun _ _ _ hP => hP.1) fun _ _ hE => hE)) fun hydrated => onOkEnds hydrated ?_
  refine Triple.bind (Q := fun r m s =>
    match r with
    | .ok _ => p.ready m s
    | .error _ => p.hydrated m s ∨ p.resetting m s) ?_ fun reset => ?_
  · unfold Model.onlyIf
    split
    next hknob => exact Stage.resetSeqnumsToOneDurable o.resetting (o.knob hknob) o.knobStored
    next hno => exact Triple.pure _ (o.unreset (by simpa using hno))
  cases reset with
  | error e => exact Triple.or (o.hydrated.disconnects _) (o.resetting.disconnects _)
  | ok _ =>
    refine o.ready.last (Maintains.get fun s => ?_)
    exact (Maintains.modify fun m s hP => o.flagged _ m s hP).bind fun _ =>
      o.ready.emitLeaf cfg _ fun _ => rfl

/-! ## Exceptions -/

/-- What an exception of an arm has to leave: `V` behind the `catch` clauses. -/
def Aborted (M : Monitor Event μ) (entered : FsmState) (V : Assertion μ) (m : μ)
    (s : Session) : Prop :=
  if entrySuperseded s entered = false ∧ s.fsm ≠ .disconnected then
    M.allows m (.transition .disconnected) ∧
      V (M.next m (.transition .disconnected)) { s with fsm := .disconnected }
  else V m s

theorem ends_afterAbort (entered : FsmState) (e : Abort) :
    Triple M (Aborted M entered V) (afterAbort entered e) (fun _ => V) V := by
  refine Triple.get fun s => ?_
  split
  next hc =>
    have hact : ∀ m s', s' = s ∧ Aborted M entered V m s' → M.allows m (.transition .disconnected) ∧
          V (M.next m (.transition .disconnected)) { s' with fsm := .disconnected } := by
      rintro m s' ⟨rfl, hA⟩
      unfold Aborted at hA
      rwa [if_pos hc] at hA
    exact Triple.bind (Q := fun _ => V)
      (Triple.act (fun m s' hP => (hact m s' hP).1) fun m s' hP => (hact m s' hP).2)
      fun _ => Triple.pure _ fun _ _ hV => hV
  next hc =>
    refine Triple.pure _ ?_
    rintro m s' ⟨rfl, hA⟩
    unfold Aborted at hA
    rwa [if_neg hc] at hA

theorem aborted_of_ambient (h : Ambient M sends V) (entered : FsmState) (m : μ) (s : Session)
    (hV : V m s) : Aborted M entered V m s := by
  unfold Aborted
  split
  · exact h.disconnected m s hV
  · exact hV

theorem EndsIn.reading {α : Type} {E : Assertion μ} {f : Session → Handler α}
    (h : EndsIn M Φ (fun m s' => I m s' ∧ s' = s) V E (f s)) :
    EndsIn M Φ (fun m s' => I m s' ∧ s' = s) V E (Traced.get >>= f) := by
  rintro m w ⟨⟨hI, rfl⟩, hΦ⟩
  exact h m w ⟨⟨hI, rfl⟩, hΦ⟩

theorem ends_onInboundFrame {f : Frame}
    (harm : EndsIn M Φ (fun m s' => I m s' ∧ s' = s) V (Aborted M s.fsm V)
      (inboundArm cfg f s.fsm)) :
    EndsIn M Φ (fun m s' => I m s' ∧ s' = s) V V (onInboundFrame cfg f) := by
  refine .reading ?_
  refine .bind (Q := fun _ m w => V m w.state)
    (.catching (Q := fun _ => V) harm (ends_afterAbort s.fsm)) fun r => ?_
  have hlast : Triple M V (do
      let s' ← Traced.get
      if r = .error .storeCancelled ∧ entrySuperseded s' s.fsm = true then pure (.ok ())
      else pure r : Handler Outcome) (fun _ => V) V :=
    Maintains.get fun _ => (Maintains.pure _).ite (Maintains.pure _)
  exact .pre (hlast.spec (Φ := fun _ => True)) fun _ _ hV => ⟨hV, trivial⟩

theorem EndsIn.of_triple {α : Type} {P V' E E' : Assertion μ} {x : Handler α}
    (hx : Triple M P x (fun _ => V') E') (hI : ∀ m s, I m s → P m s)
    (hV : ∀ m s, V' m s → V m s) (hE : ∀ m s, E' m s → E m s) : EndsIn M Φ I V E x :=
  .conseq (hx.spec (Φ := Φ)) (fun m w h => ⟨hI m w.state h.1, h.2⟩)
    (fun _ m w h => hV m w.state h) hE

/-- A frame keeps what its arm keeps: the one of an established session, the
acceptor's or the initiator's. -/
theorem ends_frame_of_arms (hV : Ambient M sends V) {f : Frame} (hup : s.up = true →
      EndsIn M Φ (fun m s' => V m s' ∧ s' = s) V V (onInboundActive cfg f))
    (hacceptor : s.fsm = .notConnected → EndsIn M Φ (fun m s' => V m s' ∧ s' = s) V
      (Aborted M .notConnected V) (onInboundNotConnected cfg f))
    (hinitiator : s.fsm = .logonSent → EndsIn M Φ (fun m s' => V m s' ∧ s' = s) V
      (Aborted M .logonSent V) (onInboundLogonSent cfg f)) :
    EndsIn M Φ (fun m s' => V m s' ∧ s' = s) V V (onInboundFrame cfg f) := by
  have hestablished : ∀ entered, s.up = true → EndsIn M Φ (fun m s' => V m s' ∧ s' = s) V
      (Aborted M entered V) (onInboundActive cfg f) := fun entered h =>
    .conseq (hup h) (fun _ _ h => h) (fun _ _ _ h => h) (aborted_of_ambient hV entered)
  refine ends_onInboundFrame ?_
  cases hfsm : s.fsm with
  | logonReceived => exact hestablished _ (by simp [Session.up, hfsm])
  | active => exact hestablished _ (by simp [Session.up, hfsm])
  | notConnected => exact hacceptor hfsm
  | logonSent => exact hinitiator hfsm
  | logoutSent =>
    have hlogout : Maintains M V (onInboundLogoutSent f) := (hV.disconnectWith _).ite (.pure _)
    exact .of_triple hlogout (fun _ _ h => h.1) (fun _ _ h => h) (aborted_of_ambient hV _)
  | disconnected => exact .pure _ fun _ _ h => h.1.1

theorem ends_env (hV : Ambient M sends V) (cfg : SessionConfig) (act : EnvAct)
    (hI : ∀ m s, I m s → V m s) : EndsIn M Φ I V V ((Input.env act).program cfg) :=
  .of_triple ((hV.perform act).bind fun _ => .pure (Except.ok ())) hI
    (fun _ _ h => h) fun _ _ h => h

theorem ends_accept (identity : Option PeerIdentity)
    (h : Leads M I (fun s => { s with livePeerId := identity }) .connected V) :
    EndsIn M Φ I V V (attachAcceptedTransport identity) :=
  .of_triple (.bind h.act fun _ => .pure _ fun _ _ hV => hV)
    (fun _ _ hI => hI) (fun _ _ hV => hV) fun _ _ hV => hV

theorem EndsIn.step {t : Step} (h : EndsIn M Φ I V V (t.input.program cfg)) {m : μ} (hI : I m s)
    (hΦ : Φ t.answers) :
    M.Accepts m (Model.step cfg s t).2 ∧
      V (M.run m (Model.step cfg s t).2) (Model.step cfg s t).1 := by
  obtain ⟨events, hlog, hacc, hpost⟩ := h m { state := s, log := [], answers := t.answers } ⟨hI, hΦ⟩
  have hevents : (Model.step cfg s t).2 = events := hlog.trans (List.nil_append _)
  rw [hevents]
  refine ⟨hacc, ?_⟩
  cases hr : ((t.input.program cfg) { state := s, log := [], answers := t.answers }).1 with
  | ok a =>
    rw [hr] at hpost
    exact hpost
  | error e =>
    rw [hr] at hpost
    exact hpost

theorem ends_driveReconnect {p : ConnectPlaces μ}
    (o : ConnectOutline M cfg V (Aborted M .active V) p) {C : Assertion μ}
    (identity : Option PeerIdentity)
    (hconnected : Leads M I (fun s => { s with livePeerId := identity }) .connected C)
    (hdialing : Leads M C (fun s => { s with fsm := .logonSent })
      (.transition .logonSent) p.dialing) :
    Triple M I (driveReconnect cfg identity) (fun _ => V) V :=
  .bind (Q := fun _ => C) hconnected.act fun _ =>
    .bind (Q := fun _ => p.dialing) hdialing.act fun _ =>
      .catching o.emitInitiatorLogon (ends_afterAbort .active)

theorem mem_history {steps : List Step} {e : Entry} (he : e ∈ history cfg s steps) :
    e.events = (step cfg e.before e.step).2 ∧ e.after = (step cfg e.before e.step).1 := by
  induction steps generalizing s with
  | nil => cases he
  | cons t rest ih =>
    obtain rfl | he := List.mem_cons.mp he
    · exact ⟨rfl, rfl⟩
    · exact ih he

end Fixpp.Analysis
