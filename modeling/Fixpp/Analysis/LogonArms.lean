import Fixpp.Analysis.InboundDispatch
import Fixpp.Analysis.SessionOutline

/-!
# The Logon arms follow the inbound protocol

A session that is not yet established has no gap on its books, unless a connection was installed
over one. The Logon arms keep it that way (`Fresh`): they neither open a gap nor deliver a
message.
-/

namespace Fixpp.Analysis

open Foundation Model Interface

/-- The ledger describes the session, and no gap is open that this connection
could know of. -/
structure Fresh (l : Ledger) (s : Session) : Prop extends Linked l s where
  ungapped : l.clean = true → l.gap = none

def Live (l : Ledger) (s : Session) : Prop := Fresh l s ∧ s.lifecycle ≠ .closedDrained

theorem stable_fresh : Stable Fresh := by
  intro l s l' s' hd h
  obtain ⟨hgap, hclean, -⟩ := hd.observed
  have hg : l'.gap = l.gap := hgap
  have hc : l'.clean = l.clean := hclean
  exact { stable_linked l s l' s' hd h.toLinked with
    ungapped := fun hclean' => hg.trans (h.ungapped (hc ▸ hclean')) }

section Arms

variable {rules : Rules} {l : Ledger} {s s' : Session} {E : Ledger → Session → Prop}

theorem Fresh.sound (h : Fresh l s) : Sound l s :=
  { h.toLinked with
    fresh := fun hc _ => h.ungapped hc
    asked := fun hc _ b g hg => by
      rw [h.ungapped hc] at hg
      cases hg }

theorem Sound.toFresh (h : Sound l s) (hs : s.fsm = .notConnected ∨ s.fsm = .logonSent) :
    Fresh l s :=
  { h.toLinked with ungapped := fun hc => h.fresh hc hs }

/-! ## What leads from one place of an arm to the next -/

theorem Fresh.kept (h : Fresh l s) (hin : s'.seqnums.nextInbound = s.seqnums.nextInbound)
    (hresend : s'.resend = s.resend) (hfsm : s'.fsm = s.fsm)
    (hlife : s'.lifecycle = s.lifecycle) : Fresh l s' :=
  stable_fresh l s l s' (.of_eq hin hresend hfsm hlife) h

theorem leads_reset {f : Session → Session} {next : ℕ} (hin : ∀ s, (f s).seqnums.nextInbound = next)
    (hrest : ∀ s, (f s).resend = s.resend ∧ (f s).fsm = s.fsm ∧ (f s).lifecycle = s.lifecycle) :
    Leads (inboundProtocol rules) Fresh f (.inboundReset next) Fresh := by
  intro l s h
  obtain ⟨hresend, hfsm, hlife⟩ := hrest s
  refine ⟨trivial, { expected := (hin s).symm, gap := ?_, drained := fun hd => ?_
                     ungapped := h.ungapped }⟩
  · have hgap : l.gap = openGap s := h.gap
    show l.gap = openGap (f s)
    rw [hgap]
    simp [openGap, hresend]
  rw [hlife] at hd
  have hdown := h.drained hd
  unfold Session.down at hdown ⊢
  rwa [hfsm]

theorem Fresh.takeUp (h : Fresh l s) {seq : ℕ} {counters : SeqnumManager}
    (hcheck : s.seqnums.checkInbound seq = .ok counters) :
    (inboundProtocol rules).allows l (.takeUp seq) ∧
      Fresh ((inboundProtocol rules).next l (.takeUp seq)) { s with seqnums := counters } := by
  obtain ⟨hseq, hcounters⟩ := SeqnumManager.checkInbound_ok hcheck
  exact ⟨hseq.trans h.expected.symm, { expected := hcounters.symm, gap := h.gap
                                       drained := h.drained, ungapped := h.ungapped }⟩

theorem leads_transition (st : FsmState) :
    Leads (inboundProtocol rules) Live (fun s => { s with fsm := st }) (.transition st) Fresh :=
  fun _ _ h => ⟨trivial, { expected := h.1.expected, gap := h.1.gap
                           drained := fun hd => absurd hd h.2, ungapped := h.1.ungapped }⟩

theorem live_of_proceeding {arm : FsmState}
    (harm : arm = .notConnected ∨ arm = .logonReceived ∨ arm = .logonSent)
    (h : Proceeding arm Fresh l s) : Live l s := by
  refine ⟨h.1, fun hlife => ?_⟩
  have hdown := h.1.drained hlife
  have hfsm : s.fsm = arm := by
    have hgo := h.2
    unfold Session.logonArmSuperseded at hgo
    by_contra hne
    simp [hne] at hgo
  unfold Session.down at hdown
  obtain rfl | rfl | rfl := harm <;> simp [hfsm] at hdown

variable (cfg : SessionConfig)

/-- What drifting keeps survives whatever happens where a handler waits. -/
theorem Stable.ambient {P : Ledger → Session → Prop} (hP : Stable P) :
    Ambient (inboundProtocol rules) (fun r => Reply.asks r = false) P :=
  have hd := fun l s => @ambient_drift rules (l, s)
  { disconnected := fun l s h => ((hd l s).disconnected l s (.refl _)).imp_right (hP _ _ _ _ · h)
    loggedOut := fun l s h hc hn hl =>
      ((hd l s).loggedOut l s (.refl _) hc hn hl).imp_right (hP _ _ _ _ · h)
    closing := fun l s h ho => hP _ _ _ _ ((hd l s).closing l s (.refl _) ho) h
    tornDown := fun l s stored h hc hdown =>
      ((hd l s).tornDown l s stored (.refl _) hc hdown).imp_right (hP _ _ _ _ · h)
    drained := fun l s h hc hdown => hP _ _ _ _ ((hd l s).drained l s (.refl _) hc hdown) h
    stopped := fun l s h => hP _ _ _ _ ((hd l s).stopped l s (.refl _)) h
    testRequested := fun l s id h => hP _ _ _ _ ((hd l s).testRequested l s id (.refl _)) h
    numbered := fun l s next h => hP _ _ _ _ ((hd l s).numbered l s next (.refl _)) h
    stored := fun l s seq bytes st h hst =>
      hP _ _ _ _ ((hd l s).stored l s seq bytes st (.refl _) hst) h
    sent := fun l s r h hr => ((hd l s).sent l s r (.refl _) hr).imp_right (hP _ _ _ _ · h)
    observed := fun l s h => ((hd l s).observed l s (.refl _)).imp_right (hP _ _ _ _ · h) }

theorem halt_fresh (hE : ∀ l s, Fresh l s → E l s) : Halt (inboundProtocol rules) Fresh E Fresh :=
  { stable_fresh.ambient with
    ends := fun _ _ h => h
    aborts := hE }

/-! ## The arms -/

theorem acceptorOutline (f : Frame) :
    AcceptorOutline (inboundProtocol rules) cfg f (fun _ => True) (fun _ => True) Fresh Fresh
      { start := Fresh, seen := fun _ => Fresh, hydrated := Fresh, timely := Fresh
        resetting := Fresh, ready := Fresh, taken := fun _ => Fresh, authorized := fun _ => Fresh
        received := fun _ => Fresh, unit := fun _ => Fresh, answered := fun _ => Fresh
        active := fun _ => Fresh } :=
  have hhalt : Halt (inboundProtocol rules) Fresh Fresh Fresh := halt_fresh fun _ _ h => h
  { start := hhalt
    answers := fun _ _ _ _ _ => trivial
    kept := fun _ _ h _ => h.1
    read := fun _ _ h => h
    seen := fun _ => hhalt.stage _
    seeded := fun _ _ _ => leads_reset (fun _ => rfl) fun _ => ⟨rfl, rfl, rfl⟩
    hydrated := hhalt.stage _
    checked := fun _ _ _ _ h => h
    timely := hhalt.stage _
    knob := fun _ => leads_reset (fun _ => rfl) fun _ => ⟨rfl, rfl, rfl⟩
    resetting := hhalt.stage _
    knobStored := fun _ _ h => h.kept rfl rfl rfl rfl
    unreset := fun _ _ _ h => h
    ready := hhalt.stage _
    takeUp := fun _ _ _ h hcheck => h.1.takeUp hcheck
    tolerated := fun _ _ _ h _ => h.1
    taken := fun _ => hhalt.stage _
    consumed := fun _ _ _ h => h.kept rfl rfl rfl rfl
    unguarded := fun _ _ _ _ h => h
    guarded := fun _ _ _ _ _ h _ _ => h.kept rfl rfl rfl rfl
    authorized := fun _ => hhalt.stage _
    recorded := fun _ l s h => leads_transition _ l s (live_of_proceeding (.inl rfl) h)
    received := fun _ => hhalt.stage _
    unitManager := fun _ _ _ => leads_reset (fun _ => rfl) fun _ => ⟨rfl, rfl, rfl⟩
    unit := fun _ => hhalt.stage _
    unitStored := fun _ _ _ h => h.kept rfl rfl rfl rfl
    unitVolatile := fun _ _ _ _ h => h
    noUnit := fun _ _ _ _ h => h
    answered := fun _ => hhalt
    activated := fun _ l s h => leads_transition _ l s (live_of_proceeding (.inr (.inl rfl)) h)
    active := fun _ => hhalt
    persisted := fun _ _ _ _ h => h.kept rfl rfl rfl rfl }

theorem initiatorOutline (f : Frame) :
    InitiatorOutline (inboundProtocol rules) cfg f (fun _ => True) (fun _ => True) Fresh Fresh
      { start := Fresh, timely := Fresh, taken := fun _ => Fresh, versioned := fun _ => Fresh
        unit := fun _ => Fresh, confirmed := fun _ => Fresh, authorized := fun _ => Fresh
        active := fun _ => Fresh } :=
  have hhalt : Halt (inboundProtocol rules) Fresh Fresh Fresh := halt_fresh fun _ _ h => h
  { start := hhalt
    answers := fun _ _ => trivial
    checked := fun _ _ _ _ h => h
    timely := hhalt.stage _
    takeUp := fun _ _ _ h hcheck => h.1.takeUp hcheck
    tolerated := fun _ _ _ h _ => h.1
    taken := fun _ => hhalt.stage _
    passed := fun _ _ _ _ h => h
    versioned := fun _ => hhalt.stage _
    flagged := fun _ _ _ h => h.kept rfl rfl rfl rfl
    unitManager := fun _ _ _ => leads_reset (fun _ => rfl) fun _ => ⟨rfl, rfl, rfl⟩
    between := fun _ => hhalt.toAmbient
    unit := fun _ _ => hhalt.stage _
    unitStored := fun _ _ _ _ h => h.kept rfl rfl rfl rfl
    unitVolatile := fun _ _ _ _ h => h
    noUnit := fun _ _ _ _ h => h
    confirmed := fun _ => hhalt.stage _
    consumed := fun _ _ _ h => h.kept rfl rfl rfl rfl
    unguarded := fun _ _ _ _ h => h
    guarded := fun _ _ _ _ _ h _ _ => h.kept rfl rfl rfl rfl
    authorized := fun _ => hhalt
    activated := fun _ l s h => leads_transition _ l s (live_of_proceeding (.inr (.inr rfl)) h)
    active := fun _ => hhalt
    persisted := fun _ _ _ _ h => h.kept rfl rfl rfl rfl }

theorem connectOutline : ConnectOutline (inboundProtocol rules) cfg Fresh
      (Aborted (inboundProtocol rules) .active Fresh)
      { dialing := Fresh, seen := fun _ => Fresh, hydrated := Fresh, resetting := Fresh
        ready := Fresh } :=
  have hhalt : Halt (inboundProtocol rules) Fresh (Aborted (inboundProtocol rules) .active Fresh)
      Fresh := halt_fresh (aborted_of_ambient stable_fresh.ambient .active)
  { dialing := hhalt.stage _
    kept := fun _ _ h _ => h
    read := fun _ _ h => h
    seen := fun _ => hhalt.stage _
    seeded := fun _ _ _ => leads_reset (fun _ => rfl) fun _ => ⟨rfl, rfl, rfl⟩
    hydrated := hhalt.stage _
    knob := fun _ => leads_reset (fun _ => rfl) fun _ => ⟨rfl, rfl, rfl⟩
    resetting := hhalt.stage _
    knobStored := fun _ _ h => h.kept rfl rfl rfl rfl
    unreset := fun _ _ _ h => h
    ready := hhalt
    flagged := fun _ _ _ h => h.kept rfl rfl rfl rfl }

theorem brings_onInboundNotConnected (f : Frame) :
    Brings rules Fresh (onInboundNotConnected cfg f) Fresh :=
  Traced.Spec.triple (acceptorOutline cfg f).onInboundNotConnected

theorem brings_onInboundLogonSent (f : Frame) :
    Brings rules Fresh (onInboundLogonSent cfg f) Fresh :=
  Traced.Spec.triple (initiatorOutline cfg f).onInboundLogonSent

end Arms

end Fixpp.Analysis
