import Fixpp.Analysis.Ambience
import Fixpp.Interface.Ledger

/-!
# What a session does while it waits

`Drift` bounds what happens to the inbound side of a session where a handler waits or replies:
the connection may go down, and a close may reset the counters once it is down. Every step the
handlers share is `Quiet`: it drifts and logs only what the inbound protocol allows anywhere.
-/

namespace Fixpp.Analysis

open Foundation Model Interface

variable {p q : Ledger × Session} {next : Handler Outcome}

def openGap (s : Session) : Option (ℕ × ℕ) :=
  if s.resend.awaitingResend then some (s.resend.outstandingBegin, s.resend.outstandingEnd)
  else none

/-- What may happen to a ledger and a session while a handler waits. -/
structure Drift (p q : Ledger × Session) : Prop where
  linked : p.1.expected = p.2.seqnums.nextInbound → q.1.expected = q.2.seqnums.nextInbound
  resend : q.2.resend = p.2.resend
  observed : q.1.gap = p.1.gap ∧ q.1.clean = p.1.clean ∧ q.1.jumped = p.1.jumped
  requested : q.1.requested = p.1.requested ∨ q.1.requested = none
  fsm : q.2.fsm = p.2.fsm ∨ q.2.down = true
  kept : q.2.down = false → q.1 = p.1 ∧ q.2.seqnums.nextInbound = p.2.seqnums.nextInbound
  counter : q.2.seqnums.nextInbound = p.2.seqnums.nextInbound ∨
    (q.2.lifecycle ≠ .opened ∧ q.2.down = true)
  closing : p.2.lifecycle ≠ .opened → q.2.lifecycle ≠ .opened
  drained : (p.2.lifecycle = .closedDrained → p.2.down = true) →
    q.2.lifecycle = .closedDrained → q.2.down = true

namespace Drift

theorem refl (p : Ledger × Session) : Drift p p where
  linked h := h
  resend := rfl
  observed := ⟨rfl, rfl, rfl⟩
  requested := .inl rfl
  fsm := .inl rfl
  kept _ := ⟨rfl, rfl⟩
  counter := .inl rfl
  closing h := h
  drained h := h

theorem down (h : Drift p q) (hp : p.2.down = true) : q.2.down = true := by
  obtain hfsm | hdown := h.fsm
  · unfold Session.down at hp ⊢
    rwa [hfsm]
  · exact hdown

theorem not_down (h : Drift p q) (hq : q.2.down = false) : p.2.down = false := by
  by_contra hp
  have := h.down (by simpa using hp)
  rw [this] at hq
  cases hq

theorem trans (p q r : Ledger × Session) (hpq : Drift p q) (hqr : Drift q r) : Drift p r where
  linked h := hqr.linked (hpq.linked h)
  resend := hqr.resend.trans hpq.resend
  observed := ⟨hqr.observed.1.trans hpq.observed.1, hqr.observed.2.1.trans hpq.observed.2.1,
    hqr.observed.2.2.trans hpq.observed.2.2⟩
  requested := by
    obtain h | h := hqr.requested
    · rw [h]
      exact hpq.requested
    · exact .inr h
  fsm := by
    obtain h | h := hqr.fsm
    · obtain h' | h' := hpq.fsm
      · exact .inl (h.trans h')
      · exact .inr (hqr.down h')
    · exact .inr h
  kept hr := by
    obtain ⟨h₁, h₂⟩ := hqr.kept hr
    obtain ⟨h₃, h₄⟩ := hpq.kept (hqr.not_down hr)
    exact ⟨h₁.trans h₃, h₂.trans h₄⟩
  counter := by
    obtain h | h := hqr.counter
    · obtain h' | ⟨hlife, hdown⟩ := hpq.counter
      · exact .inl (h.trans h')
      · exact .inr ⟨hqr.closing hlife, hqr.down hdown⟩
    · exact .inr h
  closing h := hqr.closing (hpq.closing h)
  drained h := hqr.drained (hpq.drained h)

/-- A change of the session that leaves the inbound side alone. -/
theorem of_eq {l : Ledger} {s s' : Session}
    (hin : s'.seqnums.nextInbound = s.seqnums.nextInbound) (hresend : s'.resend = s.resend)
    (hfsm : s'.fsm = s.fsm) (hlife : s'.lifecycle = s.lifecycle) : Drift (l, s) (l, s') where
  linked h := by simpa [hin] using h
  resend := hresend
  observed := ⟨rfl, rfl, rfl⟩
  requested := .inl rfl
  fsm := .inl hfsm
  kept _ := ⟨rfl, hin⟩
  counter := .inl hin
  closing h := by simpa [hlife] using h
  drained h := by simpa [hlife, Session.down, hfsm] using h

end Drift

section Quiet

variable (rules : Rules) {α β : Type}

/-- A step that drifts, whatever the world. -/
def Quiet (x : Handler α) : Prop := Traced.Does (inboundProtocol rules) Drift x

variable {rules}

theorem Quiet.pure (a : α) : Quiet rules (Pure.pure a : Handler α) := Traced.Does.pure Drift.refl a

theorem Quiet.throw (e : Abort) : Quiet rules (Traced.throw e : Handler α) :=
  Traced.Does.throw Drift.refl e

theorem Quiet.bind {x : Handler α} {f : α → Handler β} (hx : Quiet rules x)
    (hf : ∀ a, Quiet rules (f a)) : Quiet rules (x >>= f) :=
  Traced.Does.bind Drift.trans hx hf

theorem Quiet.get {f : Session → Handler β} (hf : ∀ s, Quiet rules (f s)) :
    Quiet rules (Traced.get >>= f) :=
  Quiet.bind (Traced.Does.get Drift.refl) hf

theorem Quiet.ask {f : Answer → Handler β} (hf : ∀ a, Quiet rules (f a)) :
    Quiet rules (Traced.ask >>= f) :=
  Quiet.bind (Traced.Does.ask Drift.refl) hf

theorem Quiet.ite {c : Prop} [Decidable c] {x y : Handler α} (hx : Quiet rules x)
    (hy : Quiet rules y) : Quiet rules (if c then x else y) := by
  split
  · exact hx
  · exact hy

theorem Quiet.modify {f : Session → Session}
    (hin : ∀ s, (f s).seqnums.nextInbound = s.seqnums.nextInbound)
    (hresend : ∀ s, (f s).resend = s.resend) (hfsm : ∀ s, (f s).fsm = s.fsm)
    (hlife : ∀ s, (f s).lifecycle = s.lifecycle) : Quiet rules (Traced.modify f : Handler Unit) :=
  Traced.Does.modify fun _ s => Drift.of_eq (hin s) (hresend s) (hfsm s) (hlife s)

theorem Quiet.log {e : Event} (hallow : ∀ l : Ledger, l.Allows rules e)
    (hnext : ∀ l : Ledger, l.next e = l) : Quiet rules (Traced.act id e : Handler Unit) := by
  refine .act hallow ?_
  intro l s
  rw [inboundProtocol_next, hnext]
  exact .refl _

/-! ## The steps the handlers share -/

variable {l : Ledger} {s : Session}

theorem Drift.ends {st : FsmState} (hst : ({ s with fsm := st } : Session).down = true) :
    Drift (l, s) (l, { s with fsm := st }) where
  linked h := h
  resend := rfl
  observed := ⟨rfl, rfl, rfl⟩
  requested := .inl rfl
  fsm := .inr hst
  kept _ := ⟨rfl, rfl⟩
  counter := .inl rfl
  closing h := h
  drained _ _ := hst

theorem Drift.tornDown (stored : Bool) (hclosing : s.lifecycle = .closing) (hdown : s.down = true) :
    Drift (l, s) (l.next (.inboundReset seqnumMin), tornDown s stored) where
  linked _ := rfl
  resend := rfl
  observed := ⟨rfl, rfl, rfl⟩
  requested := .inr rfl
  fsm := .inl rfl
  kept hup := absurd (hdown.symm.trans hup) (by simp)
  counter := .inr ⟨by show s.lifecycle ≠ _; simp [hclosing], hdown⟩
  closing _ := by show s.lifecycle ≠ _; simp [hclosing]
  drained _ _ := hdown

theorem Drift.closes {c : Lifecycle} (hc : c ≠ .opened)
    (hdrain : c = .closedDrained → s.down = true) :
    Drift (l, s) (l, { s with lifecycle := c }) where
  linked h := h
  resend := rfl
  observed := ⟨rfl, rfl, rfl⟩
  requested := .inl rfl
  fsm := .inl rfl
  kept _ := ⟨rfl, rfl⟩
  counter := .inl rfl
  closing _ := hc
  drained _ h := hdrain h

/-- To have drifted from a given place survives whatever happens where a handler waits. -/
theorem ambient_drift (p : Ledger × Session) :
    Ambient (inboundProtocol rules) (fun r => Reply.asks r = false) fun l s => Drift p (l, s) where
  disconnected _ _ h := ⟨trivial, .trans _ _ _ h (.ends rfl)⟩
  loggedOut _ _ h _ _ _ := ⟨trivial, .trans _ _ _ h (.ends rfl)⟩
  closing _ _ h _ := .trans _ _ _ h (.closes (by decide) (by simp))
  tornDown _ _ stored h hc hdown := ⟨trivial, .trans _ _ _ h (.tornDown stored hc hdown)⟩
  drained _ _ h _ hdown := .trans _ _ _ h (.closes (by decide) fun _ => hdown)
  stopped _ _ h := .trans _ _ _ h (.of_eq rfl rfl rfl rfl)
  testRequested _ _ _ h := .trans _ _ _ h (.of_eq rfl rfl rfl rfl)
  numbered _ _ _ h := .trans _ _ _ h (.of_eq rfl rfl rfl rfl)
  stored _ _ _ _ _ h _ := .trans _ _ _ h (.of_eq rfl rfl rfl rfl)
  sent l s r h hr := by
    cases r with
    | resendRequest b e g => simp [Reply.asks] at hr
    | _ => exact ⟨trivial, h⟩
  observed _ _ h := ⟨trivial, h⟩

theorem Quiet.of_ambient {x : Handler α} (h : ∀ {P : Ledger → Session → Prop},
      Ambient (inboundProtocol rules) (fun r => Reply.asks r = false) P →
        Traced.Maintains (inboundProtocol rules) P x) : Quiet rules x :=
  Traced.does_of_maintains Drift.refl fun p => h (ambient_drift p)

theorem quiet_disconnected : Quiet rules (recordStateTransition .disconnected) :=
  .of_ambient (·.recordDisconnected)

theorem quiet_perform (a : EnvAct) : Quiet rules a.perform := .of_ambient (·.perform a)

theorem quiet_meanwhile (acts : List EnvAct) : Quiet rules (meanwhile acts) :=
  .of_ambient (·.meanwhile acts)

theorem quiet_suspend : Quiet rules suspend := .of_ambient (·.wait)

theorem Quiet.suspend {f : Answer → Handler β} (hf : ∀ a, Quiet rules (f a)) :
    Quiet rules (suspend >>= f) :=
  .bind quiet_suspend hf

theorem quiet_disconnectUnlessSuperseded (arm : Option FsmState) :
    Quiet rules (disconnectUnlessSuperseded arm) :=
  .of_ambient (·.disconnectUnlessSuperseded arm)

theorem quiet_disconnectWith (r : Outcome) : Quiet rules (disconnectWith r) :=
  .of_ambient (·.disconnectWith r)

theorem quiet_onOk (r : Outcome) (hnext : Quiet rules next) : Quiet rules (onOk r next) := by
  cases r with
  | ok _ => exact hnext
  | error e => exact .pure _

theorem quiet_onlyIf (c : Bool) {x : Handler Outcome} (hx : Quiet rules x) :
    Quiet rules (onlyIf c x) :=
  .ite hx (.pure _)

variable (cfg : SessionConfig)

theorem quiet_closeReset : Quiet rules (teardownReset cfg) := .of_ambient (·.teardownReset cfg)

theorem quiet_closeOnLateParseFailure : Quiet rules (closeOnLateParseFailure cfg) :=
  .of_ambient (·.closeOnLateParseFailure cfg)

theorem quiet_closeOnThrow : Quiet rules (closeOnThrow cfg) := .of_ambient (·.closeOnThrow cfg)

theorem quiet_assignOutbound : Quiet rules assignOutbound := .of_ambient (·.assignOutbound)

theorem quiet_fireToAdmin : Quiet rules (fireToAdmin cfg) :=
  .of_ambient fun _ => Ambient.fireToAdmin cfg

theorem quiet_storeStep (seq : ℕ) (bytes : Bytes) (arm : Option FsmState) :
    Quiet rules (storeStep cfg seq bytes arm) :=
  .of_ambient (·.storeStep cfg seq bytes arm)

/-- Every reply leaf but the ResendRequest's is quiet. -/
theorem quiet_emitLeaf (p : LeafPolicy) {reply : ℕ → Reply}
    (h : ∀ seq, Reply.asks (reply seq) = false) : Quiet rules (emitLeaf cfg p reply) :=
  .of_ambient (·.emitLeaf cfg p h)

variable (refSeq : ℕ)

theorem quiet_inboundRejectLeaf (refTagId : ℕ) (refMsgType : Bytes) (reason : ℕ)
    (arm : Option FsmState) :
    Quiet rules (inboundRejectLeaf cfg refSeq refTagId refMsgType reason arm) :=
  quiet_emitLeaf cfg _ fun _ => rfl

theorem quiet_inboundRejectBestEffortLeaf (refMsgType : Bytes) :
    Quiet rules (inboundRejectBestEffortLeaf cfg refSeq refMsgType) :=
  quiet_emitLeaf cfg _ fun _ => rfl

theorem quiet_inboundLogoutLeaf (text : Bytes) : Quiet rules (inboundLogoutLeaf cfg text) :=
  quiet_emitLeaf cfg _ fun _ => rfl

theorem quiet_emitSessionReject (refTagId : ℕ) (refMsgType : Bytes) (reason : ℕ) (text : Bytes)
    (arm : Option FsmState) :
    Quiet rules (emitSessionReject cfg refSeq refTagId refMsgType reason text arm) :=
  quiet_emitLeaf cfg _ fun _ => rfl

theorem quiet_replayOutboundRange (beginSeq requestedEnd : ℕ)
    (throughCurrent : Bool) (arm : Option FsmState) :
    Quiet rules (replayOutboundRange cfg beginSeq requestedEnd throughCurrent arm) :=
  .of_ambient (·.replayOutboundRange ⟨fun _ _ => rfl, fun _ => rfl⟩ cfg beginSeq requestedEnd
    throughCurrent arm)

/-! ## Steps of the active arms -/

theorem quiet_persistInboundAdvance (arm : Option FsmState) :
    Quiet rules (persistInboundAdvance cfg arm) := by
  refine .ite (.suspend fun a => ?_) (.pure _)
  cases a.store with
  | done =>
    refine .bind ?_ fun _ => .pure _
    exact .modify (fun _ => rfl) (fun _ => rfl) (fun _ => rfl) fun _ => rfl
  | failed e => exact .bind (quiet_disconnectUnlessSuperseded arm) fun _ => .pure _
  | cancelled => exact .bind (quiet_disconnectUnlessSuperseded arm) fun _ => .pure _
  | threw => exact .throw _

theorem quiet_settle : Quiet rules (settle cfg) := quiet_persistInboundAdvance cfg none

variable (hdr : FrameHeader)

theorem quiet_resendGapDeadline : Quiet rules (resendGapDeadline cfg hdr) := by
  refine .get fun s => .ite (.ask fun a => ?_) (.pure _)
  refine .ite (.pure _) (.bind (quiet_inboundLogoutLeaf cfg _) fun r => ?_)
  cases r with
  | error e => exact .pure _
  | ok _ => exact .bind quiet_disconnected fun _ => .pure _

theorem quiet_unlessOverdue (hnext : Quiet rules next) :
    Quiet rules (unlessOverdue cfg hdr next) := by
  refine .bind (quiet_resendGapDeadline cfg hdr) fun expired => ?_
  cases expired with
  | some r => exact .pure _
  | none => exact hnext

theorem quiet_answerPendingTestRequest (id : Bytes) :
    Quiet rules (answerPendingTestRequest id) := by
  refine .get fun s => .ite ?_ (.bind ?_ fun _ => .pure _)
  · exact .bind quiet_disconnected fun _ => .pure _
  · exact .modify (fun _ => rfl) (fun _ => rfl) (fun _ => rfl) fun _ => rfl

theorem quiet_dispatchToAdmin (seq : ℕ) : Quiet rules (dispatchTo (.fromAdmin seq)) := by
  refine .ask fun a => .ite (.pure _) (.bind ?_ fun _ => .pure _)
  exact .log (fun _ => trivial) fun _ => rfl

theorem quiet_afterCallback (outcome : CallbackOutcome) {rejected accepted : Handler Outcome}
    (hrej : Quiet rules rejected) (hacc : Quiet rules accepted) :
    Quiet rules (afterCallback cfg outcome rejected accepted) := by
  cases outcome with
  | parseFailed => exact quiet_closeOnLateParseFailure cfg
  | threw => exact quiet_closeOnThrow cfg
  | rejected => exact hrej
  | accepted => exact hacc

theorem quiet_onLogout : Quiet rules (onLogout cfg hdr) := by
  have hfinish : Quiet rules (finishLogout cfg) :=
    .bind (quiet_settle cfg) fun _ => quiet_onOk _ (quiet_disconnectWith _)
  refine .bind (.modify (fun _ => rfl) (fun _ => rfl) (fun _ => rfl) fun _ => rfl)
    fun _ => .get fun s => ?_
  refine .bind (quiet_onlyIf _ (quiet_inboundLogoutLeaf cfg _)) fun r => ?_
  refine quiet_onOk r (.ite (.bind (quiet_dispatchToAdmin _) fun outcome => ?_) hfinish)
  cases outcome with
  | parseFailed => exact quiet_closeOnLateParseFailure cfg
  | threw => exact quiet_disconnectWith _
  | rejected =>
    exact .bind (quiet_inboundRejectBestEffortLeaf cfg _ _) fun _ => quiet_onOk _ hfinish
  | accepted => exact hfinish

theorem quiet_onTestRequest : Quiet rules (onTestRequest cfg hdr) :=
  .bind (quiet_emitLeaf cfg _ fun _ => rfl) fun _ => quiet_onOk _ (quiet_settle cfg)

theorem quiet_onResendRequest : Quiet rules (onResendRequest cfg hdr) := by
  refine .bind (quiet_replayOutboundRange cfg _ _ _ none) fun r => ?_
  cases r with
  | error e => exact quiet_disconnectWith _
  | ok _ => exact quiet_settle cfg

theorem quiet_onUnsupported : Quiet rules (onUnsupported cfg hdr) :=
  .bind (quiet_settle cfg) fun _ => quiet_onOk _ (quiet_emitSessionReject cfg _ _ _ _ _ _)

theorem quiet_onFromAppVeto : Quiet rules (onFromAppVeto cfg hdr) :=
  .bind (.of_ambient (·.inboundBusinessRejectLeaf cfg _ _ rfl)) fun _ => quiet_onOk _ (quiet_settle cfg)

theorem quiet_onHeartbeat : Quiet rules (onHeartbeat cfg hdr) := by
  refine .get fun s => .ite (.bind (quiet_answerPendingTestRequest _) fun _ => ?_)
    (quiet_settle cfg)
  exact .ite (quiet_settle cfg) (.pure _)

end Quiet

end Fixpp.Analysis
