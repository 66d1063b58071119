import Fixpp.Analysis.InboundSteps

/-!
# The active arms follow the inbound protocol

Every arm of `onInboundActive` logs what the inbound protocol allows and leaves
the session `Answered`: sound, and with the expected number moved on by one
exactly when the frame carried it, a Logon or a SequenceReset apart.
-/

namespace Fixpp.Analysis

open Foundation Model Interface Brings
open Foundation.Traced (Triple)

variable {P Q : Ledger → Session → Prop} {b g : ℕ}

/-- A frame that reads as number `seq` of type `ty` was answered where `n` was
expected. -/
def Answered (n seq : ℕ) (ty : Bytes) (l : Ledger) (s : Session) : Prop :=
  Sound l s ∧ (ty ≠ ascii "A" → ty ≠ ascii "4" → Handled n seq l s)

theorem stable_answered (n seq : ℕ) (ty : Bytes) : Stable (Answered n seq ty) :=
  fun l s l' s' hd h => ⟨stable_sound l s l' s' hd h.1,
    fun hA h4 => stable_handled n seq l s l' s' hd (h.2 hA h4)⟩

variable {ty : Bytes} {l : Ledger} {s : Session}

theorem Ended.answered {n seq : ℕ} (h : Ended n l s) : Answered n seq ty l s := by
  refine ⟨h.1.toSound, fun _ _ => ?_⟩
  by_cases heq : seq = n
  · exact handled_of_eq heq (h.1.toSound.reached_of_down h.2)
  · exact handled_of_ne heq h.1

theorem Settled.answered {n seq : ℕ} (h : Settled n l s) (hne : seq ≠ n) : Answered n seq ty l s :=
  ⟨h.toSound, fun _ _ => handled_of_ne hne h⟩

theorem Reached.answered {n : ℕ} (h : Reached (n + 1) l s) : Answered n n ty l s :=
  ⟨h.toSound, fun _ _ => handled_of_eq rfl h⟩

theorem Sound.answered {n seq : ℕ} (h : Sound l s) (hty : ty = ascii "A" ∨ ty = ascii "4") :
    Answered n seq ty l s :=
  ⟨h, fun hA h4 => (hty.elim hA h4).elim⟩

section Arms

variable {rules : Rules} {α β : Type} (cfg : SessionConfig) (hdr : FrameHeader)

/-! ## Frames that are answered with a Reject -/

theorem triple_inboundLogoutLeaf (text : Bytes) (n : ℕ) :
    Triple (inboundProtocol rules) (Settled n) (inboundLogoutLeaf cfg text)
      (fun r l s => Settled n l s ∧ (r ≠ .ok () → s.down = true)) (Ended n) := by
  have hquiet : Brings rules (Settled n) (inboundLogoutLeaf cfg text) (Settled n) :=
    (quiet_inboundLogoutLeaf cfg text).brings (stable_settled n)
  exact (Triple.and_free hquiet (failsDown_emitLeaf cfg rfl _)).pre
    fun _ _ h => ⟨h, trivial⟩

variable {n seq : ℕ} {next : Handler Outcome} {e : Error}

theorem brings_unlessOverdue (hP : ∀ l s, P l s → Settled n l s) (hQ : ∀ l s, Ended n l s → Q l s)
    (hnext : Brings rules P next Q) : Brings rules P (unlessOverdue cfg hdr next) Q := by
  have hdeadline : Triple (inboundProtocol rules) P (resendGapDeadline cfg hdr)
      (fun r l s => if r = none then P l s else Ended n l s) (Ended n) := by
    refine .get fun s => ?_
    by_cases hlate : parseSeqnum hdr.msgSeqNum > s.seqnums.nextInbound ∧
        s.resend.awaitingResend = true ∧ cfg.clock = true
    · rw [if_pos hlate]
      refine .ask fun a => ?_
      by_cases hholds : a.holds = true
      · rw [if_pos hholds]
        exact .pure none fun _ _ h => h.2
      rw [if_neg hholds]
      refine .bind ((triple_inboundLogoutLeaf cfg _ n).pre
        fun _ _ h => hP _ _ h.2) fun r => ?_
      cases r with
      | error e => exact .pure _ fun _ _ h => ⟨h.1, h.2 (by simp)⟩
      | ok _ =>
        refine .bind (Q := fun _ => Ended n) ?_ fun _ =>
          .pure _ fun _ _ h => h
        exact (brings_disconnected n).pre fun _ _ h => h.1
    · rw [if_neg hlate]
      exact .pure none fun _ _ h => h.2
  refine Triple.bind (hdeadline.conseq (fun _ _ h => h) (fun _ _ _ h => h) hQ) fun r => ?_
  cases r with
  | none => exact hnext
  | some r => exact .pure r fun l s h => hQ l s h

theorem brings_consumeRejectedSeqnum (n seq : ℕ) (ty : Bytes) :
    Brings rules (Ready n) (consumeRejectedSeqnum cfg seq ty) (Answered n seq ty) := by
  refine .ite (fun hty => ?_) fun _ => ?_
  · exact .pure _ fun _ _ h => h.1.toSound.answered hty
  refine .pre (P := fun l s => Ready n l s ∧ True) ?_ fun _ _ h => ⟨h, trivial⟩
  refine brings_checkInbound ?_ ?_ ?_ ?_
  · rintro rfl
    refine .bind (brings_closeFilledResendGap seq) (fun _ _ h => h.1.1.reached.answered)
      fun _ => ?_
    refine .mono ((quiet_persistInboundAdvance cfg none).brings (stable_reached (seq + 1)))
      (fun _ _ h => h.1.1.reached) fun _ _ h => h.answered
  · exact fun hlt => .pure _ fun _ _ h => h.1.1.answered (Nat.ne_of_lt hlt)
  · exact fun hgt => .pure _ fun _ _ h => h.1.1.answered (Nat.ne_of_gt hgt)
  · exact fun _ => (brings_disconnectWith n _).mono (fun _ _ h => h.1.1) fun _ _ h => h.answered

/-- What follows the consumption of a rejected frame only drifts. -/
theorem brings_consumeThen (n seq : ℕ) (ty : Bytes) (hnext : Quiet rules next) :
    Brings rules (Ready n)
      (do
        let consumed ← consumeRejectedSeqnum cfg seq ty
        onOk consumed next)
      (Answered n seq ty) :=
  .bind (brings_consumeRejectedSeqnum cfg n seq ty) (fun _ _ h => h) fun _ =>
    (quiet_onOk _ hnext).brings (stable_answered n seq ty)

theorem quiet_rejectUnparseable : Quiet rules (rejectUnparseable cfg hdr) :=
  .ite (quiet_emitSessionReject cfg _ _ _ _ _ _) (quiet_emitSessionReject cfg _ _ _ _ _ _)

theorem brings_disposeUnparseable (hn : 0 < n) : Brings rules (Ready n) (disposeUnparseable cfg hdr)
      (Answered n (parseSeqnum hdr.faultRefSeqNum) hdr.faultRefMsgType) := by
  refine ite (fun hzero => ?_) fun _ => ite (fun _ => ?_) fun _ => ?_
  · rw [hzero]
    exact pure _ fun _ _ h => h.1.answered (Nat.ne_of_lt hn)
  · exact (brings_disconnectWith n _).mono (fun _ _ h => h.1) fun _ _ h => h.answered
  by_cases h4 : hdr.faultRefMsgType = ascii "4"
  · refine Quiet.brings ?_ stable_sound |>.mono (fun _ _ h => h.1.toSound)
      fun _ _ h => h.answered (.inr h4)
    rw [h4]
    exact Quiet.bind (Quiet.pure _) fun _ => quiet_onOk _ (quiet_rejectUnparseable cfg hdr)
  have honly : onlyIf (hdr.faultRefMsgType ≠ ascii "4")
      (consumeRejectedSeqnum cfg (parseSeqnum hdr.faultRefSeqNum) hdr.faultRefMsgType) =
      consumeRejectedSeqnum cfg (parseSeqnum hdr.faultRefSeqNum) hdr.faultRefMsgType := by
    simp [onlyIf, h4]
  rw [honly]
  exact brings_consumeThen cfg n _ _ (quiet_rejectUnparseable cfg hdr)

theorem brings_onValidateFailed (n : ℕ) (d : RejectDecision) :
    Brings rules (Ready n) (onValidateFailed cfg hdr (.reject d))
      (Answered n (d.refSeqNum hdr) (d.refMsgType hdr)) := by
  refine brings_unlessOverdue cfg hdr (fun _ _ h => h.1) (fun _ _ h => h.answered) ?_
  exact brings_consumeThen cfg n _ _ (quiet_emitSessionReject cfg _ _ _ _ _ _)

theorem brings_rejectAndLogout (n refTagId : ℕ) :
    Brings rules (Ready n) (rejectAndLogout cfg hdr refTagId)
      (Answered n (parseSeqnum hdr.msgSeqNum) hdr.msgType) := by
  refine brings_consumeThen cfg n _ _ ?_
  refine .bind (quiet_inboundRejectLeaf cfg _ _ _ _ _) fun _ => quiet_onOk _ ?_
  exact .bind (quiet_inboundLogoutLeaf cfg _) fun _ => quiet_onOk _ (quiet_disconnectWith _)

theorem brings_rejectOrigSendingTime (n : ℕ) :
    Brings rules (Ready n) (rejectOrigSendingTime cfg hdr)
      (Answered n (parseSeqnum hdr.msgSeqNum) hdr.msgType) := by
  refine brings_unlessOverdue cfg hdr (fun _ _ h => h.1) (fun _ _ h => h.answered) ?_
  exact brings_consumeThen cfg n _ _ (quiet_inboundRejectLeaf cfg _ _ _ _ _)

/-! ## SequenceReset -/

theorem brings_applyInboundSequenceReset (newSeqno refSeq : ℕ) :
    Brings rules Sound (applyInboundSequenceReset cfg newSeqno refSeq) Sound := by
  refine .get fun s => ?_
  by_cases hzero : newSeqno = 0
  · rw [dif_pos hzero]
    exact .pure _ fun _ _ h => h.2
  rw [dif_neg hzero]
  refine .ite (fun hgt => ?_) fun _ => .ite (fun _ => ?_) fun _ => ?_
  · refine .ite (fun _ => ?_) fun _ => ?_
    · exact ((quiet_disconnectWith _).brings stable_sound).pre fun _ _ h => h.2
    -- between the jump and the end of AwaitingResend the gap is still recorded
    refine Triple.bind (Q := fun _ l s' => Linked l s' ∧ l.jumped = true ∧
      s'.resend = s.resend) ?_ fun _ => ite (fun hawait => ?_) fun hawait => ?_
    · refine .act ?_ ?_
      · rintro l s' ⟨rfl, h⟩
        show l.expected < newSeqno
        rw [h.expected]
        exact hgt
      · rintro l s' ⟨rfl, h⟩
        exact ⟨⟨rfl, h.gap, h.drained⟩, rfl, rfl⟩
    · refine bind (R := Sound) (get fun s₁ => ?_) (fun _ _ h => h) fun _ =>
        .pure _ fun _ _ h => h
      refine .act ?_ ?_
      · rintro l s' ⟨rfl, hlink, hjumped, hresend⟩
        refine ⟨hlink.expected.symm, s.resend.outstandingBegin, s.resend.outstandingEnd, ?_,
          .inr hjumped⟩
        rw [hlink.gap]
        simp [openGap, hresend, hawait]
      rintro l s' ⟨rfl, hlink, -⟩
      exact {
        expected := hlink.expected
        gap := by simp [Ledger.next, openGap]
        drained := hlink.drained
        fresh := fun _ _ => rfl
        asked := fun _ _ b g hg => by simp [Ledger.next] at hg }
    · refine .pure _ ?_
      rintro l s' ⟨hlink, -, hresend⟩
      have hnone : l.gap = none := by
        rw [hlink.gap]
        simp [openGap, hresend, hawait]
      exact { hlink with
        fresh := fun _ _ => hnone
        asked := fun _ _ b g hg => by simp [hnone] at hg }
  · exact ((quiet_inboundRejectLeaf cfg _ _ _ _ _).brings stable_sound).pre fun _ _ h => h.2
  · exact .pure _ fun _ _ h => h.2

theorem brings_onSequenceReset : Brings rules Sound (onSequenceReset cfg hdr) Sound := by
  have happly : Brings rules Sound (applyResetMode cfg hdr) Sound := by
    refine .ite (fun _ => ?_) fun _ => .pure _ fun _ _ h => h
    refine .bind (brings_applyInboundSequenceReset cfg _ _) (fun _ _ h => h) fun _ => ?_
    exact (quiet_onOk _ (quiet_unlessOverdue cfg hdr (.pure _))).brings stable_sound
  have hrefuse : Quiet rules (refuseResetMode cfg hdr) :=
    .bind (quiet_inboundRejectBestEffortLeaf cfg _ _) fun _ =>
      quiet_onOk _ (quiet_unlessOverdue cfg hdr (.pure _))
  refine .ite (fun _ => ?_) fun _ => happly
  refine (quiet_dispatchToAdmin _).then stable_sound (fun _ _ h => h) fun outcome => ?_
  cases outcome with
  | parseFailed => exact (quiet_closeOnLateParseFailure cfg).brings stable_sound
  | threw => exact (quiet_closeOnThrow cfg).brings stable_sound
  | rejected => exact hrefuse.brings stable_sound
  | accepted => exact happly

theorem brings_onGapFill : Brings rules Sound (onGapFill cfg hdr) Sound := by
  refine .ite (fun _ => ?_) fun _ => Quiet.brings ?_ stable_sound
  · refine (quiet_settle cfg).then stable_sound (fun _ _ h => h) fun r => ?_
    cases r with
    | ok _ => exact brings_applyInboundSequenceReset cfg _ _
    | error e => exact .pure _ fun _ _ h => h
  · refine Quiet.ite (Quiet.bind (quiet_dispatchToAdmin _) fun outcome => ?_) (quiet_settle cfg)
    exact quiet_afterCallback cfg outcome (quiet_settle cfg) (quiet_settle cfg)

/-! ## Asking for a resend -/

/-- A gap was recorded and is not asked for yet. -/
structure Pending (b g : ℕ) (l : Ledger) (s : Session) : Prop extends Linked l s where
  recorded : l.gap = some (b, g)
  unasked : l.requested = none
  unjumped : l.jumped = false
  ordered : b ≤ g
  established : s.up = true ∨ s.down = true
  counter : s.seqnums.nextInbound = b ∨ (s.lifecycle ≠ .opened ∧ s.down = true)

theorem stable_pending (b g : ℕ) : Stable (Pending b g) := by
  intro l s l' s' hd h
  obtain ⟨hgap, -, hjumped⟩ := hd.observed
  refine { stable_linked l s l' s' hd h.toLinked with
    recorded := hgap.trans h.recorded
    unasked := ?_
    unjumped := hjumped.trans h.unjumped
    ordered := h.ordered
    established := ?_
    counter := ?_ }
  · obtain hsame | hnone := hd.requested
    · exact hsame.trans h.unasked
    · exact hnone
  · obtain hsame | hdown := hd.fsm
    · have hfsm : s'.fsm = s.fsm := hsame
      have hest := h.established
      unfold Session.up Session.down at hest ⊢
      rwa [hfsm]
    · exact .inr hdown
  · obtain hsame | hclosed := hd.counter
    · obtain hn | ⟨hlife, hdown⟩ := h.counter
      · exact .inl (hsame.trans hn)
      · exact .inr ⟨hd.closing hlife, hd.down hdown⟩
    · exact .inr hclosed

theorem Pending.ended {l : Ledger} {s : Session} (h : Pending b g l s) (hdown : s.down = true) :
    Ended b l s :=
  ⟨{ h.toLinked.sound_of_down hdown with counter := h.counter }, hdown⟩

theorem Pending.sent {l : Ledger} {s : Session} (h : Pending b g l s) :
    Settled b (l.next (.sent (.resendRequest b 0 g))) s where
  expected := h.expected
  gap := h.gap
  drained := h.drained
  fresh _ hf := by
    have hest := h.established
    unfold Session.up Session.down at hest
    obtain hf | hf := hf <;> simp [hf] at hest
  asked _ hup b' g' hgap := by
    have hgap' : l.gap = some (b', g') := hgap
    rw [h.recorded] at hgap'
    cases hgap'
    have hn : s.seqnums.nextInbound = b := by
      obtain hn | ⟨-, hdown⟩ := h.counter
      · exact hn
      rw [down_eq_false_of_up hup] at hdown
      cases hdown
    have hexp : l.expected = b := h.expected.trans hn
    refine ⟨rfl, ?_, ?_⟩
    · show b ≤ l.expected
      omega
    show l.expected ≤ g
    have := h.ordered
    omega
  counter := h.counter

theorem Pending.brings_disconnectWith (b g : ℕ) (r : Outcome) :
    Brings rules (Pending b g) (disconnectWith r) (Ended b) :=
  ((quiet_disconnectWith r).ending (stable_pending b g) (endsDown_disconnectWith r)).post
    fun _ _ h => h.1.ended h.2

/-- A step in front of the request that throws has ended the session. -/
theorem Pending.then {Q : β → Ledger → Session → Prop} {x : Handler α} {f : α → Handler β}
    (hx : Quiet rules x) (ht : ThrowsDown x)
    (hf : ∀ a, Triple (inboundProtocol rules) (Pending b g) (f a) Q (Settled b)) :
    Triple (inboundProtocol rules) (Pending b g) (x >>= f) Q (Settled b) :=
  hx.thenDown ht (stable_pending b g) (fun _ _ h hd => (h.ended hd).1) hf

theorem Pending.brings_conclude (b g : ℕ) {r : Refused} (hr : r ≠ .ignored) (e : Error) :
    Brings rules (Pending b g) (r.conclude none e) (Settled b) := by
  have hdisc : Brings rules (Pending b g) (disconnectUnlessSuperseded none) (Ended b) :=
    ((quiet_disconnectUnlessSuperseded none).ending (stable_pending b g) disconnects_down).post
    fun _ _ h => h.1.ended h.2
  cases r with
  | ignored => exact absurd rfl hr
  | disconnects => exact .bind hdisc (fun _ _ h => h.1) fun _ => .pure _ fun _ _ h => h.1
  | disconnectsQuietly =>
    exact .bind hdisc (fun _ _ h => h.1) fun _ => .pure _ fun _ _ h => h.1

theorem triple_emitRequest (seq : ℕ) (bytes : Bytes) (b g : ℕ) :
    Triple (inboundProtocol rules) (Pending b g)
      (storeThenEmit cfg seq bytes (.resendRequest b 0 g) none)
      (fun r l s => match r with
        | .ok _ => Settled b l s
        | .error _ => Pending b g l s) (Settled b) := by
  refine Pending.then (quiet_storeStep cfg seq bytes none) (throwsDown_storeStep cfg seq bytes)
    fun step => ?_
  cases step with
  | stop e => exact Triple.pure _ fun _ _ h => h
  | proceed =>
    refine Triple.get fun s => ?_
    refine Triple.pre (P := Pending b g) ?_ fun _ _ h => h.2
    refine Pending.then quiet_suspend throwsDown_suspend fun a => ?_
    by_cases hwritten : a.written = true
    · rw [if_pos hwritten]
      refine Triple.bind (Q := fun _ => Settled b) ?_ fun _ =>
        Triple.pure _ fun _ _ h => h
      exact Triple.act (fun _ _ h => ⟨h.recorded, h.unasked, h.unjumped⟩)
        fun _ _ h => h.sent
    · rw [if_neg hwritten]
      exact Triple.pure _ fun _ _ h => h

theorem brings_inboundResendRequestLeaf (b g : ℕ) :
    Brings rules (Pending b g) (inboundResendRequestLeaf cfg b g) (Settled b) := by
  refine read fun s => ask fun a => ?_
  refine ite (fun _ => ?_) fun _ => ?_
  · exact (Pending.brings_disconnectWith b g _).post fun _ _ h => h.1
  refine Pending.then (quiet_fireToAdmin cfg) (throwsDown_fireToAdmin cfg) fun passed => ?_
  refine ite (fun _ => ?_) fun _ => ?_
  swap
  · exact (Pending.brings_disconnectWith b g _).post fun _ _ h => h.1
  refine Pending.then quiet_assignOutbound throwsDown_assignOutbound fun assigned => ?_
  cases assigned with
  | error e => exact Pending.brings_conclude b g (by decide) e
  | ok seq =>
    refine Triple.bind (triple_emitRequest cfg s.seqnums.nextOutbound a.bytes b g)
      fun r => ?_
    cases r with
    | ok _ => exact Triple.pure _ fun _ _ h => h
    | error e => exact Pending.brings_conclude b g (by decide) e

/-- A gap is recorded as it is found and asked for from its first number. -/
theorem brings_askForResend (hseq : n < seq) :
    Brings rules (fun l s => Ready n l s ∧ s.resend.awaitingResend = false)
      (askForResend cfg n seq) (Settled n) := by
  refine Triple.bind (Q := fun _ => Pending n (seq - 1)) ?_ fun _ =>
    brings_inboundResendRequestLeaf cfg n (seq - 1)
  refine .act ?_ ?_
  · rintro l s ⟨hr, hawait⟩
    refine ⟨?_, ?_, by omega⟩
    · rw [hr.1.gap]
      simp [openGap, hawait]
    · rw [hr.1.expected, hr.nextInbound]
  rintro l s ⟨hr, hawait⟩
  exact {
    expected := hr.1.expected
    gap := by simp [Ledger.next, openGap]
    drained := hr.1.drained
    recorded := rfl
    unasked := rfl
    unjumped := rfl
    ordered := by omega
    established := .inl hr.2
    counter := .inl hr.nextInbound }

/-- The answer to a pending TestRequest: `false` ends the session, `true` leaves
everything else as it was. -/
theorem brings_answerPendingTestRequest {X : Session → Prop}
    (hX : ∀ s, X s → X { s with pendingTestReqId := [] }) (hQ : ∀ l s, Ended n l s → Q l s)
    (id : Bytes) (hnext : Brings rules (fun l s => Ready n l s ∧ X s) next Q) :
    Brings rules (fun l s => Ready n l s ∧ X s)
      (do
        let answered ← answerPendingTestRequest id
        if answered then next else Pure.pure (.ok ())) Q := by
  refine Triple.bind
    (Q := fun answered l s => if answered = true then Ready n l s ∧ X s else Ended n l s) ?_
    fun answered => ?_
  · refine Triple.get fun s => ?_
    by_cases hother : id ≠ [] ∧ id ≠ s.pendingTestReqId
    · rw [if_pos hother]
      refine Triple.bind (Q := fun _ => Ended n) ?_ fun _ =>
        Triple.pure _ fun _ _ h => h
      exact (brings_disconnected n).conseq (fun _ _ h => h.2.1.1) (fun _ _ _ h => h)
        fun _ _ h => hQ _ _ h
    rw [if_neg hother]
    refine Triple.bind (Q := fun _ l s => Ready n l s ∧ X s) ?_ fun _ =>
      Triple.pure _ fun _ _ h => h
    refine Triple.modify ?_
    rintro l s' ⟨-, hr, hXs⟩
    have hdrift : Drift (l, s') (l, { s' with pendingTestReqId := [] }) :=
      Drift.of_eq rfl rfl rfl rfl
    exact ⟨⟨stable_settled n _ _ _ _ hdrift hr.1, hr.2⟩, hX s' hXs⟩
  · cases answered with
    | true => exact hnext
    | false => exact Triple.pure _ fun l s h => hQ l s h

theorem brings_onTooHigh (hseq : n < seq) :
    Brings rules (fun l s => Ready n l s ∧ s.resend.awaitingResend = false)
      (onTooHigh cfg hdr n seq) (Settled n) := by
  refine .read fun s => .ite (fun _ => ?_) fun _ => brings_askForResend cfg hseq
  exact brings_answerPendingTestRequest (fun _ h => h) (fun _ _ h => h.1) _
    (brings_askForResend cfg hseq)

/-! ## The sequence gate -/

structure Fits (rules : Rules) (cfg : SessionConfig) : Prop where
  inOrder : rules.inOrder = true → cfg.validateSequenceNumbers = true ∧ cfg.redeliverPossDup = false
  gated : rules.gated = true → cfg.validateSequenceNumbers = true

/-- Established, and a frame above the expected number finds a resend awaited. -/
def Waiting (rules : Rules) (n seq : ℕ) (l : Ledger) (s : Session) : Prop :=
  Ready n l s ∧ (rules.gated = true → n < seq → s.resend.awaitingResend = true)

theorem brings_passOver (he : e = .sessionSeqnumTooHigh → n < seq) :
    Brings rules (Waiting rules n seq) (passOver seq e) (Settled n) := by
  refine .get fun s => .ite (fun hhigh => ?_) fun _ => ?_
  · refine .bind (R := Settled n) ?_ (fun _ _ h => h) fun _ => .pure _ fun _ _ h => h
    have hlt := he hhigh
    refine .act ?_ ?_
    · rintro l s' ⟨rfl, hr, hawait⟩
      have hn := hr.nextInbound
      have hexp := hr.1.expected
      refine ⟨hexp.symm, by omega, ?_⟩
      intro hgated hclean
      have hgap : l.gap = some (s'.resend.outstandingBegin, s'.resend.outstandingEnd) := by
        rw [hr.1.gap]
        simp [openGap, hawait hgated hlt]
      have hasked := hr.1.asked hclean hr.2 _ _ hgap
      rw [hexp] at hasked
      exact ⟨_, _, hgap, hasked⟩
    · rintro l s' ⟨-, hr, -⟩
      exact hr.1
  · exact .pure _ fun _ _ h => h.2.1.1

theorem brings_dropHeartbeat (he : e = .sessionSeqnumTooHigh → n < seq) :
    Brings rules (Waiting rules n seq) (dropHeartbeat hdr seq e) (Settled n) := by
  refine .read fun s => .ite (fun _ => ?_) fun _ => brings_passOver he
  exact brings_answerPendingTestRequest (fun _ h => h) (fun _ _ h => h.1) _ (brings_passOver he)

theorem brings_dispatchTo {e : Event} (hallow : ∀ l s, P l s → l.Allows rules e)
    (hnext : ∀ l s, P l s → P (l.next e) s) : Brings rules P (dispatchTo e) P := by
  refine .ask fun a => .ite (fun _ => .pure _ fun _ _ h => h) fun _ => ?_
  refine .bind (R := P) (.act hallow hnext) (fun _ _ h => h) fun _ =>
    .pure _ fun _ _ h => h

theorem brings_deliverOutOfSequence (n : ℕ) {e : Event} (hallow : ∀ l : Ledger, l.Allows rules e)
    (hnext : ∀ l s, Ready n l s → Ready n (l.next e) s) :
    Brings rules (Ready n) (deliverOutOfSequence cfg e) (Settled n) := by
  refine .bind (brings_dispatchTo (fun l _ _ => hallow l) hnext) (fun _ _ h => h.1)
    fun outcome => ?_
  cases outcome with
  | parseFailed => exact (brings_closeOnLateParseFailure cfg n).post fun _ _ h => h.1
  | threw =>
    exact .bind (brings_close cfg n) (fun _ _ h => h.1) fun _ =>
      .pure _ fun _ _ h => h.1
  | rejected => exact .pure _ fun _ _ h => h.1
  | accepted => exact .pure _ fun _ _ h => h.1

theorem ready_next_fromApp (l : Ledger) (s : Session) (h : Ready n l s) :
    Ready n (l.next (.fromApp seq)) s :=
  ⟨{ expected := h.1.expected, gap := h.1.gap, drained := h.1.drained, fresh := h.1.fresh
     asked := h.1.asked, counter := h.1.counter }, h.2⟩

variable {cfg}

theorem brings_onOutOfSequence (hfits : Fits rules cfg) (hdr : FrameHeader)
    (hover : e ≠ .storeSeqnumOverflow) (he : e = .sessionSeqnumTooHigh → n < seq) :
    Brings rules (Waiting rules n seq) (onOutOfSequence cfg hdr seq e) (Settled n) := by
  unfold onOutOfSequence
  rw [if_neg hover]
  refine brings_unlessOverdue (n := n) cfg hdr (fun _ _ h => h.1.1) (fun _ _ h => h.1) ?_
  refine .ite (fun _ => brings_dropHeartbeat hdr he) fun _ => ?_
  refine .ite (fun _ => ?_) fun _ => .ite (fun hoff => ?_) fun _ => ?_
  · refine .ite (fun _ => brings_passOver he) fun _ => ?_
    refine .ite (fun hredeliver => ?_) fun _ => brings_passOver he
    refine (brings_deliverOutOfSequence cfg n ?_ ready_next_fromApp).pre fun _ _ h => h.1
    intro l hin
    have hno := (hfits.inOrder hin).2
    simp [hno] at hredeliver
  · refine .ite (fun _ => ?_) fun _ => .pure _ fun _ _ h => h.1.1
    have hout : rules.inOrder ≠ true := by
      intro hin
      rw [(hfits.inOrder hin).1] at hoff
      cases hoff
    refine .pre (P := Ready n) ?_ fun _ _ h => h.1
    split
    · exact brings_deliverOutOfSequence cfg n (fun _ => trivial) fun _ _ h => h
    · exact brings_deliverOutOfSequence cfg n (fun _ hin => absurd hin hout) ready_next_fromApp
  · refine .ite (fun _ => brings_passOver he) fun _ => ?_
    exact (brings_disconnectWith n _).mono (fun _ _ h => h.1.1) fun _ _ h => h.1

/-! ## Frames that were taken up -/

theorem inHand_next_fromAdmin (l : Ledger) (s : Session) (h : InHand n l s) :
    InHand n (l.next (.fromAdmin seq)) s := h

theorem Quiet.inHand {x : Handler α} (hx : Quiet rules x) :
    Brings rules (InHand n) x (Reached (n + 1)) :=
  (hx.brings (stable_reached (n + 1))).pre fun _ _ h => h.1.1.reached

theorem brings_dispatchByType (cfg : SessionConfig) (hdr : FrameHeader) (hdue : rules.due n) :
    Brings rules (InHand n) (dispatchByType cfg hdr n) (Reached (n + 1)) := by
  refine .ite (fun _ => (quiet_onHeartbeat cfg hdr).inHand) fun _ => ?_
  refine .ite (fun _ => (quiet_onTestRequest cfg hdr).inHand) fun _ => ?_
  refine .ite (fun _ => (quiet_onResendRequest cfg hdr).inHand) fun _ => ?_
  refine .ite (fun _ => ?_) fun _ => Quiet.inHand ?_
  · have hdeliver : Brings rules (InHand n) (dispatchTo (.fromApp n)) (Reached (n + 1)) := by
      refine .ask fun a => .ite ?_ fun _ => ?_
      · exact fun _ => .pure _ fun _ _ h => h.1.1.reached
      refine .bind (R := Reached (n + 1)) (.act ?_ ?_) (fun _ _ h => h)
        fun _ => .pure _ fun _ _ h => h
      · exact fun _ _ h _ => ⟨h.2, hdue⟩
      intro l s h
      have hready : Ready (n + 1) (l.next (.fromApp n)) s := ready_next_fromApp l s h.1
      exact hready.1.reached
    refine .bind hdeliver (fun _ _ h => h) fun outcome => ?_
    exact (quiet_afterCallback cfg outcome (quiet_onFromAppVeto cfg hdr)
      (quiet_settle cfg)).brings (stable_reached (n + 1))
  · exact Quiet.ite (quiet_settle cfg) (quiet_onUnsupported cfg hdr)

theorem brings_dispatchTaken (cfg : SessionConfig) (hdr : FrameHeader) (hdue : rules.due n) :
    Brings rules (InHand n) (dispatchTaken cfg hdr n) (Answered n n hdr.msgType) := by
  refine .ite (fun h4 => ?_) fun _ => ?_
  · exact (brings_onGapFill cfg hdr).mono (fun _ _ h => h.1.1.toSound) fun _ _ h =>
      h.answered (.inr h4)
  refine .post (P := InHand n) (Q := Reached (n + 1)) ?_
    fun _ _ h => h.answered
  refine .ite (fun _ => (quiet_onLogout cfg hdr).inHand) fun _ => ?_
  refine .ite (fun _ => (quiet_settle cfg).inHand) fun _ => .read fun s => ?_
  refine .ite (fun _ => ?_) fun _ => (quiet_settle cfg).inHand
  refine .ite (fun _ => ?_) fun _ => brings_dispatchByType cfg hdr hdue
  refine .bind (brings_dispatchTo (fun _ _ _ => trivial) inHand_next_fromAdmin)
    (fun _ _ h => h.1.1.reached) fun outcome => ?_
  cases outcome with
  | parseFailed => exact (quiet_closeOnLateParseFailure cfg).inHand
  | threw => exact (quiet_closeOnThrow cfg).inHand
  | rejected => exact (quiet_onUnsupported cfg hdr).inHand
  | accepted => exact brings_dispatchByType cfg hdr hdue

section

variable (hfits : Fits rules cfg)
include hfits

theorem brings_gate (hdr : FrameHeader) (hdue : seq = n → rules.due n) :
    Brings rules (Waiting rules n seq) (gate cfg hdr seq) (Answered n seq hdr.msgType) := by
  refine brings_checkInbound ?_ ?_ ?_ ?_
  · rintro rfl
    exact .bind (brings_closeFilledResendGap seq) (fun _ _ h => h.1.1.reached.answered)
      fun _ => brings_dispatchTaken cfg hdr (hdue rfl)
  · intro hlt
    exact (brings_onOutOfSequence hfits hdr (by decide) (fun h => by cases h)).post fun _ _ h =>
      h.answered (Nat.ne_of_lt hlt)
  · intro hgt
    exact (brings_onOutOfSequence hfits hdr (by decide) (fun _ => hgt)).post fun _ _ h => h.answered
      (Nat.ne_of_gt hgt)
  intro _
  exact (brings_disconnectWith n _).mono (fun _ _ h => h.1.1) fun _ _ h => h.answered

theorem brings_onPossDup (hdr : FrameHeader) (hdue : parseSeqnum hdr.msgSeqNum = n → rules.due n) :
    Brings rules (Waiting rules n (parseSeqnum hdr.msgSeqNum))
      (onPossDup cfg hdr (gate cfg hdr (parseSeqnum hdr.msgSeqNum)))
      (Answered n (parseSeqnum hdr.msgSeqNum) hdr.msgType) := by
  have hreject : Brings rules (Waiting rules n (parseSeqnum hdr.msgSeqNum))
      (rejectOrigSendingTime cfg hdr) (Answered n (parseSeqnum hdr.msgSeqNum) hdr.msgType) :=
    (brings_rejectOrigSendingTime cfg hdr n).pre fun _ _ h => h.1
  refine .ite (fun _ => hreject) fun _ => .ask fun parsed => ?_
  refine .ite (fun _ => hreject) fun _ => .ask fun ordered => ?_
  refine .ite (fun _ => brings_gate hfits hdr hdue) fun _ => ?_
  exact (brings_rejectAndLogout cfg hdr n 122).pre fun _ _ h => h.1

theorem brings_sequenceGate (hdr : FrameHeader)
    (hdue : parseSeqnum hdr.msgSeqNum = n → rules.due n) :
    Brings rules (Ready n) (sequenceGate cfg hdr (parseSeqnum hdr.msgSeqNum))
      (Answered n (parseSeqnum hdr.msgSeqNum) hdr.msgType) := by
  refine .get fun s => .ite (fun _ => ?_) fun _ => ?_
  · exact (brings_disconnectWith n _).mono (fun _ _ h => h.2.1) fun _ _ h => h.answered
  by_cases hn : s.seqnums.nextInbound = n
  swap
  · intro l w hP
    obtain ⟨rfl, hr⟩ := hP
    exact absurd hr.nextInbound hn
  refine .ite (fun hhigh => ?_) fun hnot => ?_
  · obtain ⟨hgt, hawait, -⟩ := hhigh
    rw [hn] at hgt ⊢
    refine (brings_onTooHigh cfg hdr hgt).mono ?_ fun _ _ h => h.answered (Nat.ne_of_gt hgt)
    rintro l s' ⟨rfl, hr⟩
    exact ⟨hr, hawait⟩
  -- what is not asked for is behind a resend that is awaited
  have hwait : ∀ l s', s' = s ∧ Ready n l s' →
      Waiting rules n (parseSeqnum hdr.msgSeqNum) l s' := by
    rintro l s' ⟨rfl, hr⟩
    refine ⟨hr, fun hgated hgt => ?_⟩
    by_contra hawait
    exact hnot ⟨by omega, by simpa using hawait, hfits.gated hgated⟩
  refine .ite (fun _ => ?_) fun _ => ?_
  · exact (brings_onPossDup hfits hdr hdue).pre hwait
  · exact (brings_gate hfits hdr hdue).pre hwait

theorem brings_identityGate (hdr : FrameHeader)
    (hdue : parseSeqnum hdr.msgSeqNum = n → rules.due n) :
    Brings rules (Ready n) (identityGate cfg hdr)
      (Answered n (parseSeqnum hdr.msgSeqNum) hdr.msgType) := by
  have hend : Brings rules (Ready n) (disconnectWith (.ok ()))
      (Answered n (parseSeqnum hdr.msgSeqNum) hdr.msgType) :=
    (brings_disconnectWith n _).mono (fun _ _ h => h.1) fun _ _ h => h.answered
  refine .ite (fun _ => hend) fun _ => .ite (fun _ => hend) fun _ => ?_
  have htime : Triple (inboundProtocol rules) (Ready n) (inboundSendingTimeOk cfg hdr)
      (fun _ => Ready n) (Answered n (parseSeqnum hdr.msgSeqNum) hdr.msgType) := by
    unfold inboundSendingTimeOk
    split
    · exact .ask fun a => .pure _ fun _ _ h => h
    · exact .pure _ fun _ _ h => h
  refine Triple.bind htime fun timely => ?_
  refine ite (fun _ => brings_rejectAndLogout cfg hdr n 52) fun _ => ?_
  refine ite (fun h => ?_) fun _ => brings_sequenceGate hfits hdr hdue
  exact (brings_onSequenceReset cfg hdr).mono (fun _ _ h => h.1.toSound) fun _ _ h' =>
    h'.answered (.inr h.1)

/-! ## The arm -/

/-- The number a frame is read by: the first one it carries when a field is
unreadable, the number of the refusal when it is rejected, else the last one. -/
def readSeqNum (cfg : SessionConfig) (f : Frame) : ℕ :=
  if f.header.fault ≠ .none then parseSeqnum f.header.faultRefSeqNum
  else match activeValidation cfg f with
    | .reject d => d.refSeqNum f.header
    | _ => parseSeqnum f.header.msgSeqNum

def readMsgType (cfg : SessionConfig) (f : Frame) : Bytes :=
  if f.header.fault ≠ .none then f.header.faultRefMsgType
  else match activeValidation cfg f with
    | .reject d => d.refMsgType f.header
    | _ => f.header.msgType

/-- A frame whose third field is not MsgType is ignored; every other frame is
answered. -/
theorem brings_onInboundActive (f : Frame) (hn : 0 < n)
    (hdue : parseSeqnum f.header.msgSeqNum = n → rules.due n) :
    Brings rules (Ready n) (onInboundActive cfg f) fun l s =>
      Sound l s ∧
        (f.header.msgTypeIsThird = true → Answered n (readSeqNum cfg f) (readMsgType cfg f) l s) := by
  refine .ite (fun hgarbled => ?_) fun _ => ?_
  · refine .pure _ fun _ _ h => ⟨h.1.toSound, fun hthird => ?_⟩
    rw [hgarbled] at hthird
    cases hthird
  refine .post (P := Ready n) (Q := Answered n (readSeqNum cfg f) (readMsgType cfg f)) ?_
    fun _ _ h => ⟨h.1, fun _ => h⟩
  refine .ite (fun hfault => ?_) fun hfault => ?_
  · simp only [readSeqNum, readMsgType, if_pos hfault]
    exact brings_disposeUnparseable cfg f.header hn
  simp only [readSeqNum, readMsgType, if_neg hfault]
  cases activeValidation cfg f with
  | pass => exact brings_identityGate hfits f.header hdue
  | reject d => exact brings_onValidateFailed cfg f.header n d
  | parseFailed =>
    exact (brings_closeOnLateParseFailure cfg n).post fun _ _ h => h.answered

end

end Arms

end Fixpp.Analysis
