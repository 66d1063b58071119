import Fixpp.Analysis.Ambience

/-!
# How an established session takes frames up

An established session takes a frame up at the sequence gate, hands it over or rejects it, and
then persists the advance. `Uptake` names the assertion between frames and the one while a frame
is taken up and not yet settled.
-/

namespace Fixpp.Analysis

open Foundation Model
open Foundation.Traced (Triple Maintains)

variable {μ : Type}

/-- `P` survives what an established session does with a frame beside taking it up;
`apps` tells whether the frame may be handed to `fromApp`. -/
structure Dispatching (M : Monitor Event μ) (apps : Prop) (P : μ → Session → Prop) : Prop
    extends Ambient M (fun _ => True) P where
  awaiting : ∀ m s b e, P m s → M.allows m (.enterAwaitingResend b e) ∧
    P (M.next m (.enterAwaitingResend b e)) { s with
      resend := { awaitingResend := true, outstandingBegin := b, outstandingEnd := e } }
  awaited : ∀ m s, P m s → M.allows m (.exitAwaitingResend s.seqnums.nextInbound) ∧
    P (M.next m (.exitAwaitingResend s.seqnums.nextInbound)) { s with resend := {} }
  fromAdmin : ∀ m s seq, P m s → M.allows m (.fromAdmin seq) ∧ P (M.next m (.fromAdmin seq)) s
  fromApp : ∀ m s seq, P m s → apps → M.allows m (.fromApp seq) ∧ P (M.next m (.fromApp seq)) s
  passedOver : ∀ m s seq, P m s → M.allows m (.passedOver seq s.seqnums.nextInbound) ∧
    P (M.next m (.passedOver seq s.seqnums.nextInbound)) s
  logoutSeen : ∀ m s, P m s → P m { s with logoutSeen := true }

/-- `P` holds between frames, `T` while a frame is taken up and not yet settled. -/
structure Uptake (M : Monitor Event μ) (apps : Prop) (P T : μ → Session → Prop) : Prop where
  idle : Dispatching M apps P
  taken : Dispatching M apps T
  settled : ∀ m s, T m s → P m s
  takeUp : ∀ m s seq counters, P m s → s.seqnums.checkInbound seq = .ok counters →
    M.allows m (.takeUp seq) ∧ T (M.next m (.takeUp seq)) { s with seqnums := counters }
  persisted : ∀ m s, T m s → P m { s with store := s.store.map MessageStore.incrementInbound }
  jumped : ∀ m s n (h : 0 < n), P m s → s.seqnums.nextInbound < n → M.allows m (.jump n) ∧
    P (M.next m (.jump n)) { s with seqnums := s.seqnums.setNextInbound n h }

namespace Dispatching

variable {M : Monitor Event μ} {apps : Prop} {P : μ → Session → Prop}

theorem dispatchTo (e : Event)
    (h : ∀ m s, P m s → M.allows m e ∧ P (M.next m e) s) : Maintains M P (dispatchTo e) :=
  .ask fun _ => (Maintains.pure _).ite
    ((Maintains.act h).bind fun _ => .pure _)

variable (h : Dispatching M apps P) (cfg : SessionConfig) (hdr : FrameHeader) (seq : ℕ)

include h

theorem dispatchToAdmin : Maintains M P (Model.dispatchTo (.fromAdmin seq)) :=
  dispatchTo _ fun m s hP => h.fromAdmin m s seq hP

theorem dispatchToApp (happ : apps) (seq : ℕ) : Maintains M P (Model.dispatchTo (.fromApp seq)) :=
  dispatchTo _ fun m s hP => h.fromApp m s seq hP happ

theorem exitAwaitingResend : Maintains M P exitAwaitingResend :=
  Triple.get fun s => .actAt fun m hP => h.awaited m s hP

theorem closeFilledResendGap : Maintains M P closeFilledResendGap :=
  .get fun _ => h.exitAwaitingResend.ite (.pure ())

theorem resendGapDeadline : Maintains M P (resendGapDeadline cfg hdr) := by
  refine .get fun s => .ite
    (.ask fun a => (Maintains.pure _).ite ?_) (.pure _)
  refine (h.emitLeaf cfg _ fun _ => trivial).bind fun r => ?_
  cases r with
  | error e => exact .pure _
  | ok _ => exact h.recordDisconnected.bind fun _ => .pure _

theorem answerPendingTestRequest (testReqId : Bytes) :
    Maintains M P (answerPendingTestRequest testReqId) := by
  refine .get fun s => .ite ?_ (.bind ?_
    fun _ => .pure _)
  · exact h.recordDisconnected.bind fun _ => .pure _
  · exact .modify fun m s hP => h.testRequested m s [] hP

variable (chkError : Error)

theorem passOver : Maintains M P (passOver seq chkError) := by
  refine Triple.get fun s => ?_
  split
  · refine Triple.bind (Q := fun _ => P) (.actAt fun m hP => ?_) fun _ => Maintains.pure _
    exact h.passedOver m s seq hP
  · exact Triple.pure _ fun _ _ hP => hP.2

theorem dropHeartbeat : Maintains M P (dropHeartbeat hdr seq chkError) := by
  refine .get fun s => .ite ?_ (h.passOver seq chkError)
  exact (h.answerPendingTestRequest _).bind fun _ =>
    (h.passOver seq chkError).ite (.pure _)

theorem askForResend (nextExpected seq : ℕ) : Maintains M P (askForResend cfg nextExpected seq) :=
  (Maintains.act fun m s hP => h.awaiting m s nextExpected (seq - 1) hP).bind fun _ =>
    h.emitLeaf cfg _ fun _ => trivial

theorem onTooHigh (nextExpected seq : ℕ) : Maintains M P (onTooHigh cfg hdr nextExpected seq) :=
  .get fun _ => .ite
    ((h.answerPendingTestRequest _).bind fun _ =>
      (h.askForResend cfg nextExpected seq).ite (.pure _))
    (h.askForResend cfg nextExpected seq)

theorem deliverOutOfSequence {e : Event} (hevent : Maintains M P (Model.dispatchTo e)) :
    Maintains M P (deliverOutOfSequence cfg e) := by
  refine hevent.bind fun outcome => ?_
  cases outcome with
  | parseFailed => exact h.closeOnLateParseFailure cfg
  | threw => exact h.closeOnThrow cfg
  | rejected | accepted => exact .pure _

theorem onOutOfSequence {cfg : SessionConfig} {hdr : FrameHeader}
    (happ : cfg.application = true → isAdminMsgtype hdr.msgType = false → apps) (seq : ℕ)
    (chkError : Error) : Maintains M P (onOutOfSequence cfg hdr seq chkError) := by
  refine (h.disconnectWith _).ite ?_
  refine (h.resendGapDeadline cfg hdr).bind fun expired => ?_
  cases expired with
  | some r => exact .pure _
  | none =>
    refine (h.dropHeartbeat hdr seq chkError).ite (.ite ?_ ?_)
    · -- a PossDup frame is redelivered only if it is an application message
      by_cases hadmin : isAdminMsgtype hdr.msgType = true
      · rw [if_pos hadmin]
        exact h.passOver seq chkError
      rw [if_neg hadmin]
      by_cases hredeliver : (cfg.redeliverPossDup && cfg.application) = true
      · rw [if_pos hredeliver]
        have happlication : cfg.application = true := by
          simp only [Bool.and_eq_true] at hredeliver
          exact hredeliver.2
        exact h.deliverOutOfSequence cfg
          (h.dispatchToApp (happ happlication (by simpa using hadmin)) seq)
      · rw [if_neg hredeliver]
        exact h.passOver seq chkError
    · refine .ite ?_ ((h.passOver seq chkError).ite (h.disconnectWith _))
      by_cases happlication : cfg.application = true
      · rw [if_pos happlication]
        refine h.deliverOutOfSequence cfg ?_
        by_cases hadmin : isAdminMsgtype hdr.msgType = true
        · rw [if_pos hadmin]
          exact h.dispatchToAdmin seq
        rw [if_neg hadmin]
        exact h.dispatchToApp (happ happlication (by simpa using hadmin)) seq
      · rw [if_neg happlication]
        exact .pure _

end Dispatching

namespace Uptake

variable {M : Monitor Event μ} {apps : Prop} {P T : μ → Session → Prop} {α β : Type}
    (h : Uptake M apps P T)

include h

theorem left {x : Handler α} (hx : Maintains M P x) : Triple M T x (fun _ => P) P :=
  hx.pre h.settled

theorem next {x : Handler α} {f : α → Handler β} (hx : Maintains M T x)
    (hf : ∀ a, Triple M T (f a) (fun _ => P) P) : Triple M T (x >>= f) (fun _ => P) P :=
  .bind (hx.conseq (fun _ _ hT => hT) (fun _ _ _ hT => hT) h.settled) hf

omit h

theorem ite {c : Prop} [Decidable c] {x y : Handler α} (hx : Triple M T x (fun _ => P) P)
    (hy : Triple M T y (fun _ => P) P) : Triple M T (if c then x else y) (fun _ => P) P := by
  split
  · exact hx
  · exact hy

theorem get {f : Session → Handler β} (hf : ∀ s, Triple M T (f s) (fun _ => P) P) :
    Triple M T (Traced.get >>= f) (fun _ => P) P :=
  .get fun s => (hf s).pre fun _ _ h => h.2

include h

theorem onOk (r : Outcome) {next : Handler Outcome} (hnext : Triple M T next (fun _ => P) P) :
    Triple M T (onOk r next) (fun _ => P) P := by
  cases r with
  | ok _ => exact hnext
  | error e => exact h.left (.pure _)

variable (cfg : SessionConfig)

theorem persistInboundAdvance (arm : Option FsmState) :
    Triple M T (persistInboundAdvance cfg arm) (fun _ => P) P := by
  refine ite (h.next h.taken.wait fun a => ?_) (h.left (.pure _))
  cases a.store with
  | done =>
    refine .bind (Q := fun _ => P) (.modify h.persisted) fun _ => ?_
    exact Maintains.pure _
  | failed e =>
    exact h.left ((h.idle.disconnectUnlessSuperseded arm).bind fun _ => .pure _)
  | cancelled =>
    exact h.left ((h.idle.disconnectUnlessSuperseded arm).bind fun _ => .pure _)
  | threw => exact h.left (.throw _)

theorem reply {p : LeafPolicy} {reply : ℕ → Reply} : Maintains M P (emitLeaf cfg p reply) :=
  h.idle.emitLeaf cfg p fun _ => trivial

theorem settle : Triple M T (settle cfg) (fun _ => P) P := h.persistInboundAdvance cfg none

variable (hdr : FrameHeader)

theorem checkInbound (seq : ℕ) {f : Outcome → Handler β}
    (htaken : Triple M T (f (.ok ())) (fun _ => P) P)
    (hrefused : ∀ e, Maintains M P (f (.error e))) : Maintains M P (checkInbound seq >>= f) := by
  refine Triple.bind (Q := fun r m s => bif r.isOk then T m s else P m s) ?_ fun r => ?_
  · refine Triple.get fun s => ?_
    split
    · exact .pure _ fun _ _ hP => hP.2
    cases hchk : s.seqnums.checkInbound seq with
    | error e => exact .pure _ fun _ _ hP => hP.2
    | ok counters =>
      refine .bind (Q := fun _ => T) (.actAt fun m hP => ?_) fun _ => .pure _ fun _ _ hT => hT
      exact h.takeUp m s seq counters hP hchk
  · cases r with
    | ok _ => exact htaken
    | error e => exact hrefused e

theorem consumeRejectedSeqnum (seq : ℕ) (msgType : Bytes) :
    Maintains M P (consumeRejectedSeqnum cfg seq msgType) := by
  refine (Maintains.pure _).ite (h.checkInbound seq ?_ fun e => ?_)
  · exact h.next h.taken.closeFilledResendGap fun _ => h.persistInboundAdvance cfg none
  cases e with
  | storeSeqnumOverflow => exact h.idle.disconnectWith _
  | _ => exact .pure _

theorem unlessOverdue {next : Handler Outcome} (hnext : Maintains M P next) :
    Maintains M P (unlessOverdue cfg hdr next) := by
  refine (h.idle.resendGapDeadline cfg hdr).bind fun expired => ?_
  cases expired with
  | some r => exact .pure _
  | none => exact hnext

theorem disposeUnparseable : Maintains M P (disposeUnparseable cfg hdr) := by
  refine (Maintains.pure _).ite ((h.idle.disconnectWith _).ite ?_)
  refine (Ambient.onlyIf _ (h.consumeRejectedSeqnum cfg _ _)).bind fun r => Ambient.onOk r ?_
  exact (h.reply cfg).ite (h.reply cfg)

theorem onValidateFailed (v : InboundValidation) : Maintains M P (onValidateFailed cfg hdr v) := by
  cases v with
  | pass => exact .pure _
  | parseFailed => exact h.idle.closeOnLateParseFailure cfg
  | reject d =>
    refine h.unlessOverdue cfg hdr ((h.consumeRejectedSeqnum cfg _ _).bind fun r => ?_)
    exact Ambient.onOk r (h.reply cfg)

theorem rejectAndLogout (refTagId : ℕ) : Maintains M P (rejectAndLogout cfg hdr refTagId) := by
  refine (h.consumeRejectedSeqnum cfg _ _).bind fun r => Ambient.onOk r ?_
  refine (h.reply cfg).bind fun r => Ambient.onOk r ?_
  exact (h.reply cfg).bind fun r =>
    Ambient.onOk r (h.idle.disconnectWith _)

theorem applyInboundSequenceReset (newSeqno refSeq : ℕ) :
    Maintains M P (applyInboundSequenceReset cfg newSeqno refSeq) := by
  have hforget : ∀ {s : Session} {x : Handler Outcome}, Maintains M P x →
      Triple M (fun m s' => s' = s ∧ P m s') x (fun _ => P) P :=
    fun hx => hx.pre fun _ _ hP => hP.2
  refine Triple.get fun s => ?_
  by_cases hzero : newSeqno = 0
  · rw [dif_pos hzero]
    exact hforget (Maintains.pure _)
  rw [dif_neg hzero]
  by_cases hforward : newSeqno > s.seqnums.nextInbound
  · rw [if_pos hforward]
    split
    · exact hforget (h.idle.disconnectWith _)
    refine Triple.bind (Q := fun _ => P) (.actAt fun m hP => ?_) fun _ => ?_
    · exact h.jumped m s newSeqno (Nat.pos_of_ne_zero hzero) hP hforward
    exact (h.idle.exitAwaitingResend.bind fun _ => Maintains.pure _).ite
      (Maintains.pure _)
  · rw [if_neg hforward]
    exact hforget ((h.reply cfg).ite (Maintains.pure _))

theorem onSequenceReset : Maintains M P (onSequenceReset cfg hdr) := by
  have hoverdue := h.unlessOverdue cfg hdr (.pure (.ok ()))
  have happly : Maintains M P (applyResetMode cfg hdr) :=
    .ite ((h.applyInboundSequenceReset cfg _ _).bind fun r =>
      Ambient.onOk r hoverdue) (.pure _)
  refine .ite ((h.idle.dispatchToAdmin _).bind fun outcome => ?_) happly
  cases outcome with
  | parseFailed => exact h.idle.closeOnLateParseFailure cfg
  | threw => exact h.idle.closeOnThrow cfg
  | rejected =>
    exact (h.reply cfg).bind fun r => Ambient.onOk r hoverdue
  | accepted => exact happly

/-! ## Frames that were taken up -/

theorem afterCallback (outcome : CallbackOutcome) {rejected accepted : Handler Outcome}
    (hrejected : Triple M T rejected (fun _ => P) P)
    (haccepted : Triple M T accepted (fun _ => P) P) :
    Triple M T (afterCallback cfg outcome rejected accepted) (fun _ => P) P := by
  cases outcome with
  | parseFailed => exact h.left (h.idle.closeOnLateParseFailure cfg)
  | threw => exact h.left (h.idle.closeOnThrow cfg)
  | rejected => exact hrejected
  | accepted => exact haccepted

theorem onGapFill : Triple M T (onGapFill cfg hdr) (fun _ => P) P := by
  refine ite (.bind (h.settle cfg) fun r => ?_) (ite ?_ (h.settle cfg))
  · exact Ambient.onOk r (h.applyInboundSequenceReset cfg _ _)
  exact h.next (h.taken.dispatchToAdmin _) fun outcome =>
    h.afterCallback cfg outcome (h.settle cfg) (h.settle cfg)

theorem finishLogout : Triple M T (finishLogout cfg) (fun _ => P) P :=
  .bind (h.settle cfg) fun r => Ambient.onOk r (h.idle.disconnectWith _)

theorem onLogout : Triple M T (onLogout cfg hdr) (fun _ => P) P := by
  refine h.next (.modify h.taken.logoutSeen) fun _ => get fun s => ?_
  refine h.next (Ambient.onlyIf _ (h.taken.emitLeaf cfg _ fun _ => trivial)) fun r => h.onOk r ?_
  refine ite (h.next (h.taken.dispatchToAdmin _) fun outcome => ?_) (h.finishLogout cfg)
  cases outcome with
  | parseFailed => exact h.left (h.idle.closeOnLateParseFailure cfg)
  | threw => exact h.left (h.idle.disconnectWith _)
  | rejected =>
    exact h.next (h.taken.emitLeaf cfg _ fun _ => trivial) fun r =>
      h.onOk r (h.finishLogout cfg)
  | accepted => exact h.finishLogout cfg

theorem onResendRequest : Triple M T (onResendRequest cfg hdr) (fun _ => P) P := by
  refine h.next (h.taken.replayOutboundRange ⟨fun _ _ => trivial, fun _ => trivial⟩ cfg _ _ _ none)
    fun r => ?_
  cases r with
  | error e => exact h.left (h.idle.disconnectWith _)
  | ok _ => exact h.settle cfg

theorem onUnsupported : Triple M T (onUnsupported cfg hdr) (fun _ => P) P :=
  .bind (h.settle cfg) fun r =>
    Ambient.onOk r (h.reply cfg)

theorem onHeartbeat : Triple M T (onHeartbeat cfg hdr) (fun _ => P) P :=
  get fun _ => ite (h.next (h.taken.answerPendingTestRequest _) fun _ =>
    ite (h.settle cfg) (h.left (.pure _))) (h.settle cfg)

theorem onPossDup {gated : Handler Outcome} (hgated : Maintains M P gated) :
    Maintains M P (onPossDup cfg hdr gated) := by
  have hreject : Maintains M P (rejectOrigSendingTime cfg hdr) :=
    h.unlessOverdue cfg hdr ((h.consumeRejectedSeqnum cfg _ _).bind fun r =>
      Ambient.onOk r (h.reply cfg))
  refine hreject.ite (.ask fun _ => hreject.ite (.ask fun _ => ?_))
  exact hgated.ite (h.rejectAndLogout cfg hdr 122)

variable {cfg hdr}
    (happ : cfg.application = true → isAdminMsgtype hdr.msgType = false → apps) (seq : ℕ)

include happ

theorem dispatchByType
    (hother : hdr.msgType ≠ ascii "3" ∧ hdr.msgType ≠ ascii "4" ∧ hdr.msgType ≠ ascii "5")
    (seq : ℕ) : Triple M T (dispatchByType cfg hdr seq) (fun _ => P) P := by
  unfold Model.dispatchByType
  split
  · exact h.onHeartbeat cfg hdr
  rename_i h0
  split
  · exact h.next (h.taken.emitLeaf cfg _ fun _ => trivial) fun r => h.onOk r (h.settle cfg)
  rename_i h1
  split
  · exact h.onResendRequest cfg hdr
  rename_i h2
  split
  next happlication =>
    -- the six session-level types the classifier knows were handled above
    have hadmin : isAdminMsgtype hdr.msgType = false := by
      simp [isAdminMsgtype, h0, h1, h2, hother]
    refine h.next (h.taken.dispatchToApp (happ happlication hadmin) seq)
      fun outcome => h.afterCallback cfg outcome ?_ (h.settle cfg)
    exact h.next (h.taken.inboundBusinessRejectLeaf cfg _ _ trivial) fun r =>
      h.onOk r (h.settle cfg)
  · exact ite (h.settle cfg) (h.onUnsupported cfg hdr)

theorem dispatchTaken : Triple M T (dispatchTaken cfg hdr seq) (fun _ => P) P := by
  unfold Model.dispatchTaken
  split
  · exact h.onGapFill cfg hdr
  rename_i h4
  split
  · exact h.onLogout cfg hdr
  rename_i h5
  split
  · exact h.settle cfg
  rename_i h3
  have htype := h.dispatchByType happ ⟨h3, h4, h5⟩ seq
  refine get fun s => ite (ite (h.next (h.taken.dispatchToAdmin seq) fun outcome => ?_)
    htype) (h.settle cfg)
  exact h.afterCallback cfg outcome (h.onUnsupported cfg hdr) htype

/-! ## The gate -/

theorem gate : Maintains M P (gate cfg hdr seq) :=
  h.checkInbound seq
    (h.next h.taken.closeFilledResendGap fun _ => h.dispatchTaken happ seq)
    fun e => h.idle.onOutOfSequence happ seq e

theorem sequenceGate : Maintains M P (sequenceGate cfg hdr seq) :=
  .get fun _ => (h.idle.disconnectWith _).ite
    ((h.idle.onTooHigh cfg hdr _ seq).ite
      ((h.onPossDup cfg hdr (h.gate happ seq)).ite (h.gate happ seq)))

theorem identityGate : Maintains M P (identityGate cfg hdr) := by
  refine (h.idle.disconnectWith _).ite ((h.idle.disconnectWith _).ite ?_)
  refine .bind ?_ fun timely => ?_
  · exact (Maintains.ask fun _ => .pure _).ite (.pure _)
  exact (h.rejectAndLogout cfg hdr 52).ite
    ((h.onSequenceReset cfg hdr).ite (h.sequenceGate happ _))

omit happ

/-- Every arm of an established session comes back to the assertion between frames. -/
theorem onInboundActive {f : Frame}
    (happ : cfg.application = true → isAdminMsgtype f.header.msgType = false → apps) :
    Maintains M P (onInboundActive cfg f) := by
  refine (Maintains.pure _).ite ((h.disposeUnparseable cfg _).ite ?_)
  cases activeValidation cfg f with
  | pass => exact h.identityGate happ
  | reject d => exact h.onValidateFailed cfg _ _
  | parseFailed => exact h.onValidateFailed cfg _ _

end Uptake

end Fixpp.Analysis
