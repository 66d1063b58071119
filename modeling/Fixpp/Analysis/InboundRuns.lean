import Fixpp.Analysis.LogonArms

/-!
# Runs of a session follow the inbound protocol

From a sound pair of ledger and session, every step of a run logs what the inbound protocol
allows and leaves a sound pair, and so does a whole run.
-/

namespace Fixpp.Analysis

open Foundation Model Interface Brings

variable {l : Ledger}

/-- What handling a frame leaves behind: a sound session, and an answer to the
frame when the session was established and the frame's third field is MsgType. -/
def FrameHandled (cfg : SessionConfig) (f : Frame) (before : Session) (l : Ledger)
    (after : Session) : Prop :=
  Sound l after ∧ (before.up = true → f.header.msgTypeIsThird = true →
    Answered before.seqnums.nextInbound (readSeqNum cfg f) (readMsgType cfg f) l after)

theorem stable_frameHandled (cfg : SessionConfig) (f : Frame) (before : Session) :
    Stable (FrameHandled cfg f before) :=
  fun l s l' s' hd h => ⟨stable_sound l s l' s' hd h.1,
    fun hup hthird => stable_answered _ _ _ l s l' s' hd (h.2 hup hthird)⟩

section Steps

variable {rules : Rules} {α : Type}

theorem quiet_afterAbort (entered : FsmState) (e : Abort) : Quiet rules (afterAbort entered e) :=
  .get fun _ => .ite (.bind quiet_disconnected fun _ => .pure _) (.pure _)

variable {cfg : SessionConfig}

theorem brings_inboundArm (hfits : Fits rules cfg) (f : Frame) (before : Session)
    (hdue : parseSeqnum f.header.msgSeqNum = before.seqnums.nextInbound →
      rules.due before.seqnums.nextInbound) :
    Brings rules (fun l s => s = before ∧ Sound l s) (inboundArm cfg f before.fsm)
      (FrameHandled cfg f before) := by
  have hactive : before.up = true → Brings rules (fun l s => s = before ∧ Sound l s)
      (onInboundActive cfg f) (FrameHandled cfg f before) := by
    intro hup
    refine (brings_onInboundActive hfits f before.seqnums.inbound_pos hdue).mono ?_
      fun _ _ h => ⟨h.1, fun _ => h.2⟩
    rintro l s ⟨rfl, h⟩
    exact ⟨{ h with counter := .inl rfl }, hup⟩
  have hother : before.up = false → ∀ {x : Handler Outcome},
      Brings rules (fun l s => s = before ∧ Sound l s) x Sound →
      Brings rules (fun l s => s = before ∧ Sound l s) x (FrameHandled cfg f before) :=
    fun hup _ hx => hx.post fun _ _ h => ⟨h, fun hup' => by simp [hup] at hup'⟩
  cases hfsm : before.fsm with
  | logonReceived => exact hactive (by simp [Session.up, hfsm])
  | active => exact hactive (by simp [Session.up, hfsm])
  | notConnected =>
    refine hother (by simp [Session.up, hfsm]) ((brings_onInboundNotConnected cfg f).mono ?_
      fun _ _ h => h.sound)
    rintro l s ⟨rfl, h⟩
    exact h.toFresh (.inl hfsm)
  | logonSent =>
    refine hother (by simp [Session.up, hfsm]) ((brings_onInboundLogonSent cfg f).mono ?_
      fun _ _ h => h.sound)
    rintro l s ⟨rfl, h⟩
    exact h.toFresh (.inr hfsm)
  | logoutSent =>
    refine hother (by simp [Session.up, hfsm]) (.pre (P := Sound) ?_ fun _ _ h => h.2)
    exact (Quiet.ite (quiet_disconnectWith _) (.pure _)).brings stable_sound
  | disconnected =>
    exact hother (by simp [Session.up, hfsm]) (.pure _ fun _ _ h => h.2)

theorem brings_onInboundFrame (hfits : Fits rules cfg) (f : Frame) (before : Session)
    (hdue : parseSeqnum f.header.msgSeqNum = before.seqnums.nextInbound →
      rules.due before.seqnums.nextInbound) :
    Brings rules (fun l s => s = before ∧ Sound l s) (onInboundFrame cfg f)
      (FrameHandled cfg f before) := by
  refine .get fun s => ?_
  by_cases hs : s = before
  swap
  · rintro l w ⟨rfl, rfl, -⟩
    exact absurd rfl hs
  subst hs
  refine .bind (R := FrameHandled cfg f s) ?_ (fun _ _ h => h) fun r => ?_
  · refine .catching (E := FrameHandled cfg f s) ?_ fun e => ?_
    · exact (brings_inboundArm hfits f s hdue).pre fun _ _ h => h.2
    · exact (quiet_afterAbort s.fsm e).brings (stable_frameHandled cfg f s)
  · exact Quiet.brings (.get fun _ => .ite (.pure _) (.pure _))
      (stable_frameHandled cfg f s)

/-- A connection starts with no gap it could know of. -/
theorem leads_connected (identity : Option PeerIdentity) : Leads (inboundProtocol rules)
      (fun l s => Sound l s ∧ (rules.unbroken = true → s.resend.awaitingResend = false))
      (fun s => { s with livePeerId := identity }) .connected Fresh := by
  rintro l s ⟨h, hawait⟩
  refine ⟨fun hunbroken => ?_, {
    expected := h.expected
    gap := h.gap
    drained := h.drained
    ungapped := fun hc => ?_ }⟩
  · rw [h.gap]
    simp [openGap, hawait hunbroken]
  have hboth : (l.clean && l.gap.isNone) = true := hc
  simp only [Bool.and_eq_true, Option.isNone_iff_eq_none] at hboth
  exact hboth.2

theorem brings_driveReconnect (cfg : SessionConfig) (identity : Option PeerIdentity) :
    Brings rules (fun l s => (Sound l s ∧
        (rules.unbroken = true → s.resend.awaitingResend = false)) ∧ s.lifecycle = .opened)
      (driveReconnect cfg identity) Fresh := by
  refine ends_driveReconnect (connectOutline cfg) (C := Live) identity ?_ (leads_transition _)
  intro l s h
  obtain ⟨hallows, hfresh⟩ := leads_connected identity l s h.1
  exact ⟨hallows, hfresh, by simp [h.2]⟩

def StepDone (cfg : SessionConfig) (before : Session) (input : Input) (l : Ledger)
    (after : Session) : Prop :=
  Sound l after ∧ ∀ f, input = .frame f → FrameHandled cfg f before l after

theorem brings_program (hfits : Fits rules cfg) (input : Input) (before : Session)
    (hconn : rules.unbroken = true → input.connects = true → before.resend.awaitingResend = false)
    (hdue : ∀ f, input = .frame f → parseSeqnum f.header.msgSeqNum = before.seqnums.nextInbound →
      rules.due before.seqnums.nextInbound) :
    Brings rules (fun l s => s = before ∧ Sound l s) (input.program cfg)
      (StepDone cfg before input) := by
  cases input with
  | frame f =>
    refine (brings_onInboundFrame hfits f before (hdue f rfl)).post ?_
    intro l s h
    refine ⟨h.1, fun f' hf' => ?_⟩
    cases hf'
    exact h
  | accept identity =>
    refine post (P := fun l s => s = before ∧ Sound l s) (Q := Sound) ?_
      fun _ _ h => ⟨h, fun f hf => by cases hf⟩
    refine get fun s => ite (fun _ => ?_) fun _ => pure _ fun _ _ h => h.2.2
    refine Traced.Spec.triple (ends_accept identity ?_)
    rintro l s' ⟨-, rfl, h⟩
    exact (leads_connected identity l s' ⟨h, fun hunbroken => hconn hunbroken rfl⟩).imp_right
      Fresh.sound
  | reconnect identity =>
    refine post (P := fun l s => s = before ∧ Sound l s) (Q := Sound) ?_
      fun _ _ h => ⟨h, fun f hf => by cases hf⟩
    refine get fun s => ite (fun hopen => ?_) fun _ =>
      pure _ fun _ _ h => h.2.2
    refine (brings_driveReconnect cfg identity).mono ?_ fun _ _ h => h.sound
    rintro l s' ⟨rfl, rfl, h⟩
    exact ⟨⟨h, fun hunbroken => hconn hunbroken rfl⟩, hopen⟩
  | env act =>
    refine mono (P := Sound) (Q := Sound) ?_ (fun _ _ h => h.2)
      fun _ _ h => ⟨h, fun f hf => by cases hf⟩
    exact (Quiet.bind (quiet_perform act) fun _ => Quiet.pure _).brings stable_sound

theorem Brings.runFrom {P Q : Ledger → Session → Prop} {x : Handler α} (h : Brings rules P x Q)
    {s : Session} (hP : P l s) (answers : List Answer) :
    (inboundProtocol rules).Accepts l (x.runFrom s answers).2.2 ∧
      Q ((inboundProtocol rules).run l (x.runFrom s answers).2.2) (x.runFrom s answers).2.1 := by
  obtain ⟨events, hlog, hacc, hpost⟩ := h l { state := s, log := [], answers := answers } hP
  have hevents : (x.runFrom s answers).2.2 = events := hlog
  rw [hevents]
  refine ⟨hacc, ?_⟩
  cases hr : (x { state := s, log := [], answers := answers }).1 with
  | ok a => rw [hr] at hpost; exact hpost
  | error e => rw [hr] at hpost; exact hpost

/-- Step lemma: a step from a sound session logs what the protocol allows. -/
theorem step_sound (hfits : Fits rules cfg) (t : Step) {s : Session} (hs : Sound l s)
    (hconn : rules.unbroken = true → t.input.connects = true → s.resend.awaitingResend = false)
    (hdue : ∀ f, t.input = .frame f → parseSeqnum f.header.msgSeqNum = s.seqnums.nextInbound →
      rules.due s.seqnums.nextInbound) :
    (inboundProtocol rules).Accepts l (step cfg s t).2 ∧
      StepDone cfg s t.input ((inboundProtocol rules).run l (step cfg s t).2) (step cfg s t).1 :=
  (brings_program hfits t.input s hconn hdue).runFrom ⟨rfl, hs⟩ t.answers

end Steps

/-! ## Runs -/

variable (cfg : SessionConfig) (s : Session) (unbroken : Bool)

def runRules : Rules where
  inOrder := cfg.validateSequenceNumbers && !cfg.redeliverPossDup
  gated := cfg.validateSequenceNumbers
  unbroken := unbroken

/-- The rules of one step: only the frame's own number is due, and only where it is
the expected one. -/
def stepRules (t : Step) : Rules where
  inOrder := cfg.validateSequenceNumbers && !cfg.redeliverPossDup
  gated := cfg.validateSequenceNumbers
  due n := n = s.seqnums.nextInbound ∧ ∃ f, t.input = .frame f ∧ parseSeqnum f.header.msgSeqNum = n

theorem fits_runRules : Fits (runRules cfg unbroken) cfg :=
  ⟨fun h => by simpa [runRules] using h, fun h => h⟩

theorem fits_stepRules (t : Step) : Fits (stepRules cfg s t) cfg :=
  ⟨fun h => by simpa [stepRules] using h, fun h => h⟩

/-- No step of the run installs a connection while a resend is awaited. -/
def Unbroken (entries : List Entry) : Prop :=
  ∀ e ∈ entries, e.step.input.connects = true → e.before.resend.awaitingResend = false

/-- Run lemma: the log of a run from a sound session is accepted. -/
theorem history_accepts (steps : List Step) {s : Session} (hs : Sound l s)
    (hconn : unbroken = true → Unbroken (history cfg s steps)) :
    (inboundProtocol (runRules cfg unbroken)).Accepts l (eventsOf (history cfg s steps)) := by
  induction steps generalizing l s with
  | nil => trivial
  | cons t rest ih =>
    have hhead : (runRules cfg unbroken).unbroken = true → t.input.connects = true →
        s.resend.awaitingResend = false := fun hu hc =>
      hconn hu { before := s, step := t, events := (step cfg s t).2, after := (step cfg s t).1 }
        (List.mem_cons_self ..) hc
    obtain ⟨hacc, hdone⟩ := step_sound (fits_runRules cfg unbroken) t hs hhead
      fun _ _ _ => trivial
    have htail := ih hdone.1 fun hu e he => hconn hu e (List.mem_cons_of_mem _ he)
    have hsplit : eventsOf (history cfg s (t :: rest)) =
        (step cfg s t).2 ++ eventsOf (history cfg (step cfg s t).1 rest) := rfl
    rw [hsplit, Monitor.accepts_append]
    exact ⟨hacc, htail⟩

theorem history_entry (steps : List Step) {s : Session} (hs : Sound l s) {e : Entry}
    (he : e ∈ history cfg s steps) :
    (∃ l', Sound l' e.before) ∧ e.events = (step cfg e.before e.step).2 ∧
      e.after = (step cfg e.before e.step).1 := by
  induction steps generalizing l s with
  | nil => simp [history] at he
  | cons t rest ih =>
    obtain ⟨-, hdone⟩ := step_sound (fits_runRules cfg false) t hs (fun h => by cases h)
      fun _ _ _ => trivial
    obtain rfl | he := List.mem_cons.mp he
    · exact ⟨⟨l, hs⟩, rfl, rfl⟩
    · exact ih hdone.1 he

/-- The ledger of a session that was just opened: whatever gap its books show, no
connection of this run asked for it. -/
def openingLedger : Ledger where
  expected := s.seqnums.nextInbound
  gap := openGap s
  clean := (openGap s).isNone

theorem sound_openingLedger {s : Session} (hs : s.lifecycle = .opened) :
    Sound (openingLedger s) s where
  expected := rfl
  gap := rfl
  drained h := by simp [hs] at h
  fresh hc _ := by
    have hnone : (openGap s).isNone = true := hc
    show openGap s = none
    simpa using hnone
  asked hc _ b g hg := by
    have hnone : (openGap s).isNone = true := hc
    have hgap : openGap s = some (b, g) := hg
    simp [hgap] at hnone

end Fixpp.Analysis
