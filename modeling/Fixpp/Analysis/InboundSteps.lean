import Fixpp.Analysis.SessionDrift

/-!
# Assertions about a session, and the steps the active arms are made of

`Sound` ties a ledger to a session. `Handled n seq` adds where the expected number went when a
frame was handled: on by one when the frame carried it, nowhere else. A step in front of the
sequence check may only end the session (`Ended`).
-/

namespace Fixpp.Analysis

open Foundation Model Interface
open Foundation.Traced (Triple)

variable {P' Q' : Ledger → Session → Prop} {next : Handler Outcome} {p : LeafPolicy}

/-! ## Assertions -/

/-- The ledger describes the session. -/
structure Linked (l : Ledger) (s : Session) : Prop where
  expected : l.expected = s.seqnums.nextInbound
  gap : l.gap = openGap s
  drained : s.lifecycle = .closedDrained → s.down = true

/-- The ledger describes the session, and unless a connection was installed over
an open gap, an established session has asked for the gap it awaits. -/
structure Sound (l : Ledger) (s : Session) : Prop extends Linked l s where
  fresh : l.clean = true → s.fsm = .notConnected ∨ s.fsm = .logonSent → l.gap = none
  asked : l.clean = true → s.up = true → ∀ b g, l.gap = some (b, g) →
    l.requested = some b ∧ b ≤ l.expected ∧ l.expected ≤ g

/-- The expected number is `n`, unless a close has reset it. -/
structure Settled (n : ℕ) (l : Ledger) (s : Session) : Prop extends Sound l s where
  counter : s.seqnums.nextInbound = n ∨ (s.lifecycle ≠ .opened ∧ s.down = true)

/-- The expected number is `n`, unless the session has ended. -/
structure Reached (n : ℕ) (l : Ledger) (s : Session) : Prop extends Sound l s where
  counter : s.seqnums.nextInbound = n ∨ s.down = true

/-- A frame with number `seq` was handled where `n` was expected. -/
def Handled (n seq : ℕ) (l : Ledger) (s : Session) : Prop :=
  if seq = n then Reached (n + 1) l s else Settled n l s

def Ready (n : ℕ) (l : Ledger) (s : Session) : Prop := Settled n l s ∧ s.up = true

variable {s : Session} {l : Ledger}

theorem up_eq_false_of_down (h : s.down = true) : s.up = false := by
  unfold Session.down at h
  unfold Session.up
  cases hs : s.fsm <;> simp_all

theorem down_eq_false_of_up (h : s.up = true) : s.down = false := by
  by_contra hd
  rw [up_eq_false_of_down (by simpa using hd)] at h
  cases h

theorem Settled.reached {n : ℕ} (h : Settled n l s) : Reached n l s :=
  { h.toSound with counter := h.counter.imp id And.right }

theorem Ready.nextInbound {n : ℕ} (h : Ready n l s) : s.seqnums.nextInbound = n := by
  obtain hn | ⟨-, hd⟩ := h.1.counter
  · exact hn
  rw [down_eq_false_of_up h.2] at hd
  cases hd

theorem Linked.sound_of_down (h : Linked l s) (hd : s.down = true) : Sound l s :=
  { h with
    fresh := fun _ hf => by
      unfold Session.down at hd
      obtain hf | hf := hf <;> simp [hf] at hd
    asked := fun _ hup => by
      rw [up_eq_false_of_down hd] at hup
      cases hup }

theorem Sound.reached_of_down {n : ℕ} (h : Sound l s) (hd : s.down = true) : Reached n l s :=
  { h with counter := .inr hd }

/-! ## What drifting keeps -/

def Stable (P : Ledger → Session → Prop) : Prop :=
  ∀ l s l' s', Drift (l, s) (l', s') → P l s → P l' s'

theorem stable_linked : Stable Linked := by
  intro l s l' s' hd h
  refine ⟨hd.linked h.expected, ?_, hd.drained h.drained⟩
  have hgap : l'.gap = l.gap := hd.observed.1
  have hresend : s'.resend = s.resend := hd.resend
  rw [hgap, h.gap]
  unfold openGap
  rw [hresend]

theorem stable_sound : Stable Sound := by
  intro l s l' s' hd h
  have hclean : l'.clean = l.clean := hd.observed.2.1
  have hgap : l'.gap = l.gap := hd.observed.1
  refine { stable_linked l s l' s' hd h.toLinked with fresh := ?_, asked := ?_ }
  · intro hc hf
    have hsame : s'.fsm = s.fsm := by
      obtain hsame | hdown := hd.fsm
      · exact hsame
      unfold Session.down at hdown
      obtain hf | hf := hf <;> simp [hf] at hdown
    rw [hgap]
    exact h.fresh (hclean ▸ hc) (hsame ▸ hf)
  intro hc hup
  have hdown := down_eq_false_of_up hup
  obtain ⟨hl, -⟩ := hd.kept hdown
  have hsame : s'.fsm = s.fsm := by
    obtain hsame | h' := hd.fsm
    · exact hsame
    rw [hdown] at h'
    cases h'
  have hs : s.up = true := by
    unfold Session.up at hup ⊢
    rwa [hsame] at hup
  have hl' : l' = l := hl
  rw [hl']
  exact h.asked (hclean ▸ hc) hs

theorem stable_settled (n : ℕ) : Stable (Settled n) := by
  intro l s l' s' hd h
  refine { stable_sound l s l' s' hd h.toSound with counter := ?_ }
  obtain hsame | hclosed := hd.counter
  · obtain hn | ⟨hlife, hdown⟩ := h.counter
    · exact .inl (hsame.trans hn)
    · exact .inr ⟨hd.closing hlife, hd.down hdown⟩
  · exact .inr hclosed

theorem stable_reached (n : ℕ) : Stable (Reached n) := by
  intro l s l' s' hd h
  refine { stable_sound l s l' s' hd h.toSound with counter := ?_ }
  obtain hsame | hclosed := hd.counter
  · obtain hn | hdown := h.counter
    · exact .inl (hsame.trans hn)
    · exact .inr (hd.down hdown)
  · exact .inr hclosed.2

theorem stable_handled (n seq : ℕ) : Stable (Handled n seq) := by
  intro l s l' s' hd h
  unfold Handled at h ⊢
  by_cases heq : seq = n
  · rw [if_pos heq] at h ⊢
    exact stable_reached _ l s l' s' hd h
  rw [if_neg heq] at h ⊢
  exact stable_settled _ l s l' s' hd h

theorem handled_of_ne {n seq : ℕ} (hne : seq ≠ n) (h : Settled n l s) : Handled n seq l s := by
  unfold Handled
  rwa [if_neg hne]

theorem handled_of_eq {n seq : ℕ} (heq : seq = n) (h : Reached (n + 1) l s) :
    Handled n seq l s := by
  unfold Handled
  rwa [if_pos heq]

section Arms

variable {rules : Rules} {α β : Type}

/-- From `P`, the program ends in `Q`, whether it returns or throws. -/
def Brings (rules : Rules) (P : Ledger → Session → Prop) (x : Handler α)
    (Q : Ledger → Session → Prop) : Prop :=
  Triple (inboundProtocol rules) P x (fun _ => Q) Q

variable {x : Handler α} {P Q : Ledger → Session → Prop} {f : α → Handler β}

theorem Quiet.brings (h : Quiet rules x) (hP : Stable P) : Brings rules P x P :=
  Traced.Does.triple h fun l s l' s' hd => hP l s l' s' hd

theorem Brings.mono (h : Brings rules P x Q) (hP : ∀ l s, P' l s → P l s)
    (hQ : ∀ l s, Q l s → Q' l s) : Brings rules P' x Q' :=
  .conseq h hP (fun _ => hQ) hQ

theorem Brings.pre (h : Brings rules P x Q) (hP : ∀ l s, P' l s → P l s) : Brings rules P' x Q :=
  Triple.pre h hP

theorem Brings.post (h : Brings rules P x Q) (hQ : ∀ l s, Q l s → Q' l s) : Brings rules P x Q' :=
  h.mono (fun _ _ hP => hP) hQ

theorem Brings.pure (a : α) (h : ∀ l s, P l s → Q l s) :
    Brings rules P (Pure.pure a : Handler α) Q :=
  Triple.pure a h

theorem Brings.bind {R : Ledger → Session → Prop} (hx : Brings rules P x R)
    (hRQ : ∀ l s, R l s → Q l s) (hf : ∀ a, Brings rules R (f a) Q) : Brings rules P (x >>= f) Q :=
  Triple.bind (hx.conseq (fun _ _ h => h) (fun _ _ _ h => h) hRQ) hf

theorem Brings.get {f : Session → Handler β}
    (h : ∀ s, Brings rules (fun l s' => s' = s ∧ P l s') (f s) Q) :
    Brings rules P (Traced.get >>= f) Q :=
  Triple.get h

theorem Brings.read {f : Session → Handler β} (h : ∀ s, Brings rules P (f s) Q) :
    Brings rules P (Traced.get >>= f) Q :=
  .get fun s => (h s).pre fun _ _ h => h.2

theorem Brings.ask {f : Answer → Handler β} (h : ∀ a, Brings rules P (f a) Q) :
    Brings rules P (Traced.ask >>= f) Q :=
  Triple.ask h

theorem Brings.ite {c : Prop} [Decidable c] {y : Handler α} (hx : c → Brings rules P x Q)
    (hy : ¬c → Brings rules P y Q) : Brings rules P (if c then x else y) Q := by
  split
  · exact hx ‹_›
  · exact hy ‹_›

theorem Quiet.then (hx : Quiet rules x) (hP : Stable P) (hPQ : ∀ l s, P l s → Q l s)
    (hf : ∀ a, Brings rules P (f a) Q) : Brings rules P (x >>= f) Q :=
  .bind (hx.brings hP) hPQ hf

/-! ## Failures of a reply end the session -/

def ThrowsDown (x : Handler α) : Prop :=
  Triple (Monitor.free Event) (fun _ _ => True) x (fun _ _ _ => True)
    fun _ s => s.down = true

def FailsDown (x : Handler Outcome) : Prop :=
  Triple (Monitor.free Event) (fun _ _ => True) x
    (fun r _ s => r ≠ .ok () → s.down = true) fun _ s => s.down = true

theorem ThrowsDown.pure (a : α) : ThrowsDown (Pure.pure a : Handler α) :=
  Triple.pure a fun _ _ _ => trivial

theorem ThrowsDown.bind (hx : ThrowsDown x) (hf : ∀ a, ThrowsDown (f a)) : ThrowsDown (x >>= f) :=
  Triple.bind hx hf

theorem ThrowsDown.get {f : Session → Handler β} (hf : ∀ s, ThrowsDown (f s)) :
    ThrowsDown (Traced.get >>= f) :=
  Triple.get fun s => (hf s).pre fun _ _ _ => trivial

theorem ThrowsDown.ask {f : Answer → Handler β} (hf : ∀ a, ThrowsDown (f a)) :
    ThrowsDown (Traced.ask >>= f) :=
  Triple.ask hf

theorem ThrowsDown.modify (f : Session → Session) : ThrowsDown (Traced.modify f : Handler Unit) :=
  Triple.modify fun _ _ _ => trivial

theorem ThrowsDown.act (f : Session → Session) (e : Event) :
    ThrowsDown (Traced.act f e : Handler Unit) :=
  Triple.act (fun _ _ _ => trivial) fun _ _ _ => trivial

theorem ThrowsDown.ite {c : Prop} [Decidable c] {y : Handler α} (hx : ThrowsDown x)
    (hy : ThrowsDown y) : ThrowsDown (if c then x else y) := by
  split
  · exact hx
  · exact hy

theorem throwsDown_perform (a : EnvAct) : ThrowsDown a.perform := by
  cases a with
  | disconnect => exact .act _ _
  | logoutSent => exact .get fun _ => .ite (.act _ _) (.pure _)
  | teardownReset stored =>
    exact .get fun _ => .ite (.act _ _) (.pure _)
  | observe => exact .get fun _ => .act _ _
  | _ => exact .modify _

theorem throwsDown_meanwhile : ∀ acts : List EnvAct, ThrowsDown (meanwhile acts)
  | [] => .pure ()
  | a :: rest => .bind (throwsDown_perform a) fun _ => throwsDown_meanwhile rest

theorem throwsDown_suspend : ThrowsDown suspend :=
  .ask fun a => .bind (throwsDown_meanwhile a.meanwhile) fun _ =>
    .pure a

theorem ThrowsDown.suspend {f : Answer → Handler β} (hf : ∀ a, ThrowsDown (f a)) :
    ThrowsDown (suspend >>= f) :=
  .bind throwsDown_suspend hf

def EndsDown (x : Handler α) : Prop :=
  Triple (Monitor.free Event) (fun _ _ => True) x (fun _ _ s => s.down = true)
    fun _ s => s.down = true

theorem endsDown_disconnected : EndsDown (recordStateTransition .disconnected) :=
  .act (fun _ _ _ => trivial) fun _ _ _ => rfl

theorem endsDown_disconnectWith (r : Outcome) : EndsDown (disconnectWith r) :=
  .bind endsDown_disconnected fun _ => .pure r fun _ _ h => h

/-- Outside the Logon arms nothing supersedes a disconnection. -/
theorem disconnects_down : EndsDown (disconnectUnlessSuperseded none) := by
  refine .get fun s => ?_
  by_cases h : s.fsm = .disconnected
  · rw [if_neg (by simp), if_neg (by simpa using h)]
    refine .pure () ?_
    rintro _ s' ⟨rfl, -⟩
    simp [Session.down, h]
  · rw [if_neg (by simp), if_pos h]
    exact .act (fun _ _ _ => trivial) fun _ _ _ => rfl

theorem throwsDown_assignOutbound : ThrowsDown assignOutbound := by
  refine .get fun s => .ite (.pure _) ?_
  cases s.seqnums.assignOutbound with
  | error e => exact .pure _
  | ok r => exact .bind (.modify _) fun _ => .pure _

variable (cfg : SessionConfig)

theorem throwsDown_fireToAdmin : ThrowsDown (fireToAdmin cfg) :=
  .ite (.ask fun _ => .pure _) (.pure _)

theorem throwsDown_refuseStale (seq : ℕ) : ThrowsDown (refuseStale seq) :=
  .get fun _ => .ite (.pure _) (.pure _)

theorem throwsDown_reconcileOutbound : ThrowsDown reconcileOutbound := by
  refine .suspend fun a => .get fun s => ?_
  split
  · exact .modify _
  · exact .pure _

theorem throwsDown_storeStep (seq : ℕ) (bytes : Bytes) :
    ThrowsDown (storeStep cfg seq bytes none) := by
  refine .get fun s => .ite (.pure _) ?_
  refine .suspend fun a => .get fun s' => ?_
  cases storeCall a.store (s'.store.getD {}) seq bytes with
  | cancelled =>
    refine .bind (.modify _) fun _ => ?_
    exact Triple.bind disconnects_down fun _ => Triple.throw _ fun _ _ h => h
  | failed e =>
    exact .ite (.bind throwsDown_reconcileOutbound fun _ => .pure _)
      (throwsDown_refuseStale seq)
  | threw => exact throwsDown_refuseStale seq
  | done => exact .bind (.modify _) fun _ => throwsDown_refuseStale seq

theorem throwsDown_storeThenEmit (seq : ℕ) (bytes : Bytes)
    (reply : Reply) : ThrowsDown (storeThenEmit cfg seq bytes reply none) := by
  refine .bind (throwsDown_storeStep cfg seq bytes) fun step => ?_
  cases step with
  | stop e => exact .pure _
  | proceed =>
    refine .get fun s => .ite (.pure _) ?_
    refine .suspend fun a => .ite ?_ (.pure _)
    exact .bind (.act _ _) fun _ => .pure _

theorem FailsDown.ok : FailsDown (Pure.pure (.ok ())) := .pure _ fun _ _ _ h => absurd rfl h

theorem failsDown_disconnectWith (r : Outcome) : FailsDown (disconnectWith r) :=
  (endsDown_disconnectWith r).conseq (fun _ _ h => h) (fun _ _ _ h _ => h) fun _ _ h => h

theorem failsDown_conclude (r : Refused) (e : Error) : FailsDown (r.conclude none e) := by
  cases r with
  | ignored => exact .ok
  | disconnects =>
    exact .bind disconnects_down fun _ => .pure _ fun _ _ h _ => h
  | disconnectsQuietly =>
    exact .bind disconnects_down fun _ => .pure _ fun _ _ h _ => h

theorem failsDown_afterToAdmin (hnext : FailsDown next) : FailsDown (afterToAdmin cfg next) := by
  refine .bind (throwsDown_fireToAdmin cfg) fun passed => ?_
  split
  · exact hnext
  · exact failsDown_disconnectWith _

theorem failsDown_afterAssign (p : LeafPolicy) (hnext : FailsDown next) :
    FailsDown (afterAssign p next) := by
  refine .bind throwsDown_assignOutbound fun assigned => ?_
  cases assigned with
  | ok _ => exact hnext
  | error e => exact failsDown_conclude _ _

theorem failsDown_emitStep (hp : p.arm = none) (seq : ℕ) (bytes : Bytes) (reply : Reply) :
    FailsDown (emitStep cfg p seq bytes reply) := by
  unfold emitStep
  rw [hp]
  refine .bind (throwsDown_storeThenEmit cfg seq bytes reply) fun r => ?_
  cases r with
  | ok _ => exact FailsDown.ok
  | error e => exact failsDown_conclude _ _

theorem failsDown_emitLeaf (hp : p.arm = none) (reply : ℕ → Reply) :
    FailsDown (emitLeaf cfg p reply) := by
  refine .get fun s => .ask fun a => ?_
  refine .pre (P := fun _ _ => True) ?_ fun _ _ _ => trivial
  split
  · cases p.buildRefused with
    | none => exact FailsDown.ok
    | some e => exact failsDown_disconnectWith _
  split
  · exact failsDown_afterToAdmin cfg (failsDown_afterAssign p (failsDown_emitStep cfg hp _ _ _))
  · exact failsDown_afterAssign p (failsDown_afterToAdmin cfg (failsDown_emitStep cfg hp _ _ _))

/-! ## Ends of a session -/

def Ended (n : ℕ) (l : Ledger) (s : Session) : Prop := Settled n l s ∧ s.down = true

variable (n : ℕ)

theorem stable_ended : Stable (Ended n) :=
  fun l s l' s' hd h => ⟨stable_settled n l s l' s' hd h.1, hd.down h.2⟩

theorem Quiet.ending (hx : Quiet rules x) (hP : Stable P) (hdown : EndsDown x) :
    Brings rules P x fun l s => P l s ∧ s.down = true :=
  (Triple.and_free (hx.brings hP) hdown).pre fun _ _ h => ⟨h, trivial⟩

theorem brings_disconnected :
    Brings rules (Settled n) (recordStateTransition .disconnected) (Ended n) :=
  quiet_disconnected.ending (stable_settled n) endsDown_disconnected

theorem brings_disconnectWith (r : Outcome) :
    Brings rules (Settled n) (disconnectWith r) (Ended n) :=
  .bind (brings_disconnected n) (fun _ _ h => h) fun _ => .pure r fun _ _ h => h

theorem Quiet.thenDown {R : β → Ledger → Session → Prop} (hx : Quiet rules x) (ht : ThrowsDown x)
    (hP : Stable P) (hQ : ∀ l s, P l s → s.down = true → Q l s)
    (hf : ∀ a, Triple (inboundProtocol rules) P (f a) R Q) :
    Triple (inboundProtocol rules) P (x >>= f) R Q :=
  .bind (Q := fun _ => P) ((Triple.and_free (hx.brings hP) ht).conseq
    (fun _ _ h => ⟨h, trivial⟩) (fun _ _ _ h => h.1) fun l s h => hQ l s h.1 h.2) hf

theorem brings_disconnectUnlessSuperseded :
    Brings rules (Settled n) (disconnectUnlessSuperseded none) (Ended n) :=
  (quiet_disconnectUnlessSuperseded none).ending (stable_settled n) disconnects_down

theorem brings_close (n : ℕ) : Brings rules (Ready n) (close cfg) (Ended n) := by
  refine Brings.get fun s => ?_
  cases hlife : s.lifecycle with
  | closedDrained =>
    refine Brings.pure () ?_
    rintro l s' ⟨rfl, hready, hup⟩
    have hdown := hready.drained hlife
    rw [down_eq_false_of_up hup] at hdown
    cases hdown
  | closing =>
    refine Brings.pre (P := Settled n) ?_ fun _ _ h => h.2.1
    refine quiet_suspend.thenDown throwsDown_suspend (stable_settled n) (fun _ _ h hd => ⟨h, hd⟩)
      fun _ => ?_
    exact Brings.bind (brings_disconnected n) (fun _ _ h => h) fun _ =>
      (quiet_meanwhile _).brings (stable_ended n)
  | opened =>
    refine Brings.pre (P := Settled n) ?_ fun _ _ h => h.2.1
    refine (quiet_meanwhile _).thenDown (throwsDown_meanwhile _) (stable_settled n)
      (fun _ _ h hd => ⟨h, hd⟩) fun _ => ?_
    refine Brings.bind (brings_disconnectUnlessSuperseded n) (fun _ _ h => h) fun _ => ?_
    -- the rest of the close only drifts
    refine Quiet.brings (Quiet.suspend fun _ => Quiet.bind ?_ fun _ => ?_) (stable_ended n)
    · exact quiet_closeReset cfg
    · exact Quiet.suspend fun _ => quiet_meanwhile _

theorem brings_closeOnLateParseFailure (n : ℕ) :
    Brings rules (Ready n) (closeOnLateParseFailure cfg) (Ended n) :=
  .bind (brings_close cfg n) (fun _ _ h => h) fun _ => .pure _ fun _ _ h => h

/-! ## Taking a number up -/

/-- A number was just taken up; the gap it may have filled is still recorded. -/
structure TakenUp (n : ℕ) (l : Ledger) (s : Session) : Prop extends Linked l s where
  pos : 0 < n
  up : s.up = true
  counter : s.seqnums.nextInbound = n + 1
  taken : l.taken = some n
  asked : l.clean = true → ∀ b g, l.gap = some (b, g) → l.requested = some b ∧ b ≤ n ∧ n ≤ g

def InHand (n : ℕ) (l : Ledger) (s : Session) : Prop := Ready (n + 1) l s ∧ l.taken = some n

/-- The sequence check and what follows from its four results. `X` is what is known
of the session besides. -/
theorem brings_checkInbound {n seq : ℕ} {X : Session → Prop} {f : Outcome → Handler α}
    (hok : seq = n → Brings rules (TakenUp n) (f (.ok ())) Q)
    (hlow : seq < n → Brings rules (fun l s => Ready n l s ∧ X s)
      (f (.error .sessionSeqnumTooLow)) Q)
    (hhigh : n < seq → Brings rules (fun l s => Ready n l s ∧ X s)
      (f (.error .sessionSeqnumTooHigh)) Q)
    (hover : seq = n → Brings rules (fun l s => Ready n l s ∧ X s)
      (f (.error .storeSeqnumOverflow)) Q) :
    Brings rules (fun l s => Ready n l s ∧ X s) (checkInbound seq >>= f) Q := by
  intro l w hP
  obtain ⟨hr, hX⟩ := hP
  have hn := hr.nextInbound
  have hopen : w.state.lifecycle ≠ .closedDrained := by
    intro hlife
    have hdown := hr.1.drained hlife
    rw [down_eq_false_of_up hr.2] at hdown
    cases hdown
  cases hchk : w.state.seqnums.checkInbound seq with
  | error e =>
    -- the check leaves the world alone
    have hrun : (checkInbound seq >>= f) w = f (.error e) w := by
      simp [checkInbound, bind, Traced.get, hopen, hchk, pure]
    unfold Traced.Leaves
    rw [hrun]
    obtain ⟨rfl, h⟩ | ⟨rfl, h⟩ | ⟨rfl, h⟩ := SeqnumManager.checkInbound_error hchk
    · exact hlow (hn ▸ h) l w ⟨hr, hX⟩
    · exact hhigh (hn ▸ h) l w ⟨hr, hX⟩
    · exact hover (hn ▸ h) l w ⟨hr, hX⟩
  | ok m =>
    obtain ⟨hseq, hnext⟩ := SeqnumManager.checkInbound_ok hchk
    have hpos := w.state.seqnums.inbound_pos
    have hrun : checkInbound seq w = (.ok (.ok ()),
        { w with state := { w.state with seqnums := m }, log := w.log ++ [.takeUp seq] }) := by
      simp [checkInbound, bind, Traced.get, hopen, hchk, pure, Traced.act]
    obtain ⟨events, hlog, hacc, hpost⟩ := hok (hseq.trans hn)
      ((inboundProtocol rules).next l (.takeUp seq))
      { w with state := { w.state with seqnums := m }, log := w.log ++ [.takeUp seq] } {
        expected := hnext.symm
        gap := hr.1.gap
        drained := hr.1.drained
        pos := by omega
        up := hr.2
        counter := by
          show m.nextInbound = n + 1
          omega
        taken := by
          show some seq = some n
          rw [hseq, hn]
        asked := fun hc b g hgap => by
          have := hr.1.asked hc hr.2 b g hgap
          rw [hr.1.expected, hn] at this
          exact this }
    unfold Traced.Leaves
    rw [Traced.bind_ok hrun]
    exact ⟨.takeUp seq :: events, by rw [hlog, List.append_assoc]; rfl,
      ⟨hseq.trans hr.1.expected.symm, hacc⟩, hpost⟩

theorem brings_closeFilledResendGap : Brings rules (TakenUp n) closeFilledResendGap (InHand n) := by
  refine Brings.get fun s => ?_
  refine Brings.ite (fun h => ?_) fun h => ?_
  · -- the gap is filled: leave AwaitingResend
    obtain ⟨hawait, hend, hpast⟩ := h
    refine Brings.get fun s₁ => ?_
    have hgap : openGap s = some (s.resend.outstandingBegin, s.resend.outstandingEnd) := by
      simp [openGap, hawait]
    refine Triple.act ?_ ?_
    · rintro l s' ⟨rfl, rfl, htk⟩
      refine ⟨htk.expected.symm, _, _, htk.gap.trans hgap, .inl hpast⟩
    rintro l s' ⟨rfl, rfl, htk⟩
    refine ⟨⟨?_, htk.up⟩, htk.taken⟩
    exact {
      expected := htk.expected
      gap := by simp [Ledger.next, openGap]
      drained := htk.drained
      fresh := fun _ _ => rfl
      asked := fun _ _ b g hg => by simp [Ledger.next] at hg
      counter := .inl htk.counter }
  refine Brings.pure () ?_
  rintro l s' ⟨rfl, htk⟩
  refine ⟨⟨?_, htk.up⟩, htk.taken⟩
  refine { htk.toLinked with fresh := ?_, asked := ?_, counter := .inl htk.counter }
  · intro _ hf
    have hup := htk.up
    unfold Session.up at hup
    obtain hf | hf := hf <;> simp [hf] at hup
  intro hc _ b g hg
  obtain ⟨hreq, hb, hng⟩ := htk.asked hc b g hg
  have hopen : openGap s' = some (b, g) := htk.gap.symm.trans hg
  unfold openGap at hopen
  split at hopen
  · rename_i hawait
    simp only [Option.some.injEq, Prod.mk.injEq] at hopen
    have hpos := htk.pos
    have hcounter := htk.counter
    have hexp := htk.expected
    have hnot : ¬(s'.resend.outstandingEnd > 0 ∧
        s'.seqnums.nextInbound > s'.resend.outstandingEnd) := fun hh => h ⟨hawait, hh.1, hh.2⟩
    refine ⟨hreq, by omega, by omega⟩
  · cases hopen

end Arms

end Fixpp.Analysis
