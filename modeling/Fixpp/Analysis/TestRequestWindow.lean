import Fixpp.Model.Liveness

/-!
# The window of a TestRequest

The liveness loop ends the session for an unanswered TestRequest at a deadline it computes from
the silence the TestRequest asks about. What a TestRequest loses of its window is the time it
was handed over late.
-/

namespace Fixpp.Analysis.TestRequestWindow

open Foundation Model
open Foundation.Traced (Triple Maintains)

/-- What is known of the last TestRequest: nothing that is on time, answered, or open
since its hand-over. -/
inductive Watch
  | spoiled
  | settled
  | opened (id : Bytes) (since : ℕ)
  deriving DecidableEq, Repr

/-- A TestRequest is handed over, at most `delay` behind the silence it asks about. -/
def OnTime (delay : ℕ) : LiveEvent → Prop
  | .handedOver _ due time => time ≤ due + delay
  | .unsent _ => False
  | _ => True

instance (delay : ℕ) (e : LiveEvent) : Decidable (OnTime delay e) := by
  unfold OnTime
  split <;> infer_instance

/-- The event opens or answers a TestRequest. -/
def Settles : LiveEvent → Prop
  | .handedOver _ _ _ => True
  | .answered _ => True
  | _ => False

/-- The session ends for an unanswered TestRequest only behind what is left of its
window. -/
def window (heartBtInt delay : ℕ) : Monitor LiveEvent Watch where
  next
    | .spoiled, _ => .spoiled
    | _, .handedOver id due time => if time ≤ due + delay then .opened id time else .spoiled
    | _, .unsent _ => .spoiled
    | _, .answered _ => .settled
    | m, _ => m
  allows
    | .spoiled, _ => True
    | m, .unanswered id time => ∃ since, m = .opened id since ∧ since + heartBtInt + 1 ≤ time + delay
    | _, _ => True

/-! ## Reading a log -/

section Logs

variable {h delay : ℕ} {id : Bytes} {m : Watch}

theorem next_of_not_settles {e : LiveEvent} (hon : OnTime delay e) (he : ¬ Settles e) :
    (window h delay).next m e = m := by
  cases m <;> cases e <;> first | rfl | exact hon.elim | exact absurd trivial he

/-- A log in which every TestRequest is on time is not spoiled, and an open TestRequest
is the last one that was handed over. -/
theorem opened_of_run {log : List LiveEvent} (hon : ∀ e ∈ log, OnTime delay e) :
    (window h delay).run .settled log ≠ .spoiled ∧
      ∀ id since, (window h delay).run .settled log = .opened id since →
        ∃ first due rest, log = first ++ .handedOver id due since :: rest ∧
          ∀ e ∈ rest, ¬ Settles e := by
  induction log using List.reverseRecOn with
  | nil => exact ⟨nofun, nofun⟩
  | append_singleton log e ih =>
    obtain ⟨hsound, hopened⟩ := ih fun e he => hon e (List.mem_append_left _ he)
    have hone : OnTime delay e := hon e (by simp)
    rw [Monitor.run_append, Monitor.run_cons, Monitor.run_nil]
    generalize hm : (window h delay).run .settled log = m at hsound hopened
    by_cases hsettles : Settles e
    · cases e with
      | handedOver id due time =>
        have hnext : (window h delay).next m (.handedOver id due time) = .opened id time := by
          cases m with
          | spoiled => exact absurd rfl hsound
          | settled => exact if_pos hone
          | opened => exact if_pos hone
        rw [hnext]
        refine ⟨nofun, ?_⟩
        rintro _ _ ⟨⟩
        exact ⟨log, due, [], rfl, nofun⟩
      | answered id =>
        have hnext : (window h delay).next m (.answered id) = .settled := by
          cases m with
          | spoiled => exact absurd rfl hsound
          | settled => rfl
          | opened => rfl
        rw [hnext]
        exact ⟨nofun, nofun⟩
      | _ => exact absurd hsettles nofun
    · rw [next_of_not_settles hone hsettles]
      refine ⟨hsound, fun id since hopen => ?_⟩
      obtain ⟨first, due, rest, hlog, hrest⟩ := hopened id since hopen
      refine ⟨first, due, rest ++ [e], by simp [hlog], fun e' he' => ?_⟩
      obtain he' | he' := List.mem_append.mp he'
      · exact hrest e' he'
      · rwa [List.mem_singleton.mp he']

/-- In an accepted log in which every TestRequest is on time, the session ends only
behind the open TestRequest. -/
theorem window_of_accepts {before after : List LiveEvent} {time : ℕ}
    (hacc : (window h delay).Accepts .settled (before ++ .unanswered id time :: after))
    (hon : ∀ e ∈ before, OnTime delay e) :
    ∃ first due since rest, before = first ++ .handedOver id due since :: rest ∧
      since + h + 1 ≤ time + delay ∧ ∀ e ∈ rest, ¬ Settles e := by
  rw [Monitor.accepts_append, Monitor.accepts_cons] at hacc
  obtain ⟨hsound, hopened⟩ := opened_of_run (h := h) hon
  have hallows := hacc.2.1
  generalize hm : (window h delay).run .settled before = m at hsound hopened hallows
  cases m with
  | spoiled => exact absurd rfl hsound
  | settled =>
    obtain ⟨since, hopen, -⟩ := hallows
    cases hopen
  | opened id' since' =>
    obtain ⟨since, hopen, hle⟩ := hallows
    cases hopen
    obtain ⟨first, due, rest, hbefore, hrest⟩ := hopened id since' rfl
    exact ⟨first, due, since', rest, hbefore, hle, hrest⟩

end Logs

/-! ## What happens while the loop is suspended -/

/-- `P` survives what other coroutines do to the session. -/
structure Undisturbed (M : Monitor LiveEvent Watch) (P : Watch → Liveness → Prop) : Prop where
  elapsed : ∀ m s now, P m s → P m { s with now := now }
  refreshed : ∀ m s t, P m s → P m { s with lastInbound := t }
  sent : ∀ m s t, P m s → P m { s with lastOutbound := t }
  disconnected : ∀ m s, P m s → P m s.disconnected
  answered : ∀ m s id, P m s → M.allows m (.answered id) ∧ P (M.next m (.answered id))
    { s with session := { s.session with pendingTestReqId := [] }, unansweredTr := false }

theorem answerPendingTestRequest_runFrom (testReqId : Bytes) (s : Session) :
    (answerPendingTestRequest testReqId).runFrom s [] =
      if testReqId ≠ [] ∧ testReqId ≠ s.pendingTestReqId then
        (.ok false, { s with fsm := .disconnected }, [.transition .disconnected])
      else (.ok true, { s with pendingTestReqId := [] }, []) := by
  by_cases hmismatch : testReqId ≠ [] ∧ testReqId ≠ s.pendingTestReqId
  · rw [if_pos hmismatch]
    show (Traced.runFrom (if testReqId ≠ [] ∧ testReqId ≠ s.pendingTestReqId then _ else _) s []) = _
    rw [if_pos hmismatch]
    rfl
  rw [if_neg hmismatch]
  show (Traced.runFrom (if testReqId ≠ [] ∧ testReqId ≠ s.pendingTestReqId then _ else _) s []) = _
  rw [if_neg hmismatch]
  rfl

namespace Undisturbed

variable {M : Monitor LiveEvent Watch} {P Q : Watch → Liveness → Prop} (h : Undisturbed M P)
  {handed : ℕ → LiveEvent} {unsent : Live Unit}

include h

theorem perform (a : LiveAct) : Maintains M P a.perform := by
  cases a with
  | elapse d => exact Maintains.modify fun m s hP => h.elapsed m s _ hP
  | frame => exact Maintains.modify fun m s hP => h.refreshed m s _ hP
  | sent => exact Maintains.modify fun m s hP => h.sent m s _ hP
  | disconnect => exact Maintains.modify fun m s hP => h.disconnected m s hP
  | heartbeat testReqId =>
    refine (Maintains.modify fun m s hP => h.refreshed m s _ hP).bind fun _ => ?_
    refine Triple.get fun s => ?_
    split
    · exact Triple.pure _ fun _ _ hP => hP.2
    have hrun := answerPendingTestRequest_runFrom testReqId s.session
    by_cases hmismatch : testReqId ≠ [] ∧ testReqId ≠ s.session.pendingTestReqId
    · rw [if_pos hmismatch] at hrun
      simp only [hrun]
      refine Triple.modify ?_
      rintro m s' ⟨rfl, hP⟩
      exact h.disconnected m s' hP
    rw [if_neg hmismatch] at hrun
    simp only [hrun]
    exact Triple.actAt fun m hP => h.answered m s _ hP

theorem elapsing (acts : List LiveAct) : Maintains M P (elapsing acts) := by
  induction acts with
  | nil => exact .pure ()
  | cons a rest ih => exact (h.perform a).bind fun _ => ih

theorem liveSuspend : Maintains M P liveSuspend :=
  .ask fun a => (h.elapsing a.meanwhile).bind fun _ => .pure a

theorem sleepUntil (deadline : ℕ) :
    Triple M P (sleepUntil deadline) (fun _ m s => P m s ∧ deadline ≤ s.now) P := by
  refine .bind h.liveSuspend fun a => ?_
  split
  · exact .modify fun m s hP => ⟨h.elapsed m s _ hP, Nat.le_max_right ..⟩
  · exact .throw _ fun _ _ hP => hP

theorem emitLive (hQ : Undisturbed M Q) (hPQ : ∀ m s, Q m s → P m s)
    (hhanded : ∀ m s, P m s → M.allows m (handed s.now) ∧ Q (M.next m (handed s.now)) s)
    (hunsent : Triple M P unsent (fun _ => Q) P) :
    Triple M P (emitLive handed unsent) (fun r m s =>
      match r with
      | .ok _ => Q m s
      | .error _ => P m s) P := by
  refine .bind h.liveSuspend fun a => ?_
  cases a.store with
  | cancelled =>
    exact .bind (Q := fun _ => P)
      (.modify fun m s hP => h.disconnected m s hP) fun _ =>
        .throw _ fun _ _ hP => hP
  | refused e => exact .pure _ fun _ _ hP => hP
  | proceed =>
    dsimp only
    split
    · refine .get fun s => ?_
      refine .bind (Q := fun _ => Q) (.actAt fun m hP => hhanded m s hP) fun _ => ?_
      refine .bind (Q := fun _ => Q) (hQ.liveSuspend.conseq (fun _ _ h => h)
        (fun _ _ _ h => h) hPQ) fun w => ?_
      split
      · exact .bind (Q := fun _ => Q)
          (.modify fun m s hP => hQ.sent m s _ hP) fun _ =>
            .pure _ fun _ _ hP => hP
      · exact .pure _ hPQ
    · exact .bind hunsent fun _ => .bind (Q := fun _ => Q)
        (.modify fun m s hP => hQ.sent m s _ hP) fun _ =>
          .pure _ fun _ _ hP => hP

theorem emitAdmin (hQ : Undisturbed M Q) (hPQ : ∀ m s, Q m s → P m s)
    (hhanded : ∀ m s, P m s → M.allows m (handed s.now) ∧ Q (M.next m (handed s.now)) s)
    (hunsent : Triple M P unsent (fun _ => Q) P) (cfg : SessionConfig) :
    Triple M P (emitAdmin cfg handed unsent) (fun turn m s =>
      match turn with
      | .again => Q m s
      | .leave => P m s) P := by
  have hleave : Triple M P Model.leaveDisconnected (fun turn m s =>
      match turn with
      | .again => Q m s
      | .leave => P m s) P :=
    .bind (Q := fun _ => P)
      (.modify fun m s hP => h.disconnected m s hP) fun _ =>
        .pure _ fun _ _ hP => hP
  refine .ask fun a => ?_
  split
  · exact .bind hunsent fun _ => .pure _ fun _ _ hP => hP
  split
  · exact hleave
  refine .bind h.liveSuspend fun b => ?_
  split
  · exact hleave
  refine .bind (h.emitLive hQ hPQ hhanded hunsent) fun emitted => ?_
  cases emitted with
  | ok _ => exact .pure _ fun _ _ hP => hP
  | error _ => exact hleave

end Undisturbed

/-! ## The loop -/

section Loop

variable {h delay due : ℕ} {id : Bytes} {m : Watch} {s : Liveness}

theorem undisturbed_true : Undisturbed (window h delay) (fun _ _ => True) where
  elapsed _ _ _ _ := trivial
  refreshed _ _ _ _ := trivial
  sent _ _ _ _ := trivial
  disconnected _ _ _ := trivial
  answered m _ _ _ := ⟨by cases m <;> trivial, trivial⟩

/-- The TestRequest `id` is pending, or was answered ahead of its hand-over. -/
def Asked (id : Bytes) (_ : Watch) (s : Liveness) : Prop :=
  s.session.pendingTestReqId = id ∨ s.session.pendingTestReqId = []

/-- While the TestRequest `id` is pending, it is the open one and was on time. -/
def Following (id : Bytes) (latest : ℕ) (m : Watch) (s : Liveness) : Prop :=
  Asked id m s ∧ (m = .spoiled ∨ s.session.pendingTestReqId = [] ∨
    ∃ since, m = .opened id since ∧ since ≤ latest)

theorem undisturbed_asked (id : Bytes) : Undisturbed (window h delay) (Asked id) where
  elapsed _ _ _ hP := hP
  refreshed _ _ _ hP := hP
  sent _ _ _ hP := hP
  disconnected _ _ hP := hP
  answered m _ _ _ := ⟨by cases m <;> trivial, .inr rfl⟩

theorem undisturbed_following (id : Bytes) (latest : ℕ) :
    Undisturbed (window h delay) (Following id latest) where
  elapsed _ _ _ hP := hP
  refreshed _ _ _ hP := hP
  sent _ _ _ hP := hP
  disconnected _ _ hP := hP
  answered m _ _ _ := ⟨by cases m <;> trivial, .inr rfl, .inr (.inl rfl)⟩

theorem following_of_handedOver (hP : Asked id m s) :
    (window h delay).allows m (.handedOver id due s.now) ∧
      Following id (due + delay) ((window h delay).next m (.handedOver id due s.now)) s := by
  refine ⟨by cases m <;> trivial, hP, ?_⟩
  by_cases htime : s.now ≤ due + delay
  · cases m with
    | spoiled => exact .inl rfl
    | settled => exact .inr (.inr ⟨s.now, if_pos htime, htime⟩)
    | opened => exact .inr (.inr ⟨s.now, if_pos htime, htime⟩)
  cases m with
  | spoiled => exact .inl rfl
  | settled => exact .inl (if_neg htime)
  | opened => exact .inl (if_neg htime)

theorem unanswered_allowed (hP : Following id (due + delay) m s) (hgrace : due + h + 1 ≤ s.now)
    (hpending : s.session.pendingTestReqId ≠ []) :
    (window h delay).allows m (.unanswered s.session.pendingTestReqId s.now) := by
  obtain ⟨hasked, hspoiled | hempty | ⟨since, hopen, hsince⟩⟩ := hP
  · rw [hspoiled]
    trivial
  · exact absurd hempty hpending
  rw [hasked.resolve_right hpending, hopen]
  exact ⟨since, rfl, by omega⟩

variable (cfg : SessionConfig)

theorem testRequestTurn_window (due : ℕ) :
    Maintains (window h delay) (fun _ _ => True) (testRequestTurn cfg h due) := by
  have htrue : ∀ {P : Watch → Liveness → Prop} (turn : Turn),
      Triple (window h delay) P (pure turn : Live Turn) (fun _ _ _ => True)
        (fun _ _ => True) := fun turn => Triple.pure _ fun _ _ _ => trivial
  refine Maintains.get fun s => ?_
  refine Triple.bind
    (Q := fun _ => Asked (testReqIdOf ((s.nextTestRequestId + 1) % 2 ^ 32)))
    (Triple.modify fun _ _ _ => .inl rfl) fun _ => ?_
  refine Triple.bind (((undisturbed_asked _).emitAdmin (undisturbed_following _ (due + delay))
    (fun _ _ hP => hP.1) (fun _ _ => following_of_handedOver) ?_ cfg).conseq (fun _ _ hP => hP)
    (fun _ _ _ hP => hP) fun _ _ _ => trivial) fun emitted => ?_
  · -- a TestRequest that is not sent spoils the log
    refine Triple.act (fun m _ _ => by cases m <;> trivial) fun m s hP => ⟨hP, .inl ?_⟩
    cases m <;> rfl
  cases emitted with
  | leave => exact htrue _
  | again =>
    dsimp only
    refine Triple.get fun _ => ?_
    split
    · exact htrue _
    refine Triple.bind (((undisturbed_following _ _).sleepUntil _).conseq
      (fun _ _ hP => hP.2) (fun _ _ _ hP => hP) fun _ _ _ => trivial) fun _ => ?_
    refine Triple.get fun s => ?_
    split
    · exact htrue _
    split
    next hpending =>
      refine Triple.bind (Q := fun _ _ _ => True) (Triple.act ?_
        fun _ _ _ => trivial) fun _ => htrue _
      rintro m s' ⟨rfl, hP, hgrace⟩
      exact unanswered_allowed hP hgrace hpending
    · exact htrue _

theorem heartbeatTurn_window :
    Maintains (window h delay) (fun _ _ => True) (heartbeatTurn cfg h) := by
  refine Maintains.get fun s => Maintains.ite ?_ (Maintains.pure _)
  refine Triple.bind (Q := fun _ _ _ => True) ?_ fun emitted => ?_
  · refine (undisturbed_true.emitAdmin undisturbed_true (fun _ _ hP => hP)
      (fun m _ _ => ⟨by cases m <;> trivial, trivial⟩) (Maintains.pure _) cfg).conseq
      (fun _ _ hP => hP) (fun _ _ _ _ => trivial) fun _ _ hP => hP
  cases emitted with
  | leave => exact Maintains.pure _
  | again => exact Maintains.get fun _ =>
    (Maintains.pure _).ite (Maintains.pure _)

/-- Step lemma: one pass of the loop. -/
theorem livenessTurn_window :
    Maintains (window h delay) (fun _ _ => True) (livenessTurn cfg h) := by
  refine .get fun s => ?_
  refine Triple.bind (Q := fun _ _ _ => True) ((undisturbed_true.sleepUntil _).conseq
    (fun _ _ hP => hP) (fun _ _ _ _ => trivial) fun _ _ hP => hP) fun _ => ?_
  refine Maintains.get fun _ => (Maintains.pure _).ite ?_
  refine (heartbeatTurn_window cfg).bind fun beat => ?_
  cases beat with
  | leave => exact .pure _
  | again => exact .get fun _ =>
    (Maintains.pure _).ite (testRequestTurn_window cfg _)

/-- Run lemma: all passes of the loop. -/
theorem livenessLoop_window (fuel : ℕ) :
    Maintains (window h delay) (fun _ _ => True) (livenessLoop cfg h fuel) := by
  induction fuel with
  | zero => exact .pure ()
  | succ fuel ih =>
    refine .get fun _ => .ite ?_ (.pure ())
    refine (livenessTurn_window cfg).bind fun turn => ?_
    cases turn with
    | again => exact ih
    | leave => exact .pure ()

end Loop

theorem runLivenessLoop_window (cfg : SessionConfig) (interval : Option ℕ) (fuel delay : ℕ) :
    Maintains (window (heartBtInt interval) delay) (fun _ _ => True)
      (runLivenessLoop cfg interval fuel) := by
  unfold runLivenessLoop
  split
  · exact .pure ()
  · exact .catching (livenessLoop_window cfg fuel) fun _ => Maintains.pure ()

def livenessLog (cfg : SessionConfig) (interval : Option ℕ) (fuel : ℕ) (s : Liveness)
    (answers : List LiveAnswer) : List LiveEvent :=
  ((runLivenessLoop cfg interval fuel).runFrom s answers).2.2

/-- An Active session with a HeartBtInt of one second, nothing in or out since 0. -/
def silent : Liveness := { session := { fsm := .active } }

end Fixpp.Analysis.TestRequestWindow
