import Fixpp.Model.SystemClock

/-!
# Why a sleep ends

A sleep ends at its deadline or because it was cancelled, unless its session starts it while a
`cancel()` for an earlier sleep is still posted to their timer.
-/

namespace Fixpp.Analysis.ClockSleeps

open Model SystemClock

variable {w : SystemClock} {sl : Sleep}

def endsForOwnReason (now : ℕ) (sl : Sleep) : Bool :=
  match sl.phase.outcome with
  | none => true
  | some false => sl.deadline ≤ now
  | some true => sl.awaiterCancelled || sl.cancelCalled

theorem reason_mono {now now' : ℕ} {a c : Bool} (h : endsForOwnReason now sl = true)
    (hnow : now ≤ now') (ha : sl.awaiterCancelled ≤ a) (hc : sl.cancelCalled ≤ c) :
    endsForOwnReason now' { sl with awaiterCancelled := a, cancelCalled := c } = true := by
  unfold endsForOwnReason at h ⊢
  dsimp only
  split at h
  · rfl
  · exact decide_eq_true (Nat.le_trans (of_decide_eq_true h) hnow)
  rcases Bool.or_eq_true_iff.mp h with h | h
  · exact Bool.or_eq_true_iff.mpr (.inl (ha h))
  · exact Bool.or_eq_true_iff.mpr (.inr (hc h))

/-- What holds of every sleep: the timer of a pending one has its deadline, and a `cancel()`
posted to it was posted since the sleep started. -/
structure Sound (w : SystemClock) (sl : Sleep) : Prop where
  reason : endsForOwnReason w.now sl = true
  used : sl.timer.1 = none → sl.timer.2 < w.slots none
  expiry : sl.phase.outcome = none → w.expiry sl.timer = sl.deadline
  posted : sl.phase.outcome = none → sl.timer ∈ w.posted → sl.cancelCalled = true

theorem Sound.frame (h : Sound w sl) (sleeps : List Sleep) : Sound { w with sleeps } sl :=
  ⟨h.reason, h.used, h.expiry, h.posted⟩

theorem Sound.endWait {aborted : Bool} (h : Sound w sl) (hreason : sl.phase = .waiting →
      endsForOwnReason w.now { sl with phase := .ended aborted } = true) :
    Sound w (sl.endWait aborted) := by
  unfold Sleep.endWait
  split
  next hphase => exact ⟨hreason hphase, h.used, nofun, nofun⟩
  · exact h

theorem Sound.advance (h : Sound w sl) : Sound w sl.advance := by
  obtain ⟨id, timer, deadline, phase, awaiterCancelled, cancelCalled⟩ := sl
  cases phase with
  | registered =>
    cases awaiterCancelled with
    | false => exact ⟨rfl, h.used, h.expiry, h.posted⟩
    | true => exact ⟨rfl, h.used, nofun, nofun⟩
  | _ => exact ⟨h.reason, h.used, h.expiry, h.posted⟩

/-- A sleep starts while a `cancel()` is posted to its timer. -/
def hurries (w : SystemClock) : ClockAct → Bool
  | .sleepUntil session _ => (session, w.slots session) ∈ w.posted
  | _ => false

/-- A sleep starts on a timer that no pending one uses: the engine's is new, a session's idle. -/
theorem sound_sleepUntil (h : ∀ sl ∈ w.sleeps, Sound w sl) (session : Option ℕ) (deadline : ℕ)
    (hact : hurries w (.sleepUntil session deadline) = false) :
    ∀ sl ∈ (w.sleepUntil session deadline).sleeps, Sound (w.sleepUntil session deadline) sl := by
  unfold SystemClock.sleepUntil
  split
  · exact h
  next hidle =>
  have hover : ∀ sl ∈ w.sleeps, sl.timer = (session, w.slots session) →
      sl.phase.outcome ≠ none := by
    intro sl hsl htimer hout
    cases session with
    | none =>
      have hused := (h sl hsl).used (by rw [htimer])
      rw [htimer] at hused
      exact Nat.lt_irrefl _ hused
    | some s =>
      refine hidle ⟨rfl, List.any_eq_true.mpr ⟨sl, hsl, ?_⟩⟩
      rw [htimer]
      cases hphase : sl.phase <;> simp_all [SleepPhase.outcome, SleepPhase.inflight]
  intro sl hsl
  rcases List.mem_append.mp hsl with hsl | hsl
  · obtain ⟨sl, hmem, rfl⟩ := List.mem_map.mp hsl
    have hsound := h sl hmem
    have hkept : sl.cancelTimer (session, w.slots session) = sl := by
      rw [Sleep.cancelTimer, ite_eq_right_iff]
      intro htimer
      apply if_neg
      intro hphase
      exact hover sl hmem htimer (by rw [hphase]; rfl)
    rw [hkept]
    refine ⟨hsound.reason, fun hnone => Nat.lt_succ_of_lt (hsound.used hnone), ?_, hsound.posted⟩
    intro hout
    have htimer : sl.timer ≠ (session, w.slots session) := fun htimer => hover sl hmem htimer hout
    exact (Function.update_of_ne htimer ..).trans (hsound.expiry hout)
  · rw [List.mem_singleton.mp hsl]
    refine ⟨rfl, ?_, fun _ => Function.update_self .., ?_⟩
    · rintro rfl
      exact Nat.lt_succ_self _
    intro _ hmem
    simp [hurries, hmem] at hact

theorem sound_step (h : ∀ sl ∈ w.sleeps, Sound w sl) (act : ClockAct)
    (hact : hurries w act = false) : ∀ sl ∈ (w.step act).sleeps, Sound (w.step act) sl := by
  cases act with
  | elapse ns =>
    intro sl hsl
    have hsound := h sl hsl
    exact ⟨reason_mono hsound.reason (Nat.le_add_right ..) id id, hsound.used, hsound.expiry,
      hsound.posted⟩
  | sleepUntil session deadline => exact sound_sleepUntil h session deadline hact
  | advance id =>
    simp only [SystemClock.step, List.forall_mem_map]
    intro sl hsl
    split
    · exact (h sl hsl).advance.frame _
    · exact (h sl hsl).frame _
  | expire id =>
    simp only [SystemClock.step, List.forall_mem_map]
    intro sl hsl
    split
    next hdue =>
      apply ((h sl hsl).endWait _).frame
      intro hphase
      rw [(h sl hsl).expiry (by rw [hphase]; rfl)] at hdue
      exact decide_eq_true hdue.2
    · exact (h sl hsl).frame _
  | cancelAwaiter i =>
    simp only [SystemClock.step, List.forall_mem_map]
    intro sl hsl
    have hsound := h sl hsl
    split
    · have hreason := reason_mono hsound.reason (Nat.le_refl _) (fun _ => rfl) id
      apply (Sound.endWait ⟨hreason, hsound.used, hsound.expiry, hsound.posted⟩ _).frame
      intro _
      rfl
    · exact hsound.frame _
  | cancelSleeps =>
    simp only [SystemClock.step, List.forall_mem_map]
    intro sl hsl
    have hsound := h sl hsl
    exact ⟨reason_mono hsound.reason (Nat.le_refl _) id fun _ => rfl, hsound.used, hsound.expiry,
      fun _ _ => rfl⟩
  | runPosted timer =>
    rw [SystemClock.step]
    split
    next hposted =>
      simp only [List.forall_mem_map]
      intro sl hsl
      have hsound : Sound w (sl.cancelTimer timer) := by
        unfold Sleep.cancelTimer
        split
        next htimer =>
          apply (h sl hsl).endWait
          intro hphase
          have hcalled := (h sl hsl).posted (by rw [hphase]; rfl) (htimer ▸ hposted)
          exact Bool.or_eq_true_iff.mpr (.inr hcalled)
        · exact h sl hsl
      exact ⟨hsound.reason, hsound.used, hsound.expiry,
        fun hout hmem => hsound.posted hout (List.mem_of_mem_erase hmem)⟩
    · exact h
  | forgetSession s =>
    intro sl hsl
    have hsound := h sl hsl
    exact ⟨hsound.reason, hsound.used, hsound.expiry, hsound.posted⟩

def unhurried : SystemClock → List ClockAct → Bool
  | _, [] => true
  | w, act :: acts => !hurries w act && unhurried (w.step act) acts

/-- In every interleaving in which no sleep starts while a `cancel()` is posted to its timer,
sleeps end for their own reason. -/
theorem sleep_ends_for_own_reason (acts : List ClockAct) (h : unhurried {} acts = true) :
    let w := SystemClock.run {} acts
    ∀ sl ∈ w.sleeps, endsForOwnReason w.now sl = true := by
  have hrun : ∀ w : SystemClock, (∀ sl ∈ w.sleeps, Sound w sl) → unhurried w acts = true →
      ∀ sl ∈ (w.run acts).sleeps, Sound (w.run acts) sl := by
    clear h
    induction acts with
    | nil => exact fun _ hw _ => hw
    | cons act acts ih =>
      intro w hw hacts
      rw [unhurried, Bool.and_eq_true, Bool.not_eq_true'] at hacts
      exact ih (w.step act) (sound_step hw act hacts.1) hacts.2
  intro w sl hsl
  exact (hrun {} nofun h sl hsl).reason

/-- Session 0 sleeps again once the cancellation of its sleep to 5 has run. -/
def cancelledThenAgain : List ClockAct :=
  [.sleepUntil (some 0) 5, .advance 0, .advance 0, .cancelSleeps, .runPosted (some 0, 0),
    .advance 0, .sleepUntil (some 0) 9, .advance 1, .advance 1]

theorem sleep_ends_for_own_reason_again :
    unhurried {} cancelledThenAgain = true ∧
      ∀ sl ∈ (SystemClock.run {} cancelledThenAgain).sleeps,
        endsForOwnReason (SystemClock.run {} cancelledThenAgain).now sl = true :=
  ⟨by decide, sleep_ends_for_own_reason _ (by decide)⟩

/-- The sleep to 5 ends before the `cancel()` posted for it runs, which aborts the next one. -/
theorem later_sleep_aborted :
    let w := SystemClock.run {} [.sleepUntil (some 0) 5, .advance 0, .advance 0, .cancelSleeps,
      .elapse 5, .expire 0, .advance 0, .sleepUntil (some 0) 9, .advance 1, .advance 1,
      .runPosted (some 0, 0)]
    ¬ ∀ sl ∈ w.sleeps, endsForOwnReason w.now sl = true := by
  decide

end Fixpp.Analysis.ClockSleeps
