import Fixpp.Analysis.MutexSteps

/-!
# Exclusion, single completion and order of the asynchronous mutex

Every run of lock attempts, unlocks and cancellations, in any interleaving of their atomic steps,
is a run of the fair lock. So there is one guard at most, every attempt is answered once, and the
guard goes to the waiters in the order of their arrival.
-/

namespace Fixpp.Analysis.Mutex

open Foundation Model Interface MutexSystem FairLock

variable {s : MutexSystem} {owner : Option ℕ} {l : FairLock}
variable {i : ℕ} {log : List MutexEvent}

theorem Sim.init : Sim {} {} none where
  token i := by simp [Token]
  nodup := by simp [line, LockWord.waiters]
  unlisted i _ := by simp [line, LockWord.waiters]
  standing i hi := by simp [line, LockWord.waiters] at hi
  waits i hi := by simp at hi
  handed o w ho := by simp at ho
  taken o ho := by simp at ho
  free _ := rfl
  word _ := by simp
  sane i := trivial
  holders := rfl
  late hd := by simp at hd
  stage := rfl
  queue := by simp [line, LockWord.waiters]
  ticket i := rfl
  drainer := by simp
  finished := rfl

def Undrained (actions : List MutexAction) : Prop := ∀ a ∈ actions, ∀ k, a ≠ .drain k

theorem follows_run (address : ℕ → ℕ) {actions : List MutexAction} (h : Undrained actions) :
    let out := runSteps (step address) {} actions
    fairLock.Accepts {} out.2 ∧
      (∃ owner, Sim (fairLock.run {} out.2) out.1 owner) ∧ out.1.draining = false := by
  refine accepts_runSteps fairLock (I := fun l s => (∃ owner, Sim l s owner) ∧ s.draining = false)
    (A := fun a => ∀ k, a ≠ MutexAction.drain k) ?_ actions {} {} ⟨⟨none, .init⟩, rfl⟩ h
  rintro l s a ⟨⟨owner, hsim⟩, hdraining⟩ ha
  obtain ⟨hacc, hnext⟩ := hsim.step address ha
  exact ⟨hacc, hnext, (sameDrains_step address ha).1.trans hdraining⟩

/-- An attempt that was granted and has not begun to unlock. -/
def Owns (s : MutexSystem) (i : ℕ) : Prop :=
  (Token (s.point i) ∧ ∀ p, s.point i ≠ .unlocking p) ∨ s.point i = .queued ∧ s.phase i = .granted

/-- A waiter in one of the lists that was neither granted nor cancelled. -/
def Waiting (s : MutexSystem) (i : ℕ) : Prop := s.point i = .queued ∧ s.phase i = .queued

/-- No call and no unlock is under way, no resumption is posted and nobody holds the
guard. -/
def AtRest (s : MutexSystem) : Prop :=
  ∀ i, s.point i = .idle ∨ s.point i = .queued ∨ s.point i = .done

theorem Sim.stage_of_owns (h : Sim l s owner) (howns : Owns s i) : l.stage = .held i := by
  obtain ⟨htoken, hnot⟩ | ⟨hqueued, hgranted⟩ := howns
  · obtain rfl := (h.token i).mp htoken
    rw [h.stage]
    cases hpoint : s.point i with
    | unlocking p => exact absurd hpoint (hnot p)
    | _ => simp [stageOf, stageAt, handing, hpoint]
  · obtain ⟨hp, -⟩ | ⟨-, o, rfl, hw⟩ := h.waits i hqueued
    · simp [hgranted] at hp
    · simp [h.stage, stageOf, stageAt, hw]

theorem Sim.owner_of_queued (h : Sim l s owner) (hqueued : s.point i = .queued) :
    s.word ≠ .notLocked ∧ ∃ o, Token (s.point o) := by
  have hd := h.not_draining (i := i) (by simp [hqueued, Late])
  have howner : owner ≠ none := by
    rintro rfl
    obtain ⟨-, hin⟩ | ⟨-, o, ho, -⟩ := h.waits i hqueued
    · simp [line_none s (h.free rfl) ((h.word hd).mp rfl)] at hin
    · cases ho
  obtain ⟨o, rfl⟩ := Option.ne_none_iff_exists'.mp howner
  exact ⟨h.word_locked, o, (h.token o).mpr rfl⟩

theorem ticket_ne_unused (hacc : fairLock.Accepts {} log) (hstarted : .started i ∈ log) :
    (fairLock.run {} log).ticket i ≠ .unused := by
  obtain ⟨p, q, rfl⟩ := List.append_of_mem hstarted
  obtain ⟨-, -, hq⟩ := (fairLock.accepts_append _ _ _).mp hacc
  have hle := FairLock.rank_run i hq
  intro hunused
  rw [fairLock.run_append, fairLock.run_cons] at hunused
  rw [hunused] at hle
  simp [fairLock, FairLock.next, FairLock.set, Ticket.rank] at hle

theorem Sim.idle_of_not_started (h : Sim (fairLock.run {} log) s owner)
    (hacc : fairLock.Accepts {} log) (hnever : .started i ∉ log) : s.point i = .idle := by
  have hunused : (fairLock.run {} log).ticket i = .unused :=
    by_contra fun hknown => hnever (started_of_ticket hacc hknown)
  rw [h.ticket] at hunused
  revert hunused
  fun_cases ticketOf (s.point i) (s.phase i) <;> simp [*]

/-- Exclusion and single completion. In every run of lock attempts, unlocks and cancellations there
is one guard at most; every attempt is answered once at most, with an abort only if it was
cancelled; a free mutex has no waiter; and at rest every attempt that began was answered. -/
theorem one_guard_one_answer (address : ℕ → ℕ) {actions : List MutexAction}
    (hundrained : Undrained actions) :
    let out := runSteps (step address) {} actions
    (∀ i j, Owns out.1 i → Owns out.1 j → i = j) ∧
    (∀ i, out.2.countP (answers i) ≤ 1) ∧
    (∀ first rest i r, out.2 = first ++ .completed i r :: rest →
      r = .guard ∨ r = .aborted ∧ .cancelled i ∈ first ∨ r = .allocFailed) ∧
    (out.1.word = .notLocked → ∀ i, ¬ Waiting out.1 i) ∧
    (AtRest out.1 → ∀ i, .started i ∈ out.2 → out.2.countP (answers i) = 1) := by
  obtain ⟨hacc, ⟨owner, hsim⟩, hdraining⟩ := follows_run address hundrained
  generalize runSteps (step address) {} actions = out at hacc hsim hdraining
  have honce : ∀ i, out.2.countP (answers i) ≤ 1 := fun i =>
    countP_answers_le_one i hacc
  refine ⟨fun i j hi hj => ?_, honce, fun first rest i r hlog => ?_, fun hfree i hi => ?_,
    fun hrest i hi => ?_⟩
  · have hstage := (hsim.stage_of_owns hi).symm.trans (hsim.stage_of_owns hj)
    simpa using hstage
  · have hdrainer := hsim.drainer_none hdraining
    rw [hlog] at hacc hdrainer
    cases r with
    | guard => exact .inl rfl
    | aborted => exact .inr (.inl ⟨rfl, cancelled_of_aborted hacc⟩)
    | allocFailed => exact .inr (.inr rfl)
    | drained =>
      rw [fairLock.run_append] at hdrainer
      exact absurd (drainer_none_of_run hdrainer)
        ((fairLock.accepts_append _ _ _).mp hacc).2.1.2
  · exact (hsim.owner_of_queued hi.1).1 hfree
  refine Nat.le_antisymm (honce i) (countP_answers_pos hacc ?_)
  have hstarted := ticket_ne_unused hacc hi
  rw [hsim.ticket] at hstarted ⊢
  obtain hpoint | hpoint | hpoint := hrest i
  · simp [hpoint, ticketOf] at hstarted
  · obtain ⟨-, o, ho⟩ := hsim.owner_of_queued hpoint
    obtain h | h | h := hrest o <;> simp [h, Token] at ho
  · simp [hpoint, ticketOf]

/-- Two attempts queue behind the first one and one of them is cancelled. -/
def contended : List MutexAction :=
  [MutexAction.call 0, .advance 0 true, .advance 0 true, .advance 0 true] ++
    [1, 2, 3].flatMap (fun i => MutexAction.call i :: List.replicate 7 (.advance i true)) ++
    [MutexAction.cancel 2, .advance 2 true, .run 2, .endRun 2, .unlock 0] ++
    List.replicate 12 (MutexAction.advance 0 true) ++ [MutexAction.run 1, .endRun 1, .unlock 1] ++
    List.replicate 12 (MutexAction.advance 1 true) ++ [MutexAction.run 3, .endRun 3, .unlock 3] ++
    List.replicate 12 (MutexAction.advance 3 true)

theorem undrained_contended : Undrained contended := by
  simp [Undrained, contended]

theorem log_contended : (runSteps (step id) {} contended).2 =
    [.started 0, .granted 0, .completed 0 .guard, .started 1, .queued 1, .started 2, .queued 2,
      .started 3, .queued 3, .cancelled 2, .completed 2 .aborted, .released 0, .granted 1,
      .completed 1 .guard, .released 1, .granted 3, .completed 3 .guard, .released 3, .freed 3] := by
  decide +kernel

theorem atRest_contended : AtRest (runSteps (step id) {} contended).1 := by
  intro i
  obtain ⟨hacc, ⟨owner, hsim⟩, -⟩ := follows_run id undrained_contended
  by_cases hi : i ∈ [0, 1, 2, 3]
  · revert i
    decide +kernel
  refine .inl (hsim.idle_of_not_started hacc ?_)
  simpa [log_contended] using hi

theorem one_guard_one_answer_contended :
    let out := runSteps (step id) {} contended
    AtRest out.1 ∧ .started 2 ∈ out.2 ∧ out.2.countP (answers 2) = 1 ∧
      out.2.countP (answers 3) = 1 :=
  have hstarted : ∀ i ∈ [2, 3],
      .started i ∈ (runSteps (step id) {} contended).2 := by simp [log_contended]
  have hanswered := (one_guard_one_answer id undrained_contended).2.2.2.2 atRest_contended
  ⟨atRest_contended, hstarted 2 (by simp), hanswered 2 (hstarted 2 (by simp)),
    hanswered 3 (hstarted 3 (by simp))⟩

/-- First come, first served. When `a` queues before `b` and is not cancelled, `b` is granted behind
`a`; and a `b` that starts behind the queueing of `a` is granted only behind `a`, unless `a` is
cancelled before. -/
theorem granted_in_order_of_arrival (address : ℕ → ℕ) {actions : List MutexAction}
    (hundrained : Undrained actions) :
    let log := (runSteps (step address) {} actions).2
    (∀ a b, FairLock.Precedes log (.queued a) (.queued b) → .cancelled a ∉ log →
      .granted b ∈ log → FairLock.Precedes log (.granted a) (.granted b)) ∧
    (∀ a b, FairLock.Precedes log (.queued a) (.started b) → .granted b ∈ log →
      FairLock.Precedes log (.granted a) (.granted b) ∨
        FairLock.Precedes log (.cancelled a) (.granted b)) := by
  obtain ⟨hacc, -⟩ := follows_run address hundrained
  generalize (runSteps (step address) {} actions).2 = log at hacc
  refine ⟨fun a b hab hcancel hb => ?_, fun a b hab hb =>
    precedes_granted (.inr rfl) hacc hab hb⟩
  refine (precedes_granted (.inl rfl) hacc hab hb).resolve_right ?_
  rintro ⟨first, mid, rest, rfl⟩
  simp at hcancel

theorem granted_in_order_of_arrival_contended :
    let log := (runSteps (step id) {} contended).2
    FairLock.Precedes log (.queued 1) (.queued 3) ∧
      FairLock.Precedes log (.granted 1) (.granted 3) :=
  have hqueued : FairLock.Precedes (runSteps (step id) {} contended).2
      (.queued 1) (.queued 3) := by
    exact ⟨[_, _, _, _], [_, _, _], _, rfl⟩
  ⟨hqueued, (granted_in_order_of_arrival id undrained_contended).1 1 3 hqueued
    (by simp [log_contended]) (by simp [log_contended])⟩

end Fixpp.Analysis.Mutex
