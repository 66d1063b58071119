import Fixpp.Model.AsyncMutex

/-!
# What an asynchronous mutex is for

A fair lock passes its one guard to those who asked for it, first come, first served, and
answers each of them once. `FairLock` is that lock as an observer of the events: it knows who
holds the guard, who waits in which order and how far each attempt is, and says which event may
come next. Once a drain has started it allows no further grant.
-/

namespace Fixpp.Interface

open Foundation Model List Monitor

inductive Stage
  | free
  | held (i : ℕ)
  /-- Given back, and on the way to a successor. -/
  | passing
  deriving DecidableEq, Repr

inductive Ticket
  | unused
  | calling
  | waiting
  | granted
  | aborted
  | completed
  deriving DecidableEq, Repr

/-- An attempt never goes back. -/
def Ticket.rank : Ticket → ℕ
  | .unused => 0
  | .calling => 1
  | .waiting => 2
  | .granted => 3
  | .aborted => 3
  | .completed => 4

/-- A lock that serves in the order of arrival. -/
structure FairLock where
  stage : Stage := .free
  /-- Who waits, the next one first. -/
  queue : List ℕ := []
  ticket : ℕ → Ticket := fun _ => .unused
  /-- The call that drains the lock. -/
  drainer : Option ℕ := none
  finished : Bool := false

namespace FairLock

variable (l : FairLock)

/-- The guard is with nobody, and every attempt that began was answered. -/
def Settled : Prop :=
  l.stage = .free ∧ l.queue = [] ∧ ∀ i, l.ticket i = .unused ∨ l.ticket i = .completed

def set (i : ℕ) (t : Ticket) : FairLock := { l with ticket := Function.update l.ticket i t }

/-- Which attempt may be answered in which way. -/
def Answers (i : ℕ) : LockResult → Prop
  | .guard => l.ticket i = .granted ∧ l.stage = .held i
  | .aborted => l.ticket i = .aborted
  | .drained => l.ticket i = .calling ∧ l.drainer ≠ none
  | .allocFailed => l.ticket i = .calling

def Allows : MutexEvent → Prop
  | .started i => l.ticket i = .unused
  | .queued i => l.ticket i = .calling ∧ l.stage ≠ .free
  | .granted i =>
    l.drainer = none ∧ (l.stage = .free ∧ l.queue = [] ∧ l.ticket i = .calling ∨
        l.stage = .passing ∧ l.queue.head? = some i ∧ l.ticket i = .waiting)
  | .cancelled i => l.ticket i = .waiting
  | .completed i r => l.Answers i r
  | .released i => l.stage = .held i ∧ l.ticket i = .completed
  | .freed _ => l.stage = .passing ∧ l.queue = []
  | .drainStarted _ => l.drainer = none
  | .drainReturned k => l.finished ∨ l.drainer = some k ∧ l.Settled

def next : MutexEvent → FairLock
  | .started i => l.set i .calling
  | .queued i => { l.set i .waiting with queue := l.queue ++ [i] }
  | .granted i => { l.set i .granted with stage := .held i, queue := l.queue.erase i }
  | .cancelled i => { l.set i .aborted with queue := l.queue.erase i }
  | .completed i _ => l.set i .completed
  | .released _ => { l with stage := .passing }
  | .freed _ => { l with stage := .free }
  | .drainStarted k => { l with drainer := some k }
  | .drainReturned _ => { l with finished := true }

end FairLock

/-- The lock as an observer. -/
def fairLock : Monitor MutexEvent FairLock where
  next := FairLock.next
  allows := FairLock.Allows

namespace FairLock

variable {l : FairLock} {log : List MutexEvent} {e : MutexEvent} {i k a b : ℕ} {t : Ticket}
    {first rest : List MutexEvent}

theorem rank_next (h : l.Allows e) (i : ℕ) : (l.ticket i).rank ≤ ((l.next e).ticket i).rank := by
  have hset : ∀ (j : ℕ) (t : Ticket), (l.ticket j).rank ≤ t.rank →
      (l.ticket i).rank ≤ ((l.set j t).ticket i).rank := by
    intro j t hle
    by_cases hij : i = j
    · subst hij
      simpa [set] using hle
    · simp [set, hij]
  cases e with
  | started j => exact hset j _ (by rw [show l.ticket j = .unused from h]; decide)
  | queued j => exact hset j _ (by rw [h.1]; decide)
  | granted j =>
    obtain ⟨-, ⟨-, -, hj⟩ | ⟨-, -, hj⟩⟩ := h <;> exact hset j _ (by rw [hj]; decide)
  | cancelled j => exact hset j _ (by rw [show l.ticket j = .waiting from h]; decide)
  | completed j r => exact hset j _ (by cases l.ticket j <;> decide)
  | _ => exact Nat.le_refl _

theorem rank_run (i : ℕ) (hacc : fairLock.Accepts l log) :
    (l.ticket i).rank ≤ ((fairLock.run l log).ticket i).rank := by
  refine run_preserves (M := fairLock)
    (I := fun m => (l.ticket i).rank ≤ (m.ticket i).rank) (A := fun _ => True) ?_ log l
    (Nat.le_refl _) hacc (fun _ _ => trivial)
  exact fun m e hm _ hallow => Nat.le_trans hm (rank_next hallow i)

/-- Who waits stands in the queue, once. -/
structure WellFormed (l : FairLock) : Prop where
  nodup : l.queue.Nodup
  mem_queue : ∀ i, i ∈ l.queue ↔ l.ticket i = .waiting

theorem WellFormed.init : WellFormed {} := ⟨by simp, by simp⟩

section

variable (h : l.WellFormed)
include h

/-- An attempt that does not wait is answered or starts: the queue stays. -/
theorem WellFormed.set (hi : l.ticket i ≠ .waiting) (ht : t ≠ .waiting) :
    (l.set i t).WellFormed := by
  refine ⟨h.nodup, fun j => (h.mem_queue j).trans ?_⟩
  by_cases hj : j = i
  · subst hj
    simp [FairLock.set, hi, ht]
  · simp [FairLock.set, hj]

theorem WellFormed.erase (ht : t ≠ .waiting) :
    WellFormed { l.set i t with queue := l.queue.erase i } := by
  refine ⟨h.nodup.erase i, fun j => ?_⟩
  by_cases hj : j = i
  · subst hj
    simp [FairLock.set, ht, h.nodup.mem_erase_iff]
  · simp [FairLock.set, hj, h.nodup.mem_erase_iff, h.mem_queue]

theorem WellFormed.next {e : MutexEvent} (hallow : l.Allows e) :
    (l.next e).WellFormed := by
  cases e with
  | started i => exact h.set (by rw [show l.ticket i = .unused from hallow]; decide) (by decide)
  | queued i =>
    have hi : i ∉ l.queue := by
      rw [h.mem_queue, hallow.1]
      decide
    have hnodup : (l.queue ++ [i]).Nodup := by
      refine nodup_append.mpr ⟨h.nodup, by simp, ?_⟩
      rintro a ha b hb rfl
      exact hi (mem_singleton.mp hb ▸ ha)
    refine ⟨hnodup, fun j => ?_⟩
    by_cases hj : j = i
    · subst hj
      simp [FairLock.next, FairLock.set]
    · simp [FairLock.next, FairLock.set, hj, h.mem_queue]
  | granted i =>
    have herase := h.erase (i := i) (t := .granted) (by decide)
    exact ⟨herase.nodup, herase.mem_queue⟩
  | cancelled i => exact h.erase (by decide)
  | completed i r =>
    refine h.set ?_ (by decide)
    cases r with
    | guard => rw [hallow.1]; decide
    | aborted => rw [show l.ticket i = .aborted from hallow]; decide
    | drained => rw [hallow.1]; decide
    | allocFailed => rw [show l.ticket i = .calling from hallow]; decide
  | _ => exact ⟨h.nodup, h.mem_queue⟩

theorem WellFormed.run (hacc : fairLock.Accepts l log) :
    (fairLock.run l log).WellFormed :=
  run_preserves (M := fairLock) (I := WellFormed) (A := fun _ => True)
    (fun _ _ hm _ hallow => hm.next hallow) log l h hacc (fun _ _ => trivial)

end

/-- Waiting attempts are taken out, one after the other. -/
theorem run_cancelled {ws : List ℕ} (hnodup : ws.Nodup) (hwaiting : ∀ w ∈ ws, l.ticket w = .waiting) :
    fairLock.Accepts l (ws.map .cancelled) ∧ fairLock.run l (ws.map .cancelled) =
        { l with queue := ws.foldl List.erase l.queue
                 ticket := fun i => if i ∈ ws then .aborted else l.ticket i } := by
  induction ws generalizing l with
  | nil => simp
  | cons w ws ih =>
    obtain ⟨hw, hnodup⟩ := nodup_cons.mp hnodup
    have hnext : ∀ v ∈ ws, (l.next (.cancelled w)).ticket v = .waiting := by
      intro v hv
      have hvw : v ≠ w := by
        rintro rfl
        exact hw hv
      simpa [next, set, hvw] using hwaiting v (by simp [hv])
    obtain ⟨hacc, hrun⟩ := ih hnodup hnext
    refine ⟨⟨hwaiting w (by simp), hacc⟩, ?_⟩
    refine hrun.trans ?_
    simp only [next, set, foldl_cons]
    congr 1
    funext i
    by_cases hi : i = w
    · subst hi
      simp [hw]
    · simp [hi]

theorem drainer_kept (hacc : fairLock.Accepts l log) (hk : l.drainer = some k) :
    (fairLock.run l log).drainer = some k := by
  refine run_preserves (M := fairLock) (I := fun m => m.drainer = some k)
    (A := fun _ => True) ?_ log l hk hacc fun _ _ => trivial
  intro m e hm _ hallow
  cases e with
  | drainStarted j => simp [fairLock, Allows, hm] at hallow
  | _ => exact hm

theorem drainer_none_of_run (h : (fairLock.run l log).drainer = none) : l.drainer = none := by
  induction log generalizing l with
  | nil => exact h
  | cons e rest ih =>
    have hnext := ih h
    cases e with
    | drainStarted k => cases hnext
    | _ => exact hnext

/-! ## Each attempt is answered once -/

def answers (i : ℕ) : MutexEvent → Bool
  | .completed j _ => i = j
  | _ => false

theorem countP_answers_le_one (i : ℕ) (hacc : fairLock.Accepts l log) :
    log.countP (answers i) ≤ 1 := by
  refine countP_le_one (fun m => m.ticket i = .completed) ?_ ?_ hacc
  · rintro m (_ | _ | _ | _ | ⟨j, r⟩ | _ | _ | _ | _) hallow hanswers <;>
      simp only [answers, decide_eq_true_eq, Bool.false_eq_true] at hanswers
    subst hanswers
    have hpending : m.ticket i ≠ .completed := by
      intro hdone
      cases r <;> simp [fairLock, Allows, Answers, hdone] at hallow
    exact ⟨hpending, by simp [fairLock, next, set]⟩
  · intro m e hallow hspent
    have hle := rank_next hallow i
    cases hticket : (m.next e).ticket i <;> simp_all [Ticket.rank, fairLock]

theorem started_of_ticket (hacc : fairLock.Accepts {} log)
    (hknown : (fairLock.run {} log).ticket i ≠ .unused) : .started i ∈ log := by
  by_contra hnever
  refine hknown (run_preserves (M := fairLock) (I := fun m => m.ticket i = .unused)
    (A := fun e => e ≠ .started i) ?_ log {} rfl hacc fun e he heq => hnever (heq ▸ he))
  intro m e hm hne hallow
  have hset : ∀ {j : ℕ} (t : Ticket), i ≠ j → (m.set j t).ticket i = .unused := by
    intro j t hij
    simpa [set, hij] using hm
  cases e with
  | started j => exact hset _ fun hij => hne (hij ▸ rfl)
  | queued j => exact hset _ fun hij => by simp [fairLock, Allows, ← hij, hm] at hallow
  | granted j => exact hset _ fun hij => by simp [fairLock, Allows, ← hij, hm] at hallow
  | cancelled j => exact hset _ fun hij => by simp [fairLock, Allows, ← hij, hm] at hallow
  | completed j r =>
    refine hset _ fun hij => ?_
    cases r <;> simp [fairLock, Allows, Answers, ← hij, hm] at hallow
  | _ => exact hm

theorem countP_answers_pos (hacc : fairLock.Accepts {} log)
    (hdone : (fairLock.run {} log).ticket i = .completed) : 0 < log.countP (answers i) := by
  rw [countP_pos_iff]
  by_contra hnever
  refine run_preserves (M := fairLock) (I := fun m => m.ticket i ≠ .completed)
    (A := fun e => ¬ answers i e) ?_ log {} (by simp) hacc
    (fun e he hans => hnever ⟨e, he, hans⟩) hdone
  intro m e hm hne _
  cases e with
  | completed j r =>
    have hj : i ≠ j := by simpa [answers] using hne
    simpa [fairLock, next, set, hj] using hm
  | _ =>
    simp only [fairLock, next, set]
    first
      | exact hm
      | (simp only [Function.update_apply]; split <;> simp_all)

/-- An attempt that is answered with an abort was taken out of the queue before. -/
theorem cancelled_of_aborted (hacc : fairLock.Accepts {} (first ++ .completed i .aborted :: rest)) :
    .cancelled i ∈ first := by
  obtain ⟨hfirst, haborted, -⟩ := (fairLock.accepts_append _ _ _).mp hacc
  by_contra hnever
  refine run_preserves (M := fairLock) (I := fun m => m.ticket i ≠ .aborted)
    (A := fun e => e ≠ .cancelled i) ?_ first {} (by simp) hfirst
    (fun e he heq => hnever (heq ▸ he)) haborted
  intro m e hm hne _
  cases e with
  | cancelled j =>
    have hj : i ≠ j := fun h => hne (h ▸ rfl)
    simpa [fairLock, next, set, hj] using hm
  | _ =>
    simp only [fairLock, next, set]
    first
      | exact hm
      | (simp only [Function.update_apply]; split <;> simp_all)

/-! ## First come, first served -/

/-- `b` does not stand before `a`, who waits. -/
def Ahead (a b : ℕ) (l : FairLock) : Prop :=
  l.WellFormed ∧ ∃ before after, l.queue = before ++ a :: after ∧ b ∉ before

theorem Ahead.next (h : Ahead a b l) {e : MutexEvent} (hallow : l.Allows e)
    (hgranted : e ≠ .granted a) (hcancelled : e ≠ .cancelled a) : Ahead a b (l.next e) := by
  obtain ⟨hwf, before, after, hqueue, hb⟩ := h
  refine ⟨hwf.next hallow, ?_⟩
  have herase : ∀ i, i ≠ a → ∃ before' after', l.queue.erase i = before' ++ a :: after' ∧
      b ∉ before' := by
    intro i hi
    rw [hqueue, erase_append]
    split
    · exact ⟨_, _, rfl, fun hmem => hb (mem_of_mem_erase hmem)⟩
    · exact ⟨before, after.erase i, by simp [hi.symm], hb⟩
  cases e with
  | queued i => exact ⟨before, after ++ [i], by simp [FairLock.next, hqueue], hb⟩
  | granted i => exact herase i fun h => hgranted (h ▸ rfl)
  | cancelled i => exact herase i fun h => hcancelled (h ▸ rfl)
  | _ => exact ⟨before, after, hqueue, hb⟩

/-- Who does not stand before a waiting attempt is not granted before it. -/
theorem Ahead.not_granted (h : Ahead a b l) (hab : a ≠ b) : ¬ l.Allows (.granted b) := by
  obtain ⟨-, before, after, hqueue, hb⟩ := h
  rintro ⟨-, ⟨-, hempty, -⟩ | ⟨-, hhead, -⟩⟩
  · simp [hqueue] at hempty
  cases before with
  | nil => simp [hqueue, hab] at hhead
  | cons x before => simp_all

/-- An event comes before another one. -/
def Precedes (log : List MutexEvent) (e f : MutexEvent) : Prop :=
  ∃ first mid rest, log = first ++ e :: (mid ++ f :: rest)

/-- A grant follows the start and the queueing of its attempt. -/
theorem granted_behind (he : e = .queued b ∨ e = .started b)
    (hacc : fairLock.Accepts {} (first ++ e :: rest)) (hgranted : .granted b ∈ first ++ e :: rest) :
    .granted b ∈ rest := by
  rcases mem_append.mp hgranted with hin | hin
  · obtain ⟨p, q, rfl⟩ := append_of_mem hin
    obtain ⟨hfirst, hallow, -⟩ := (fairLock.accepts_append _ _ _).mp hacc
    obtain ⟨-, -, hq⟩ := (fairLock.accepts_append _ _ _).mp hfirst
    have hle := rank_run b hq
    have hticket : ((fairLock.run {} p).next (.granted b)).ticket b = .granted := by
      simp [next, set]
    rw [fairLock.run_append, fairLock.run_cons] at hallow
    rw [show (fairLock.next (fairLock.run {} p) (.granted b)).ticket b = .granted from hticket] at hle
    obtain rfl | rfl := he
    · rw [show (fairLock.run (fairLock.next (fairLock.run {} p) (.granted b)) q).ticket b =
        .calling from hallow.1] at hle
      simp [Ticket.rank] at hle
    rw [show (fairLock.run (fairLock.next (fairLock.run {} p) (.granted b)) q).ticket b =
      .unused from hallow] at hle
    simp [Ticket.rank] at hle
  · rcases mem_cons.mp hin with heq | hin
    · obtain rfl | rfl := he <;> cases heq
    · exact hin

/-- First come, first served. Behind the queueing of `a`, when `b` was not queued yet,
no grant of `b` comes before `a` was granted or taken out. -/
theorem served_in_order {mid : List MutexEvent}
    (hacc : fairLock.Accepts {} (first ++ .queued a :: (mid ++ .granted b :: rest)))
    (hlater : .queued b ∈ mid ∨ .started b ∈ mid) : .granted a ∈ mid ∨ .cancelled a ∈ mid := by
  obtain ⟨hfirst, hqueued, htail⟩ := (fairLock.accepts_append _ _ _).mp hacc
  obtain ⟨hmid, hgranted, -⟩ := (fairLock.accepts_append _ _ _).mp htail
  have hwf := WellFormed.init.run hfirst
  generalize fairLock.run {} first = m at hqueued hmid hgranted hwf
  -- the attempt that comes later does not wait yet
  have hrank : ((m.next (.queued a)).ticket b).rank ≤ 1 := by
    obtain hlater | hlater := hlater <;> obtain ⟨p, q, rfl⟩ := append_of_mem hlater <;>
      obtain ⟨hp, hb, -⟩ := (fairLock.accepts_append _ _ _).mp hmid
    · have hle := rank_run b hp
      rw [show (fairLock.run (fairLock.next m (.queued a)) p).ticket b = .calling from hb.1] at hle
      exact hle
    have hle := rank_run b hp
    rw [show (fairLock.run (fairLock.next m (.queued a)) p).ticket b = .unused from hb] at hle
    exact Nat.le_trans hle (by decide)
  have hab : a ≠ b := by
    rintro rfl
    simp [next, set, Ticket.rank] at hrank
  have hnot : b ∉ m.queue := by
    rw [hwf.mem_queue]
    intro hwaiting
    simp [next, set, hab.symm, hwaiting, Ticket.rank] at hrank
  by_contra hneither
  rw [not_or] at hneither
  have hahead : Ahead a b (fairLock.run (fairLock.next m (.queued a)) mid) := by
    refine run_preserves (M := fairLock) (I := Ahead a b)
      (A := fun e => e ≠ .granted a ∧ e ≠ .cancelled a) ?_ mid _ ?_ hmid ?_
    · exact fun _ _ hm hA hallow => hm.next hallow hA.1 hA.2
    · have hallow : m.Allows (.queued a) := hqueued
      exact ⟨hwf.next hallow, m.queue, [], rfl, hnot⟩
    · exact fun e he => ⟨fun h => hneither.1 (h ▸ he), fun h => hneither.2 (h ▸ he)⟩
  exact hahead.not_granted hab hgranted

/-- Whoever queued before `b` started or queued is served before `b`, or taken out. -/
theorem precedes_granted (he : e = .queued b ∨ e = .started b) (hacc : fairLock.Accepts {} log)
    (hab : Precedes log (.queued a) e) (hgranted : .granted b ∈ log) :
    Precedes log (.granted a) (.granted b) ∨ Precedes log (.cancelled a) (.granted b) := by
  obtain ⟨first, mid, rest, rfl⟩ := hab
  have hlog : first ++ .queued a :: (mid ++ e :: rest) =
      (first ++ .queued a :: mid) ++ e :: rest := by simp
  obtain ⟨p, q, rfl⟩ : ∃ p q, rest = p ++ .granted b :: q :=
    append_of_mem (granted_behind he (hlog ▸ hacc) (hlog ▸ hgranted))
  have hshape : first ++ .queued a :: (mid ++ e :: (p ++ .granted b :: q)) =
      first ++ .queued a :: ((mid ++ e :: p) ++ .granted b :: q) := by simp
  have hplace : ∀ f ∈ mid ++ e :: p,
      Precedes (first ++ .queued a :: (mid ++ e :: (p ++ .granted b :: q))) f (.granted b) := by
    intro f hf
    obtain ⟨u, v, huv⟩ := append_of_mem hf
    exact ⟨first ++ .queued a :: u, v, q, by rw [hshape, huv]; simp⟩
  refine (served_in_order (hshape ▸ hacc) ?_).imp (hplace _) (hplace _)
  obtain rfl | rfl := he <;> simp

/-! ## Drains -/

theorem drainer_of_started (hacc : fairLock.Accepts l log) (hstarted : .drainStarted k ∈ log) :
    (fairLock.run l log).drainer = some k := by
  obtain ⟨p, q, rfl⟩ := append_of_mem hstarted
  obtain ⟨-, -, hq⟩ := (fairLock.accepts_append _ _ _).mp hacc
  rw [fairLock.run_append, fairLock.run_cons]
  exact drainer_kept hq rfl

theorem not_granted_of_drain (i : ℕ)
    (hacc : fairLock.Accepts l (first ++ .drainStarted k :: rest)) : .granted i ∉ rest := by
  intro hgranted
  obtain ⟨p, q, rfl⟩ := append_of_mem hgranted
  obtain ⟨-, -, hrest⟩ := (fairLock.accepts_append _ _ _).mp hacc
  obtain ⟨hp, hallow, -⟩ := (fairLock.accepts_append _ _ _).mp hrest
  have hk := drainer_kept (k := k) hp rfl
  rw [hallow.1] at hk
  cases hk

theorem returned_of_finished (hacc : fairLock.Accepts {} log)
    (hfinished : (fairLock.run {} log).finished = true) :
    ∃ k, (fairLock.run {} log).drainer = some k ∧ .drainReturned k ∈ log := by
  induction log using reverseRecOn with
  | nil => cases hfinished
  | append_singleton log e ih =>
    obtain ⟨hlog, hallow, -⟩ := (fairLock.accepts_append _ _ _).mp hacc
    have hbefore : (fairLock.run {} log).finished = true →
        ∃ k, (fairLock.run {} (log ++ [e])).drainer = some k ∧ .drainReturned k ∈ log ++ [e] := by
      intro hdone
      obtain ⟨k, hk, hin⟩ := ih hlog hdone
      refine ⟨k, ?_, mem_append_left _ hin⟩
      rw [fairLock.run_append]
      exact drainer_kept ⟨hallow, trivial⟩ hk
    rw [fairLock.run_append] at hfinished
    cases e with
    | drainReturned j =>
      obtain hdone | ⟨hj, -⟩ := hallow
      · exact hbefore hdone
      refine ⟨j, ?_, by simp⟩
      rw [fairLock.run_append]
      exact hj
    | _ => exact hbefore hfinished

theorem returned_behind_drainer {j : ℕ}
    (hacc : fairLock.Accepts {} (first ++ .drainReturned j :: rest))
    (hstarted : .drainStarted k ∈ first ++ .drainReturned j :: rest) (hne : j ≠ k) :
    .drainReturned k ∈ first := by
  have hk := drainer_of_started hacc hstarted
  obtain ⟨hfirst, hallow, hrest⟩ := (fairLock.accepts_append _ _ _).mp hacc
  have htail : fairLock.Accepts (fairLock.run {} first) (.drainReturned j :: rest) :=
    ⟨hallow, hrest⟩
  have hkept : ∀ i, (fairLock.run {} first).drainer = some i → i = k := by
    intro i hi
    have hi' := drainer_kept htail hi
    rw [← fairLock.run_append, hk] at hi'
    simpa using hi'.symm
  obtain hdone | ⟨hj, -⟩ := hallow
  · obtain ⟨i, hi, hin⟩ := returned_of_finished hfirst hdone
    rwa [hkept i hi] at hin
  · exact absurd (hkept j hj) hne

end FairLock

end Fixpp.Interface
