import Fixpp.Analysis.MutexInvariant

/-!
# Every step follows the fair lock

One step of the mutex is a step of the fair lock or none. A drain goes on only when no attempt
is in the middle of a call, as on one strand; everything else may interleave.
-/

namespace Fixpp.Analysis.Mutex

open Foundation Model Interface MutexSystem

variable {s : MutexSystem} {owner : Option ℕ} {l : FairLock}

/-- An attempt, an unlock or a cancellation in the middle of its steps. -/
def Busy : LockPoint → Prop
  | .idle => False
  | .queued => False
  | .posted _ => False
  | .holding => False
  | .done => False
  | _ => True

variable {i o : ℕ} {q : LockPoint} {p : UnlockPoint}

theorem aside_move (t : MutexSystem)
    (ht : t = { s with inFlight := t.inFlight, resumers := t.resumers })
    (hbefore : ¬ Token (s.point i) ∧ s.point i ≠ .queued) (hafter : ¬ Token q ∧ q ≠ .queued)
    (hunlisted : Unlisted q → Unlisted (s.point i)) (hsane : Sane s.draining q)
    (hlate : s.draining = true → Late q) :
    Aside s (t.move i q) i where
  word := by rw [ht]; rfl
  residual := by rw [ht]; rfl
  draining := by rw [ht]; rfl
  complete := by rw [ht]; rfl
  holders := by rw [ht]; rfl
  point _ hj := by rw [point_move_of_ne _ hj, ht]
  phase _ _ := by rw [ht]; rfl
  before := hbefore
  after := by simpa using hafter
  unlisted hq := ⟨hunlisted (by simpa using hq), by rw [ht]; rfl⟩
  kept := .inl (by rw [ht]; rfl)
  sane := by simpa using hsane
  late := by simpa using hlate

theorem aside_settle (p : WaiterPhase) (hbefore : ¬ Token (s.point i) ∧ s.point i ≠ .queued)
    (hunlisted : Unlisted (s.point i)) (hafter : ¬ Token q ∧ q ≠ .queued ∧ ¬ Unlisted q)
    (hsane : Sane s.draining q) (hlate : s.draining = true → Late q) :
    Aside s ((s.setPhase i p).move i q) i where
  word := rfl
  residual := rfl
  draining := rfl
  complete := rfl
  holders := rfl
  point _ hj := point_move_of_ne _ hj
  phase _ hj := by simp [move, setPhase, hj]
  before := hbefore
  after := by simpa using ⟨hafter.1, hafter.2.1⟩
  unlisted := by simp [hafter.2.2]
  kept := .inr hunlisted
  sane := by simpa using hsane
  late := by simpa using hlate

theorem onward_move (t : MutexSystem)
    (ht : t = { s with word := t.word, residual := t.residual, activeHolders := t.activeHolders,
                       inFlight := t.inFlight, resumers := t.resumers }) (htoken : Token q)
    (hhanding : handing q = handing (s.point o)) (hline : ∃ dropped, line s (some o) =
        dropped ++ (chainOf q ++ (t.residual ++ t.word.waiters.reverse)) ∧
      ∀ w ∈ dropped, s.phase w = .cancelled) (hunlisted : Unlisted q → Unlisted (s.point o))
    (htaken : Taken q → t.residual = []) (hword : t.word ≠ .notLocked) (hsane : Sane s.draining q)
    (hholders : t.activeHolders = countOf q)
    (hlate : s.draining = true → Late q ∧ t.residual = [] ∧ t.word = .locked []) :
    Onward s (t.move o q) o where
  phase _ _ := by rw [ht]; rfl
  kept := .inl (by rw [ht]; rfl)
  unlisted hq := ⟨hunlisted (by simpa using hq), by rw [ht]; rfl⟩
  draining := by rw [ht]; rfl
  complete := by rw [ht]; rfl
  point j hj := by rw [point_move_of_ne _ hj, ht]
  token := by simpa using htoken
  handing := by simpa using hhanding
  line := by simpa [line, move] using hline
  taken := by simpa [move] using htaken
  word := hword
  sane := by simpa using hsane
  holders := by simpa [move] using hholders
  late := by simpa [move] using hlate

theorem Sim.word_locked (h : Sim l s (some o)) : s.word ≠ .notLocked := by
  cases hd : s.draining with
  | false => exact fun hword => absurd ((h.word hd).mpr hword) (by simp)
  | true => simp [(h.late hd).2.2.2 (by simp)]

theorem Sim.head_not_granted {w : ℕ} (h : Sim l s (some o)) (hw : w ∈ chainOf (s.point o)) :
    s.phase w ≠ .granted := by
  have hin : w ∈ line s (some o) := List.mem_append_left _ hw
  obtain ⟨-, hp⟩ | hp := h.standing w hin <;> simp [hp]

/-- A step of an unlock that shows nothing: the line stays, or loses cancelled waiters
at its front. -/
theorem Sim.unlock_move (h : Sim l s (some o)) (hpoint : s.point o = .unlocking p)
    (t : MutexSystem) (q : UnlockPoint)
    (ht : t = { s with word := t.word, residual := t.residual, activeHolders := t.activeHolders })
    (hhanding : handing (.unlocking q) = handing (.unlocking p))
    (hline : ∃ dropped, chainOf (.unlocking p) ++ (s.residual ++ s.word.waiters.reverse) =
        dropped ++ (chainOf (.unlocking q) ++ (t.residual ++ t.word.waiters.reverse)) ∧
      ∀ w ∈ dropped, s.phase w = .cancelled) (htaken : Taken (.unlocking q) → t.residual = [])
    (hword : t.word ≠ .notLocked) (hsane : Sane s.draining (.unlocking q))
    (hholders : s.activeHolders = countOf (.unlocking p) → t.activeHolders = countOf (.unlocking q))
    (hlate : s.draining = true → Late (.unlocking q) ∧ t.residual = [] ∧ t.word = .locked []) :
    Follows l (t.move o (.unlocking q), []) := by
  have hcount : s.activeHolders = countOf (.unlocking p) := hpoint ▸ h.holders
  have hmoved : Onward s (t.move o (.unlocking q)) o := by
    refine onward_move t (by rw [ht]) trivial (by rw [hpoint]; exact hhanding) ?_
      (fun hq => absurd hq (by simp [Unlisted, Fresh])) htaken hword hsane (hholders hcount) hlate
    simpa [line, hpoint] using hline
  refine h.onward_silent hmoved ?_ ?_
  · simp [hpoint, ticketOf]
  · simp [stageAt, hhanding, hpoint]

attribute [local simp] Token countOf ticketOf Unlisted Fresh chainOf Late Taken stageAt handing
  Sane stageOf move setPhase

theorem Sim.unlock_drop {w : ℕ} {source : ChainSource} {rest : List ℕ} (h : Sim l s (some o))
    (hpoint : s.point o = .unlocking p)
    (hp : p = .walk source (w :: rest) ∨ p = .tryGrant source w rest)
    (hcancelled : s.phase w = .cancelled) :
    Follows l (s.move o (.unlocking (.walk source rest)), []) := by
  have hd := h.not_draining (i := o) (by obtain rfl | rfl := hp <;> simp [hpoint])
  have hresidual := h.taken o rfl (by obtain rfl | rfl := hp <;> simp [hpoint])
  refine h.unlock_move hpoint s _ rfl ?_ ⟨[w], ?_, by simp [hcancelled]⟩ (fun _ => hresidual)
    h.word_locked trivial ?_ (by simp [hd])
  · obtain rfl | rfl := hp <;> rfl
  · obtain rfl | rfl := hp <;> simp
  · obtain rfl | rfl := hp <;> simp

theorem Sim.unlockStep (h : Sim l s (some o)) (hpoint : s.point o = .unlocking p) :
    Follows l (s.unlockStep o p) := by
  have hword := h.word_locked
  have hlate : s.draining = true → s.residual = [] ∧ s.word = .locked [] := fun hd =>
    ⟨(h.late hd).2.1, (h.late hd).2.2.2 (by simp)⟩
  have hresidual : Taken (.unlocking p) → s.residual = [] := fun ht =>
    h.taken o rfl (hpoint ▸ ht)
  have hearly : ¬ Late (.unlocking p) → s.draining = false := fun hp =>
    h.not_draining (i := o) (hpoint ▸ hp)
  cases p with
  | release =>
    exact h.unlock_move hpoint _ .testDraining rfl rfl ⟨[], rfl, by simp⟩ (by simp) hword
      trivial (by simp_all) fun hd => ⟨trivial, hlate hd⟩
  | testDraining =>
    simp only [unlockStep]
    cases hd : s.draining with
    | true =>
      exact h.unlock_move hpoint s .drainCas rfl rfl ⟨[], rfl, by simp⟩ (by simp) hword
        hd (by simp) fun hd => ⟨trivial, hlate hd⟩
    | false =>
      exact h.unlock_move hpoint s .takeResidual rfl rfl ⟨[], rfl, by simp⟩ (by simp)
        hword trivial (by simp) (by simp [hd])
  | drainCas =>
    have hd : s.draining = true := by
      have hsane := h.sane o
      rwa [hpoint] at hsane
    refine h.setFree (.inr hpoint) (hlate hd).2 (hlate hd).1 (fun j hj => ?_) (point_move _ _) ?_
    · exact point_move_of_ne _ hj
    · simp [(hlate hd).2]
  | takeResidual =>
    exact h.unlock_move hpoint _ (.walk .residual s.residual) rfl rfl
      ⟨[], by simp, by simp⟩ (fun _ => rfl) hword trivial (by simp)
      (by simp [hearly (by simp)])
  | walk source chain =>
    have hd := hearly (by simp)
    have hnone := hresidual trivial
    cases chain with
    | nil =>
      cases source with
      | residual =>
        exact h.unlock_move hpoint s .exchange rfl rfl ⟨[], rfl, by simp⟩ (fun _ => hnone)
          hword trivial (by simp) (by simp [hd])
      | fifo =>
        exact h.unlock_move hpoint s .terminalCas rfl rfl ⟨[], rfl, by simp⟩
          (fun _ => hnone) hword trivial (by simp) (by simp [hd])
    | cons w rest =>
      simp only [unlockStep]
      cases hphase : s.phase w with
      | queued =>
        exact h.unlock_move hpoint s (.tryGrant source w rest) rfl rfl ⟨[], rfl, by simp⟩
          (fun _ => hnone) hword trivial (by simp) (by simp [hd])
      | cancelled => exact h.unlock_drop hpoint (.inl rfl) hphase
      | granted => exact absurd hphase (h.head_not_granted (by simp [hpoint]))
  | tryGrant source w rest =>
    simp only [unlockStep]
    cases hphase : s.phase w with
    | queued => exact h.grant hpoint hphase rfl
    | cancelled => exact h.unlock_drop hpoint (.inr rfl) hphase
    | granted => exact absurd hphase (h.head_not_granted (by simp [hpoint]))
  | countGrant w rest =>
    exact h.unlock_move hpoint _ (.splice w rest) rfl rfl ⟨[], rfl, by simp⟩
      (fun _ => hresidual trivial) hword trivial (by simp_all)
      (by simp [hearly (by simp)])
  | splice w rest =>
    exact h.unlock_move hpoint _ (.resume w) rfl rfl ⟨[], by simp, by simp⟩
      (by simp) hword trivial (by simp) (by simp [hearly (by simp)])
  | resume w =>
    have hwo : w ≠ o := by
      rintro rfl
      have hqueued := (h.handed w w rfl (by simp [hpoint])).1
      simp [hpoint] at hqueued
    refine h.handOver hpoint (fun j hjo hjw => ?_) (point_move _ _) ?_ rfl
    · rw [point_move_of_ne _ hjo]
      simp [scheduleResume, hjw]
    rw [point_move_of_ne _ hwo]
    simp [scheduleResume]
  | exchange =>
    have hd := hearly (by simp)
    have hnone := hresidual trivial
    simp only [unlockStep]
    by_cases hwaiters : s.word.waiters = []
    · rw [if_pos hwaiters]
      exact h.unlock_move hpoint _ .terminalCas rfl rfl
        ⟨[], by simp [hnone, hwaiters], by simp⟩
        (fun _ => hnone) (by simp) trivial (by simp) (by simp [hd])
    rw [if_neg hwaiters]
    exact h.unlock_move hpoint _ (.walk .fifo s.word.waiters.reverse) rfl rfl
      ⟨[], by simp [hnone], by simp⟩
      (fun _ => hnone) (by simp) trivial (by simp) (by simp [hd])
  | terminalCas =>
    simp only [unlockStep]
    by_cases hempty : s.word = .locked []
    · rw [if_pos hempty]
      refine h.setFree (.inl hpoint) hempty (hresidual trivial) (fun j hj => ?_) (point_move _ _) rfl
      exact point_move_of_ne _ hj
    rw [if_neg hempty]
    exact h.unlock_move hpoint s .recount rfl rfl ⟨[], rfl, by simp⟩ (by simp) hword
      trivial (by simp) (by simp [hearly (by simp)])
  | recount =>
    exact h.unlock_move hpoint _ .release rfl rfl ⟨[], rfl, by simp⟩ (by simp) hword
      trivial (by simp_all) (by simp [hearly (by simp)])
  | terminated => exact h.silent

theorem Sim.answer {r : LockResult} (h : Sim l s owner)
    (hbefore : ¬ Token (s.point i) ∧ s.point i ≠ .queued) (hr : r ≠ .guard)
    (hanswers : l.Answers i r) : Follows l (s.complete i r) := by
  have haside : Aside s (s.move i .done) i :=
    aside_move s rfl hbefore (by simp) (by simp) trivial fun _ => trivial
  have hsim := h.aside haside
  rw [point_move] at hsim
  simp only [complete, if_neg hr]
  exact ⟨⟨hanswers, trivial⟩, owner, hsim⟩

theorem Sim.answer_guard (h : Sim l s (some o)) (hstage : l.stage = .held o)
    (hticket : l.ticket o = .granted) (t : MutexSystem)
    (ht : t = { s with activeHolders := t.activeHolders }) (hholders : t.activeHolders = 1)
    (hhanding : handing (s.point o) = none) (hchain : chainOf (s.point o) = []) :
    Follows l (t.complete o .guard) := by
  have honward : Onward s (t.move o .holding) o := by
    refine onward_move t (by rw [ht]) trivial hhanding.symm ⟨[], ?_, by simp⟩
      (by simp) (by simp) ?_ trivial hholders fun hd => ⟨trivial, ?_⟩
    · rw [ht]
      simp only [line, Option.elim_some, hchain]
      rfl
    · rw [ht]
      exact h.word_locked
    rw [ht]
    exact ⟨(h.late hd).2.1, (h.late hd).2.2.2 (by simp)⟩
  have hsim := h.onward honward
  rw [point_move] at hsim
  refine ⟨⟨⟨hticket, hstage⟩, trivial⟩, some o, ?_⟩
  have hnext : { l.set o (ticketOf .holding ((t.move o .holding).phase o)) with
      stage := stageAt o .holding } = l.next (.completed o .guard) := by
    simp [FairLock.next, FairLock.set, ← hstage]
  rw [hnext] at hsim
  exact hsim

theorem Sim.lock_move {p : LockPoint} (h : Sim l s owner) (hpoint : s.point i = p)
    (hbefore : ¬ Token p ∧ p ≠ .queued) (hafter : ¬ Token q ∧ q ≠ .queued)
    (hunlisted : Unlisted q → Unlisted p) (hsane : Sane s.draining q)
    (hlate : s.draining = true → Late q)
    (hticket : ticketOf q (s.phase i) = ticketOf p (s.phase i)) : Follows l (s.move i q, []) := by
  subst hpoint
  refine h.aside_silent (aside_move s rfl hbefore hafter hunlisted hsane hlate) ?_
  rw [point_move]
  exact hticket

theorem Sim.lockStep (address : ℕ → ℕ) (h : Sim l s owner) (i : ℕ) (ok : Bool) :
    Follows l (s.lockStep address i ok (s.point i)) := by
  have hticket := h.ticket i
  have hearly : ¬ Late (s.point i) → s.draining = false := h.not_draining
  have howner : Token (s.point i) → owner = some i := (h.token i).mp
  cases hpoint : s.point i with
  | entry =>
    simp only [MutexSystem.lockStep]
    cases hd : s.draining with
    | true =>
      refine h.answer (by simp [hpoint]) (by simp) ⟨?_, h.drainer.mpr hd⟩
      simp [hticket, hpoint]
    | false =>
      exact h.lock_move hpoint (by simp) (by simp) (fun _ => trivial) trivial
        (by simp [hd]) rfl
  | fastPath =>
    have hd := hearly (by simp [hpoint])
    simp only [MutexSystem.lockStep]
    by_cases hfree : s.word = .notLocked
    · rw [if_pos hfree]
      exact h.acquire hd hfree (by simp [hpoint]) (by simp [hpoint])
        (fun j hj => point_move_of_ne _ hj) (.inl (point_move _ _)) rfl
    rw [if_neg hfree]
    exact h.lock_move hpoint (by simp) (by simp) (fun _ => trivial) trivial
      (by simp [hd]) rfl
  | fastCount =>
    obtain rfl := howner (by simp [hpoint])
    have hholders : s.activeHolders = 0 := by simpa [hpoint] using h.holders
    exact h.answer_guard (by simp [h.stage, hpoint])
      (by simp [hticket, hpoint]) _ rfl (by simp [hholders]) (by simp [hpoint])
      (by simp [hpoint])
  | allocate =>
    have hd := hearly (by simp [hpoint])
    cases ok with
    | true =>
      exact h.lock_move hpoint (by simp) (by simp) (fun _ => trivial) trivial
        (by simp [hd]) rfl
    | false =>
      refine h.answer (by simp [hpoint]) (by simp) ?_
      simp [FairLock.Answers, hticket, hpoint]
  | assign =>
    have hd := hearly (by simp [hpoint])
    cases ok with
    | true =>
      exact h.lock_move hpoint (by simp) (by simp) (fun _ => trivial) trivial
        (by simp [hd]) rfl
    | false =>
      refine h.aside_silent (aside_settle .cancelled (by simp [hpoint])
        (by simp [hpoint]) (by simp) trivial
        (by simp [hd])) ?_
      simp [hpoint]
  | retestDraining =>
    have hd := hearly (by simp [hpoint])
    simp only [MutexSystem.lockStep, hd]
    exact h.lock_move hpoint (by simp) (by simp) (fun _ => trivial) trivial
      (by simp [hd]) rfl
  | reload =>
    exact h.lock_move hpoint (by simp) (by simp) (fun _ => trivial) trivial
      (by simp [hearly (by simp [hpoint])]) rfl
  | enqueue oldState =>
    have hd := hearly (by simp [hpoint])
    have hretry : Follows l (s.move i (.enqueue (s.word.value address)), []) :=
      h.lock_move hpoint (by simp) (by simp) (fun _ => trivial) trivial
        (by simp [hd]) rfl
    have hpush : s.word ≠ .notLocked → Follows l
        ({ s with word := .locked (i :: s.word.waiters) }.move i .queued, [.queued i]) := fun hlocked =>
      h.push hd hlocked (by simp [hpoint]) (by simp [hpoint])
        (fun j hj => point_move_of_ne _ hj) (point_move _ _) rfl
    cases oldState with
    | notLocked =>
      simp only [MutexSystem.lockStep]
      split
      next hfree =>
        exact h.acquire hd hfree.2 (by simp [hpoint])
          (by simp [hpoint]) (fun j hj => point_move_of_ne _ hj)
          (.inr (point_move _ _)) rfl
      · exact hretry
    | lockedNoWaiters =>
      simp only [MutexSystem.lockStep]
      split
      next hsame => exact hpush fun hfree => by simp [hfree, LockWord.value] at hsame
      · exact hretry
    | waiter a =>
      simp only [MutexSystem.lockStep]
      split
      next hsame => exact hpush fun hfree => by simp [hfree, LockWord.value] at hsame
      · exact hretry
  | slowCount =>
    obtain rfl := howner (by simp [hpoint])
    have hd := hearly (by simp [hpoint])
    have hholders : s.activeHolders = 0 := by simpa [hpoint] using h.holders
    refine h.onward_silent (onward_move _ rfl trivial (by simp [hpoint])
      ⟨[], by simp [line, hpoint], by simp⟩ (by simp [hpoint]) (by simp)
      h.word_locked trivial (by simp [hholders]) (by simp [hd])) ?_ ?_
    · simp [hpoint]
    · simp [hpoint]
  | slowPhase =>
    obtain rfl := howner (by simp [hpoint])
    have hd := hearly (by simp [hpoint])
    have hholders : s.activeHolders = 1 := by simpa [hpoint] using h.holders
    have honward : Onward s ((s.setPhase i .granted).move i (.schedule .guard)) i :=
      { phase := fun j hj => by simp [hj]
        kept := .inr (by simp [hpoint])
        unlisted := fun hu => by simp at hu
        draining := rfl
        complete := rfl
        point := fun j hj => point_move_of_ne _ hj
        token := by simp
        handing := by simp [hpoint]
        line := ⟨[], by simp [line, hpoint], by simp⟩
        taken := by simp
        word := h.word_locked
        sane := by simp
        holders := by simpa using hholders
        late := by simp [hd] }
    refine h.onward_silent honward ?_ ?_
    · simp [hpoint]
    · simp [hpoint]
  | schedule r =>
    have hd := hearly (by simp [hpoint])
    cases r with
    | guard =>
      obtain rfl := howner (by simp [hpoint])
      have hholders : s.activeHolders = 1 := by simpa [hpoint] using h.holders
      refine h.onward_silent (onward_move { s with inFlight := s.inFlight + 1,
                                                   resumers := s.resumers ++ [i] }
        rfl trivial (by simp [hpoint]) ⟨[], by simp [line, hpoint], by simp⟩
        (by simp) (by simp) h.word_locked trivial
        (by simp [hholders]) (by simp [hd])) ?_ ?_
      · simp [hpoint]
      · simp [hpoint]
    | drained =>
      have hsane := h.sane i
      rw [hpoint] at hsane
      exact hsane.elim
    | _ =>
      refine h.aside_silent (aside_move { s with inFlight := s.inFlight + 1,
                                                 resumers := s.resumers ++ [i] }
        rfl (by simp [hpoint]) (by simp) (by simp) trivial
        (by simp [hd])) ?_
      simp [hpoint]
  | unlocking p =>
    obtain rfl := howner (by simp [hpoint])
    exact h.unlockStep hpoint
  | idle => exact h.silent
  | queued => exact h.silent
  | posted r => exact h.silent
  | holding => exact h.silent
  | done => exact h.silent

def SameDrains (s t : MutexSystem) : Prop :=
  t.draining = s.draining ∧ t.drainInProgress = s.drainInProgress ∧
    t.drainingComplete = s.drainingComplete ∧ t.drains = s.drains

theorem sameDrains_unlockStep (i : ℕ) (p : UnlockPoint) : SameDrains s (s.unlockStep i p).1 := by
  fun_cases s.unlockStep i p
  all_goals exact ⟨rfl, rfl, rfl, rfl⟩

theorem sameDrains_step (address : ℕ → ℕ) {a : MutexAction} (ha : ∀ k, a ≠ .drain k) :
    SameDrains s (s.step address a).1 := by
  cases a with
  | drain k => exact absurd rfl (ha k)
  | advance i ok =>
    simp only [step]
    fun_cases s.lockStep address i ok (s.point i)
    all_goals first | exact ⟨rfl, rfl, rfl, rfl⟩ | exact sameDrains_unlockStep i _
  | _ =>
    simp only [step, onCancel]
    repeat' split
    all_goals exact ⟨rfl, rfl, rfl, rfl⟩

theorem Sim.congr {s' : MutexSystem} (h : Sim l s owner)
    (hs' : s' = { s with inFlight := s'.inFlight, resumers := s'.resumers,
                         drainInProgress := s'.drainInProgress, drains := s'.drains }) :
    Sim l s' owner := by
  rw [hs']
  exact { h with }

theorem Sim.step (address : ℕ → ℕ) (h : Sim l s owner) {a : MutexAction}
    (ha : ∀ k, a ≠ .drain k) : Follows l (s.step address a) := by
  cases a with
  | call i =>
    simp only [MutexSystem.step]
    split
    next hpoint =>
      have hsim := h.aside (aside_move (i := i) (q := .entry) s rfl (by simp [hpoint])
        (by simp) (by simp [hpoint]) trivial fun _ => trivial)
      rw [point_move] at hsim
      exact ⟨⟨by simp [fairLock, FairLock.Allows, h.ticket, hpoint], trivial⟩, owner, hsim⟩
    · exact h.silent
  | advance i ok => exact h.lockStep address i ok
  | cancel i =>
    simp only [MutexSystem.step, MutexSystem.onCancel]
    split
    next hqueued =>
      refine h.takeOut hqueued.1 hqueued.2 (fun j hj => point_move_of_ne _ hj) (point_move _ _)
        (fun j hj => ?_) ?_ rfl
      · simp [hj]
      · simp
    · exact h.silent
  | run i =>
    simp only [MutexSystem.step]
    split
    next r hpoint =>
      have hticket := h.ticket i
      cases r with
      | guard =>
        obtain rfl := (h.token i).mp (by simp [hpoint])
        have hholders : s.activeHolders = 1 := by simpa [hpoint] using h.holders
        exact h.answer_guard (by simp [h.stage, hpoint])
          (by simp [hticket, hpoint]) s rfl hholders (by simp [hpoint])
          (by simp [hpoint])
      | drained =>
        have hsane := h.sane i
        rw [hpoint] at hsane
        exact hsane.elim
      | aborted =>
        refine h.answer (by simp [hpoint]) (by simp) ?_
        simp [FairLock.Answers, hticket, hpoint]
      | allocFailed =>
        refine h.answer (by simp [hpoint]) (by simp) ?_
        simp [FairLock.Answers, hticket, hpoint]
    · exact h.silent
  | endRun i =>
    simp only [MutexSystem.step]
    split
    · exact h.silent
    split
    · exact ⟨trivial, owner, h.congr rfl⟩
    · exact h.silent
  | unlock i =>
    simp only [MutexSystem.step]
    split
    next hpoint =>
      obtain rfl := (h.token i).mp (by simp [hpoint])
      have hholders : s.activeHolders = 1 := by simpa [hpoint] using h.holders
      have hstage : l.stage = .held i := by
        simp [h.stage, hpoint]
      have hticket : l.ticket i = .completed := by simp [h.ticket, hpoint]
      have hsim := h.onward (onward_move (q := .unlocking .release) s rfl trivial
        (by simp [hpoint]) ⟨[], by simp [line, hpoint], by simp⟩
        (by simp) (by simp) h.word_locked trivial
        (by simp [hholders]) fun hd =>
          ⟨trivial, (h.late hd).2.1, (h.late hd).2.2.2 (by simp)⟩)
      rw [point_move] at hsim
      have hnext : { l.set i (ticketOf (.unlocking .release)
          ((s.move i (.unlocking .release)).phase i)) with
          stage := stageAt i (.unlocking .release) } = l.next (.released i) := by
        simp [FairLock.next, FairLock.set, ← hticket]
      rw [hnext] at hsim
      exact ⟨⟨⟨hstage, hticket⟩, trivial⟩, some i, hsim⟩
    · exact h.silent
  | drain k => exact absurd rfl (ha k)

end Fixpp.Analysis.Mutex
