import Fixpp.Analysis.MutexFairness

/-!
# The drain follows the fair lock

A pass of the drain takes every waiter out of the lists and posts its abort. Behind the first
pass nobody waits, and the counters of the holders and of the posted resumptions tell what is
left.
-/

namespace Fixpp.Analysis.Mutex

open Foundation Model Interface MutexSystem List

variable {s s' : MutexSystem} {owner : Option ℕ} {l : FairLock}
variable {a : MutexAction} {j : ℕ}

/-! ## The posted resumptions are counted -/

/-- `in_flight_resumers_` counts the resumptions that were posted and have not ended. -/
structure Flights (s : MutexSystem) : Prop where
  count : s.inFlight = s.resumers.length
  posted : ∀ i r, s.point i = .posted r → i ∈ s.resumers

variable (address : ℕ → ℕ) (h : Flights s)

include h

theorem Flights.congr (hcount : s'.inFlight = s.inFlight) (hresumers : s'.resumers = s.resumers)
    (hpoint : ∀ i r, s'.point i = .posted r → s.point i = .posted r) : Flights s' where
  count := by rw [hcount, hresumers, h.count]
  posted i r hi := by rw [hresumers]; exact h.posted i r (hpoint i r hi)

variable (k : ℕ) (chain : List ℕ) (i : ℕ)

theorem Flights.move {q : LockPoint} (hq : ∀ r, q ≠ .posted r) : Flights (s.move i q) := by
  refine h.congr rfl rfl fun j r hj => ?_
  by_cases hji : j = i
  · subst hji
    rw [point_move] at hj
    exact absurd hj (hq r)
  · rwa [point_move_of_ne _ hji] at hj

theorem Flights.schedule (r : LockResult) : Flights (s.scheduleResume i r) where
  count := by simp [scheduleResume, h.count]
  posted j t hj := by
    by_cases hji : j = i
    · simp [scheduleResume, hji]
    have hposted : s.point j = .posted t := by
      simpa [MutexSystem.scheduleResume, MutexSystem.move, hji] using hj
    exact mem_append_left _ (h.posted j t hposted)

theorem Flights.same (hcount : s'.inFlight = s.inFlight) (hresumers : s'.resumers = s.resumers)
    (hpoint : s'.point = s.point) : Flights s' :=
  h.congr hcount hresumers fun i r hi => by rwa [hpoint] at hi

theorem Flights.complete (r : LockResult) : Flights (s.complete i r).1 := by
  refine h.move i ?_
  cases r <;> simp

theorem Flights.unlockStep (p : UnlockPoint) : Flights (s.unlockStep i p).1 := by
  fun_cases s.unlockStep i p
  all_goals first
    | exact h
    | (refine (h.same ?_ ?_ ?_).move i ?_ <;> first | rfl | simp)
    | (refine (h.schedule _ _).move i ?_; simp)

theorem Flights.lockStep (ok : Bool) (p : LockPoint) : Flights (s.lockStep address i ok p).1 := by
  fun_cases s.lockStep address i ok p
  all_goals first
    | exact h
    | exact h.unlockStep i _
    | exact h.schedule _ _
    | exact .complete (h.same rfl rfl rfl) i _
    | (refine (h.same ?_ ?_ ?_).move i ?_ <;> first | rfl | simp)

theorem Flights.reap : Flights (reapChain chain s).1 := by
  induction chain generalizing s with
  | nil => exact h
  | cons w rest ih =>
    rw [reapChain]
    split
    · have hphase : Flights (s.setPhase w .cancelled) := h.same rfl rfl rfl
      exact ih (hphase.schedule w .aborted)
    · exact ih h

theorem Flights.drainPass : Flights (s.drainPass k).1 := by
  have htaken : Flights { s with word := .locked [], residual := [] } := h.same rfl rfl rfl
  have hreaped := htaken.reap (s.word.waiters.reverse ++ s.residual)
  rw [MutexSystem.drainPass]
  split <;> exact hreaped.same rfl rfl rfl

theorem Flights.awaitComplete : Flights (s.awaitComplete k).1 := by
  rw [MutexSystem.awaitComplete]
  split <;> exact h.same rfl rfl rfl

theorem Flights.step (a : MutexAction) : Flights (s.step address a).1 := by
  cases a with
  | call i =>
    simp only [MutexSystem.step]
    split
    · exact h.move i (by simp)
    · exact h
  | advance i ok => exact h.lockStep address i ok _
  | cancel i =>
    simp only [MutexSystem.step, MutexSystem.onCancel]
    split
    · have hphase : Flights (s.setPhase i .cancelled) := h.same rfl rfl rfl
      exact hphase.move i (by simp)
    · exact h
  | run i =>
    simp only [MutexSystem.step]
    split
    · exact h.complete i _
    · exact h
  | endRun i =>
    simp only [MutexSystem.step]
    split
    · exact h
    rename_i hnot
    split
    next hin =>
      refine ⟨by simp [h.count, length_erase_of_mem hin], fun j r hj => ?_⟩
      have hji : j ≠ i := by
        rintro rfl
        exact hnot r hj
      exact (mem_erase_of_ne hji).mpr (h.posted j r hj)
    · exact h
  | unlock i =>
    simp only [MutexSystem.step]
    split
    · exact h.move i (by simp)
    · exact h
  | drain k =>
    have hbegun : Flights { s with drainInProgress := true, draining := true } := h.same rfl rfl rfl
    simp only [MutexSystem.step, MutexSystem.drainStep]
    repeat' split
    all_goals first
      | exact h
      | exact h.same rfl rfl rfl
      | exact h.awaitComplete k
      | exact h.drainPass k
      | exact hbegun.drainPass k

/-! ## A pass of the reaper -/

omit h

theorem reapChain_eq {chain : List ℕ} (hnodup : chain.Nodup) (s : MutexSystem) : reapChain chain s =
      let ws := chain.filter (s.phase · = .queued)
      ({ s with phase := fun i => if i ∈ ws then .cancelled else s.phase i
                point := fun i => if i ∈ ws then .posted .aborted else s.point i
                inFlight := s.inFlight + ws.length
                resumers := s.resumers ++ ws }, ws.map .cancelled) := by
  induction chain generalizing s with
  | nil => simp [reapChain]
  | cons w rest ih =>
    obtain ⟨hw, hnodup⟩ := nodup_cons.mp hnodup
    rw [reapChain]
    split
    next hqueued =>
      have hrest : rest.filter
          (((s.setPhase w .cancelled).scheduleResume w .aborted).phase · = .queued) =
          rest.filter (s.phase · = .queued) := by
        refine filter_congr fun i hi => ?_
        have hiw : i ≠ w := by
          rintro rfl
          exact hw hi
        simp [scheduleResume, move, setPhase, hiw]
      have hnot : w ∉ rest.filter (s.phase · = .queued) := fun hin =>
        hw (mem_of_mem_filter hin)
      rw [ih hnodup, hrest]
      simp only [setPhase, scheduleResume, move,
        filter_cons, hqueued, decide_true, if_true, map_cons, length_cons]
      refine Prod.ext ?_ rfl
      simp only [mk.injEq, true_and]
      refine ⟨by omega, ?_, ?_, by simp, trivial⟩ <;> funext i <;> by_cases hiw : i = w
      · subst hiw
        simp [hnot]
      · simp [hiw]
      · subst hiw
        simp [hnot]
      · simp [hiw]
    next hnot =>
      rw [ih hnodup]
      simp [hnot]

theorem Follows.after {first rest : List MutexEvent} (hfirst : fairLock.Accepts l first)
    (hrest : Follows (fairLock.run l first) (s, rest)) : Follows l (s, first ++ rest) := by
  obtain ⟨hacc, owner, hsim⟩ := hrest
  refine ⟨(fairLock.accepts_append l first rest).mpr ⟨hfirst, hacc⟩, owner, ?_⟩
  rw [fairLock.run_append]
  exact hsim

/-- Between two calls nobody is in the middle of an unlock, so the waiters are those of
the two lists. -/
theorem line_of_quiet (h : Kept s owner) (hquiet : ∀ i, ¬ Busy (s.point i)) :
    line s owner = s.residual ++ s.word.waiters.reverse ∧
      ∀ o, owner = some o → handing (s.point o) = none := by
  cases owner with
  | none => simp [line]
  | some o =>
    have htoken := (h.token o).mpr rfl
    have hnot := hquiet o
    revert htoken hnot
    cases hpoint : s.point o <;> simp [line, hpoint, Token, Busy, chainOf, handing]

def reaped (s : MutexSystem) (ws : List ℕ) : MutexSystem :=
  { s with
      drainInProgress := true
      draining := true
      word := .locked []
      residual := []
      phase := fun i => if i ∈ ws then .cancelled else s.phase i
      point := fun i => if i ∈ ws then .posted .aborted else s.point i
      inFlight := s.inFlight + ws.length
      resumers := s.resumers ++ ws }

theorem Sim.reap {ws : List ℕ} {m : FairLock} (h : Sim l s owner) (hquiet : ∀ i, ¬ Busy (s.point i))
    (hws : ∀ i, i ∈ ws ↔ i ∈ line s owner ∧ s.phase i = .queued)
    (hstage : m.stage = l.stage) (hqueue : m.queue = []) (hfinished : m.finished = l.finished)
    (hticket : ∀ i, m.ticket i = if i ∈ ws then .aborted else l.ticket i)
    (hdrainer : m.drainer ≠ none) : Sim m (reaped s ws) owner := by
  obtain ⟨hline, hhanding⟩ := line_of_quiet h.toKept hquiet
  have hpoint : ∀ i ∈ ws, s.point i = .queued := by
    intro i hi
    obtain ⟨hin, hp⟩ := (hws i).mp hi
    obtain ⟨hq, -⟩ | hc := h.standing i hin
    · exact hq
    · simp [hc] at hp
  have hout : ∀ i, s.point i ≠ .queued → i ∉ ws := fun i hne hi => hne (hpoint i hi)
  have hsleep : ∀ i, s.point i = .queued → i ∈ ws := by
    intro i hi
    obtain ⟨hp, hin⟩ | ⟨-, o, ho, hw⟩ := h.waits i hi
    · exact (hws i).mpr ⟨hin, hp⟩
    · simp [hhanding o ho] at hw
  have hempty : line (reaped s ws) owner = [] := by
    cases owner with
    | none => simp [line, reaped]
    | some o =>
      have htoken := (h.token o).mpr rfl
      have hnot := hquiet o
      have hno := hout o (ne_queued_of_token htoken)
      revert htoken hnot
      cases hp : s.point o <;> simp [line, reaped, hno, hp, Token, Busy, chainOf]
  have howner : ∀ o, owner = some o → (reaped s ws).point o = s.point o := by
    intro o ho
    simp [reaped, hout o (ne_queued_of_token ((h.token o).mpr ho))]
  have hsame : ∀ i, i ∉ ws → (reaped s ws).point i = s.point i ∧
      (reaped s ws).phase i = s.phase i := fun i hi => by simp [reaped, hi]
  have hnew : ∀ i ∈ ws, (reaped s ws).point i = .posted .aborted := fun i hi => by
    simp [reaped, hi]
  refine { token := fun i => ?_, nodup := by rw [hempty]; simp, unlisted := fun i hi => ?_,
           standing := fun i hi => by simp [hempty] at hi, waits := fun i hi => ?_,
           handed := fun o w ho hw => ?_, taken := fun _ _ _ => rfl, free := fun _ => rfl,
           word := fun hd => by simp [reaped] at hd, sane := fun i => ?_, holders := ?_,
           late := fun _ => ⟨fun i => ?_, rfl, rfl, fun _ => rfl⟩,
           stage := ?_, queue := by rw [hqueue, hempty]; rfl, ticket := fun i => ?_,
           drainer := iff_of_true hdrainer rfl, finished := hfinished.trans h.finished }
  · by_cases hi : i ∈ ws
    · rw [hnew i hi, ← h.token, hpoint i hi]
      simp [Token]
    · rw [(hsame i hi).1, h.token]
  · rw [hempty]
    by_cases hin : i ∈ ws
    · simp [hnew i hin, Unlisted, Fresh] at hi
    rw [(hsame i hin).1] at hi
    rw [(hsame i hin).2]
    exact ⟨by simp, (h.unlisted i hi).2⟩
  · by_cases hin : i ∈ ws
    · simp [hnew i hin] at hi
    rw [(hsame i hin).1] at hi
    exact absurd (hsleep i hi) hin
  · rw [howner o ho, hhanding o ho] at hw
    cases hw
  · by_cases hi : i ∈ ws
    · rw [hnew i hi]
      trivial
    rw [(hsame i hi).1]
    have hsane := h.sane i
    have hnot := hquiet i
    revert hsane hnot
    fun_cases Sane s.draining (s.point i) <;> simp_all [Sane, reaped, Busy]
  · refine h.holders.trans ?_
    cases owner with
    | none => rfl
    | some o => simp [howner o rfl]
  · by_cases hi : i ∈ ws
    · rw [hnew i hi]
      trivial
    rw [(hsame i hi).1]
    have hnot := hquiet i
    have hne : s.point i ≠ .queued := fun hq => hi (hsleep i hq)
    revert hnot hne
    cases s.point i <;> simp [Busy, Late]
  · rw [hstage, h.stage]
    cases owner with
    | none => rfl
    | some o => simp [stageOf, howner o rfl]
  rw [hticket i]
  by_cases hi : i ∈ ws
  · simp [hi, hnew i hi, ticketOf]
  · rw [(hsame i hi).1, (hsame i hi).2, if_neg hi, h.ticket]

/-- When no call is under way, the counters are zero and a drain is on, everything that
began has ended. -/
theorem Sim.settled (h : Sim l s owner) (hdraining : s.draining = true)
    (hquiet : ∀ i, ¬ Busy (s.point i)) (hflights : Flights s) (hholders : s.activeHolders = 0)
    (hinFlight : s.inFlight = 0) :
    owner = none ∧ l.Settled ∧ ∀ i, s.point i = .idle ∨ s.point i = .done := by
  obtain ⟨hlate, hresidual, hwaiters, -⟩ := h.late hdraining
  have hposted : ∀ i r, s.point i ≠ .posted r := by
    intro i r hi
    have hin := hflights.posted i r hi
    rw [length_eq_zero_iff.mp (hflights.count.symm.trans hinFlight)] at hin
    cases hin
  have hrest : ∀ i, s.point i = .idle ∨ s.point i = .holding ∨ s.point i = .done := by
    intro i
    have hl := hlate i
    have hnot := hquiet i
    have hno := hposted i
    revert hl hnot hno
    cases s.point i <;> simp [Late, Busy]
  have howner : owner = none := by
    cases owner with
    | none => rfl
    | some o =>
      have htoken := (h.token o).mpr rfl
      have hcount := h.holders
      obtain hp | hp | hp := hrest o <;> simp [hp, Token, countOf, hholders] at htoken hcount
  subst howner
  have hpoint : ∀ i, s.point i = .idle ∨ s.point i = .done := by
    intro i
    obtain hp | hp | hp := hrest i
    · exact .inl hp
    · have htoken := (h.token i).mp (by simp [hp, Token])
      cases htoken
    · exact .inr hp
  refine ⟨rfl, ⟨h.stage, ?_, fun i => ?_⟩, hpoint⟩
  · rw [h.queue]
    simp [line, hresidual, hwaiters]
  rw [h.ticket]
  obtain hp | hp := hpoint i <;> simp [hp, ticketOf]

def passEnd (s : MutexSystem) (k : ℕ) (chain : List ℕ) : MutexSystem × List MutexEvent :=
  if s.activeHolders = 0 ∧ s.inFlight = 0 ∧ chain = [] then
    ({ s with
        word := if s.word = LockWord.locked [] then .notLocked else s.word
        drainingComplete := true
        drains := Function.update s.drains k .returned }, [.drainReturned k])
  else ({ s with drains := Function.update s.drains k .yielding }, [])

theorem drainPass_eq (s : MutexSystem) (k : ℕ) : s.drainPass k =
      let chain := s.word.waiters.reverse ++ s.residual
      let taken := reapChain chain { s with word := .locked [], residual := [] }
      ((passEnd taken.1 k chain).1, taken.2 ++ (passEnd taken.1 k chain).2) := by
  simp only [drainPass, passEnd]
  split <;> simp

variable {k : ℕ}

theorem Sim.passEnd (h : Sim l s owner) (hdraining : s.draining = true)
    (hquiet : ∀ i, ¬ Busy (s.point i)) (hflights : Flights s) (hk : l.drainer = some k) :
    Follows l (passEnd s k chain) := by
  rw [Mutex.passEnd]
  split
  next hend =>
    obtain ⟨rfl, hsettled, -⟩ := h.settled hdraining hquiet hflights hend.1 hend.2.1
    obtain ⟨hlate, hresidual, hwaiters, -⟩ := h.late hdraining
    have hwaiters' : (if s.word = LockWord.locked [] then .notLocked else s.word).waiters = [] := by
      split
      · rfl
      · exact hwaiters
    refine ⟨⟨.inr ⟨hk, hsettled⟩, trivial⟩, none, ?_⟩
    refine { h with
      nodup := by simp [line, hresidual, hwaiters']
      unlisted := fun i hi => ⟨by simp [line, hresidual, hwaiters'], (h.unlisted i hi).2⟩
      standing := fun i hi => by simp [line, hresidual, hwaiters'] at hi
      waits := fun i hi => ?_
      word := fun hd => by simp [hdraining] at hd
      late := fun _ => ⟨hlate, hresidual, hwaiters', by simp⟩
      queue := ?_
      finished := rfl }
    · have hl := hlate i
      rw [show s.point i = .queued from hi] at hl
      exact hl.elim
    · refine hsettled.2.1.trans ?_
      simp [line, hresidual, hwaiters']
  · exact ⟨trivial, owner, h.congr rfl⟩

theorem Sim.firstPass (h : Sim l s owner) (hdraining : s.draining = false)
    (hquiet : ∀ i, ¬ Busy (s.point i)) (hflights : Flights s) (k : ℕ) :
    let passed := { s with drainInProgress := true, draining := true }.drainPass k
    Follows l (passed.1, .drainStarted k :: passed.2) := by
  obtain ⟨hline, -⟩ := line_of_quiet h.toKept hquiet
  have hperm : (s.word.waiters.reverse ++ s.residual).Perm (line s owner) := by
    rw [hline]
    exact perm_append_comm
  have hnodup := hperm.nodup_iff.mpr h.nodup
  generalize hws : (s.word.waiters.reverse ++ s.residual).filter (s.phase · = .queued) = ws
  have hreap : reapChain (s.word.waiters.reverse ++ s.residual)
      { s with drainInProgress := true, draining := true, word := .locked [], residual := [] } =
      (reaped s ws, ws.map .cancelled) := by
    rw [← hws]
    exact reapChain_eq hnodup _
  have hmem : ∀ i, i ∈ ws ↔ i ∈ line s owner ∧ s.phase i = .queued := by
    intro i
    rw [← hws, mem_filter, hperm.mem_iff, decide_eq_true_iff]
  have hwaiting : ∀ w ∈ ws, (l.next (.drainStarted k)).ticket w = .waiting := by
    intro w hw
    obtain ⟨hin, hp⟩ := (hmem w).mp hw
    obtain ⟨hq, -⟩ | hc := h.standing w hin
    · exact (h.ticket w).trans (by simp [hq, hp, ticketOf])
    · simp [hc] at hp
  obtain ⟨hacc, hrun⟩ := FairLock.run_cancelled (hws ▸ hnodup.filter _) hwaiting
  have hqueue : ws.foldl List.erase l.queue = [] := by
    rw [← diff_eq_foldl, eq_nil_iff_forall_not_mem]
    intro i hi
    have hnodup' : l.queue.Nodup := h.queue ▸ h.nodup.filter _
    rw [List.Nodup.mem_sdiff_iff hnodup', h.queue, mem_filter, decide_eq_true_iff, ← hmem] at hi
    exact hi.2 hi.1
  have hsim : Sim (fairLock.run (l.next (.drainStarted k)) (ws.map .cancelled)) (reaped s ws)
      owner := by
    rw [hrun]
    exact h.reap hquiet hmem rfl hqueue rfl (fun _ => rfl) (by simp [FairLock.next])
  have hflights' : Flights (reaped s ws) := by
    have htaken : Flights { s with drainInProgress := true, draining := true, word := .locked [],
                                   residual := [] } := hflights.same rfl rfl rfl
    have := htaken.reap (s.word.waiters.reverse ++ s.residual)
    rwa [hreap] at this
  have hquiet' : ∀ i, ¬ Busy ((reaped s ws).point i) := by
    intro i
    by_cases hi : i ∈ ws
    · simp [reaped, hi, Busy]
    · simpa [reaped, hi] using hquiet i
  have hfirst : fairLock.Accepts l (.drainStarted k :: ws.map .cancelled) :=
    ⟨h.drainer_none hdraining, hacc⟩
  simp only [drainPass_eq, hreap]
  exact .after hfirst (hsim.passEnd _ rfl hquiet' hflights' (FairLock.drainer_kept hacc rfl))

theorem Sim.laterPass (h : Sim l s owner) (hdraining : s.draining = true)
    (hquiet : ∀ i, ¬ Busy (s.point i)) (hflights : Flights s) (hk : l.drainer = some k) :
    Follows l (s.drainPass k) := by
  obtain ⟨hlate, hresidual, hwaiters, -⟩ := h.late hdraining
  have hline : line { s with word := .locked [], residual := [] } owner = line s owner :=
    line_of_point s _ owner (fun _ _ => rfl) hresidual.symm hwaiters.symm
  have hsim : Sim l { s with word := .locked [], residual := [] } owner :=
    { h with
      nodup := hline ▸ h.nodup
      unlisted := hline ▸ h.unlisted
      standing := hline ▸ h.standing
      waits := hline ▸ h.waits
      taken := fun _ _ _ => rfl
      free := fun _ => rfl
      word := fun hd => by simp [hdraining] at hd
      late := fun _ => ⟨hlate, rfl, rfl, fun _ => rfl⟩
      queue := hline ▸ h.queue }
  simp only [drainPass_eq, hresidual, hwaiters, reverse_nil, append_nil, reapChain, nil_append]
  exact hsim.passEnd [] hdraining hquiet (hflights.same rfl rfl rfl) hk

theorem Sim.awaitComplete (h : Sim l s owner) (k : ℕ) : Follows l (s.awaitComplete k) := by
  rw [MutexSystem.awaitComplete]
  split
  next hcomplete =>
    refine ⟨⟨.inl (h.finished.trans hcomplete), trivial⟩, owner, ?_⟩
    have hsame : fairLock.run l [.drainReturned k] = l := by
      have hfinished : l.finished = true := h.finished.trans hcomplete
      simp [fairLock, Monitor.run, FairLock.next, ← hfinished]
    rw [hsame]
    exact h.congr rfl
  · exact ⟨trivial, owner, h.congr rfl⟩

/-! ## Runs with drains -/

/-- The mutex follows the fair lock, and its counters and its drains are in order. -/
structure Tracked (l : FairLock) (s : MutexSystem) : Prop where
  sim : ∃ owner, Sim l s owner
  flights : Flights s
  elected : ∀ k, s.drains k = .yielding → l.drainer = some k

/-- A drain goes on only when no call is in the middle of its steps. -/
def Apt (s : MutexSystem) (a : MutexAction) : Prop :=
  ∀ k, a = .drain k → ∀ i, ¬ Busy (s.point i)

theorem Tracked.drainStep (h : Tracked l s) (hquiet : ∀ i, ¬ Busy (s.point i)) :
    Follows l (s.drainStep k) := by
  obtain ⟨owner, hsim⟩ := h.sim
  rw [MutexSystem.drainStep]
  split
  · split
    · exact hsim.awaitComplete k
    next hdraining =>
    split
    · exact ⟨trivial, owner, hsim.congr rfl⟩
    · exact hsim.firstPass (by simpa using hdraining) hquiet h.flights k
  next hyielding =>
    have hk := h.elected k hyielding
    exact hsim.laterPass (hsim.drainer.mp (by simp [hk])) hquiet h.flights hk
  · split
    · exact hsim.awaitComplete k
    · exact hsim.silent
  · exact hsim.awaitComplete k
  · exact hsim.silent

theorem Tracked.follows (h : Tracked l s) (hapt : Apt s a) : Follows l (s.step address a) := by
  obtain ⟨owner, hsim⟩ := h.sim
  by_cases ha : ∃ k, a = .drain k
  · obtain ⟨k, rfl⟩ := ha
    exact h.drainStep (hapt k rfl)
  · exact hsim.step address fun k hk => ha ⟨k, hk⟩

theorem drains_reapChain (s : MutexSystem) :
    (reapChain chain s).1.drains = s.drains := by
  induction chain generalizing s with
  | nil => rfl
  | cons w rest ih =>
    rw [reapChain]
    split
    · exact ih _
    · exact ih s

theorem drains_drainPass (s : MutexSystem) (k : ℕ) :
    ∃ p, (s.drainPass k).1.drains = Function.update s.drains k p := by
  simp only [drainPass_eq, passEnd]
  split
  · exact ⟨.returned, by simp [drains_reapChain]⟩
  · exact ⟨.yielding, by simp [drains_reapChain]⟩

theorem drains_awaitComplete (s : MutexSystem) (k : ℕ) :
    ∃ p, (s.awaitComplete k).1.drains = Function.update s.drains k p ∧ p ≠ .yielding := by
  rw [awaitComplete]
  split
  · exact ⟨.returned, rfl, by simp⟩
  · exact ⟨.awaitComplete, rfl, by simp⟩

theorem drains_drainStep_of_ne (hjk : j ≠ k) : (s.drainStep k).1.drains j = s.drains j := by
  rw [drainStep]
  obtain ⟨p, hp⟩ := drains_drainPass s k
  obtain ⟨q, hq⟩ := drains_drainPass { s with drainInProgress := true, draining := true } k
  obtain ⟨r, hr, -⟩ := drains_awaitComplete s k
  repeat' split
  all_goals simp [hp, hq, hr, hjk]

theorem yielding_drainStep (hj : (s.drainStep k).1.drains j = .yielding) :
    s.drains j = .yielding ∨ j = k ∧ ∃ rest, (s.drainStep k).2 = .drainStarted k :: rest := by
  by_cases hjk : j = k
  · subst hjk
    rw [drainStep] at hj ⊢
    have hawait : (s.awaitComplete j).1.drains j ≠ .yielding := by
      obtain ⟨p, hp, hne⟩ := drains_awaitComplete s j
      simpa [hp] using hne
    split at hj
    · split at hj
      · exact absurd hj hawait
      next hdraining =>
      split at hj
      · simp at hj
      next hprogress =>
      refine .inr ⟨rfl, ({ s with drainInProgress := true, draining := true }.drainPass j).2, ?_⟩
      simp [hdraining, hprogress]
    next hyielding => exact .inl hyielding
    next hwaiting =>
      split at hj
      · exact absurd hj hawait
      · exact .inl hj
    · exact absurd hj hawait
    · exact .inl hj
  · exact .inl (drains_drainStep_of_ne hjk ▸ hj)

theorem firstPass_of_elected (h : Tracked l s) (hnone : l.drainer = none)
    (hacc : fairLock.Accepts l (s.drainStep j).2)
    (hsome : (fairLock.run l (s.drainStep j).2).drainer = some k) :
    j = k ∧ s.drainStep j =
      let passed := { s with drainInProgress := true, draining := true }.drainPass k
      (passed.1, .drainStarted k :: passed.2) := by
  have hawait : (fairLock.run l (s.awaitComplete j).2).drainer = none := by
    rw [awaitComplete]
    split <;> exact hnone
  have hsilent : (fairLock.run l []).drainer ≠ some k := by simp [hnone]
  revert hsome hacc
  rw [drainStep]
  split
  · split
    · simp [hawait]
    split
    · exact fun _ hsome => absurd hsome hsilent
    intro hacc hsome
    have hj := FairLock.drainer_kept (k := j) hacc.2 rfl
    obtain rfl : j = k := by simpa using hj.symm.trans hsome
    exact ⟨rfl, rfl⟩
  next hyielding => simp [h.elected j hyielding] at hnone
  · split
    · simp [hawait]
    · exact fun _ hsome => absurd hsome hsilent
  · simp [hawait]
  · exact fun _ hsome => absurd hsome hsilent

theorem Tracked.step (h : Tracked l s) (hapt : Apt s a) :
    fairLock.Accepts l (s.step address a).2 ∧
      Tracked (fairLock.run l (s.step address a).2) (s.step address a).1 := by
  obtain ⟨hacc, hsim⟩ := h.follows address hapt
  refine ⟨hacc, hsim, h.flights.step address a, fun j hj => ?_⟩
  by_cases ha : ∃ k, a = .drain k
  · obtain ⟨k, rfl⟩ := ha
    obtain hyielding | ⟨rfl, rest, hrest⟩ := yielding_drainStep hj
    · exact FairLock.drainer_kept hacc (h.elected j hyielding)
    rw [show (s.step address (.drain j)).2 = .drainStarted j :: rest from hrest] at hacc ⊢
    exact FairLock.drainer_kept (l := l.next (.drainStarted j)) hacc.2 rfl
  · have hdrains := (sameDrains_step address (s := s) fun k hk => ha ⟨k, hk⟩).2.2.2
    rw [hdrains] at hj
    exact FairLock.drainer_kept hacc (h.elected j hj)

theorem Tracked.init : Tracked {} {} where
  sim := ⟨none, .init⟩
  flights := ⟨rfl, fun i r hi => by simp at hi⟩
  elected k hk := by simp at hk

end Fixpp.Analysis.Mutex
