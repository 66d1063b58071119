import Fixpp.Analysis.MutexDrain

/-!
# A drain comes to its end

On one strand, under any schedule that runs what was posted, lets the holders unlock and gives a
yielding drain its turn, a drain that began returns: the posted resumptions and the way that is
left to each attempt only fall.
-/

namespace Fixpp.Analysis.Mutex

open Foundation Model Interface MutexSystem List FairLock

variable {s s' : MutexSystem} {owner : Option ℕ} {l : FairLock}
variable {t : MutexSystem} {a : MutexAction}

/-- What is left of an attempt during a drain. -/
def due : LockPoint → ℕ
  | .posted _ => 6
  | .holding => 5
  | .unlocking .release => 4
  | .unlocking .testDraining => 3
  | .unlocking .drainCas => 2
  | .idle => 1
  | .entry => 1
  | _ => 0

attribute [local simp] due

/-- No attempt goes back, and no resumption is added. -/
structure Lowers (s s' : MutexSystem) : Prop where
  due : ∀ i, due (s'.point i) ≤ due (s.point i)
  idle : ∀ i, s'.point i = .idle → s.point i = .idle
  resumers : s'.resumers.Sublist s.resumers

theorem Lowers.of_same (hpoint : s'.point = s.point) (hresumers : s'.resumers = s.resumers) :
    Lowers s s' where
  due i := Nat.le_of_eq (by rw [hpoint])
  idle i hi := by rwa [hpoint] at hi
  resumers := by rw [hresumers]

variable {i n k : ℕ} {p : LockPoint}

theorem Lowers.move {q : LockPoint} (hpoint : t.point = s.point)
    (hresumers : t.resumers = s.resumers) (hq : Mutex.due q ≤ Mutex.due (s.point i))
    (hidle : q ≠ .idle) : Lowers s (t.move i q) where
  due j := by
    by_cases hji : j = i
    · subst hji
      simpa using hq
    · exact Nat.le_of_eq (by rw [point_move_of_ne _ hji, hpoint])
  idle j hj := by
    by_cases hji : j = i
    · subst hji
      rw [point_move] at hj
      exact absurd hj hidle
    · rwa [point_move_of_ne _ hji, hpoint] at hj
  resumers := by
    rw [← hresumers]
    exact .refl _

variable (address : ℕ → ℕ)

theorem Sim.lowers (h : Sim l s owner) (hdraining : s.draining = true) (a : MutexAction) :
    Lowers s (s.step address a).1 := by
  obtain ⟨hlate, hresidual, hwaiters, -⟩ := h.late hdraining
  have hsame : Lowers s s := .of_same rfl rfl
  cases a with
  | call i =>
    simp only [MutexSystem.step]
    split
    next hpoint => exact .move rfl rfl (by simp [hpoint]) (by simp)
    · exact hsame
  | advance i ok =>
    have hl := hlate i
    simp only [MutexSystem.step]
    cases hpoint : s.point i with
    | entry =>
      simp only [MutexSystem.lockStep, hdraining, if_true, MutexSystem.complete]
      exact .move rfl rfl (by simp) (by simp)
    | unlocking p =>
      simp only [MutexSystem.lockStep]
      cases p with
      | release => exact .move rfl rfl (by simp [hpoint]) (by simp)
      | testDraining =>
        simp only [MutexSystem.unlockStep, hdraining, if_true]
        exact .move rfl rfl (by simp [hpoint]) (by simp)
      | drainCas => exact .move rfl rfl (by simp) (by simp)
      | _ => simp [hpoint, Late] at hl
    | _ => first | exact hsame | simp [hpoint, Late] at hl
  | cancel i =>
    have hnot : s.point i ≠ .queued := fun hq => by simpa [hq, Late] using hlate i
    simp only [MutexSystem.step, MutexSystem.onCancel, hnot, false_and, if_false]
    exact hsame
  | run i =>
    simp only [MutexSystem.step]
    split
    next r hpoint =>
      cases r <;> exact .move rfl rfl (by simp [hpoint]) (by simp)
    · exact hsame
  | endRun i =>
    simp only [MutexSystem.step]
    split
    · exact hsame
    split
    · exact ⟨fun _ => Nat.le_refl _, fun _ hj => hj, erase_sublist⟩
    · exact hsame
  | unlock i =>
    simp only [MutexSystem.step]
    split
    next hpoint => exact .move rfl rfl (by simp [hpoint]) (by simp)
    · exact hsame
  | drain k =>
    have hpass : Lowers s (s.drainPass k).1 := by
      simp only [drainPass_eq, Mutex.passEnd, hresidual, hwaiters, reverse_nil, append_nil,
        reapChain]
      split <;> exact .of_same rfl rfl
    have hawait : Lowers s (s.awaitComplete k).1 := by
      rw [MutexSystem.awaitComplete]
      split <;> exact .of_same rfl rfl
    simp only [MutexSystem.step, MutexSystem.drainStep, hdraining, if_true]
    split
    · exact hawait
    · exact hpass
    · exact hawait
    · exact hawait
    · exact hsame

theorem Lowers.trans {s'' : MutexSystem} (h : Lowers s s') (h' : Lowers s' s'') : Lowers s s'' where
  due i := Nat.le_trans (h'.due i) (h.due i)
  idle i hi := h.idle i (h'.idle i hi)
  resumers := h'.resumers.trans h.resumers

/-! ## Turns that bring an attempt on -/

theorem due_run {r : LockResult} (hpoint : s.point i = .posted r) :
    due ((s.step address (.run i)).1.point i) < 6 := by
  simp only [step, hpoint, complete, point_move]
  split <;> simp

theorem due_unlock (hpoint : s.point i = .holding) :
    due ((s.step address (.unlock i)).1.point i) < 5 := by
  simp [step, hpoint]

theorem due_advance (ok : Bool) (hdraining : s.draining = true) (hlate : Late (s.point i))
    (hbusy : Busy (s.point i)) :
    due ((s.step address (.advance i ok)).1.point i) < due (s.point i) := by
  simp only [step]
  cases hpoint : s.point i with
  | entry => simp [lockStep, hdraining, complete]
  | unlocking p =>
    cases p with
    | release => simp [lockStep, unlockStep]
    | testDraining => simp [lockStep, unlockStep, hdraining]
    | drainCas => simp [lockStep, unlockStep]
    | _ => simp [hpoint, Late] at hlate
  | _ => simp [hpoint, Busy, Late] at hbusy hlate

theorem resumers_endRun (hnot : ∀ r, s.point i ≠ .posted r) (hin : i ∈ s.resumers) :
    (s.step address (.endRun i)).1.resumers = s.resumers.erase i := by
  simp only [step, if_pos hin]

theorem posted_of_due (h : 6 ≤ due p) : ∃ r, p = .posted r := by
  cases p with
  | posted r => exact ⟨r, rfl⟩
  | unlocking q => cases q <;> simp at h
  | _ => simp at h

theorem holding_of_due (h : due p = 5) : p = .holding := by
  cases p with
  | holding => rfl
  | unlocking q => cases q <;> simp at h
  | _ => simp at h

theorem done_of_due (h : due p = 0) (hlate : Late p) : p = .done := by
  cases p with
  | done => rfl
  | unlocking q => cases q <;> simp_all [Late]
  | _ => simp_all [Late]

theorem due_of_token (hlate : Late p) (htoken : Token p) : 2 ≤ due p := by
  cases p with
  | unlocking q => cases q <;> simp_all [Late]
  | posted r => simp
  | holding => simp
  | _ => simp_all [Token, Late]

/-! ## Schedules on one strand -/

/-- On one strand, whoever is in the middle of a call takes the next step. -/
def OnStrand (s : MutexSystem) (a : MutexAction) : Prop :=
  ∀ i, Busy (s.point i) → ∃ ok, a = .advance i ok

theorem OnStrand.apt (h : OnStrand s a) : Apt s a := by
  rintro k rfl i hbusy
  obtain ⟨ok, hok⟩ := h i hbusy
  cases hok

section

variable (address : ℕ → ℕ) (schedule : ℕ → MutexAction)

abbrev upTo (n : ℕ) : MutexSystem × List MutexEvent :=
  runFor (step address) {} schedule n

/-- A schedule on one strand that runs what was posted, in which every holder unlocks,
and which comes back to a drain that yields. -/
structure OneStrand : Prop where
  strand : ∀ n, OnStrand (upTo address schedule n).1 (schedule n)
  runs : ∀ n i r, (upTo address schedule n).1.point i = .posted r → ∃ m, n ≤ m ∧ schedule m = .run i
  ends : ∀ n i, i ∈ (upTo address schedule n).1.resumers → ∃ m, n ≤ m ∧ schedule m = .endRun i
  unlocks : ∀ n i, (upTo address schedule n).1.point i = .holding →
    ∃ m, n ≤ m ∧ schedule m = .unlock i
  resumes : ∀ n k, (upTo address schedule n).1.drains k = .yielding →
    ∃ m, n ≤ m ∧ schedule m = .drain k

end

variable {address : ℕ → ℕ} {schedule : ℕ → MutexAction}

theorem tracked_upTo (n : ℕ)
    (hstrand : ∀ j, j < n → OnStrand (upTo address schedule j).1 (schedule j)) :
    fairLock.Accepts {} (upTo address schedule n).2 ∧
      Tracked (fairLock.run {} (upTo address schedule n).2) (upTo address schedule n).1 :=
  accepts_runFor fairLock (I := Tracked) (G := Apt) (fun _ _ _ hI hG => hI.step address hG)
    .init n fun j hj => (hstrand j hj).apt

theorem OneStrand.tracked (h : OneStrand address schedule) (n : ℕ) :
    fairLock.Accepts {} (upTo address schedule n).2 ∧
      Tracked (fairLock.run {} (upTo address schedule n).2) (upTo address schedule n).1 :=
  tracked_upTo n fun j _ => h.strand j

abbrev OneStrand.state (_ : OneStrand address schedule) (n : ℕ) : MutexSystem :=
  (upTo address schedule n).1

variable (h : OneStrand address schedule)

/-- From a step on the drain is on. -/
def OneStrand.Drains (n : ℕ) : Prop :=
  ∀ j, n ≤ j → (h.state j).draining = true

theorem OneStrand.Drains.mono {h : OneStrand address schedule} {m : ℕ} (hdrains : h.Drains n)
    (hnm : n ≤ m) : h.Drains m :=
  fun j hj => hdrains j (Nat.le_trans hnm hj)

theorem OneStrand.Drains.late {h : OneStrand address schedule} (hdrains : h.Drains n) (i : ℕ) :
    Late ((h.state n).point i) := by
  obtain ⟨owner, hsim⟩ := (h.tracked n).2.sim
  exact (hsim.late (hdrains n (Nat.le_refl n))).1 i

theorem OneStrand.draining_of_drainer
    (hk : (fairLock.run {} (upTo address schedule n).2).drainer = some k) :
    (h.state n).draining = true := by
  obtain ⟨owner, hsim⟩ := (h.tracked n).2.sim
  exact hsim.drainer.mp (by simp [hk])

theorem OneStrand.lowers {m : ℕ} (hnm : n ≤ m) (hdrains : h.Drains n) :
    Lowers (h.state n) (h.state m) := by
  refine runFor_keeps (P := Lowers (h.state n)) hnm (fun j hj hlow => ?_) (.of_same rfl rfl)
  obtain ⟨owner, hsim⟩ := (h.tracked j).2.sim
  exact hlow.trans (hsim.lowers address (hdrains j hj) (schedule j))

theorem OneStrand.falls_of_turn (hdrains : h.Drains n) (hturn : ∃ m, n ≤ m ∧ schedule m = a)
    (heffect : ∀ m, schedule m = a → due ((h.state m).point i) = due ((h.state n).point i) →
      due ((h.state (m + 1)).point i) < due ((h.state n).point i)) :
    ∃ m, n ≤ m ∧ due ((h.state m).point i) < due ((h.state n).point i) := by
  obtain ⟨m, hnm, ha⟩ := hturn
  rcases Nat.lt_or_eq_of_le ((h.lowers hnm hdrains).due i) with hlt | heq
  · exact ⟨m, hnm, hlt⟩
  · exact ⟨m + 1, by omega, heffect m ha heq⟩

theorem OneStrand.falls (hdrains : h.Drains n) (hbegan : (h.state n).point i ≠ .idle)
    (hdue : due ((h.state n).point i) ≠ 0) :
    ∃ m, n ≤ m ∧ due ((h.state m).point i) < due ((h.state n).point i) := by
  by_cases hbusy : Busy ((h.state n).point i)
  · obtain ⟨ok, hok⟩ := h.strand n i hbusy
    refine ⟨n + 1, by omega, ?_⟩
    have hstep := due_advance address ok (hdrains n (Nat.le_refl n)) (hdrains.late i) hbusy
    rw [← hok] at hstep
    exact hstep
  cases hpoint : (h.state n).point i with
  | posted r =>
    rw [← hpoint]
    refine h.falls_of_turn hdrains (h.runs n i r hpoint) fun m hrun heq => ?_
    rw [hpoint] at heq ⊢
    obtain ⟨r', hr'⟩ := posted_of_due (Nat.le_of_eq heq.symm)
    have hstep := due_run address hr'
    rw [← hrun] at hstep
    exact hstep
  | holding =>
    rw [← hpoint]
    refine h.falls_of_turn hdrains (h.unlocks n i hpoint) fun m hunlock heq => ?_
    rw [hpoint] at heq ⊢
    have hstep := due_unlock address (holding_of_due heq)
    rw [← hunlock] at hstep
    exact hstep
  | _ => simp_all [Busy]

theorem OneStrand.ended {n i : ℕ} (hdrains : h.Drains n) (hbegan : (h.state n).point i ≠ .idle) :
    ∃ m, n ≤ m ∧ (h.state m).point i = .done := by
  obtain ⟨m, hm, hzero⟩ := exists_of_descent
    (P := fun j => due ((h.state j).point i) = 0)
    (fun j => due ((h.state j).point i)) fun j hj hne =>
      h.falls (hdrains.mono hj) (fun hidle => hbegan ((h.lowers hj hdrains).idle i hidle)) hne
  exact ⟨m, hm, done_of_due hzero ((hdrains.mono hm).late i)⟩

theorem length_lt_of_sublist {small big : List ℕ} (h : small.Sublist big) (hin : i ∈ big)
    (hout : i ∉ small) : small.length < big.length := by
  refine Nat.lt_of_le_of_ne h.length_le fun heq => hout ?_
  rwa [h.eq_of_length heq]

theorem OneStrand.resumer_ends (hdrains : h.Drains n) (hin : i ∈ (h.state n).resumers) :
    ∃ m, n ≤ m ∧ (h.state m).resumers.length < (h.state n).resumers.length := by
  obtain ⟨m, hnm, hrun⟩ : ∃ m, n ≤ m ∧ due ((h.state m).point i) < 6 := by
    by_cases hposted : ∃ r, (h.state n).point i = .posted r
    · obtain ⟨r, hr⟩ := hposted
      have hfalls := h.falls hdrains (i := i) (by simp [hr]) (by simp [hr])
      rwa [hr] at hfalls
    · exact ⟨n, Nat.le_refl n, by_contra fun hge => hposted (posted_of_due (by omega))⟩
  by_cases hleft : i ∈ (h.state m).resumers
  · obtain ⟨t, hmt, hend⟩ := h.ends m i hleft
    by_cases hlast : i ∈ (h.state t).resumers
    · refine ⟨t + 1, by omega, ?_⟩
      have hle := (h.lowers (Nat.le_trans hnm hmt) hdrains).resumers.length_le
      have hnot : ∀ r, (h.state t).point i ≠ .posted r := by
        intro r hr
        have hdue := (h.lowers hmt (hdrains.mono hnm)).due i
        rw [hr] at hdue
        change 6 ≤ _ at hdue
        omega
      have hstep : (h.state (t + 1)).resumers = (h.state t).resumers.erase i := by
        change ((h.state t).step address (schedule t)).1.resumers = _
        rw [hend]
        exact resumers_endRun address hnot hlast
      rw [hstep, length_erase_of_mem hlast]
      have hpos := length_pos_of_mem hlast
      omega
    · exact ⟨t, Nat.le_trans hnm hmt,
        length_lt_of_sublist (h.lowers (Nat.le_trans hnm hmt) hdrains).resumers hin hlast⟩
  · exact ⟨m, hnm, length_lt_of_sublist (h.lowers hnm hdrains).resumers hin hleft⟩

theorem OneStrand.no_resumers (hdrains : h.Drains n) : ∃ m, n ≤ m ∧ (h.state m).resumers = [] := by
  refine exists_of_descent (fun j => (h.state j).resumers.length) fun j hj hne => ?_
  obtain ⟨i, hi⟩ := exists_mem_of_ne_nil _ hne
  exact h.resumer_ends (hdrains.mono hj) hi

theorem OneStrand.vacated (hdrains : h.Drains n) :
    ∃ m, n ≤ m ∧ ∀ j, m ≤ j → (h.state j).resumers = [] ∧ ∀ i, ¬ Token ((h.state j).point i) := by
  obtain ⟨m, hnm, hempty⟩ := h.no_resumers hdrains
  replace hdrains := hdrains.mono hnm
  have hresumers : ∀ j, m ≤ j → (h.state j).resumers = [] := fun j hj =>
    sublist_nil.mp (hempty ▸ (h.lowers hj hdrains).resumers)
  obtain ⟨owner, hsim⟩ := (h.tracked m).2.sim
  -- a token at a later time was there before, for nothing is posted any more
  have hback : ∀ j, m ≤ j → ∀ i, Token ((h.state j).point i) → Token ((h.state m).point i) := by
    intro j hj i htoken
    have hdue := Nat.le_trans (due_of_token ((hdrains.mono hj).late i) htoken)
      ((h.lowers hj hdrains).due i)
    cases hpoint : (h.state m).point i with
    | posted r =>
      have hin := (h.tracked m).2.flights.posted i r hpoint
      rw [hempty] at hin
      cases hin
    | _ => simp_all [Token]
  cases owner with
  | none =>
    refine ⟨m, hnm, fun j hj => ⟨hresumers j hj, fun i htoken => ?_⟩⟩
    have := (hsim.token i).mp (hback j hj i htoken)
    cases this
  | some o =>
    have htoken := (hsim.token o).mpr rfl
    obtain ⟨t, hmt, hdone⟩ := h.ended (i := o) hdrains fun hidle => by simp [hidle, Token] at htoken
    refine ⟨t, Nat.le_trans hnm hmt, fun j hj => ⟨hresumers j (Nat.le_trans hmt hj),
      fun i hi => ?_⟩⟩
    obtain rfl : o = i := by
      simpa using (hsim.token i).mp (hback j (Nat.le_trans hmt hj) i hi)
    have hdue := (h.lowers hj (hdrains.mono hmt)).due o
    have htwo := due_of_token ((hdrains.mono (Nat.le_trans hmt hj)).late o) hi
    rw [hdone] at hdue
    change _ ≤ 0 at hdue
    omega

/-! ## The end -/

/-- The mutex is free, nobody holds it, no resumption is outstanding and the lists are
empty. -/
structure Vacant (s : MutexSystem) : Prop where
  word : s.word = .notLocked
  residual : s.residual = []
  holders : s.activeHolders = 0
  inFlight : s.inFlight = 0
  resumers : s.resumers = []
  point : ∀ i, s.point i = .idle ∨ s.point i = .done

theorem drainPass_outcome (s : MutexSystem) (k : ℕ) : .drainReturned k ∈ (s.drainPass k).2 ∧
        (s.drainPass k).1 = { s with
          word := .notLocked
          residual := []
          drainingComplete := true
          drains := Function.update s.drains k .returned } ∧
        s.activeHolders = 0 ∧ s.inFlight = 0 ∨
      (s.drainPass k).1.drains k = .yielding ∧
        ¬ (s.activeHolders = 0 ∧ s.inFlight = 0 ∧ s.word.waiters = [] ∧ s.residual = []) := by
  by_cases hchain : s.word.waiters = [] ∧ s.residual = []
  · simp only [drainPass_eq, passEnd, hchain.1, hchain.2, reverse_nil, append_nil,
      reapChain, nil_append]
    by_cases hzero : s.activeHolders = 0 ∧ s.inFlight = 0
    · simp [hzero.1, hzero.2]
    · exact .inr ⟨by simp [hzero], fun h => hzero ⟨h.1, h.2.1⟩⟩
  · refine .inr ⟨?_, fun h => hchain h.2.2⟩
    have hne : s.word.waiters.reverse ++ s.residual ≠ [] := by simpa using hchain
    simp [drainPass_eq, passEnd, hne]

def Finishes (address : ℕ → ℕ) (schedule : ℕ → MutexAction) (k n : ℕ) : Prop :=
  .drainReturned k ∈ ((upTo address schedule n).1.step address (schedule n)).2 ∧
    Vacant (upTo address schedule (n + 1)).1

theorem OneStrand.finishes_or_yields (hdrain : schedule n = .drain k)
    (hpoint : t.point = (h.state n).point) (hdraining : t.draining = true)
    (hstep : ∃ events, (h.state n).drainStep k = ((t.drainPass k).1, events ++ (t.drainPass k).2)) :
    Finishes address schedule k n ∨ (upTo address schedule (n + 1)).1.drains k = .yielding ∧
      ¬ (t.activeHolders = 0 ∧ t.inFlight = 0 ∧ t.word.waiters = [] ∧ t.residual = []) := by
  obtain ⟨events, hstep⟩ := hstep
  have hout : (h.state n).step address (schedule n) =
      ((t.drainPass k).1, events ++ (t.drainPass k).2) := by
    rw [hdrain]
    exact hstep
  have hstate : (upTo address schedule (n + 1)).1 = (t.drainPass k).1 := by
    change ((h.state n).step address (schedule n)).1 = _
    rw [hout]
  rw [Finishes, hout, hstate]
  obtain ⟨hreturned, hpass, hholders, hinFlight⟩ | hyields := drainPass_outcome t k
  · refine .inl ⟨mem_append_right _ hreturned, ?_⟩
    have htracked := (h.tracked (n + 1)).2
    obtain ⟨owner, hsim⟩ := htracked.sim
    have hflights := htracked.flights
    rw [hstate, hpass] at hsim hflights
    have hquiet : ∀ i, ¬ Busy (t.point i) := by
      rw [hpoint]
      exact (h.strand n).apt k hdrain
    obtain ⟨-, -, hrest⟩ := hsim.settled hdraining hquiet hflights hholders hinFlight
    rw [hpass]
    exact ⟨rfl, rfl, hholders, hinFlight,
      length_eq_zero_iff.mp (hflights.count.symm.trans hinFlight), hrest⟩
  · exact .inr hyields

theorem OneStrand.yields (hnever : ∀ n, ¬ Finishes address schedule k n) (n : ℕ)
    (hk : (fairLock.run {} (upTo address schedule n).2).drainer = some k) :
    (h.state n).drains k = .yielding := by
  induction n with
  | zero => cases hk
  | succ n ih =>
    obtain ⟨-, htracked⟩ := h.tracked n
    obtain ⟨hacc, hnext⟩ := htracked.step address (h.strand n).apt
    rw [show (upTo address schedule (n + 1)).2 = (upTo address schedule n).2 ++
      ((h.state n).step address (schedule n)).2 from rfl, fairLock.run_append] at hk
    by_cases ha : ∃ i, schedule n = .drain i
    · obtain ⟨i, hi⟩ := ha
      cases hbefore : (fairLock.run {} (upTo address schedule n).2).drainer with
      | some j =>
        obtain rfl : j = k := by simpa using (drainer_kept hacc hbefore).symm.trans hk
        have hyields := ih hbefore
        by_cases hij : j = i
        · subst hij
          have hdraining := h.draining_of_drainer hbefore
          refine ((h.finishes_or_yields hi rfl hdraining ⟨[], ?_⟩).resolve_left (hnever n)).1
          simp [drainStep, hyields]
        · change ((h.state n).step address (schedule n)).1.drains j = .yielding
          rw [hi]
          exact (drains_drainStep_of_ne hij).trans hyields
      | none =>
        rw [hi] at hacc hk
        obtain ⟨rfl, hfirst⟩ := firstPass_of_elected htracked hbefore hacc hk
        have hout := h.finishes_or_yields (t := { h.state n with
            drainInProgress := true, draining := true }) hi rfl rfl ⟨[.drainStarted i], hfirst⟩
        exact (hout.resolve_left (hnever n)).1
    · have hsame := sameDrains_step address (s := h.state n)
        fun i hi => ha ⟨i, hi⟩
      obtain ⟨owner, hsim⟩ := htracked.sim
      obtain ⟨owner', hsim'⟩ := hnext.sim
      have hdraining : (h.state n).draining = true := by
        rw [← hsame.1]
        exact hsim'.drainer.mp (by simp [hk])
      obtain ⟨j, hj⟩ := Option.ne_none_iff_exists'.mp (hsim.drainer.mpr hdraining)
      obtain rfl : j = k := by simpa using (drainer_kept hacc hj).symm.trans hk
      change ((h.state n).step address (schedule n)).1.drains j = .yielding
      rw [hsame.2.2.2]
      exact ih hj

theorem OneStrand.finishes (h : OneStrand address schedule)
    (hstarted : .drainStarted k ∈ (upTo address schedule n).2) :
    ∃ m, Finishes address schedule k m := by
  by_contra hnot
  have hnever : ∀ m, ¬ Finishes address schedule k m := fun m hm => hnot ⟨m, hm⟩
  have hk : ∀ j, n ≤ j → (fairLock.run {} (upTo address schedule j).2).drainer = some k :=
    fun j hj => drainer_of_started (h.tracked j).1 (log_mono hj hstarted)
  obtain ⟨m, hnm, hvacated⟩ := h.vacated fun j hj => h.draining_of_drainer (hk j hj)
  obtain ⟨t, hmt, hturn⟩ := h.resumes m k (h.yields hnever m (hk m hnm))
  have hnt := Nat.le_trans hnm hmt
  have hyields := h.yields hnever t (hk t hnt)
  have hdraining := h.draining_of_drainer (hk t hnt)
  obtain ⟨hresumers, htokens⟩ := hvacated t hmt
  obtain ⟨⟨owner, hsim⟩, hflights, -⟩ := (h.tracked t).2
  obtain ⟨-, hresidual, hwaiters, -⟩ := hsim.late hdraining
  have hholders : (h.state t).activeHolders = 0 := by
    rw [hsim.holders]
    cases owner with
    | none => rfl
    | some o => exact absurd ((hsim.token o).mpr rfl) (htokens o)
  have hinFlight : (h.state t).inFlight = 0 := by
    rw [hflights.count, hresumers]
    rfl
  obtain hfinishes | ⟨-, hleft⟩ := h.finishes_or_yields hturn rfl hdraining
    ⟨[], by simp [drainStep, hyields]⟩
  · exact hnever t hfinishes
  · exact hleft ⟨hholders, hinFlight, hwaiters, hresidual⟩

/-- On one strand, under every schedule that runs what was posted, lets every holder unlock and
comes back to a drain that yields: a drain that began returns and leaves the mutex free; every
attempt is answered exactly once; behind the start of the drain nobody is granted; and another call
of the drain returns only behind it. -/
theorem drain_returns_vacant (h : OneStrand address schedule) {n k : ℕ}
    (hstarted : .drainStarted k ∈ (upTo address schedule n).2) :
    (∃ m, .drainReturned k ∈ ((upTo address schedule m).1.step address (schedule m)).2 ∧
      Vacant (upTo address schedule (m + 1)).1) ∧
    (∀ i j, .started i ∈ (upTo address schedule j).2 →
      ∃ m, (upTo address schedule m).2.countP (FairLock.answers i) = 1) ∧
    (∀ i m, (upTo address schedule m).2.countP (FairLock.answers i) ≤ 1) ∧
    (∀ m first rest i, (upTo address schedule m).2 = first ++ .drainStarted k :: rest →
      .granted i ∉ rest) ∧
    (∀ m first rest j, (upTo address schedule m).2 = first ++ .drainReturned j :: rest → j ≠ k →
      .drainReturned k ∈ first) := by
  have honce : ∀ i m, (upTo address schedule m).2.countP (answers i) ≤ 1 := fun i m =>
    countP_answers_le_one i (h.tracked m).1
  refine ⟨h.finishes hstarted, fun i j hi => ?_, honce, fun m first rest i hlog => ?_,
    fun m first rest j hlog hne => ?_⟩
  · have hin : .started i ∈ (upTo address schedule (max n j)).2 := log_mono (Nat.le_max_right n j) hi
    obtain ⟨hacc, htracked⟩ := h.tracked (max n j)
    obtain ⟨owner, hsim⟩ := htracked.sim
    have hbegan : (upTo address schedule (max n j)).1.point i ≠ .idle := by
      intro hidle
      have hknown := ticket_ne_unused hacc hin
      rw [hsim.ticket, hidle] at hknown
      exact hknown rfl
    have hdrains : h.Drains (max n j) := fun m hm =>
      h.draining_of_drainer (drainer_of_started (h.tracked m).1
        (log_mono (Nat.le_trans (Nat.le_max_left n j) hm) hstarted))
    obtain ⟨m, -, hdone⟩ := h.ended hdrains hbegan
    obtain ⟨hacc', htracked'⟩ := h.tracked m
    obtain ⟨owner', hsim'⟩ := htracked'.sim
    refine ⟨m, Nat.le_antisymm (honce i m) (countP_answers_pos hacc' ?_)⟩
    rw [hsim'.ticket, hdone]
    rfl
  · have hacc := (h.tracked m).1
    rw [hlog] at hacc
    exact not_granted_of_drain i hacc
  obtain ⟨more, hmore⟩ := log_extends (step address) {} schedule (Nat.le_max_right n m)
  have hlater : (upTo address schedule (max n m)).2 =
      first ++ .drainReturned j :: (rest ++ more) := by
    rw [← hmore, hlog, append_assoc, cons_append]
  have hacc := (h.tracked (max n m)).1
  have hin := log_mono (Nat.le_max_left n m) hstarted
  rw [hlater] at hacc hin
  exact returned_behind_drainer hacc hin hne

/-- One attempt holds the guard and one waits when a drain begins; a third one comes
later. Behind the end of the drain nothing happens any more. -/
def drainedActions : List MutexAction :=
  MutexAction.call 0 :: replicate 3 (.advance 0 true) ++
    MutexAction.call 1 :: replicate 7 (.advance 1 true) ++
    [MutexAction.drain 7, .call 2, .advance 2 true, .run 1, .endRun 1, .unlock 0] ++
    replicate 3 (MutexAction.advance 0 true) ++ [MutexAction.drain 7]

def drainedSchedule (n : ℕ) : MutexAction := drainedActions.getD n (.cancel 0)

theorem log_drained : (upTo id drainedSchedule 22).2 =
    [.started 0, .granted 0, .completed 0 .guard, .started 1, .queued 1, .drainStarted 7,
      .cancelled 1, .started 2, .completed 2 .drained, .completed 1 .aborted, .released 0,
      .freed 0, .drainReturned 7] := by
  decide +kernel

theorem upTo_drained (h : 22 ≤ n) : upTo id drainedSchedule n = upTo id drainedSchedule 22 := by
  induction n, h using Nat.le_induction with
  | base => rfl
  | succ n hn ih =>
    have hidle : drainedSchedule n = .cancel 0 := by
      simp [drainedSchedule, getElem?_eq_none (show drainedActions.length ≤ n from hn)]
    have hdone : (upTo id drainedSchedule 22).1.point 0 ≠ .queued := by decide +kernel
    rw [upTo, runFor, ← upTo, ih, hidle]
    simp [step, onCancel, hdone]

instance : DecidablePred Busy := fun p => by
  unfold Busy
  split <;> infer_instance

theorem turns_drained : ∀ n ∈ range 22, (∀ i ∈ range 3,
      (Busy ((upTo id drainedSchedule n).1.point i) → drainedSchedule n = .advance i true) ∧
      (due ((upTo id drainedSchedule n).1.point i) = 6 →
        ∃ m ∈ range 22, n ≤ m ∧ drainedSchedule m = .run i) ∧
      (due ((upTo id drainedSchedule n).1.point i) = 5 →
        ∃ m ∈ range 22, n ≤ m ∧ drainedSchedule m = .unlock i)) ∧
    (∀ i ∈ (upTo id drainedSchedule n).1.resumers,
      ∃ m ∈ range 22, n ≤ m ∧ drainedSchedule m = .endRun i) ∧
    ∃ m ∈ range 22, n ≤ m ∧ drainedSchedule m = .drain 7 := by
  decide +kernel

theorem rests_drained : (∀ i ∈ range 3, (upTo id drainedSchedule 22).1.point i = .done) ∧
    (upTo id drainedSchedule 22).1.resumers = [] ∧
    (upTo id drainedSchedule 22).1.drains 7 = .returned := by
  decide +kernel

theorem idle_drained (hi : 3 ≤ i)
    (hstrand : ∀ j, j < n → OnStrand (upTo id drainedSchedule j).1 (drainedSchedule j)) :
    (upTo id drainedSchedule n).1.point i = .idle := by
  obtain ⟨hacc, htracked⟩ := tracked_upTo n hstrand
  obtain ⟨owner, hsim⟩ := htracked.sim
  refine hsim.idle_of_not_started hacc fun hin => ?_
  have hin' : .started i ∈ (upTo id drainedSchedule 22).2 := by
    rcases Nat.le_total n 22 with hle | hge
    · exact log_mono hle hin
    · rwa [upTo_drained hge] at hin
  have hsmall : i = 0 ∨ i = 1 ∨ i = 2 := by simpa [log_drained] using hin'
  omega

theorem strand_drained (n : ℕ) : OnStrand (upTo id drainedSchedule n).1 (drainedSchedule n) := by
  induction n using Nat.strong_induction_on with
  | _ n ih =>
    intro i hbusy
    rcases Nat.lt_or_ge i 3 with hi | hi
    · rcases Nat.lt_or_ge n 22 with hn | hn
      · exact ⟨true, ((turns_drained n (by simp [hn])).1 i (by simp [hi])).1 hbusy⟩
      rw [upTo_drained hn, rests_drained.1 i (by simp [hi])] at hbusy
      exact hbusy.elim
    · rw [idle_drained hi ih] at hbusy
      exact hbusy.elim

theorem active_drained (hidle : (upTo id drainedSchedule n).1.point i ≠ .idle)
    (hdone : (upTo id drainedSchedule n).1.point i ≠ .done) : n ∈ range 22 ∧ i ∈ range 3 := by
  have hi : i < 3 := by_contra fun hge =>
    hidle (idle_drained (Nat.le_of_not_lt hge) fun j _ => strand_drained j)
  have hn : n < 22 := by_contra fun hge => hdone (by
    rw [upTo_drained (Nat.le_of_not_lt hge)]
    exact rests_drained.1 i (by simp [hi]))
  exact ⟨by simp [hn], by simp [hi]⟩

theorem drains_other (hk : k ≠ 7) : (upTo id drainedSchedule n).1.drains k = .idle := by
  induction n with
  | zero => rfl
  | succ n ih =>
    refine .trans ?_ ih
    change ((upTo id drainedSchedule n).1.step id (drainedSchedule n)).1.drains k = _
    by_cases ha : ∃ j, drainedSchedule n = .drain j
    · obtain ⟨j, hj⟩ := ha
      obtain rfl : j = 7 := by
        rw [drainedSchedule, getD_eq_getElem?_getD] at hj
        cases hat : drainedActions[n]? with
        | none => simp [hat] at hj
        | some a =>
          rw [hat, Option.getD_some] at hj
          have hin := hj ▸ mem_of_getElem? hat
          simpa [drainedActions] using hin
      rw [hj]
      exact drains_drainStep_of_ne hk
    · rw [(sameDrains_step id (s := (upTo id drainedSchedule n).1) fun j hj => ha ⟨j, hj⟩).2.2.2]

theorem oneStrand_drained : OneStrand id drainedSchedule where
  strand := strand_drained
  runs n i r hposted := by
    obtain ⟨hn, hi⟩ := active_drained (n := n) (i := i) (by simp [hposted]) (by simp [hposted])
    obtain ⟨m, -, hm⟩ := ((turns_drained n hn).1 i hi).2.1 (by rw [hposted]; rfl)
    exact ⟨m, hm⟩
  ends n i hin := by
    rcases Nat.lt_or_ge n 22 with hn | hn
    · obtain ⟨m, -, hm⟩ := (turns_drained n (by simp [hn])).2.1 i hin
      exact ⟨m, hm⟩
    rw [upTo_drained hn, rests_drained.2.1] at hin
    cases hin
  unlocks n i hholding := by
    obtain ⟨hn, hi⟩ := active_drained (n := n) (i := i) (by simp [hholding]) (by simp [hholding])
    obtain ⟨m, -, hm⟩ := ((turns_drained n hn).1 i hi).2.2 (by rw [hholding]; rfl)
    exact ⟨m, hm⟩
  resumes n k hyielding := by
    by_cases hk : k = 7
    · subst hk
      rcases Nat.lt_or_ge n 22 with hn | hn
      · obtain ⟨m, -, hm⟩ := (turns_drained n (by simp [hn])).2.2
        exact ⟨m, hm⟩
      rw [upTo_drained hn, rests_drained.2.2] at hyielding
      cases hyielding
    · rw [drains_other hk] at hyielding
      cases hyielding

theorem drain_returns_vacant_one_holder :
    (∃ m, .drainReturned 7 ∈ ((upTo id drainedSchedule m).1.step id (drainedSchedule m)).2 ∧
      Vacant (upTo id drainedSchedule (m + 1)).1) ∧
    (∃ m, (upTo id drainedSchedule m).2.countP (FairLock.answers 1) = 1) ∧
    ∃ m, (upTo id drainedSchedule m).2.countP (FairLock.answers 2) = 1 :=
  have hstarted : .drainStarted 7 ∈ (upTo id drainedSchedule 22).2 := by simp [log_drained]
  have hdrain := drain_returns_vacant oneStrand_drained hstarted
  ⟨hdrain.1, hdrain.2.1 1 22 (by simp [log_drained]), hdrain.2.1 2 22 (by simp [log_drained])⟩

end Fixpp.Analysis.Mutex
