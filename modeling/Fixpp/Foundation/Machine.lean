import Fixpp.Foundation.Traced

/-!
# Machines that show events

An invariant between an observer and the state, kept by each step, makes every run of a machine
acceptable to the observer. Two observers of general use: one that wants the numbers it sees to
rise between resets, and one that judges each event by all events before it.
-/

namespace Fixpp.Foundation

variable {σ α ε μ : Type}
variable {e e' : ε} {I : μ → σ → Prop} {kind : ε → Bool} {first rest log : List ε}

/-- The steps of a list, one after the other, and the events they show. -/
def runSteps (step : σ → α → σ × List ε) (s : σ) : List α → σ × List ε
  | [] => (s, [])
  | a :: rest =>
    let here := step s a
    let later := runSteps step here.1 rest
    (later.1, here.2 ++ later.2)

@[simp] theorem runSteps_append (step : σ → α → σ × List ε) (s : σ) (first rest : List α) :
    runSteps step s (first ++ rest) = ((runSteps step (runSteps step s first).1 rest).1,
        (runSteps step s first).2 ++ (runSteps step (runSteps step s first).1 rest).2) := by
  induction first generalizing s with
  | nil => rfl
  | cons a first ih => simp [runSteps, ih]

/-- Every action of a run meets the guard in the state it is taken in. -/
def Guarded (step : σ → α → σ × List ε) (G : σ → α → Prop) : σ → List α → Prop
  | _, [] => True
  | s, a :: rest => G s a ∧ Guarded step G (step s a).1 rest

instance Guarded.decidable (step : σ → α → σ × List ε) (G : σ → α → Prop)
    [∀ s a, Decidable (G s a)] : ∀ s steps, Decidable (Guarded step G s steps)
  | _, [] => inferInstanceAs (Decidable True)
  | s, a :: rest =>
    have := Guarded.decidable step G (step s a).1 rest
    inferInstanceAs (Decidable (G s a ∧ _))

variable {step : σ → α → σ × List ε} {G : σ → α → Prop}

/-- An event of a run comes from one of its steps. -/
theorem runSteps_split : ∀ {steps : List α} {s : σ} {first rest : List ε},
      (runSteps step s steps).2 = first ++ e :: rest →
      ∃ before a after mid mid', steps = before ++ a :: after ∧
        first = (runSteps step s before).2 ++ mid ∧
        (step (runSteps step s before).1 a).2 = mid ++ e :: mid'
  | [], _, _, _, h => by simp [runSteps] at h
  | a :: steps, s, first, rest, h => by
    rcases List.append_eq_append_iff.mp h with ⟨mid, hfirst, hlater⟩ | ⟨mid, hhere, hmid⟩
    · obtain ⟨before, b, after, m, m', rfl, rfl, hstep⟩ := runSteps_split hlater
      exact ⟨a :: before, b, after, m, m', rfl, by simp [runSteps, hfirst], hstep⟩
    cases mid with
    | nil =>
      have hlater : (runSteps step (step s a).1 steps).2 = [] ++ e :: rest := by
        simpa using hmid.symm
      obtain ⟨before, b, after, m, m', rfl, hm, hstep⟩ := runSteps_split hlater
      have hnil := List.append_eq_nil_iff.mp hm.symm
      refine ⟨a :: before, b, after, m, m', rfl, ?_, hstep⟩
      simpa [runSteps, hnil] using hhere.symm
    | cons e' mid' =>
      obtain ⟨rfl, -⟩ := List.cons.inj hmid
      exact ⟨[], a, steps, first, mid', rfl, rfl, hhere⟩

/-- A guard that holds in every state that an invariant describes. -/
theorem guarded_of_invariant {I : σ → List α → Prop}
    (hstep : ∀ s a rest, I s (a :: rest) → G s a ∧ I (step s a).1 rest) :
    ∀ (steps : List α) (s : σ), I s steps → Guarded step G s steps
  | [], _, _ => trivial
  | a :: rest, s, hI => ⟨(hstep s a rest hI).1, guarded_of_invariant hstep rest _ (hstep s a rest hI).2⟩

theorem Guarded.append : ∀ {first rest : List α} {s : σ}, Guarded step G s (first ++ rest) →
      Guarded step G s first ∧ Guarded step G (runSteps step s first).1 rest
  | [], _, _, h => ⟨trivial, h⟩
  | _ :: _, _, _, h => ⟨⟨h.1, h.2.append.1⟩, h.2.append.2⟩

/-- What every guarded step keeps, every guarded run keeps: the observer accepts
the events and the invariant holds at the end. -/
theorem accepts_runSteps_guarded (M : Monitor ε μ)
    (hstep : ∀ m s a, I m s → G s a → M.Accepts m (step s a).2 ∧ I (M.run m (step s a).2) (step s a).1)
    (steps : List α) :
    ∀ m s, I m s → Guarded step G s steps → M.Accepts m (runSteps step s steps).2 ∧
        I (M.run m (runSteps step s steps).2) (runSteps step s steps).1 := by
  induction steps with
  | nil => exact fun m s hI _ => ⟨trivial, hI⟩
  | cons a rest ih =>
    intro m s hI hG
    obtain ⟨hacc, hI'⟩ := hstep m s a hI hG.1
    obtain ⟨hacc', hI''⟩ := ih _ _ hI' hG.2
    refine ⟨?_, ?_⟩
    · exact (M.accepts_append m _ _).mpr ⟨hacc, hacc'⟩
    · simpa [runSteps] using hI''

/-- The same for a guard on the actions alone. -/
theorem accepts_runSteps (M : Monitor ε μ) {A : α → Prop}
    (hstep : ∀ m s a, I m s → A a → M.Accepts m (step s a).2 ∧ I (M.run m (step s a).2) (step s a).1)
    (steps : List α) (m : μ) (s : σ) (hI : I m s) (hA : ∀ a ∈ steps, A a) :
    M.Accepts m (runSteps step s steps).2 ∧
      I (M.run m (runSteps step s steps).2) (runSteps step s steps).1 := by
  have hguarded : Guarded step (fun _ a => A a) s steps := by
    refine guarded_of_invariant (I := fun _ rest => ∀ a ∈ rest, A a) ?_ steps s hA
    exact fun _ a rest h => ⟨h a (by simp), fun b hb => h b (by simp [hb])⟩
  exact accepts_runSteps_guarded M hstep steps m s hI hguarded

namespace Monitor

/-- An event of a kind that spends something which never comes back comes at most
once. -/
theorem countP_le_one {M : Monitor ε μ} (spent : μ → Prop)
    (hspends : ∀ m e, M.allows m e → kind e → ¬ spent m ∧ spent (M.next m e))
    (hkeeps : ∀ m e, M.allows m e → spent m → spent (M.next m e)) :
    ∀ {log : List ε} {m : μ}, M.Accepts m log → log.countP kind ≤ 1 := by
  have hnone : ∀ (log : List ε) (m : μ), spent m → M.Accepts m log → log.countP kind = 0 := by
    intro log
    induction log with
    | nil => simp
    | cons e rest ih =>
      intro m hspent hacc
      have hkind : ¬ kind e := fun h => (hspends m e hacc.1 h).1 hspent
      simpa [hkind] using ih _ (hkeeps m e hacc.1 hspent) hacc.2
  intro log
  induction log with
  | nil => simp
  | cons e rest ih =>
    intro m hacc
    by_cases hkind : kind e
    · simp [hkind, hnone rest _ (hspends m e hacc.1 hkind).2 hacc.2]
    · simpa [hkind] using ih hacc.2

/-! ## Rising numbers -/

/-- The numbers that events carry rise strictly until an event resets them. The
observer remembers the last number. -/
def rising (number : ε → Option ℕ) (resets : ε → Bool) : Monitor ε (Option ℕ) where
  next last e := if resets e then none else (number e).or last
  allows last e := ∀ m n, last = some m → number e = some n → m < n

variable {number : ε → Option ℕ} {resets : ε → Bool}

theorem rising_last (events : List ε) (m : ℕ) (hnone : ∀ e ∈ events, resets e = false)
    (hacc : (rising number resets).Accepts (some m) events) :
    ∃ k, (rising number resets).run (some m) events = some k ∧ m ≤ k := by
  have hkeep := run_preserves (M := rising number resets)
    (I := fun last => ∃ k, last = some k ∧ m ≤ k) (A := fun e => resets e = false)
  refine hkeep ?_ events (some m) ⟨m, rfl, Nat.le_refl m⟩ hacc hnone
  rintro _ e ⟨k, rfl, hk⟩ hreset hallow
  cases hn : number e with
  | none => exact ⟨k, by simp [rising, hreset, hn], hk⟩
  | some n =>
    have hlt : k < n := hallow k n rfl hn
    exact ⟨n, by simp [rising, hreset, hn], by omega⟩

/-- Of two numbers in an accepted list, with no reset from the first to the
second, the first is smaller. -/
theorem lt_of_rising {last : Option ℕ} {mid : List ε} {m n : ℕ}
    (hacc : (rising number resets).Accepts last (first ++ e :: (mid ++ e' :: rest)))
    (hm : number e = some m) (hn : number e' = some n) (hnone : ∀ x ∈ e :: mid, resets x = false) :
    m < n := by
  obtain ⟨-, -, htail⟩ := (accepts_append _ _ _ _).mp hacc
  obtain ⟨hmid, hallow, -⟩ := (accepts_append _ _ _ _).mp htail
  have hnext : (rising number resets).next ((rising number resets).run last first) e = some m := by
    simp [rising, hnone e (by simp), hm]
  rw [hnext] at hmid hallow
  obtain ⟨k, hrun, hk⟩ := rising_last mid m (fun x hx => hnone x (by simp [hx])) hmid
  have hlt : k < n := hallow k n hrun hn
  omega

/-! ## Judging by the past -/

/-- Each event is judged by the list of all events before it. -/
def historic (allows : List ε → ε → Prop) : Monitor ε (List ε) where
  next past e := past ++ [e]
  allows := allows

variable {allows : List ε → ε → Prop}

@[simp] theorem run_historic (past events : List ε) :
    (historic allows).run past events = past ++ events := by
  induction events generalizing past with
  | nil => simp
  | cons e rest ih =>
    rw [run_cons, ih]
    simp [historic]

theorem allows_of_historic (hacc : (historic allows).Accepts [] (first ++ e :: rest)) :
    allows first e := by
  obtain ⟨-, hallow, -⟩ := (accepts_append _ _ _ _).mp hacc
  have hpast : allows ((historic allows).run [] first) e := hallow
  rwa [run_historic, List.nil_append] at hpast

/-- What an accepted list says about an event behind its first part. -/
theorem exists_allows_of_historic (hacc : (historic allows).Accepts [] (first ++ rest))
    (he : e ∈ rest) : ∃ mid ⊆ rest, allows (first ++ mid) e := by
  obtain ⟨mid, later, rfl⟩ := List.append_of_mem he
  rw [← List.append_assoc] at hacc
  exact ⟨mid, by simp, allows_of_historic hacc⟩

/-- An event of a kind that is only allowed without one of its kind in the past
comes at most once. -/
theorem countP_le_one_of_historic (hkind : ∀ past e, allows past e → kind e → ∀ e' ∈ past, ¬kind e')
    (hacc : (historic allows).Accepts [] log) : log.countP kind ≤ 1 := by
  induction log using List.reverseRecOn with
  | nil => simp
  | append_singleton past e ih =>
    have hpast := ih ((accepts_append _ _ _ _).mp hacc).1
    cases he : kind e with
    | false => simpa [he] using hpast
    | true =>
      have hnone : past.countP kind = 0 :=
        List.countP_eq_zero.mpr (hkind past e (allows_of_historic hacc) he)
      simp [hnone, he]

/-- Of two events of an accepted list the later one is allowed with the earlier
one in the past. -/
theorem allowed_later_of_historic (hacc : (historic allows).Accepts [] log) (he : e ∈ log)
    (he' : e' ∈ log) (hne : e ≠ e') :
    (∃ past, e ∈ past ∧ allows past e') ∨ ∃ past, e' ∈ past ∧ allows past e := by
  obtain ⟨before, after, rfl⟩ := List.append_of_mem he
  rcases List.mem_append.mp he' with hbefore | hcons
  · exact .inr ⟨before, hbefore, allows_of_historic hacc⟩
  have hafter : e' ∈ after := by
    rcases List.mem_cons.mp hcons with heq | hmem
    · exact absurd heq.symm hne
    · exact hmem
  obtain ⟨mid, rest, rfl⟩ := List.append_of_mem hafter
  have hsplit : before ++ e :: (mid ++ e' :: rest) = (before ++ e :: mid) ++ e' :: rest := by
    simp
  rw [hsplit] at hacc
  exact .inl ⟨before ++ e :: mid, by simp, allows_of_historic hacc⟩

end Monitor

/-! ## Endless schedules

What a prefix of an endless run shows, and the rule by which something happens at last when a
measure keeps falling until it has. -/

variable {m n : ℕ}

/-- The first steps of a schedule, and the events they show. -/
def runFor (step : σ → α → σ × List ε) (s : σ) (schedule : ℕ → α) : ℕ → σ × List ε
  | 0 => (s, [])
  | n + 1 =>
    let out := runFor step s schedule n
    let here := step out.1 (schedule n)
    (here.1, out.2 ++ here.2)

variable {s : σ} {schedule : ℕ → α}

/-- An invariant between an observer and the state makes every prefix acceptable. -/
theorem accepts_runFor (M : Monitor ε μ) {I : μ → σ → Prop} {G : σ → α → Prop}
    (hstep : ∀ m s a, I m s → G s a → M.Accepts m (step s a).2 ∧ I (M.run m (step s a).2) (step s a).1)
    {m : μ} (hI : I m s) (n : ℕ) (hG : ∀ j, j < n → G (runFor step s schedule j).1 (schedule j)) :
    M.Accepts m (runFor step s schedule n).2 ∧
      I (M.run m (runFor step s schedule n).2) (runFor step s schedule n).1 := by
  induction n with
  | zero => exact ⟨trivial, hI⟩
  | succ n ih =>
    obtain ⟨hacc, hI⟩ := ih fun j hj => hG j (Nat.lt_succ_of_lt hj)
    obtain ⟨hacc', hI'⟩ := hstep _ _ _ hI (hG n (Nat.lt_succ_self n))
    refine ⟨(M.accepts_append m _ _).mpr ⟨hacc, hacc'⟩, ?_⟩
    rw [← M.run_append] at hI'
    exact hI'

theorem log_extends (step : σ → α → σ × List ε) (s : σ) (schedule : ℕ → α) (h : n ≤ m) :
    (runFor step s schedule n).2 <+: (runFor step s schedule m).2 := by
  induction m, h using Nat.le_induction with
  | base => exact List.prefix_rfl
  | succ m _ ih => exact ih.trans (List.prefix_append _ _)

theorem log_mono (h : n ≤ m) {e : ε} (he : e ∈ (runFor step s schedule n).2) :
    e ∈ (runFor step s schedule m).2 :=
  (log_extends step s schedule h).subset he

theorem runFor_keeps {P : σ → Prop} (h : n ≤ m)
    (hstep : ∀ j, n ≤ j → P (runFor step s schedule j).1 → P (runFor step s schedule (j + 1)).1)
    (hP : P (runFor step s schedule n).1) : P (runFor step s schedule m).1 := by
  induction m, h using Nat.le_induction with
  | base => exact hP
  | succ m hm ih => exact hstep m hm ih

/-- A measure that falls again and again until the goal is reached: it is reached. -/
theorem exists_of_descent {P : ℕ → Prop} (measure : ℕ → ℕ)
    (h : ∀ j, n ≤ j → ¬ P j → ∃ m, j ≤ m ∧ measure m < measure j) : ∃ m, n ≤ m ∧ P m := by
  induction hsize : measure n using Nat.strong_induction_on generalizing n with
  | _ size ih =>
    by_cases hgoal : P n
    · exact ⟨n, Nat.le_refl n, hgoal⟩
    obtain ⟨m, hm, hlt⟩ := h n (Nat.le_refl n) hgoal
    obtain ⟨m', hm', hgoal'⟩ := ih (measure m) (hsize ▸ hlt)
      (fun j hj => h j (Nat.le_trans hm hj)) rfl
    exact ⟨m', Nat.le_trans hm hm', hgoal'⟩

end Fixpp.Foundation
