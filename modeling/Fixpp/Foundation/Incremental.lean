import Mathlib

/-!
# Incremental scanners

A scanner consumes a buffer that grows at its end. Each step drops some of its first elements
and puts out a list of events, or waits because the buffer does not decide yet what to do.
`Scanner.stable` makes such a machine indifferent to how its input is cut: a step taken on a
buffer is the step taken on every longer one.
By `Reads.unique` two readings of one buffer that both stopped because nothing more can be decided
agree.
-/

namespace Fixpp.Foundation

/-- A machine over a growing buffer: `step s b` is `none` when `b` does not
decide the next step, and otherwise the next state, how much of `b` is dropped
and the events put out. -/
structure Scanner (σ α ω : Type) where
  /-- One step on a state and the unread buffer. -/
  step : σ → List α → Option (σ × ℕ × List ω)
  /-- A step drops no more than the buffer holds. -/
  bounded : ∀ s b s' n o, step s b = some (s', n, o) → n ≤ b.length
  /-- A step taken on a buffer is taken on every extension of it. -/
  stable : ∀ s b r c, step s b = some r → step s (b ++ c) = some r

namespace Scanner

variable {σ α ω : Type} (T : Scanner σ α ω)

/-- `Reads s b os s' b'`: some number of steps leads from state `s` with unread
buffer `b` to `s'` with `b'`, putting out `os`. -/
inductive Reads : σ → List α → List ω → σ → List α → Prop
  | done (s : σ) (b : List α) : Reads s b [] s b
  | next {s s' t : σ} {b b' : List α} {n : ℕ} {o os : List ω}
      (h : T.step s b = some (s', n, o)) (rest : Reads s' (b.drop n) os t b') :
      Reads s b (o ++ os) t b'

variable {T} {s t t' : σ} {b c c' : List α} {os os' : List ω}

theorem Reads.single {s' : σ} {n : ℕ} {o : List ω} (h : T.step s b = some (s', n, o)) :
    T.Reads s b o s' (b.drop n) := by
  have hr := Reads.next h (Reads.done s' (b.drop n))
  rwa [List.append_nil] at hr

theorem Reads.trans {u : σ} {d : List α} {ps : List ω} (h₁ : T.Reads s b os t c)
    (h₂ : T.Reads t c ps u d) : T.Reads s b (os ++ ps) u d := by
  induction h₁ with
  | done s b => exact h₂
  | next h rest ih =>
    rw [List.append_assoc]
    exact .next h (ih h₂)

theorem Reads.length_le (h : T.Reads s b os t c) : c.length ≤ b.length := by
  induction h with
  | done s b => exact Nat.le_refl _
  | next h rest ih =>
    rw [List.length_drop] at ih
    omega

/-- What was read of a buffer is read of every extension of it, and what arrives
later stands behind the unread rest. -/
theorem Reads.extend {b' : List α} (h : T.Reads s b os t b') (c : List α) :
    T.Reads s (b ++ c) os t (b' ++ c) := by
  induction h with
  | done s b => exact .done s (b ++ c)
  | next h rest ih =>
    have hn := T.bounded _ _ _ _ _ h
    refine .next (T.stable _ _ _ c h) ?_
    rwa [List.drop_append_of_le_length hn]

/-- Of two readings of one buffer, one goes on where the other ends. -/
theorem Reads.total (h : T.Reads s b os t c) (h' : T.Reads s b os' t' c') :
    (∃ ps, os' = os ++ ps ∧ T.Reads t c ps t' c') ∨
      ∃ ps, os = os' ++ ps ∧ T.Reads t' c' ps t c := by
  induction h generalizing os' with
  | done s b => exact .inl ⟨os', rfl, h'⟩
  | next h rest ih =>
    cases h' with
    | done => exact .inr ⟨_, rfl, .next h rest⟩
    | next h₂ rest₂ =>
      rw [h] at h₂
      cases h₂
      rcases ih rest₂ with ⟨ps, rfl, hps⟩ | ⟨ps, rfl, hps⟩
      · exact .inl ⟨ps, (List.append_assoc _ _ _).symm, hps⟩
      · exact .inr ⟨ps, (List.append_assoc _ _ _).symm, hps⟩

/-- A reading that ends where no step applies goes on from every other. -/
theorem Reads.of_quiet (h : T.Reads s b os t c) (h' : T.Reads s b os' t' c')
    (hq' : T.step t' c' = none) : ∃ ps, os' = os ++ ps ∧ T.Reads t c ps t' c' := by
  rcases h.total h' with hps | ⟨ps, rfl, hps⟩
  · exact hps
  cases hps with
  | done => exact ⟨[], by rw [List.append_nil, List.append_nil], .done _ _⟩
  | next hstep rest =>
    rw [hq'] at hstep
    cases hstep

/-- Two readings of one buffer that both end where no step applies are the same
reading. -/
theorem Reads.unique (h : T.Reads s b os t c) (h' : T.Reads s b os' t' c') (hq : T.step t c = none)
    (hq' : T.step t' c' = none) : os = os' ∧ t = t' ∧ c = c' := by
  obtain ⟨ps, rfl, hps⟩ := h.of_quiet h' hq'
  cases hps with
  | done => exact ⟨(List.append_nil _).symm, rfl, rfl⟩
  | next hstep rest =>
    rw [hq] at hstep
    cases hstep

/-! ## Streams of pieces -/

/-- In state `s` the scanner takes `b` off the front of every buffer. -/
def Takes (T : Scanner σ α ω) (s : σ) (b : List α) (os : List ω) : Prop :=
  ∀ tail, T.step s (b ++ tail) = some (s, b.length, os)

theorem Takes.reads (h : T.Takes s b os) (tail : List α) : T.Reads s (b ++ tail) os s tail := by
  have hr := Reads.single (h tail)
  rwa [List.drop_left] at hr

/-- Less than all of a piece decides nothing. -/
theorem Takes.quiet (h : T.Takes s b os) {rest more : List α} (hrest : rest <+: b ++ more)
    (hshort : rest.length < b.length) : T.step s rest = none := by
  obtain ⟨tail, htail⟩ := hrest
  cases hstep : T.step s rest with
  | none => rfl
  | some r =>
    have hlonger := T.stable _ _ _ tail hstep
    rw [htail, h more] at hlonger
    cases hlonger
    have hle := T.bounded _ _ _ _ _ hstep
    omega

end Scanner

/-- What has come of a stream of pieces: the first ones, and less than all of the next. -/
structure Arrived {α : Type} (pieces : List (List α)) (b : List α) (whole left : List (List α))
    (rest : List α) : Prop where
  order : pieces = whole ++ left
  split : b = whole.flatten ++ rest
  short : ∀ p ∈ left.head?, rest.length < p.length
  next : rest <+: left.flatten

theorem exists_arrived {α : Type} {pieces : List (List α)} {b : List α}
    (h : b <+: pieces.flatten) : ∃ whole left rest, Arrived pieces b whole left rest := by
  induction pieces generalizing b with
  | nil => exact ⟨[], [], b, rfl, rfl, by simp, h⟩
  | cons p pieces ih =>
    rw [List.flatten_cons] at h
    by_cases hlen : b.length < p.length
    · exact ⟨[], p :: pieces, b, rfl, rfl, by simpa using hlen, h⟩
    obtain ⟨b', rfl⟩ :=
      List.prefix_of_prefix_length_le (List.prefix_append p _) h (Nat.not_lt.mp hlen)
    obtain ⟨whole, left, rest, ha⟩ := ih ((List.prefix_append_right_inj p).mp h)
    refine ⟨p :: whole, left, rest, ?_, ?_, ha.short, ha.next⟩
    · rw [ha.order, List.cons_append]
    · rw [ha.split, List.flatten_cons, List.append_assoc]

end Fixpp.Foundation
