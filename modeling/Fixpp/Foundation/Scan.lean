import Mathlib

/-!
# Readers that cut an input into items

A reader takes one item off the front of an input that is not empty, or finds the input
malformed there. `Reader.cut` runs it to the end of the input or to the first malformed place.
Two readers that take the same item from the same input, from states they keep related, cut
every input alike (`Reader.cut_eq_of_sim`).
-/

namespace Fixpp.Foundation

variable {σ τ α β : Type}
variable {fuel : ℕ} {input rest : List β} {I : List β → σ → Prop}

/-- One item, the input behind it and the reader's next state; `none` where the
input is malformed. -/
abbrev Reader (σ α β : Type) := σ → List β → Option (α × List β × σ)

/-- What a run over an input read, and the input it stuck at, if it did. -/
@[ext] structure Cut (α β : Type) where
  items : List α
  stuck : Option (List β)
  deriving DecidableEq, Repr

def Cut.cons (item : α) (c : Cut α β) : Cut α β := ⟨item :: c.items, c.stuck⟩

@[simp] theorem Cut.items_cons (item : α) (c : Cut α β) :
    (Cut.cons item c).items = item :: c.items := rfl

@[simp] theorem Cut.stuck_cons (item : α) (c : Cut α β) : (Cut.cons item c).stuck = c.stuck := rfl

/-- The run of a reader, one round of `fuel` an item. -/
def Reader.cut (read : Reader σ α β) : ℕ → σ → List β → Cut α β
  | _, _, [] => ⟨[], none⟩
  | 0, _, _ :: _ => ⟨[], none⟩
  | fuel + 1, s, b :: input =>
    match read s (b :: input) with
    | none => ⟨[], some (b :: input)⟩
    | some (item, rest, s') => Cut.cons item (cut read fuel s' rest)

/-- Every item takes at least `k` elements of the input, up to the end of it. -/
def Reader.Takes (read : Reader σ α β) (k : ℕ) : Prop :=
  ∀ s input item rest s', read s input = some (item, rest, s') →
    rest.length + k ≤ input.length ∨ (rest = [] ∧ k ≤ input.length + 1)

section Run

variable {read : Reader σ α β}

@[simp] theorem Reader.cut_nil (fuel : ℕ) (s : σ) : read.cut fuel s [] = ⟨[], none⟩ := by
  cases fuel <;> rfl

variable {s : σ}

theorem Reader.cut_of_none {b : β} (h : read s (b :: input) = none) :
    read.cut (fuel + 1) s (b :: input) = ⟨[], some (b :: input)⟩ := by
  simp [Reader.cut, h]

theorem Reader.cut_of_some {s' : σ} {b : β} {item : α}
    (h : read s (b :: input) = some (item, rest, s')) :
    read.cut (fuel + 1) s (b :: input) = Cut.cons item (read.cut fuel s' rest) := by
  simp [Reader.cut, h]

/-- A reader whose items take at least `k` elements reads at most one item for
every `k` elements, and one more for an item the end of the input cuts short. -/
theorem Reader.Takes.length_items {k : ℕ} (h : read.Takes k) (fuel : ℕ) (s : σ) (input : List β) :
    k * (read.cut fuel s input).items.length ≤ input.length + 1 := by
  induction fuel generalizing s input with
  | zero => cases input <;> simp [Reader.cut]
  | succ fuel ih =>
    cases input with
    | nil => simp
    | cons b input =>
      cases hread : read s (b :: input) with
      | none => simp [Reader.cut_of_none hread]
      | some next =>
        obtain ⟨item, rest, s'⟩ := next
        rw [Reader.cut_of_some hread, Cut.items_cons, List.length_cons, Nat.mul_succ]
        rcases h s _ item rest s' hread with hrest | ⟨rfl, hend⟩
        · have := ih s' rest
          omega
        · simpa using hend

/-- What every item satisfies, from what the reader keeps of its input and state. -/
theorem Reader.forall_mem_cut {P : α → Prop}
    (h : ∀ s input item rest s', I input s → read s input = some (item, rest, s') →
      P item ∧ I rest s') (fuel : ℕ) (hI : I input s) :
    ∀ item ∈ (read.cut fuel s input).items, P item := by
  induction fuel generalizing s input with
  | zero =>
    intro item hitem
    cases input <;> cases hitem
  | succ fuel ih =>
    intro item hitem
    cases input with
    | nil => cases hitem
    | cons b input =>
      cases hread : read s (b :: input) with
      | none =>
        rw [Reader.cut_of_none hread] at hitem
        cases hitem
      | some next =>
        obtain ⟨first, rest, s'⟩ := next
        obtain ⟨hP, hI'⟩ := h s _ first rest s' hI hread
        rw [Reader.cut_of_some hread, Cut.items_cons] at hitem
        rcases List.mem_cons.mp hitem with rfl | hin
        · exact hP
        · exact ih hI' item hin

/-- Where a run sticks the reader finds the input malformed, in a state it keeps. -/
theorem Reader.stuck_of_cut
    (h : ∀ s input item rest s', I input s → read s input = some (item, rest, s') → I rest s')
    (fuel : ℕ) (hI : I input s) (hstuck : (read.cut fuel s input).stuck = some rest) :
    rest ≠ [] ∧ ∃ t, I rest t ∧ read t rest = none := by
  induction fuel generalizing s input with
  | zero => cases input <;> cases hstuck
  | succ fuel ih =>
    cases input with
    | nil => cases hstuck
    | cons b input =>
      cases hread : read s (b :: input) with
      | none =>
        rw [Reader.cut_of_none hread] at hstuck
        cases hstuck
        exact ⟨List.cons_ne_nil _ _, s, hI, hread⟩
      | some next =>
        obtain ⟨item, rest', s'⟩ := next
        rw [Reader.cut_of_some hread] at hstuck
        exact ih (h s _ item rest' s' hI hread) hstuck

/-- Items written one behind the other are read back one by one, when the reader takes the first of
them from any state that `Ok` relates to what is written, and `Ok` goes on with the rest. -/
theorem Reader.cut_written {γ : Type} {write : γ → List β} {view : α → γ} {Ok : σ → List γ → Prop}
    {whole : List β} (hwrite : ∀ x, write x ≠ [])
    (h : ∀ s x xs, Ok s (x :: xs) → write x ++ xs.flatMap write <:+ whole →
      ∃ item s', read s (write x ++ xs.flatMap write) = some (item, xs.flatMap write, s') ∧
        view item = x ∧ Ok s' xs) (xs : List γ) (hok : Ok s xs) (hfuel : xs.length ≤ fuel)
    (hsuffix : xs.flatMap write <:+ whole) :
    (read.cut fuel s (xs.flatMap write)).items.map view = xs ∧
      (read.cut fuel s (xs.flatMap write)).stuck = none := by
  induction xs generalizing fuel s with
  | nil =>
    rw [List.flatMap_nil, Reader.cut_nil]
    exact ⟨rfl, rfl⟩
  | cons x xs ih =>
    rw [List.length_cons] at hfuel
    obtain ⟨fuel, rfl⟩ : ∃ m, fuel = m + 1 := ⟨fuel - 1, by omega⟩
    have hround : xs.length ≤ fuel := by omega
    rw [List.flatMap_cons] at hsuffix ⊢
    obtain ⟨item, s', hread, hview, hok'⟩ := h s x xs hok hsuffix
    obtain ⟨hitems, hstuck⟩ := ih hok' hround ((List.suffix_append _ _).trans hsuffix)
    obtain ⟨b, input, hcons⟩ := List.exists_cons_of_ne_nil
      (show write x ++ xs.flatMap write ≠ [] from
        fun hnil => hwrite x (List.append_eq_nil_iff.mp hnil).1)
    rw [hcons] at hread ⊢
    rw [Reader.cut_of_some hread, Cut.items_cons, Cut.stuck_cons, List.map_cons, hitems, hview]
    exact ⟨rfl, hstuck⟩

end Run

/-- The two readers take the same item from the same input, or both find it
malformed, from states that `R` relates over that input, and relate what is left. -/
def Reader.Agree (read : Reader σ α β) (read' : Reader τ α β) (R : List β → σ → τ → Prop) : Prop :=
  ∀ s t b input, R (b :: input) s t → (read s (b :: input) = none ∧ read' t (b :: input) = none) ∨
    ∃ item rest s' t', read s (b :: input) = some (item, rest, s') ∧
      read' t (b :: input) = some (item, rest, t') ∧ R rest s' t'

/-- Readers that agree round by round cut an input alike. -/
theorem Reader.cut_eq_of_sim {read : Reader σ α β} {read' : Reader τ α β}
    {R : List β → σ → τ → Prop} (h : read.Agree read' R) (fuel : ℕ) {s : σ} {t : τ}
    (hR : R input s t) : read.cut fuel s input = read'.cut fuel t input := by
  induction fuel generalizing s t input with
  | zero => cases input <;> rfl
  | succ fuel ih =>
    cases input with
    | nil => rw [Reader.cut_nil, Reader.cut_nil]
    | cons b input =>
      rcases h s t b input hR with ⟨hs, ht⟩ | ⟨item, rest, s', t', hs, ht, hR'⟩
      · rw [Reader.cut_of_none hs, Reader.cut_of_none ht]
      · rw [Reader.cut_of_some hs, Reader.cut_of_some ht, ih hR']

end Fixpp.Foundation
