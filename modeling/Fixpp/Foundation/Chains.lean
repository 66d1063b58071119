import Mathlib

/-!
# Lists whose elements lean on their neighbours

Some elements of a list are bound to the one in front of them. `Anchored R bound l` says that
each of them has the neighbour it needs. A filter that takes a bound element only together with
its neighbour keeps that (`Anchored.filter`).
-/

namespace Fixpp.Foundation

variable {α β : Type*} {R : α → α → Prop} {bound : α → Prop} {p : α → Bool}

theorem isChain_and {S : α → α → Prop} {l : List α} (hR : l.IsChain R) (hS : l.IsChain S) :
    l.IsChain fun x y => R x y ∧ S x y := by
  induction l with
  | nil => exact .nil
  | cons a l ih =>
    cases l with
    | nil => exact .singleton a
    | cons b l =>
      obtain ⟨hab, hl⟩ := List.isChain_cons_cons.mp hR
      obtain ⟨hab', hl'⟩ := List.isChain_cons_cons.mp hS
      exact List.isChain_cons_cons.mpr ⟨⟨hab, hab'⟩, ih hl hl'⟩

/-- Every bound element stands behind one it is tied to. -/
structure Anchored (R : α → α → Prop) (bound : α → Prop) (l : List α) : Prop where
  head : ∀ y ∈ l.head?, ¬bound y
  chain : l.IsChain fun x y => bound y → R x y

namespace Anchored

theorem nil : Anchored R bound ([] : List α) := ⟨(fun _ hy => nomatch hy), .nil⟩

variable {l : List α}

theorem cons_iff {a : α} :
    Anchored R bound (a :: l) ↔ ¬bound a ∧ (a :: l).IsChain fun x y => bound y → R x y :=
  ⟨fun h => ⟨h.head a rfl, h.chain⟩, fun h => ⟨fun y hy => by cases hy; exact h.1, h.2⟩⟩

theorem isChain_cons (h : Anchored R bound l) (d : α) :
    (d :: l).IsChain fun x y => bound y → R x y := by
  cases l with
  | nil => exact .singleton d
  | cons a l => exact List.isChain_cons_cons.mpr ⟨fun hb => absurd hb (h.head a rfl), h.chain⟩

theorem append {l₁ l₂ : List α} (h₁ : Anchored R bound l₁) (h₂ : Anchored R bound l₂) :
    Anchored R bound (l₁ ++ l₂) := by
  cases l₁ with
  | nil => exact h₂
  | cons a l₁ =>
    rw [List.cons_append, cons_iff, ← List.cons_append, List.isChain_append]
    refine ⟨h₁.head a rfl, h₁.chain, h₂.chain, fun x _ y hy hb => ?_⟩
    exact absurd hb (h₂.head y hy)

theorem of_forall_not (h : ∀ y ∈ l, ¬bound y) : Anchored R bound l := by
  induction l with
  | nil => exact nil
  | cons a l ih =>
    have hl := ih fun y hy => h y (List.mem_cons_of_mem _ hy)
    exact cons_iff.mpr ⟨h a List.mem_cons_self, hl.isChain_cons a⟩

theorem map {S : β → β → Prop} {tied : β → Prop} {f : α → β}
    (h : Anchored (fun x y => S (f x) (f y)) (fun x => tied (f x)) l) :
    Anchored S tied (l.map f) := by
  refine ⟨fun y hy => ?_, ?_⟩
  · rw [List.head?_map, Option.mem_def, Option.map_eq_some_iff] at hy
    obtain ⟨x, hx, rfl⟩ := hy
    exact h.head x hx
  · rw [List.isChain_map]
    exact h.chain

/-- `a` stands in front of the list; what the filter takes of the list is anchored, unless
its first element leans on `a`. -/
theorem filter_behind {a : α}
    (h : (a :: l).IsChain fun x y => bound y → R x y ∧ (p y = true → p x = true)) :
    (p a = true → (a :: l.filter p).IsChain fun x y => bound y → R x y) ∧
      (p a = false → Anchored R bound (l.filter p)) := by
  induction l generalizing a with
  | nil => exact ⟨fun _ => .singleton a, fun _ => nil⟩
  | cons b l ih =>
    obtain ⟨hb, hl⟩ := List.isChain_cons_cons.mp h
    cases hp : p b with
    | false =>
      rw [List.filter_cons_of_neg (by rw [hp]; decide)]
      have hkept := (ih hl).2 hp
      exact ⟨fun _ => hkept.isChain_cons a, fun _ => hkept⟩
    | true =>
      rw [List.filter_cons_of_pos hp]
      refine ⟨fun _ => List.isChain_cons_cons.mpr ⟨fun hbound => (hb hbound).1, (ih hl).1 hp⟩,
        fun ha => cons_iff.mpr ⟨fun hbound => ?_, (ih hl).1 hp⟩⟩
      have htrue := (hb hbound).2 hp
      rw [ha] at htrue
      cases htrue

theorem filter (h : Anchored (fun x y => R x y ∧ (p y = true → p x = true)) bound l) :
    Anchored R bound (l.filter p) := by
  cases l with
  | nil => exact nil
  | cons a l =>
    obtain ⟨ha, hl⟩ := cons_iff.mp h
    cases hp : p a with
    | false =>
      rw [List.filter_cons_of_neg (by rw [hp]; decide)]
      exact (filter_behind hl).2 hp
    | true =>
      rw [List.filter_cons_of_pos hp, cons_iff]
      exact ⟨ha, (filter_behind hl).1 hp⟩

end Anchored

/-! ## Chains of a relation -/

section

open Relation

variable {l : List α} {a b x : α}

theorem nodup_of_isChain (h : l.IsChain R) (hacyclic : ∀ a ∈ l, ¬TransGen R a a) : l.Nodup := by
  have hpair : l.Pairwise (TransGen R) := (h.imp fun _ _ => TransGen.single).pairwise
  apply hpair.imp_of_mem
  rintro a b ha - hab rfl
  exact hacyclic a ha hab

theorem not_transGen_of_acc (h : Acc R a) : ¬TransGen R a a := by
  have hacc := h.transGen
  clear h
  induction hacc with
  | intro a _ ih =>
    intro haa
    exact ih a haa haa

variable (hR : Relator.LeftUnique R) (h : (x :: l).IsChain R)
include hR h

theorem mem_of_rel_mem (ha : a ∈ l) (hba : R b a) : b ∈ x :: l := by
  induction l generalizing x with
  | nil => cases ha
  | cons y l ih =>
    obtain ⟨hxy, hl⟩ := List.isChain_cons_cons.mp h
    obtain rfl | ha := List.mem_cons.mp ha
    · rw [hR hba hxy]
      exact List.mem_cons_self
    · exact List.mem_cons_of_mem x (ih hl ha)

theorem acc_of_isChain (hx : Acc R x) (ha : a ∈ x :: l) : Acc R a := by
  induction l generalizing x with
  | nil => rwa [List.mem_singleton.mp ha]
  | cons y l ih =>
    obtain ⟨hxy, hl⟩ := List.isChain_cons_cons.mp h
    obtain rfl | ha := List.mem_cons.mp ha
    · exact hx
    · exact ih hl ⟨y, fun z hz => hR hxy hz ▸ hx⟩ ha

end

end Fixpp.Foundation
