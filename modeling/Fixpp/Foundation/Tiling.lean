import Mathlib

/-!
# Tilings

A list of pieces tiles an interval when each piece spans from where the one before it ended,
from the start of the interval to its end.
-/

namespace Fixpp.Foundation

variable {α β : Type}
variable {start stop : β} {xs : List α}

/-- The pieces span from `start` to `stop`, one after the other; `spans x a b`
says that piece `x` spans from `a` to `b`. -/
def Tiles (spans : α → β → β → Prop) (start stop : β) : List α → Prop
  | [] => start = stop
  | x :: rest => ∃ mid, spans x start mid ∧ Tiles spans mid stop rest

variable {spans : α → β → β → Prop}

section Order

variable [LinearOrder β]

theorem Tiles.le (hlt : ∀ x a b, spans x a b → a < b) (h : Tiles spans start stop xs) :
    start ≤ stop := by
  induction xs generalizing start with
  | nil => exact le_of_eq h
  | cons x rest ih =>
    obtain ⟨mid, hx, hrest⟩ := h
    exact le_trans (le_of_lt (hlt x start mid hx)) (ih hrest)

theorem Tiles.mem_iff (hlt : ∀ x a b, spans x a b → a < b)
    (hfun : ∀ x a b a' b', spans x a b → spans x a' b' → a = a' ∧ b = b')
    (h : Tiles spans start stop xs) (n : β) :
    (∃ x ∈ xs, ∃ a b, spans x a b ∧ a ≤ n ∧ n < b) ↔ start ≤ n ∧ n < stop := by
  induction xs generalizing start with
  | nil =>
    constructor
    · rintro ⟨x, hx, -⟩
      cases hx
    rintro ⟨hle, hlt'⟩
    rw [show start = stop from h] at hle
    exact absurd hlt' (not_lt_of_ge hle)
  | cons x rest ih =>
    obtain ⟨mid, hx, hrest⟩ := h
    have hstart := hlt x start mid hx
    have hstop := hrest.le hlt
    constructor
    · rintro ⟨y, hy, a, b, hspan, hlow, hhigh⟩
      rcases List.mem_cons.mp hy with rfl | hin
      · obtain ⟨rfl, rfl⟩ := hfun y _ _ _ _ hspan hx
        exact ⟨hlow, lt_of_lt_of_le hhigh hstop⟩
      obtain ⟨hmid, hend⟩ := (ih hrest).mp ⟨y, hin, a, b, hspan, hlow, hhigh⟩
      exact ⟨le_trans (le_of_lt hstart) hmid, hend⟩
    · rintro ⟨hlow, hhigh⟩
      by_cases hmid : n < mid
      · exact ⟨x, by simp, start, mid, hx, hlow, hmid⟩
      obtain ⟨y, hy, hspan⟩ := (ih hrest).mpr ⟨le_of_not_gt hmid, hhigh⟩
      exact ⟨y, by simp [hy], hspan⟩

end Order

end Fixpp.Foundation
