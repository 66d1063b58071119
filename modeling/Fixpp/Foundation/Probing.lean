import Mathlib

/-!
# Open addressing with bounded ways

A table of slots indexes the items `0`, `1`, … by their keys. Every key has a way, the slots to
visit for it in turn; a probe stops at the first one that is empty or has an item with the key,
or gives up at the end. The next item goes to the empty slot its probe stops at, and no slot is
ever emptied; so what a probe came upon stays where it is (`Indexes.put`).
-/

namespace Fixpp.Foundation

variable {κ : Type} [DecidableEq κ]

/-- A slot a probe for `k` stops at: there is no item with another key in it. -/
def stops (look : ℕ → Option ℕ) (key : ℕ → κ) (k : κ) (slot : ℕ) : Bool :=
  (look slot).all fun item => key item = k

def probe (look : ℕ → Option ℕ) (key : ℕ → κ) (k : κ) (way : List ℕ) : Option ℕ :=
  way.find? (stops look key k)

/-- The slots index the first `done` items: each slot holds the first item with its key,
no item is in two slots, and no probe for the key of an item stops at an empty slot. -/
structure Indexes (key : ℕ → κ) (way : κ → List ℕ) (look : ℕ → Option ℕ) (done : ℕ) : Prop where
  first : ∀ {slot item}, look slot = some item → item < done ∧ ∀ j < item, key j ≠ key item
  apart : ∀ {slot slot' item}, look slot = some item → look slot' = some item → slot = slot'
  settled : ∀ {item slot}, item < done →
    probe look key (key item) (way (key item)) = some slot → look slot ≠ none

variable {look look' : ℕ → Option ℕ} {key : ℕ → κ} {k : κ} {way : List ℕ} {slot item : ℕ}

theorem stops_iff : stops look key k slot ↔ ∀ item, look slot = some item → key item = k := by
  simp [stops, Option.all_eq_true]

theorem key_of_probe (h : probe look key k way = some slot) (hlook : look slot = some item) :
    key item = k :=
  stops_iff.mp (List.find?_some h) item hlook

section

variable (hle : ∀ s item, look s = some item → look' s = some item)
include hle

/-- Filling slots up lets a probe stop at no further slot. -/
theorem not_stops_of_le
    (h : ¬ stops look key k slot) : ¬ stops look' key k slot := by
  rw [stops_iff] at h ⊢
  exact fun hall => h fun item hitem => hall item (hle slot item hitem)

/-- A probe stops where it stopped before slots were filled up, if it still can. -/
theorem probe_of_le (h : probe look key k way = some slot) (hstop : stops look' key k slot) :
    probe look' key k way = some slot := by
  obtain ⟨-, before, behind, hway, hbefore⟩ := List.find?_eq_some_iff_append.mp h
  refine List.find?_eq_some_iff_append.mpr ⟨hstop, before, behind, hway, ?_⟩
  intro s hs
  have hnot : ¬ stops look key k s := by simpa using hbefore s hs
  simpa using not_stops_of_le hle hnot

theorem probe_none_of_le
    (h : probe look key k way = none) : probe look' key k way = none :=
  List.find?_eq_none.mpr fun s hs => not_stops_of_le hle (List.find?_eq_none.mp h s hs)

end

namespace Indexes

variable {way : κ → List ℕ} {done : ℕ}

theorem empty : Indexes key way (fun _ => none) 0 where
  first h := nomatch h
  apart h := nomatch h
  settled h := absurd h (Nat.not_lt_zero _)

section

variable (h : Indexes key way look done)
include h

/-- An item whose probe stops at no empty slot is left out. -/
theorem skip
    (hskip : ∀ slot, probe look key (key done) (way (key done)) = some slot → look slot ≠ none) :
    Indexes key way look (done + 1) where
  first hs := ⟨Nat.lt_succ_of_lt (h.first hs).1, (h.first hs).2⟩
  apart := h.apart
  settled := by
    intro item slot hitem hslot
    rcases Nat.lt_succ_iff_lt_or_eq.mp hitem with hlt | rfl
    · exact h.settled hlt hslot
    · exact hskip slot hslot

/-- An item that finds an empty slot is the first one with its key, and goes there. -/
theorem put
    (hprobe : probe look key (key done) (way (key done)) = some slot) (hfree : look slot = none) :
    Indexes key way (Function.update look slot (some done)) (done + 1) := by
  have hle (s item) (hs : look s = some item) :
      Function.update look slot (some done) s = some item := by
    rw [Function.update_of_ne (by rintro rfl; exact nomatch hfree.symm.trans hs)]
    exact hs
  have hcases {s item} (hs : Function.update look slot (some done) s = some item) :
      s = slot ∧ item = done ∨ look s = some item := by
    by_cases heq : s = slot
    · rw [heq, Function.update_self] at hs
      exact .inl ⟨heq, (Option.some.inj hs).symm⟩
    rw [Function.update_of_ne heq] at hs
    exact .inr hs
  refine ⟨?_, ?_, ?_⟩
  · intro s item hs
    rcases hcases hs with ⟨-, rfl⟩ | hold
    · refine ⟨Nat.lt_succ_self _, ?_⟩
      intro j hj hkey
      exact h.settled hj (hkey ▸ hprobe) hfree
    · exact ⟨Nat.lt_succ_of_lt (h.first hold).1, (h.first hold).2⟩
  · intro s s' item hs hs'
    rcases hcases hs with ⟨rfl, rfl⟩ | hold <;> rcases hcases hs' with ⟨rfl, hitem⟩ | hold'
    · rfl
    · exact absurd (h.first hold').1 (Nat.lt_irrefl _)
    · rw [hitem] at hold
      exact absurd (h.first hold).1 (Nat.lt_irrefl _)
    · exact h.apart hold hold'
  intro item s hitem hs
  -- the probe stops where it did, and there is an item there
  have hstays {old there : ℕ} (hold : probe look key (key item) (way (key item)) = some old)
      (hthere : Function.update look slot (some done) old = some there)
      (hkey : key there = key item) : Function.update look slot (some done) s ≠ none := by
    have hsame := probe_of_le hle hold (stops_iff.mpr (by
      rw [hthere]
      rintro _ ⟨⟩
      exact hkey))
    cases hsame.symm.trans hs
    rw [hthere]
    exact nofun
  rcases Nat.lt_succ_iff_lt_or_eq.mp hitem with hlt | rfl
  · cases hold : probe look key (key item) (way (key item)) with
    | none => exact nomatch (probe_none_of_le hle hold).symm.trans hs
    | some old =>
      obtain ⟨there, hthere⟩ := Option.ne_none_iff_exists'.mp (h.settled hlt hold)
      exact hstays hold (hle _ _ hthere) (key_of_probe hold hthere)
  · exact hstays hprobe (Function.update_self ..) rfl

/-- A probe for the key of an item that gives up passed items with other, pairwise
different keys, so its way is shorter than there are keys. -/
theorem length_lt_card {visited : List ℕ} (hnodup : visited.Nodup)
    (hk : k ∈ (Finset.range done).image key) (hprobe : probe look key k visited = none) :
    visited.length < ((Finset.range done).image key).card := by
  have hitem (slot) (hslot : slot ∈ visited) : ∃ item, look slot = some item ∧ key item ≠ k := by
    have hnot := List.find?_eq_none.mp hprobe slot hslot
    rw [stops_iff] at hnot
    push Not at hnot
    exact hnot
  choose! item hitem hkey using hitem
  have hcard : visited.toFinset.card ≤ (((Finset.range done).image key).erase k).card := by
    apply Finset.card_le_card_of_injOn fun slot => key (item slot)
    · intro slot hslot
      have hslot := List.mem_toFinset.mp (Finset.mem_coe.mp hslot)
      refine Finset.mem_erase.mpr ⟨hkey slot hslot, Finset.mem_image_of_mem key ?_⟩
      exact Finset.mem_range.mpr (h.first (hitem slot hslot)).1
    intro slot hslot slot' hslot' heq
    have hs := h.first (hitem slot (List.mem_toFinset.mp (Finset.mem_coe.mp hslot)))
    have hs' := h.first (hitem slot' (List.mem_toFinset.mp (Finset.mem_coe.mp hslot')))
    -- two first items with one key are the same item
    have hsame : item slot = item slot' := by
      rcases Nat.lt_trichotomy (item slot) (item slot') with hlt | hsame | hlt
      · exact absurd heq (hs'.2 _ hlt)
      · exact hsame
      · exact absurd heq.symm (hs.2 _ hlt)
    exact h.apart (hitem slot (List.mem_toFinset.mp (Finset.mem_coe.mp hslot)))
      (hsame ▸ hitem slot' (List.mem_toFinset.mp (Finset.mem_coe.mp hslot')))
  rw [List.toFinset_card_of_nodup hnodup] at hcard
  exact Nat.lt_of_le_of_lt hcard (Finset.card_erase_lt_of_mem hk)

end

end Indexes

end Fixpp.Foundation
