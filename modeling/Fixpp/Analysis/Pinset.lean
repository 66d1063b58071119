import Fixpp.Model.Authorization

/-!
# A pin set is a set

`asked` says what a call is for in terms of sets of pins. A pin set holds the set that the
successful calls built (`Holds.call`), and since memory only grows a snapshot stays what it was.
-/

namespace Fixpp.Analysis.Pinset

open Model Function List PinWorld

/-- What a call asks for, on sets of pins. -/
def asked (sets : ℕ → Set Pin) : PinsetCall → ℕ → Set Pin
  | .add k cert now _ => update sets k (insert (cert.pin now) (sets k))
  | .remove k sha256 _ => update sets k {p ∈ sets k | p.sha256 ≠ sha256}
  | .move k other => if k = other then sets else update (update sets k (sets other)) other ∅

/-- What a call with this result leaves of the sets. -/
def applied (sets : ℕ → Set Pin) (c : PinsetCall) : Except PinsetError Unit → ℕ → Set Pin
  | .ok () => asked sets c
  | .error _ => sets

/-- The sets behind the calls, those that fail left out. -/
def built (w : PinWorld) (sets : ℕ → Set Pin) : List PinsetCall → ℕ → Set Pin
  | [] => sets
  | c :: calls => built (w.call c).1 (applied sets c (w.call c).2) calls

/-- The pin sets hold the sets, with one pin for a fingerprint and within their limits. -/
structure Holds (w : PinWorld) (sets : ℕ → Set Pin) : Prop where
  alive : ∀ k, (w.pinsets k).snapshot < w.snapshots.length
  pins : ∀ k, {p | p ∈ w.pins k} = sets k
  nodup : ∀ k, ((w.pins k).map Pin.sha256).Nodup
  bounded : ∀ k, (w.pins k).length ≤ (w.pinsets k).maxPins

variable {w : PinWorld} {sets : ℕ → Set Pin}

theorem pins_store (h : ∀ k, (w.pinsets k).snapshot < w.snapshots.length) (k : ℕ) (pins : List Pin) :
    (w.store k pins).pins = update w.pins k pins := by
  funext i
  by_cases hi : i = k
  · simp [PinWorld.pins, PinWorld.store, hi]
  · simp [PinWorld.pins, PinWorld.store, hi, getElem?_append_left (h i)]

section

variable (h : Holds w sets)
include h

theorem Holds.store (k : ℕ) {pins : List Pin} {set : Set Pin}
    (hpins : {p | p ∈ pins} = set) (hnodup : (pins.map Pin.sha256).Nodup)
    (hle : pins.length ≤ (w.pinsets k).maxPins) : Holds (w.store k pins) (update sets k set) := by
  have hstore := pins_store h.alive k pins
  constructor <;> intro i
  · have halive := h.alive i
    by_cases hi : i = k <;> simp [PinWorld.store, hi]
    omega
  · rw [hstore]
    by_cases hi : i = k <;> simp [hi, hpins, h.pins]
  · rw [hstore]
    by_cases hi : i = k
    · simpa [hi] using hnodup
    · simpa [hi] using h.nodup i
  rw [hstore]
  by_cases hi : i = k
  · simpa [PinWorld.store, hi] using hle
  · simpa [PinWorld.store, hi] using h.bounded i

theorem Holds.add (k : ℕ) (cert : LeafCertificate) (now : ℕ) (allocates : Bool) :
    Holds (w.add k cert now allocates).1
      (applied sets (.add k cert now allocates) (w.add k cert now allocates).2) := by
  unfold PinWorld.add
  dsimp only
  split
  · exact h
  next hroom =>
  split
  · exact h
  next hnew =>
  split
  · exact h
  apply h.store
  · rw [← h.pins]
    ext p
    simp [or_comm]
  · rw [map_append, nodup_append]
    refine ⟨h.nodup k, by simp, ?_⟩
    simpa [LeafCertificate.pin] using hnew
  · rw [length_append, length_singleton]
    omega

theorem Holds.remove (k : ℕ) (sha256 : Bytes) (allocates : Bool) :
    Holds (w.remove k sha256 allocates).1
      (applied sets (.remove k sha256 allocates) (w.remove k sha256 allocates).2) := by
  unfold PinWorld.remove
  dsimp only
  split
  · exact h
  split
  · exact h
  apply h.store
  · rw [← h.pins]
    simp
  · exact (h.nodup k).sublist (filter_sublist.map _)
  · exact Nat.le_trans (length_filter_le _ _) (h.bounded k)

theorem Holds.move (k other : ℕ) : Holds (w.move k other) (asked sets (.move k other)) := by
  by_cases hself : k = other
  · simpa [PinWorld.move, asked, hself] using h
  rw [PinWorld.move, if_neg hself, asked, if_neg hself]
  have hpins : ∀ i, PinWorld.pins { w with pinsets := update w.pinsets k (w.pinsets other) } i =
      w.pins (if i = k then other else i) := by
    intro i
    by_cases hi : i = k <;> simp [PinWorld.pins, hi]
  have hmoved : Holds { w with pinsets := update w.pinsets k (w.pinsets other) }
      (update sets k (sets other)) := by
    constructor <;> intro i
    · by_cases hi : i = k <;> simp [hi, h.alive]
    · rw [hpins, h.pins]
      by_cases hi : i = k <;> simp [hi]
    · rw [hpins]
      exact h.nodup _
    rw [hpins]
    by_cases hi : i = k <;> simp [hi, h.bounded]
  have hnone : {p : Pin | p ∈ []} = ∅ := by simp
  exact hmoved.store other hnone (by simp) (by simp)

/-- Step lemma. -/
theorem Holds.call (c : PinsetCall) : Holds (w.call c).1 (applied sets c (w.call c).2) := by
  cases c with
  | add k cert now allocates => exact h.add k cert now allocates
  | remove k sha256 allocates => exact h.remove k sha256 allocates
  | move k other => exact h.move k other

/-- Run lemma. -/
theorem Holds.run (calls : List PinsetCall) : Holds (w.run calls) (built w sets calls) := by
  induction calls generalizing w sets with
  | nil => exact h
  | cons c calls ih => exact ih (h.call c)

end

theorem snapshots_run (w : PinWorld) (calls : List PinsetCall) :
    w.snapshots <+: (w.run calls).snapshots := by
  induction calls generalizing w with
  | nil => exact prefix_rfl
  | cons c calls ih =>
    refine .trans ?_ (ih (w.call c).1)
    cases c with
    | add => simp only [call, PinWorld.add]; split_ifs <;> simp [PinWorld.store]
    | remove => simp only [call, PinWorld.remove]; split_ifs <;> simp [PinWorld.store]
    | move => simp only [call, PinWorld.move]; split_ifs <;> simp [PinWorld.store]

/-- Behind any calls, of which some may fail, each pin set holds exactly the set that the successful
calls built, each fingerprint once and no more pins than its maximum; a failed call changes nothing,
and a snapshot stays the same behind any later calls. -/
theorem pinset_holds_what_succeeded (maxPins : ℕ → ℕ) (calls : List PinsetCall) :
    let w := (PinWorld.constructed maxPins).run calls
    (∀ k, {p | p ∈ w.pins k} = built (.constructed maxPins) (fun _ => ∅) calls k ∧
      ((w.pins k).map Pin.sha256).Nodup ∧ (w.pins k).length ≤ (w.pinsets k).maxPins) ∧
    (∀ c e, (w.call c).2 = .error e → (w.call c).1 = w) ∧
    ∀ k later, (w.run later).snapshots[(w.pinsets k).snapshot]? = some (w.pins k) := by
  intro w
  have hempty : Holds (.constructed maxPins) fun _ => ∅ := by
    constructor <;> intro k <;> simp [PinWorld.constructed, PinWorld.pins]
  have h : Holds w _ := hempty.run calls
  refine ⟨fun k => ⟨h.pins k, h.nodup k, h.bounded k⟩, ?_, ?_⟩
  · intro c e he
    cases c with
    | add =>
      simp only [call, PinWorld.add] at he ⊢
      split_ifs at he ⊢ <;> rfl
    | remove =>
      simp only [call, PinWorld.remove] at he ⊢
      split_ifs at he ⊢ <;> rfl
    | move => cases he
  · intro k later
    obtain ⟨more, hmore⟩ := snapshots_run w later
    rw [← hmore, getElem?_append_left (h.alive k), PinWorld.pins, getD_eq_getElem?_getD,
      getElem?_eq_getElem (h.alive k)]
    rfl

end Fixpp.Analysis.Pinset
