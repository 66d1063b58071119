import Mathlib

/-!
# Logs of records

A log is a row of encoded records. After a stop it may end inside a record. A scan reads whole
records from the front; where the reader knows a cut record when it sees one, the scan of a cut
log finds exactly the records that were whole.
-/

namespace Fixpp.Foundation

variable {β ρ σ : Type}

/-- What stands at the front of the unread part of a log. -/
inductive Front (ρ : Type)
  | torn
  | corrupt
  | record (r : ρ) (size : ℕ)

/-- Read records from position `pos` on until none is left or one is torn. `keep`
takes a record and its position into the state, or refuses the log. Every record
has bytes, so `fuel` above the number of bytes never runs out. -/
def scanLog (front : List β → Front ρ) (keep : σ → ℕ → ρ → Option σ) :
    ℕ → List β → ℕ → σ → Option (σ × ℕ)
  | 0, _, pos, s => some (s, pos)
  | _ + 1, [], pos, s => some (s, pos)
  | fuel + 1, b :: rest, pos, s =>
    match front (b :: rest) with
    | .torn => some (s, pos)
    | .corrupt => none
    | .record r size =>
      match keep s pos r with
      | none => none
      | some s' => scanLog front keep fuel ((b :: rest).drop size) (pos + size) s'

/-- A reader that finds no record longer than what is left ends within the log. -/
theorem scanLog_le {front : List β → Front ρ} {keep : σ → ℕ → ρ → Option σ}
    (hfront : ∀ rest r size, front rest = .record r size → size ≤ rest.length) :
    ∀ {fuel : ℕ} {rest : List β} {pos : ℕ} {s s' : σ} {last : ℕ},
      scanLog front keep fuel rest pos s = some (s', last) → last ≤ pos + rest.length
  | 0, rest, pos, s, s', last, h => by
    obtain ⟨-, rfl⟩ := Prod.mk.inj (Option.some.inj h)
    exact Nat.le_add_right ..
  | fuel + 1, [], pos, s, s', last, h => by
    obtain ⟨-, rfl⟩ := Prod.mk.inj (Option.some.inj h)
    exact Nat.le_add_right ..
  | fuel + 1, b :: rest, pos, s, s', last, h => by
    rw [scanLog] at h
    cases hf : front (b :: rest) with
    | torn =>
      rw [hf] at h
      obtain ⟨-, rfl⟩ := Prod.mk.inj (Option.some.inj h)
      exact Nat.le_add_right ..
    | corrupt => simp [hf] at h
    | record r size =>
      rw [hf] at h
      cases hk : keep s pos r with
      | none => simp [hk] at h
      | some s'' =>
        simp only [hk] at h
        have hle := scanLog_le hfront h
        have hsize := hfront _ _ _ hf
        rw [List.length_drop] at hle
        omega

/-- The records of a list taken into the state, each at its position. -/
def keepAll (encode : ρ → List β) (keep : σ → ℕ → ρ → Option σ) : List ρ → ℕ → σ → Option σ
  | [], _, s => some s
  | r :: rest, pos, s =>
    (keep s pos r).bind (keepAll encode keep rest (pos + (encode r).length))

theorem keepAll_append (encode : ρ → List β) (keep : σ → ℕ → ρ → Option σ) (more : List ρ) :
    ∀ (rs : List ρ) (pos : ℕ) (s : σ), keepAll encode keep (rs ++ more) pos s =
      (keepAll encode keep rs pos s).bind
        (keepAll encode keep more (pos + (rs.flatMap encode).length))
  | [], pos, s => by simp [keepAll]
  | r :: rs, pos, s => by
    cases hkeep : keep s pos r with
    | none => simp [keepAll, hkeep]
    | some s' => simp [keepAll, hkeep, keepAll_append encode keep more rs, Nat.add_assoc]

/-- The reader of a log knows its records: it finds a whole record where one
stands, whatever follows, and takes a part of one for torn. -/
structure Framing (encode : ρ → List β) (front : List β → Front ρ) (valid : ρ → Prop) : Prop where
  ne_nil : ∀ r, encode r ≠ []
  whole : ∀ r rest, valid r → front (encode r ++ rest) = .record r (encode r).length
  cut : ∀ r k, valid r → k < (encode r).length → front ((encode r).take k) = .torn

namespace Framing

variable {encode : ρ → List β} {front : List β → Front ρ} {valid : ρ → Prop}

/-- A scan of whole records and of a torn rest keeps the records and ends at the
last one's end. -/
theorem scan_whole (h : Framing encode front valid) (keep : σ → ℕ → ρ → Option σ)
    {rest : List β} (hrest : rest = [] ∨ front rest = .torn) :
    ∀ (rs : List ρ), (∀ r ∈ rs, valid r) → ∀ (fuel pos : ℕ) (s : σ),
      (rs.flatMap encode ++ rest).length < fuel →
      scanLog front keep fuel (rs.flatMap encode ++ rest) pos s =
        (keepAll encode keep rs pos s).map fun s' => (s', pos + (rs.flatMap encode).length)
  | [], _, fuel + 1, pos, s, _ => by
    cases rest with
    | nil => rfl
    | cons b rest =>
      have htorn : front (b :: rest) = .torn := hrest.resolve_left (List.cons_ne_nil b rest)
      simp [scanLog, keepAll, htorn]
  | r :: rs, hvalid, fuel + 1, pos, s, hfuel => by
    obtain ⟨b, bs, hb⟩ := List.exists_cons_of_ne_nil (h.ne_nil r)
    have hfront : front (b :: (bs ++ (rs.flatMap encode ++ rest))) =
        .record r (encode r).length := by
      have := h.whole r (rs.flatMap encode ++ rest) (hvalid r (by simp))
      rwa [hb, List.cons_append, ← hb] at this
    have hlog : (r :: rs).flatMap encode ++ rest = b :: (bs ++ (rs.flatMap encode ++ rest)) := by
      simp [hb]
    have hdrop : (b :: (bs ++ (rs.flatMap encode ++ rest))).drop (encode r).length =
        rs.flatMap encode ++ rest := by
      rw [← List.cons_append, ← hb, List.drop_left]
    rw [hlog] at hfuel
    simp only [List.length_cons, List.length_append] at hfuel
    rw [hlog, scanLog, hfront]
    simp only [keepAll]
    cases hkeep : keep s pos r with
    | none => simp
    | some s' =>
      simp only [hdrop, Option.bind_some]
      rw [h.scan_whole keep hrest rs (fun q hq => hvalid q (by simp [hq])) fuel _ s'
        (by simp only [List.length_append]; omega)]
      simp [Nat.add_assoc]

end Framing

end Fixpp.Foundation
