import Fixpp.Model.StoreCalls

/-!
# What a message store is for

A store numbers the frames of each direction: it takes the frame of the next number, hands the
frames of a range back, and forgets everything at a reset. `FrameStore` is that store, and
`Archive` the record an onlooker makes of the calls that succeeded. The two agree on which frame
a number has; `retrieve` finds the numbers that no hole separates from the first one retained.
-/

namespace Fixpp.Interface

open Model List

variable {front x y : ℕ × Bytes} {s next last : ℕ} {f : Bytes}

/-- The frames of each direction in the order of their numbers, and the next ones. -/
structure FrameStore where
  frames : Direction → List (ℕ × Bytes)
  next : Direction → ℕ

namespace FrameStore

def fresh (next : Direction → ℕ) : FrameStore := ⟨fun _ => [], next⟩

def put (F : FrameStore) (seq : ℕ) (frame : Bytes) (dir : Direction) : FrameStore :=
  { F with frames := Function.update F.frames dir (indexFrame Prod.fst (F.frames dir) (seq, frame)) }

def advance (F : FrameStore) (dir : Direction) : FrameStore :=
  { F with next := Function.update F.next dir (succSeqnum (F.next dir)) }

/-- A call with a limit on the size of a frame. -/
def answer (limit : ℕ) (F : FrameStore) : StoreCall → FrameStore × StoreReply
  | .store seq frame dir =>
    if seq ≠ F.next dir then (F, .done (.error .storeSeqnumOutOfOrder))
    else if limit < frame.length then (F, .done (.error .storeIoFailure))
    else ((F.put seq frame dir).advance dir, .done (.ok ()))
  | .retrieve first last dir visitor =>
    let walk := retrieveEntries Prod.fst (fun e => .ok e.2) (F.frames dir) (F.next dir) first last
      visitor
    (F, .walked walk.1 walk.2)
  | .nextSeqnum dir increment =>
    match readCounter (F.next dir) increment with
    | .error e => (F, .number (.error e))
    | .ok current => (if increment then F.advance dir else F, .number (.ok current))
  | .reset => (fresh (targets 1 1), .done (.ok ()))
  | .resetTo nextIn nextOut =>
    if resetToTargetsValid nextIn nextOut then (fresh (targets nextIn nextOut), .done (.ok ()))
    else (F, .done (.error .sessionInvalidArgument))

/-- The numbers rise and stay below the next one; the last may be the next one's,
where a stop came between a frame and its counter. The largest number has no frame. -/
structure Ordered (F : FrameStore) : Prop where
  rising : ∀ d, (F.frames d).Pairwise (·.1 < ·.1)
  pos : ∀ d, ∀ x ∈ F.frames d, 0 < x.1
  le_next : ∀ d, ∀ x ∈ F.frames d, x.1 ≤ F.next d
  lt_max : ∀ d, ∀ x ∈ F.frames d, x.1 < seqnumMax
  next_pos : ∀ d, 0 < F.next d
  next_le : ∀ d, F.next d ≤ seqnumMax

end FrameStore

/-! ## Lookup behind a change of representation -/

section Representation

variable {ε δ : Type} {seqOf : ε → ℕ} {seqOf' : δ → ℕ} {g : ε → δ} {e : ε}
  {read : ε → Except Error Bytes} {read' : δ → Except Error Bytes}

theorem lookUpSeq_map (hg : ∀ e, seqOf' (g e) = seqOf e) (entries : List ε) (s : ℕ) :
    lookUpSeq seqOf' (entries.map g) s = (lookUpSeq seqOf entries s).map g := by
  cases entries with
  | nil => rfl
  | cons front rest =>
    simp only [lookUpSeq, map_cons, hg]
    split
    · rfl
    rw [← map_cons, getElem?_map]
    cases (front :: rest)[s - seqOf front]? with
    | none => rfl
    | some e => by_cases he : seqOf e = s <;> simp [hg, he]

theorem snapshotFrom_map (hg : ∀ e, seqOf' (g e) = seqOf e) (entries : List ε) (tail : ℕ) :
    ∀ fuel s, snapshotFrom seqOf' (entries.map g) tail fuel s =
      ((snapshotFrom seqOf entries tail fuel s).1.map g, (snapshotFrom seqOf entries tail fuel s).2)
  | 0, _ => rfl
  | fuel + 1, s => by
    simp only [snapshotFrom, lookUpSeq_map hg]
    split
    · rfl
    cases lookUpSeq seqOf entries s with
    | none => rfl
    | some e => simp [snapshotFrom_map hg entries tail fuel]

theorem snapshotRange_map (hg : ∀ e, seqOf' (g e) = seqOf e) (entries : List ε)
    (next first last : ℕ) :
    snapshotRange seqOf' (entries.map g) next first last =
      ((snapshotRange seqOf entries next first last).1.map g,
        (snapshotRange seqOf entries next first last).2) := by
  simp only [snapshotRange, length_map]
  split
  · rfl
  · exact snapshotFrom_map hg entries _ _ _

/-- What the lookup tests: the number is not below the first one, and the entry at
its distance has it. -/
theorem lookUpSeq_eq_some {front : ε} {rest : List ε} :
    lookUpSeq seqOf (front :: rest) s = some e ↔
      seqOf front ≤ s ∧ (front :: rest)[s - seqOf front]? = some e ∧ seqOf e = s := by
  simp only [lookUpSeq]
  by_cases hlow : s < seqOf front
  · simp only [hlow, if_true]
    exact ⟨nofun, fun h => absurd h.1 (Nat.not_le.mpr hlow)⟩
  simp only [hlow, if_false, Nat.not_lt.mp hlow, true_and]
  cases (front :: rest)[s - seqOf front]? with
  | none => simp
  | some e' =>
    by_cases hseq : seqOf e' = s
    · simp only [hseq, if_true, Option.some.injEq]
      exact ⟨fun h => ⟨h, h ▸ hseq⟩, And.left⟩
    simp only [hseq, if_false, Option.some.injEq]
    exact ⟨nofun, fun h => absurd (h.1 ▸ h.2) hseq⟩

variable {entries : List ε}

theorem lookUpSeq_mem (h : lookUpSeq seqOf entries s = some e) : e ∈ entries := by
  cases entries with
  | nil => simp [lookUpSeq] at h
  | cons front rest => exact mem_of_getElem? (lookUpSeq_eq_some.mp h).2.1

theorem mem_snapshotFrom {tail : ℕ} :
    ∀ {fuel s : ℕ} {e : ε}, e ∈ (snapshotFrom seqOf entries tail fuel s).1 → e ∈ entries
  | 0, _, _, h => by simp [snapshotFrom] at h
  | fuel + 1, s, e, h => by
    simp only [snapshotFrom] at h
    split at h
    · simp at h
    cases hfound : lookUpSeq seqOf entries s with
    | none => simp [hfound] at h
    | some e' =>
      rw [hfound] at h
      rcases mem_cons.mp h with rfl | h
      · exact lookUpSeq_mem hfound
      · exact mem_snapshotFrom h

theorem mem_snapshotRange {first : ℕ} (h : e ∈ (snapshotRange seqOf entries next first last).1) :
    e ∈ entries := by
  simp only [snapshotRange] at h
  split at h
  · simp at h
  · exact mem_snapshotFrom h

/-- A walk over entries that all can be read is the walk over what they stand for. -/
theorem walkEntries_map (hg : ∀ e, seqOf' (g e) = seqOf e) (visitor : Visitor) (gap : Bool) :
    ∀ (entries : List ε) (seen : List (ℕ × Bytes)), (∀ e ∈ entries, read' (g e) = read e) →
      walkEntries seqOf' read' visitor gap (entries.map g) seen =
        walkEntries seqOf read visitor gap entries seen
  | [], _, _ => rfl
  | e :: rest, seen, hread => by
    simp only [map_cons, walkEntries, hread e (by simp), hg]
    cases read e with
    | error err => rfl
    | ok frame =>
      simp only
      cases (visitor (seen ++ [(seqOf e, frame)])).ends with
      | some result => rfl
      | none => exact walkEntries_map hg visitor gap rest _ fun e' he' => hread e' (by simp [he'])

theorem retrieveEntries_map (hg : ∀ e, seqOf' (g e) = seqOf e)
    (hread : ∀ e ∈ entries, read' (g e) = read e) (next first last : ℕ) (visitor : Visitor) :
    retrieveEntries seqOf' read' (entries.map g) next first last visitor =
      retrieveEntries seqOf read entries next first last visitor := by
  simp only [retrieveEntries, snapshotRange_map hg]
  rw [walkEntries_map hg visitor _ _ _ fun e he => hread e (mem_snapshotRange he)]

theorem indexFrame_map (hg : ∀ e, seqOf' (g e) = seqOf e) (entries : List ε) (e : ε) :
    indexFrame seqOf' (entries.map g) (g e) = (indexFrame seqOf entries e).map g := by
  simp only [indexFrame, getLast?_map]
  cases entries.getLast? with
  | none => simp
  | some back => by_cases h : seqOf back = seqOf e <;> simp [hg, h]

end Representation

/-! ## The numbers a lookup finds -/

section Lookup

variable {frames : List (ℕ × Bytes)}

section

variable (h : frames.Pairwise (·.1 < ·.1))
include h

/-- In a rising list an element stands at least its distance in numbers away. -/
theorem index_le_of_rising {i j : ℕ} (hx : frames[i]? = some x)
    (hy : frames[j]? = some y) (hij : i ≤ j) : x.1 + (j - i) ≤ y.1 := by
  induction j generalizing y with
  | zero =>
    obtain rfl : i = 0 := by omega
    rw [hx] at hy
    obtain rfl := Option.some.inj hy
    simp
  | succ j ih =>
    by_cases hlast : i = j + 1
    · subst hlast
      rw [hx] at hy
      obtain rfl := Option.some.inj hy
      simp
    obtain ⟨hj, hjy⟩ := List.getElem?_eq_some_iff.mp hy
    have hbefore : frames[j]? = some frames[j] := getElem?_eq_getElem (by omega)
    have hstep : frames[j].1 < y.1 := by
      rw [← hjy]
      exact pairwise_iff_getElem.mp h j (j + 1) (by omega) hj (by omega)
    have := ih hbefore (by omega)
    omega

/-- Every number from a retained one up to `s` is retained. -/
def NoHole (frames : List (ℕ × Bytes)) (s : ℕ) : Prop :=
  ∀ u t, (∃ f, (u, f) ∈ frames) → u ≤ t → t ≤ s → ∃ f, (t, f) ∈ frames

/-- Where the entry at the distance of `s` has the number `s`, no place between skips
a number. -/
theorem noHole_of_lookUp (hfront : frames[0]? = some front)
    (hx : frames[s - front.1]? = some x) (hxs : x.1 = s) : NoHole frames s := by
  rintro u t ⟨f, hu⟩ hut hts
  obtain ⟨i, hi⟩ := mem_iff_getElem?.mp hu
  have hfu : front.1 + (i - 0) ≤ u := index_le_of_rising h hfront hi (Nat.zero_le i)
  obtain ⟨hlen, -⟩ := List.getElem?_eq_some_iff.mp hx
  obtain ⟨y, hy⟩ : ∃ y, frames[t - front.1]? = some y := ⟨_, getElem?_eq_getElem (by omega)⟩
  have hlow := index_le_of_rising h hfront hy (Nat.zero_le _)
  have hhigh := index_le_of_rising h hy hx (by omega)
  have heq : y.1 = t := by omega
  exact ⟨y.2, heq ▸ mem_of_getElem? hy⟩

/-- Where no hole lies below `s`, each number from the first one on stands at its
distance. -/
theorem place_of_noHole (hfront : frames[0]? = some front)
    (hhole : NoHole frames s) :
    ∀ n, front.1 + n ≤ s → ∃ f, frames[n]? = some (front.1 + n, f)
  | 0, _ => ⟨front.2, hfront⟩
  | n + 1, hn => by
    obtain ⟨f, hf⟩ := place_of_noHole hfront hhole n (by omega)
    obtain ⟨f', hf'⟩ := hhole front.1 (front.1 + (n + 1))
      ⟨front.2, mem_of_getElem? hfront⟩ (by omega) hn
    obtain ⟨j, hj⟩ := mem_iff_getElem?.mp hf'
    have hnj : n < j := by
      by_contra hle
      have : front.1 + (n + 1) + (n - j) ≤ front.1 + n :=
        index_le_of_rising h hj hf (Nat.not_lt.mp hle)
      omega
    obtain ⟨hlen, -⟩ := List.getElem?_eq_some_iff.mp hj
    obtain ⟨y, hy⟩ : ∃ y, frames[n + 1]? = some y := ⟨_, getElem?_eq_getElem (by omega)⟩
    have hlow : front.1 + n + (n + 1 - n) ≤ y.1 := index_le_of_rising h hf hy (by omega)
    have hhigh : y.1 + (j - (n + 1)) ≤ front.1 + (n + 1) := index_le_of_rising h hy hj hnj
    have heq : y.1 = front.1 + (n + 1) := by omega
    exact ⟨y.2, by rw [hy, ← heq]⟩

theorem eq_of_rising (hx : x ∈ frames) (hy : y ∈ frames)
    (hxy : x.1 = y.1) : x = y := by
  obtain ⟨i, hi⟩ := mem_iff_getElem?.mp hx
  obtain ⟨j, hj⟩ := mem_iff_getElem?.mp hy
  have hij : i = j := by
    obtain hle | hle := Nat.le_total i j
    · have := index_le_of_rising h hi hj hle
      omega
    have := index_le_of_rising h hj hi hle
    omega
  rw [hij, hj] at hi
  exact (Option.some.inj hi).symm

/-- The lookup finds a number by its place: it is found exactly when it is retained
and no hole lies between the first retained number and it. -/
theorem lookUpSeq_eq_some_iff :
    lookUpSeq Prod.fst frames s = some x ↔ x ∈ frames ∧ x.1 = s ∧ NoHole frames s := by
  cases frames with
  | nil => simp [lookUpSeq]
  | cons front rest =>
    rw [lookUpSeq_eq_some]
    constructor
    · rintro ⟨-, hx, hxs⟩
      exact ⟨mem_of_getElem? hx, hxs, noHole_of_lookUp h rfl hx hxs⟩
    rintro ⟨hx, hxs, hhole⟩
    obtain ⟨i, hi⟩ := mem_iff_getElem?.mp hx
    have hle : front.1 + (i - 0) ≤ x.1 := index_le_of_rising h rfl hi (Nat.zero_le i)
    obtain ⟨f, hf⟩ := place_of_noHole h rfl hhole (s - front.1) (by omega)
    have hxf : x = (front.1 + (s - front.1), f) :=
      eq_of_rising h hx (mem_of_getElem? hf) (by simp only; omega)
    exact ⟨by omega, hxf ▸ hf, hxs⟩

end

end Lookup

/-! ## The run a retrieval visits -/

/-- The frames of the longest row of numbers from `first` on, up to `tail`, that all
have a frame. -/
structure LongestRun (found : ℕ → Option Bytes) (first tail : ℕ) (visited : List (ℕ × Bytes)) :
    Prop where
  numbers : visited.map Prod.fst = range' first visited.length
  bytes : ∀ x ∈ visited, found x.1 = some x.2
  within : ∀ x ∈ visited, x.1 ≤ tail
  longest : first + visited.length ≤ tail → found (first + visited.length) = none

def foundIn (frames : List (ℕ × Bytes)) (s : ℕ) : Option Bytes :=
  (lookUpSeq Prod.fst frames s).map Prod.snd

namespace LongestRun

variable {found : ℕ → Option Bytes} {first tail : ℕ} {visited : List (ℕ × Bytes)}

theorem nil (h : first ≤ tail → found first = none) : LongestRun found first tail [] :=
  ⟨rfl, by simp, by simp, h⟩

theorem cons (hle : first ≤ tail) (hf : found first = some f)
    (h : LongestRun found (first + 1) tail visited) :
    LongestRun found first tail ((first, f) :: visited) where
  numbers := by simp [h.numbers, range'_succ]
  bytes := by
    rintro x (_ | ⟨_, hx⟩)
    exacts [hf, h.bytes x hx]
  within := by
    rintro x (_ | ⟨_, hx⟩)
    exacts [hle, h.within x hx]
  longest := by
    have hlen : first + ((first, f) :: visited).length = first + 1 + visited.length := by
      simp only [length_cons]; omega
    rw [hlen]
    exact h.longest

/-- The run stops short of the tail exactly when a number of the range has no frame. -/
theorem short_iff (h : LongestRun found first tail visited) :
    first + visited.length ≤ tail ↔ ∃ s, first ≤ s ∧ s ≤ tail ∧ found s = none := by
  constructor
  · exact fun hshort => ⟨_, Nat.le_add_right .., hshort, h.longest hshort⟩
  rintro ⟨s, hfirst, htail, hnone⟩
  by_contra hlong
  have hmem : s ∈ visited.map Prod.fst := by
    rw [h.numbers, mem_range'_1]
    omega
  obtain ⟨x, hx, rfl⟩ := mem_map.mp hmem
  simp [h.bytes x hx] at hnone

theorem eq_singleton (h : LongestRun found first first visited) (hf : found first = some f) :
    visited = [(first, f)] := by
  have hlong : ¬ first + visited.length ≤ first := fun hshort => by
    obtain ⟨s, h1, h2, hnone⟩ := h.short_iff.mp hshort
    obtain rfl : s = first := Nat.le_antisymm h2 h1
    simp [hf] at hnone
  obtain _ | ⟨x, rest⟩ := visited
  · simp at hlong
  have hx : x.1 = first := by simpa [range'_succ] using (cons.inj h.numbers).1
  have hbytes := h.bytes x (by simp)
  rw [hx, hf] at hbytes
  have hrest : rest = [] := by
    obtain _ | ⟨y, rest⟩ := rest
    · rfl
    have hy : y.1 = first + 1 := by
      have := h.numbers
      simp only [map_cons, length_cons, range'_succ, cons.injEq] at this
      exact this.2.1
    have := h.within y (by simp)
    omega
  rw [hrest, ← hx, Option.some.inj hbytes]

end LongestRun

theorem lookUpSeq_place {frames : List (ℕ × Bytes)} (h : lookUpSeq Prod.fst frames s = some x) :
    (frames.headD (0, [])).1 ≤ s ∧ s - (frames.headD (0, [])).1 < frames.length ∧ x ∈ frames ∧
      x.1 = s := by
  cases frames with
  | nil => simp [lookUpSeq] at h
  | cons front rest =>
    obtain ⟨hlow, hget, hx⟩ := lookUpSeq_eq_some.mp h
    obtain ⟨hplace, -⟩ := List.getElem?_eq_some_iff.mp hget
    exact ⟨hlow, hplace, mem_of_getElem? hget, hx⟩

/-- The loop over a range finds the longest run and a gap when the run is short. The
fuel covers the places from that of `s` on. -/
theorem snapshotFrom_run {frames : List (ℕ × Bytes)}
    (hmax : ∀ x ∈ frames, x.1 < seqnumMax) (tail : ℕ) :
    ∀ fuel s, 0 < fuel → frames.length < fuel + (s - (frames.headD (0, [])).1) →
      LongestRun (foundIn frames) s tail (snapshotFrom Prod.fst frames tail fuel s).1 ∧
        ((snapshotFrom Prod.fst frames tail fuel s).2 = true ↔
          s + (snapshotFrom Prod.fst frames tail fuel s).1.length ≤ tail)
  | fuel + 1, s, _, hfuel => by
    simp only [snapshotFrom]
    by_cases htail : tail < s
    · rw [if_pos htail]
      exact ⟨.nil fun h => absurd h (by omega), by simp; omega⟩
    rw [if_neg htail]
    cases hfound : lookUpSeq Prod.fst frames s with
    | none => exact ⟨.nil fun _ => by simp [foundIn, hfound], by simp; omega⟩
    | some x =>
      obtain ⟨hlow, hplace, hmem, rfl⟩ := lookUpSeq_place hfound
      have hlt := hmax x hmem
      have hsucc : succSeqnum x.1 = x.1 + 1 := by
        simp only [succSeqnum, seqnumMax] at hlt ⊢
        omega
      obtain ⟨hrun, hgap⟩ := snapshotFrom_run hmax tail fuel (x.1 + 1) (by omega) (by omega)
      simp only [hsucc]
      refine ⟨.cons (by omega) (by simp [foundIn, hfound]) hrun, ?_⟩
      rw [hgap, length_cons]
      omega

theorem walkEntries_cont (gap : Bool) : ∀ (frames seen : List (ℕ × Bytes)),
      walkEntries Prod.fst (fun e => .ok e.2) (fun _ => .cont) gap frames seen =
        (seen ++ frames, if gap then .error .storeSeqnumGap else .ok ())
  | [], seen => by simp [walkEntries]
  | x :: rest, seen => by
    simp only [walkEntries, Visit.ends, walkEntries_cont gap rest]
    simp

theorem tailEnd_eq (hpos : 0 < next) (hle : next ≤ seqnumMax) :
    tailEnd last next = if last = 0 then next - 1 else last := by
  simp only [tailEnd, seqnumMin, seqnumMax] at *
  by_cases hlast : last = 0
  · by_cases hone : next = 1
    · simp [hlast, hone]
    simp only [hlast, hone, if_true, if_false]
    omega
  · simp [hlast]

/-- A retrieval with a visitor that goes on hands out the longest run and reports a
gap exactly when a number of the range is not found. -/
theorem FrameStore.retrieve_run {F : FrameStore} (h : F.Ordered) (dir : Direction) {first : ℕ}
    (hfirst : 0 < first) (hlast : last = 0 ∨ first ≤ last) :
    ∃ visited,
      LongestRun (foundIn (F.frames dir)) first (if last = 0 then F.next dir - 1 else last) visited ∧
      retrieveEntries Prod.fst (fun e => .ok e.2) (F.frames dir) (F.next dir) first last
          (fun _ => .cont) =
        (visited, if first + visited.length ≤ (if last = 0 then F.next dir - 1 else last)
          then .error .storeSeqnumGap else .ok ()) := by
  have hrange : ¬ (last ≠ 0 ∧ last < first) := by omega
  simp only [retrieveEntries, if_neg (Nat.pos_iff_ne_zero.mp hfirst), if_neg hrange, snapshotRange,
    tailEnd_eq (h.next_pos dir) (h.next_le dir), walkEntries_cont, nil_append]
  generalize (if last = 0 then F.next dir - 1 else last) = tail
  by_cases hempty : tail < first ∨ tail < seqnumMin
  · have hshort : ¬ first ≤ tail := by simp only [seqnumMin] at hempty; omega
    rw [if_pos hempty]
    exact ⟨[], LongestRun.nil fun h => absurd h hshort, by simp [hshort]⟩
  rw [if_neg hempty]
  obtain ⟨hrun, hgap⟩ := snapshotFrom_run (h.lt_max dir) tail ((F.frames dir).length + 1) first
    (Nat.succ_pos _) (by omega)
  refine ⟨_, hrun, ?_⟩
  simp [hgap]

/-! ## Calls keep the order -/

section Joining

variable {frames : List (ℕ × Bytes)} {seq : ℕ} {frame : Bytes}

/-- A frame that joins a rising list replaces the one with its number, if there is one. -/
theorem mem_indexFrame (h : frames.Pairwise (·.1 < ·.1)) (hle : ∀ x ∈ frames, x.1 ≤ seq) :
    x ∈ indexFrame Prod.fst frames (seq, frame) ↔ x = (seq, frame) ∨ (x ∈ frames ∧ x.1 ≠ seq) := by
  obtain rfl | ⟨init, back, rfl⟩ := eq_nil_or_concat' frames
  · simp [indexFrame]
  obtain ⟨-, -, hbelow⟩ := pairwise_append.mp h
  have hinit : ∀ y ∈ init, y.1 ≠ seq := fun y hy => by
    have := hbelow y hy back (by simp)
    have := hle back (by simp)
    omega
  by_cases hback : back.1 = seq
  · simp only [indexFrame, getLast?_concat, hback, if_true, dropLast_concat,
      mem_append, mem_singleton]
    constructor
    · rintro (hx | hx)
      exacts [.inr ⟨.inl hx, hinit x hx⟩, .inl hx]
    rintro (hx | ⟨hx | rfl, hne⟩)
    exacts [.inr hx, .inl hx, absurd hback hne]
  · simp only [indexFrame, getLast?_concat, hback, if_false, mem_append, mem_singleton]
    constructor
    · rintro ((hx | rfl) | hx)
      exacts [.inr ⟨.inl hx, hinit x hx⟩, .inr ⟨.inr rfl, hback⟩, .inl hx]
    rintro (hx | ⟨hx, -⟩)
    exacts [.inr hx, .inl hx]

theorem rising_indexFrame (h : frames.Pairwise (·.1 < ·.1)) (hle : ∀ x ∈ frames, x.1 ≤ seq) :
    (indexFrame Prod.fst frames (seq, frame)).Pairwise (·.1 < ·.1) := by
  obtain rfl | ⟨init, back, rfl⟩ := eq_nil_or_concat' frames
  · simp [indexFrame]
  obtain ⟨hinit, -, hbelow⟩ := pairwise_append.mp h
  have hback := hle back (by simp)
  have hlt : ∀ y ∈ init, y.1 < seq := fun y hy => by
    have := hbelow y hy back (by simp)
    omega
  by_cases heq : back.1 = seq
  · simp only [indexFrame, getLast?_concat, heq, if_true, dropLast_concat]
    exact pairwise_append.mpr ⟨hinit, by simp, fun y hy z hz => by
      obtain rfl := mem_singleton.mp hz
      exact hlt y hy⟩
  simp only [indexFrame, getLast?_concat, heq, if_false]
  refine pairwise_append.mpr ⟨h, by simp, fun y hy z hz => ?_⟩
  obtain rfl := mem_singleton.mp hz
  rcases mem_append.mp hy with hy | hy
  · exact hlt y hy
  obtain rfl := mem_singleton.mp hy
  exact Nat.lt_of_le_of_ne hback heq

end Joining

/-- The call stores no frame under the largest number, which has no successor. -/
def BelowMax : StoreCall → Prop
  | .store seq _ _ => seq < seqnumMax
  | _ => True

instance (c : StoreCall) : Decidable (BelowMax c) := by
  cases c <;> simp only [BelowMax] <;> infer_instance

namespace FrameStore

variable {F : FrameStore} {dir : Direction}

theorem succSeqnum_of_lt {n : ℕ} (h : n < seqnumMax) : succSeqnum n = n + 1 := by
  simp only [succSeqnum, seqnumMax] at *
  omega

theorem ordered_fresh {next : Direction → ℕ} (hpos : ∀ d, 0 < next d)
    (hle : ∀ d, next d ≤ seqnumMax) : (fresh next).Ordered :=
  ⟨by simp [fresh], by simp [fresh], by simp [fresh], by simp [fresh], hpos, hle⟩

theorem Ordered.put (h : F.Ordered) (hlt : F.next dir < seqnumMax) (frame : Bytes) :
    (F.put (F.next dir) frame dir).Ordered := by
  have hmem : ∀ d, ∀ x ∈ (F.put (F.next dir) frame dir).frames d,
      x ∈ F.frames d ∨ (d = dir ∧ x.1 = F.next dir) := by
    intro d x hx
    by_cases hd : d = dir
    · subst hd
      simp only [FrameStore.put, Function.update_self] at hx
      rcases (mem_indexFrame (h.rising d) (h.le_next d)).mp hx with rfl | ⟨hx, -⟩
      exacts [.inr ⟨rfl, rfl⟩, .inl hx]
    · simp only [FrameStore.put, Function.update_of_ne hd] at hx
      exact .inl hx
  refine ⟨fun d => ?_, fun d x hx => ?_, fun d x hx => ?_, fun d x hx => ?_, h.next_pos, h.next_le⟩
  · by_cases hd : d = dir
    · subst hd
      simpa only [FrameStore.put, Function.update_self] using
        rising_indexFrame (h.rising d) (h.le_next d)
    · simpa only [FrameStore.put, Function.update_of_ne hd] using h.rising d
  · rcases hmem d x hx with hx | ⟨rfl, hx⟩
    exacts [h.pos d x hx, hx ▸ h.next_pos d]
  · rcases hmem d x hx with hx | ⟨rfl, hx⟩
    exacts [h.le_next d x hx, Nat.le_of_eq hx]
  rcases hmem d x hx with hx | ⟨rfl, hx⟩
  exacts [h.lt_max d x hx, hx ▸ hlt]

theorem Ordered.advance (h : F.Ordered) (hlt : F.next dir < seqnumMax) :
    (F.advance dir).Ordered := by
  have hnext : ∀ d, F.next d ≤ (F.advance dir).next d ∧ (F.advance dir).next d ≤ seqnumMax := by
    intro d
    by_cases hd : d = dir
    · subst hd
      simp only [FrameStore.advance, Function.update_self, succSeqnum_of_lt hlt]
      omega
    · simp only [FrameStore.advance, Function.update_of_ne hd]
      exact ⟨Nat.le_refl _, h.next_le d⟩
  exact ⟨h.rising, h.pos, fun d x hx => Nat.le_trans (h.le_next d x hx) (hnext d).1, h.lt_max,
    fun d => Nat.lt_of_lt_of_le (h.next_pos d) (hnext d).1, fun d => (hnext d).2⟩

end FrameStore

/-! ## What an onlooker records -/

/-- The frame of each number of each direction, as far as one was stored. -/
abbrev Archive := Direction → ℕ → Option Bytes

namespace Archive

def empty : Archive := fun _ _ => none

def put (A : Archive) (seq : ℕ) (frame : Bytes) (dir : Direction) : Archive :=
  Function.update A dir (Function.update (A dir) seq (some frame))

/-- A call is recorded with its reply: a frame whose store succeeded, and a reset. -/
def note (A : Archive) : StoreCall → StoreReply → Archive
  | .store seq frame dir, .done (.ok _) => A.put seq frame dir
  | .reset, .done (.ok _) => empty
  | .resetTo _ _, .done (.ok _) => empty
  | _, _ => A

open Classical in
/-- The frames of the numbers that no hole separates from the first one stored. -/
noncomputable def unbroken (A : Archive) (dir : Direction) (s : ℕ) : Option Bytes :=
  if ∀ u t, A dir u ≠ none → u ≤ t → t ≤ s → A dir t ≠ none then A dir s else none

theorem unbroken_congr {A B : Archive} {dir : Direction} (h : ∀ t ≤ s, A dir t = B dir t) :
    A.unbroken dir s = B.unbroken dir s := by
  have hcond : (∀ u t, A dir u ≠ none → u ≤ t → t ≤ s → A dir t ≠ none) ↔
      ∀ u t, B dir u ≠ none → u ≤ t → t ≤ s → B dir t ≠ none := by
    constructor
    · intro hA u t hu hut hts
      rw [← h t hts]
      exact hA u t (by rwa [h u (Nat.le_trans hut hts)]) hut hts
    intro hB u t hu hut hts
    rw [h t hts]
    exact hB u t (by rwa [← h u (Nat.le_trans hut hts)]) hut hts
  unfold unbroken
  rw [h s (Nat.le_refl s)]
  by_cases hB : ∀ u t, B dir u ≠ none → u ≤ t → t ≤ s → B dir t ≠ none
  · rw [if_pos hB, if_pos (hcond.mpr hB)]
  · rw [if_neg hB, if_neg (mt hcond.mp hB)]

theorem unbroken_put_of_lt {A : Archive} {dir d : Direction} {seq : ℕ} {frame : Bytes}
    (h : d = dir → s < seq) : (A.put seq frame dir).unbroken d s = A.unbroken d s := by
  refine unbroken_congr fun t ht => ?_
  by_cases hd : d = dir
  · subst hd
    have hne : t ≠ seq := by
      have := h rfl
      omega
    simp [put, hne]
  · simp [put, hd]

theorem put_eq_some {A : Archive} {seq : ℕ} {frame : Bytes} {dir d : Direction} :
    A.put seq frame dir d s = some f ↔
      (d = dir ∧ s = seq ∧ f = frame) ∨ (A d s = some f ∧ ¬ (d = dir ∧ s = seq)) := by
  by_cases hd : d = dir
  · subst hd
    by_cases hs : s = seq
    · subst hs
      simp [put, eq_comm]
    · simp [put, hs]
  · simp [put, hd]

end Archive

def Keeps (F : FrameStore) (A : Archive) : Prop :=
  ∀ d s f, A d s = some f ↔ (s, f) ∈ F.frames d

variable {A : Archive}

theorem Keeps.ne_none_iff {F : FrameStore} (h : Keeps F A) {d : Direction} :
    A d s ≠ none ↔ ∃ f, (s, f) ∈ F.frames d := by
  simp only [← h d s, Option.ne_none_iff_exists']

/-- What a lookup finds is what was recorded, up to the first hole. -/
theorem Keeps.foundIn_eq {F : FrameStore} (h : Keeps F A) (hord : F.Ordered) (d : Direction) :
    foundIn (F.frames d) = A.unbroken d := by
  funext s
  have hhole : NoHole (F.frames d) s ↔
      ∀ u t, A d u ≠ none → u ≤ t → t ≤ s → A d t ≠ none := by
    simp [NoHole, h.ne_none_iff]
  have hsome : ∀ f, foundIn (F.frames d) s = some f ↔ A.unbroken d s = some f := by
    intro f
    simp only [foundIn, Option.map_eq_some_iff, lookUpSeq_eq_some_iff (hord.rising d), hhole,
      Archive.unbroken]
    constructor
    · rintro ⟨⟨t, f'⟩, ⟨hx, rfl, hno⟩, rfl⟩
      rw [if_pos hno]
      exact (h d t f').mpr hx
    intro hf
    split at hf
    · rename_i hno
      exact ⟨(s, f), ⟨(h d s f).mp hf, rfl, hno⟩, rfl⟩
    · cases hf
  cases hfound : A.unbroken d s with
  | none =>
    cases hin : foundIn (F.frames d) s with
    | none => rfl
    | some f => simp [(hsome f).mp hin] at hfound
  | some f => exact (hsome f).mpr hfound

theorem keeps_fresh (next : Direction → ℕ) : Keeps (FrameStore.fresh next) Archive.empty := by
  simp [Keeps, FrameStore.fresh, Archive.empty]

theorem Keeps.put {F : FrameStore} (h : Keeps F A) (hord : F.Ordered) (frame : Bytes)
    (dir : Direction) : Keeps (F.put (F.next dir) frame dir) (A.put (F.next dir) frame dir) := by
  intro d s f
  rw [Archive.put_eq_some, h d s f]
  by_cases hd : d = dir
  · subst hd
    simp [FrameStore.put, mem_indexFrame (hord.rising d) (hord.le_next d)]
  · simp [FrameStore.put, hd]

/-- What a call does to a store and to the record of it. A counter that moved on may
not have reached the disk, so its reply is left open. -/
inductive Effect (F : FrameStore) : StoreCall → FrameStore × StoreReply → Prop
  | refused {c : StoreCall} {r : StoreReply} (hnote : ∀ A : Archive, A.note c r = A) :
      Effect F c (F, r)
  | stored (frame : Bytes) (dir : Direction) : Effect F (.store (F.next dir) frame dir)
        ((F.put (F.next dir) frame dir).advance dir, .done (.ok ()))
  | advanced {dir : Direction} {r : Except Error ℕ} (hmax : F.next dir ≠ seqnumMax) :
      Effect F (.nextSeqnum dir true) (F.advance dir, .number r)
  | cleared {c : StoreCall} {next : Direction → ℕ} (hnext : ∀ d, next d = 1 ∨ next d = 2)
      (hnote : ∀ A : Archive, A.note c (.done (.ok ())) = Archive.empty) :
      Effect F c (FrameStore.fresh next, .done (.ok ()))

theorem targets_valid {nextIn nextOut : ℕ} (h : resetToTargetsValid nextIn nextOut = true)
    (d : Direction) : targets nextIn nextOut d = 1 ∨ targets nextIn nextOut d = 2 := by
  simp only [resetToTargetsValid, Bool.and_eq_true, Bool.or_eq_true, beq_iff_eq] at h
  cases d
  exacts [h.1, h.2]

theorem answer_effect (limit : ℕ) (F : FrameStore) (c : StoreCall) :
    Effect F c (F.answer limit c) := by
  cases c with
  | store seq frame dir =>
    simp only [FrameStore.answer]
    split
    · exact .refused fun _ => rfl
    rename_i hseq
    obtain rfl : seq = F.next dir := not_not.mp hseq
    split
    · exact .refused fun _ => rfl
    · exact .stored frame dir
  | retrieve first last dir visitor => exact .refused fun _ => rfl
  | nextSeqnum dir increment =>
    simp only [FrameStore.answer, readCounter]
    split
    · rename_i e he
      split at he
      · exact .refused fun _ => rfl
      · cases he
    rename_i current hcurrent
    split at hcurrent
    · cases hcurrent
    rename_i hmax
    cases increment with
    | false => exact .refused fun _ => rfl
    | true => exact .advanced (by simpa using hmax)
  | reset => exact .cleared (by intro d; cases d <;> simp [targets]) fun _ => rfl
  | resetTo nextIn nextOut =>
    simp only [FrameStore.answer]
    split
    · rename_i hvalid
      exact .cleared (targets_valid hvalid) fun _ => rfl
    · exact .refused fun _ => rfl

variable {F F' : FrameStore} {c : StoreCall} {r : StoreReply}

/-- The record of a call stays what the store holds. -/
theorem Effect.keeps (h : Effect F c (F', r)) (hord : F.Ordered) (hA : Keeps F A) :
    Keeps F' (A.note c r) := by
  cases h with
  | refused hnote => rwa [hnote]
  | stored frame dir => exact hA.put hord frame dir
  | advanced => exact hA
  | cleared _ hnote =>
    rw [hnote]
    exact keeps_fresh _

end Fixpp.Interface
