import Fixpp.Model.FieldReaders
import Fixpp.Model.LengthPairs

/-!
# Lookups in the hash overlay

The overlay indexes the entries in the sense of `Indexes`, for every seed, as long as the 32-bit
references to them do not wrap. So a lookup gives the first entry of its tag; none only for a tag
that does not occur, unless the message has more tags than the build visits slots.
-/

namespace Fixpp.Analysis.TagLookup

open Model Foundation OffsetTable List

variable {overlay : List ℕ} {n rounds slot count cap : ℕ}

/-! ## The ring of slots -/

theorem doubleUpTo_eq (want fuel : ℕ) (c : ℕ) (hfuel : want ≤ 2 ^ c + fuel) :
    ∃ d, c ≤ d ∧ doubleUpTo want fuel (2 ^ c) = 2 ^ d ∧ want ≤ 2 ^ d := by
  induction fuel generalizing c with
  | zero => exact ⟨c, Nat.le_refl _, rfl, hfuel⟩
  | succ fuel ih =>
    rw [doubleUpTo]
    split
    · have hpos := Nat.two_pow_pos c
      rw [Nat.shiftLeft_eq, Nat.pow_one, ← Nat.pow_succ]
      obtain ⟨d, hd, heq⟩ := ih (c + 1) (by rw [Nat.pow_succ]; omega)
      exact ⟨d, by omega, heq⟩
    · exact ⟨c, Nat.le_refl _, rfl, by omega⟩

theorem overlayMask_eq (hlen : overlay.length = overlayCapFor n) :
    ∃ d, overlayMask overlay = 2 ^ d - 1 ∧ 2 ^ d ≤ overlay.length ∧ (n < 2 ^ 32 → n < 2 ^ d) := by
  obtain ⟨c, -, hcap, hwant⟩ := doubleUpTo_eq (n * 5 / 4 + 1) (n * 5 / 4 + 1) 3 (by omega)
  have hcap : overlay.length = 2 ^ c := hlen.trans hcap
  unfold overlayMask
  rw [hcap]
  have hpos := Nat.two_pow_pos c
  rcases Nat.lt_or_ge c 32 with hc | hc
  · have hlt : 2 ^ c < 2 ^ 32 := Nat.pow_lt_pow_right (by decide) hc
    exact ⟨c, Nat.mod_eq_of_lt (by omega), Nat.le_refl _, by omega⟩
  refine ⟨32, ?_, Nat.pow_le_pow_right (by decide) hc, id⟩
  obtain ⟨more, rfl⟩ := Nat.exists_eq_add_of_le hc
  rw [Nat.pow_add] at hpos ⊢
  omega

theorem iterate_ring (home d rounds : ℕ) :
    iterate (fun slot => (slot + 1) &&& (2 ^ d - 1)) (home &&& (2 ^ d - 1)) rounds =
      (range rounds).map fun j => (home + j) % 2 ^ d := by
  simp only [Nat.and_two_pow_sub_one_eq_mod, ← range_map_iterate]
  apply map_congr_left
  intro j hj
  clear hj
  induction j with
  | zero => rfl
  | succ j ih => rw [Function.iterate_succ_apply', ih, Nat.mod_add_mod, Nat.add_assoc]

theorem overlayWay_nodup {seed : UInt32} {d : ℕ} (hrounds : rounds ≤ 2 ^ d) (tag : ℕ) :
    (overlayWay seed (2 ^ d - 1) rounds tag).Nodup := by
  rw [overlayWay, iterate_ring]
  apply List.Nodup.map_on _ nodup_range
  intro j hj j' hj' heq
  have hj := mem_range.mp hj
  have hj' := mem_range.mp hj'
  have heq : j % 2 ^ d = j' % 2 ^ d := Nat.ModEq.add_left_cancel' _ heq
  rwa [Nat.mod_eq_of_lt (by omega), Nat.mod_eq_of_lt (by omega)] at heq

theorem probe_longer {seed : UInt32} {mask tag : ℕ} {look : ℕ → Option ℕ} {key : ℕ → ℕ}
    (h : probe look key tag (overlayWay seed mask rounds tag) = some slot) {rounds' : ℕ}
    (hle : rounds ≤ rounds') :
    probe look key tag (overlayWay seed mask rounds' tag) = some slot := by
  obtain ⟨more, rfl⟩ := Nat.exists_eq_add_of_le hle
  unfold probe overlayWay at h ⊢
  rw [iterate_add, find?_append, h, Option.some_or]

/-! ## The build -/

section Build

variable {entries : List OffsetTable.Entry} {seed : UInt32}

theorem overlayAt_set (hslot : slot < overlay.length) (e : ℕ) :
    overlayAt (overlay.set slot (e + 1)) = Function.update (overlayAt overlay) slot (some e) := by
  funext s
  unfold overlayAt
  by_cases heq : s = slot
  · subst heq
    simp [getD_eq_getElem?_getD, hslot]
  rw [Function.update_of_ne heq]
  simp [getD_eq_getElem?_getD, getElem?_set_ne (.symm heq)]

theorem overlayUpTo_succ (count : ℕ) : overlayUpTo entries seed (count + 1) =
      indexEntry entries seed (overlayUpTo entries seed count) count := by
  simp [overlayUpTo, range_succ]

theorem length_overlayUpTo (count : ℕ) :
    (overlayUpTo entries seed count).length = overlayCapFor entries.length := by
  induction count with
  | zero => simp [overlayUpTo]
  | succ count ih =>
    rw [overlayUpTo_succ, indexEntry, ← ih]
    split
    · rfl
    split
    · exact length_set
    · rfl

abbrev Overlays (entries : List OffsetTable.Entry) (seed : UInt32) (overlay : List ℕ) (count : ℕ) :
    Prop :=
  Indexes (tagAt entries) (overlayWay seed (overlayMask overlay) maxBuildProbe)
    (overlayAt overlay) count

theorem overlays_upTo (hcount : count < 2 ^ 32) :
    Overlays entries seed (overlayUpTo entries seed count) count := by
  induction count with
  | zero =>
    have hnone : overlayAt (overlayUpTo entries seed 0) = fun _ => none := by
      funext slot
      simp [overlayUpTo, overlayAt, getElem?_replicate]
      grind
    unfold Overlays
    rw [hnone]
    exact .empty
  | succ count ih =>
    have ih := ih (by omega)
    rw [overlayUpTo_succ]
    unfold Overlays at ih ⊢
    rw [indexEntry]
    split
    · rename_i hprobe
      apply ih.skip
      simp [hprobe]
    rename_i slot hprobe
    split
    · rename_i hfree
      have hslot : slot < (overlayUpTo entries seed count).length := by
        obtain ⟨d, hmask, hring, -⟩ := overlayMask_eq (length_overlayUpTo count)
        have hmem := mem_of_find?_eq_some hprobe
        rw [hmask, overlayWay, iterate_ring] at hmem
        obtain ⟨j, -, rfl⟩ := mem_map.mp hmem
        exact Nat.lt_of_lt_of_le (Nat.mod_lt _ (Nat.two_pow_pos d)) hring
      rw [overlayMask, length_set, Nat.mod_eq_of_lt hcount, overlayAt_set hslot]
      exact ih.put hprobe hfree
    · rename_i htaken
      apply ih.skip
      rw [hprobe]
      rintro _ ⟨⟩
      exact htaken

end Build

/-! ## Lookups -/

section Find

variable {table : OffsetTable} {seed : UInt32} {tag : ℕ}

theorem overlay_of_ok (hok : table.status = .ok) :
    table.overlay seed = overlayUpTo table.entries seed table.entries.length :=
  if_pos hok

theorem find_of_ok (hok : table.status = .ok) : table.find seed tag =
      match seek table.entries (table.overlay seed) seed tag with
      | none => .error .requiredFieldMissing
      | some e => .ok e := by
  have hne : table.overlay seed ≠ [] := by
    rw [overlay_of_ok hok]
    obtain ⟨d, -, hring, -⟩ := overlayMask_eq (length_overlayUpTo table.entries.length)
    apply ne_nil_of_length_pos
    exact Nat.lt_of_lt_of_le (Nat.two_pow_pos d) hring
  exact (if_neg (not_not_intro hok)).trans (if_neg hne)

theorem seek_cases (entries : List OffsetTable.Entry) (overlay : List ℕ) (seed : UInt32) (tag : ℕ) :
    seek entries overlay seed tag = none ∨
      ∃ slot e, overlayAt overlay slot = some e ∧ tagAt entries e = tag ∧
        seek entries overlay seed tag = entries[e]? := by
  unfold seek
  cases hprobe : probe (overlayAt overlay) (tagAt entries) tag
      (overlayWay seed (overlayMask overlay) (overlay.length + 1) tag) with
  | none => exact .inl rfl
  | some slot =>
    cases hlook : overlayAt overlay slot with
    | none => exact .inl (by simp [hlook])
    | some e => exact .inr ⟨slot, e, hlook, key_of_probe hprobe hlook, by simp [hlook]⟩

theorem seek_eq (h : Overlays table.entries seed overlay table.entries.length) :
    seek table.entries overlay seed tag = none ∨ seek table.entries overlay seed tag =
        table.entries.find? fun e => e.tag = tag := by
  rcases seek_cases table.entries overlay seed tag with hnone | ⟨slot, e, hlook, hkey, hseek⟩
  · exact .inl hnone
  obtain ⟨hlt, hfirst⟩ := h.first hlook
  rw [hseek, getElem?_eq_getElem hlt]
  refine .inr (find?_eq_some_iff_getElem.mpr ⟨?_, e, hlt, rfl, ?_⟩).symm
  · simpa [tagAt, hlt] using hkey
  intro j hj
  have hne := hfirst j hj
  rw [hkey] at hne
  simpa [tagAt, Nat.lt_trans hj hlt] using hne

theorem image_tagAt (entries : List OffsetTable.Entry) :
    (Finset.range entries.length).image (tagAt entries) =
      (entries.map (·.tag)).toFinset := by
  ext k
  simp only [Finset.mem_image, Finset.mem_range, mem_toFinset, mem_iff_getElem,
    length_map, getElem_map]
  constructor
  · rintro ⟨i, hi, rfl⟩
    exact ⟨i, hi, by simp [tagAt, hi]⟩
  rintro ⟨i, hi, rfl⟩
  exact ⟨i, hi, by simp [tagAt, hi]⟩

/-- With no more tags than the build visits slots, a way has an empty slot or an entry of
its tag, so the loop of a lookup finds every tag that occurs. -/
theorem seek_isSome (hlen : overlay.length = overlayCapFor table.entries.length)
    (hsmall : table.entries.length < 2 ^ 32)
    (h : Overlays table.entries seed overlay table.entries.length)
    (htags : (table.entries.map (·.tag)).toFinset.card ≤ maxBuildProbe)
    (hoccurs : tag ∈ (table.entries.map (·.tag)).toFinset) :
    (seek table.entries overlay seed tag).isSome := by
  obtain ⟨d, hmask, hring, hroom⟩ := overlayMask_eq hlen
  rw [← image_tagAt] at htags hoccurs
  have hcard : ((Finset.range table.entries.length).image (tagAt table.entries)).card ≤
      table.entries.length := Finset.card_image_le.trans (Finset.card_range _).le
  -- once around the ring, or as far as the build went
  have hstop : ∃ slot, probe (overlayAt overlay) (tagAt table.entries) tag
      (overlayWay seed (overlayMask overlay) (min maxBuildProbe (2 ^ d)) tag) = some slot := by
    rw [← Option.isSome_iff_exists, Option.isSome_iff_ne_none]
    intro hnone
    rw [hmask] at hnone
    have hlt := h.length_lt_card (overlayWay_nodup (Nat.min_le_right _ _) tag) hoccurs hnone
    rw [overlayWay, length_iterate] at hlt
    omega
  obtain ⟨slot, hslot⟩ := hstop
  obtain ⟨i, hi, rfl⟩ := Finset.mem_image.mp hoccurs
  have hbuild := h.settled (Finset.mem_range.mp hi) (probe_longer hslot (Nat.min_le_left _ _))
  obtain ⟨e, he⟩ := Option.ne_none_iff_exists'.mp hbuild
  have hfind := probe_longer hslot (show _ ≤ overlay.length + 1 by omega)
  simp [seek, hfind, he, (h.first he).1]

end Find

def onesThenTwo (count : ℕ) : Bytes := (replicate count [49, 61, soh]).flatten ++ [50, 61, soh]

theorem buildLoop_emptyValue {fuel : ℕ} {entries : List OffsetTable.Entry} {digit : UInt8} {tag : ℕ}
    {rest : Bytes} (hcap : entries.length < cap)
    (hscan : scanTag 0 (digit :: 61 :: soh :: rest) = .at tag (61 :: soh :: rest))
    (hlength : DictHooks.none tag = 0) :
    buildLoop cap DictHooks.none n (fuel + 1) entries {} (digit :: 61 :: soh :: rest) =
      buildLoop cap DictHooks.none n fuel (entries ++ [OffsetTable.Entry.ofSpan
        ⟨tag, n - (rest.length + 1), n - (rest.length + 1)⟩]) {} rest := by
  have hread : readField DictHooks.none n {} (digit :: 61 :: soh :: rest) =
      .ok (⟨tag, n - (rest.length + 1), n - (rest.length + 1)⟩, rest, {}) := by
    simp [readField, hscan, hlength, splitValue, equalsSign]
  rw [buildLoop, hread]
  exact if_neg (by omega)

theorem buildLoop_onesThenTwo (fuel count : ℕ) (entries : List OffsetTable.Entry)
    (hfuel : count < fuel) (hcap : entries.length + count < cap) :
    ∃ ones two, buildLoop cap DictHooks.none n fuel entries {} (onesThenTwo count) =
        ⟨entries ++ (ones ++ [two]), .ok, []⟩ ∧
      ones.length = count ∧ (∀ e ∈ ones, e.tag = 1) ∧ two.tag = 2 := by
  obtain ⟨fuel, rfl⟩ : ∃ m, fuel = m + 1 := ⟨fuel - 1, by omega⟩
  induction count generalizing fuel entries with
  | zero =>
    refine ⟨[], .ofSpan ⟨2, n - 1, n - 1⟩, ?_, rfl, nofun, rfl⟩
    refine (buildLoop_emptyValue hcap rfl (by decide +kernel)).trans ?_
    rw [buildLoop]
    rfl
  | succ count ih =>
    obtain ⟨fuel, rfl⟩ : ∃ m, fuel = m + 1 := ⟨fuel - 1, by omega⟩
    have hcons : onesThenTwo (count + 1) = 49 :: 61 :: soh :: onesThenTwo count := by
      simp [onesThenTwo, replicate_succ]
    rw [hcons, buildLoop_emptyValue (by omega) rfl (by decide +kernel)]
    obtain ⟨ones, two, hloop, hlen, hones, htwo⟩ := ih (entries ++ [OffsetTable.Entry.ofSpan
      ⟨1, n - ((onesThenTwo count).length + 1), n - ((onesThenTwo count).length + 1)⟩])
      (by rw [length_append]; simp; omega) fuel (by omega)
    rw [append_assoc, singleton_append, ← cons_append] at hloop
    exact ⟨_, two, hloop, by rw [length_cons, hlen], forall_mem_cons.mpr ⟨rfl, hones⟩, htwo⟩

theorem overlayAt_wrapped {entries : List OffsetTable.Entry} {seed : UInt32} {e : ℕ}
    (hcount : count + 1 = 2 ^ 32)
    (h : overlayAt (overlayUpTo entries seed (count + 1)) slot = some e) :
    overlayAt (overlayUpTo entries seed count) slot = some e := by
  rw [overlayUpTo_succ, indexEntry, hcount, Nat.mod_self] at h
  split at h
  · exact h
  rename_i at_ hprobe
  split at h
  · unfold overlayAt at h ⊢
    by_cases heq : at_ = slot
    · subst heq
      have hzero : ((overlayUpTo entries seed count).set at_ 0).getD at_ 0 = 0 := by
        rw [getD_eq_getElem?_getD, getElem?_set_self']
        cases (overlayUpTo entries seed count)[at_]? <;> rfl
      rw [hzero] at h
      cases h
    · rwa [getD_eq_getElem?_getD, getElem?_set_ne heq, ← getD_eq_getElem?_getD] at h
  · exact h

end Fixpp.Analysis.TagLookup
