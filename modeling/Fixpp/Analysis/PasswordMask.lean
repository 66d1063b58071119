import Fixpp.Analysis.Decimal

/-!
# Passwords in the store

The masker walks a frame like the header scan, but it goes on behind a field with a malformed
tag, and behind a malformed count it takes every `554=` at the start of a field for a Password.
`skippingRead` is the header scan with the first of the two.
-/

namespace Fixpp.Analysis.PasswordMask

open Foundation Model List Reader

variable (fuel : ℕ) (hooks : DictHooks) (n : ℕ) (frame : Bytes)
variable {before taken : Bytes} {tag k : ℕ} {anchored : Bool}

/-- The bytes of a field in front of its equals sign, back to the SOH before. -/
def spelling (f : FieldSpan) : Bytes :=
  ((frame.take (f.start - 1)).reverse.takeWhile (· ≠ soh)).reverse

/-- The carry behind a field with a malformed tag. One with nothing in front of its
equals sign is read as tag 0. -/
def carryBehind (carry : LengthDataCarry) (bytes : Bytes) : LengthDataCarry :=
  if bytes.head? = some equalsSign then
    { dataTag := hooks 0
      count := if hooks 0 ≠ 0 then parseBoundedU32 0 (splitValue (bytes.drop 1)).1
        else carry.count }
  else { carry with dataTag := 0 }

/-- The header scan that steps over a field with a malformed tag. -/
def skippingRead : Reader LengthDataCarry (Option FieldSpan) UInt8 :=
  fun carry bytes =>
    match readTag false 0 bytes with
    | none => some (none, skipField bytes, carryBehind hooks carry bytes)
    | some (tag, value) =>
      match carry.readValue hooks tag value with
      | none => none
      | some (_, rest, carry') =>
        some (some { tag := tag, start := n - value.length, stop := n - rest.length },
          rest.drop 1, carry')

/-- The fields of a frame with the malformed tags stepped over, up to a field with a
malformed count, if there is one. -/
def skippingCut : Cut (Option FieldSpan) UInt8 :=
  (skippingRead hooks frame.length).cut frame.length {} frame

/-- The table names tag 554 neither as a Length nor as a Data tag. -/
structure NamesNoPassword (hooks : DictHooks) : Prop where
  length : hooks 554 = 0
  data : ∀ t, hooks t ≠ 554

def FieldStart (before : Bytes) : Prop := before = [] ∨ ∃ init, before = init ++ [soh]

/-! ## Masking -/

variable (values : List (ℕ × ℕ)) (pos : ℕ) (bytes : Bytes)

/-- The bytes from offset `pos` of a frame on, with those in one of the extents
masked. -/
def maskAt : Bytes :=
  bytes.mapIdx fun k b => if values.any fun v => v.1 ≤ pos + k && pos + k < v.2 then 42 else b

theorem maskTag554_eq : maskTag554 hooks frame = maskAt (tag554Values hooks frame) 0 frame := by
  simp only [maskTag554, maskAt, Nat.zero_add]

@[simp] theorem length_maskAt : (maskAt values pos bytes).length = bytes.length := by
  simp [maskAt]

theorem maskAt_cons (b : UInt8) (bytes : Bytes) : maskAt values pos (b :: bytes) =
      (if values.any fun v => v.1 ≤ pos && pos < v.2 then 42 else b) ::
        maskAt values (pos + 1) bytes := by
  simp only [maskAt, mapIdx_cons, Nat.add_zero, Nat.add_assoc, Nat.add_comm 1]

theorem maskAt_append (a b : Bytes) :
    maskAt values pos (a ++ b) = maskAt values pos a ++ maskAt values (pos + a.length) b := by
  simp only [maskAt, mapIdx_append, Nat.add_assoc, Nat.add_comm a.length]

variable {values : List (ℕ × ℕ)} {pos : ℕ} {bytes digits frame rest : Bytes} {v : ℕ × ℕ}
    {hooks : DictHooks} {carry carry' : LengthDataCarry} {f : FieldSpan}

theorem maskAt_of_ge (h : ∀ v ∈ values, pos + bytes.length ≤ v.1) :
    maskAt values pos bytes = bytes := by
  refine ext_getElem (length_maskAt ..) fun k _ hk => ?_
  simp only [maskAt, getElem_mapIdx, any_eq_true, Bool.and_eq_true, decide_eq_true_eq]
  refine if_neg ?_
  rintro ⟨v, hv, hin⟩
  have hge := h v hv
  omega

theorem maskAt_nil (pos : ℕ) (bytes : Bytes) : maskAt [] pos bytes = bytes :=
  maskAt_of_ge fun _ hv => (nomatch hv)

theorem maskAt_of_le (bytes : Bytes) (h : v.2 ≤ pos) :
    maskAt (v :: values) pos bytes = maskAt values pos bytes := by
  have hnone : ∀ k, (decide (v.1 ≤ pos + k) && decide (pos + k < v.2)) = false := by
    intro k
    simp only [Bool.and_eq_false_iff, decide_eq_false_iff_not]
    omega
  simp only [maskAt, any_cons, hnone, Bool.false_or]

theorem maskAt_cover (hstart : v.1 ≤ pos) (hstop : pos + bytes.length ≤ v.2) :
    maskAt (v :: values) pos bytes = bytes.map fun _ => 42 := by
  refine ext_getElem (by simp) fun k hk _ => ?_
  rw [length_maskAt] at hk
  have hcover : (decide (v.1 ≤ pos + k) && decide (pos + k < v.2)) = true := by
    simp only [Bool.and_eq_true, decide_eq_true_eq]
    omega
  simp only [maskAt, getElem_mapIdx, any_cons, hcover, Bool.true_or, if_true, getElem_map]

/-! ## What the masker finds -/

theorem spelling_eq {value : Bytes} (hframe : frame = before ++ (digits ++ equalsSign :: value))
    (hstart : FieldStart before) (hdigits : ∀ b ∈ digits, isDigit b = true)
    (hf : f.start = frame.length - value.length) : spelling frame f = digits := by
  have htake : frame.take (f.start - 1) = before ++ digits := by
    have hpos : f.start - 1 = (before ++ digits).length := by
      rw [hf, hframe]
      simp only [length_append, length_cons]
      omega
    rw [hpos, hframe, ← append_assoc, take_left]
  have hall : ∀ b ∈ digits.reverse, decide (b ≠ soh) = true := by
    intro b hb
    exact decide_eq_true (ne_of_isDigit (hdigits b (mem_reverse.mp hb))).2
  unfold spelling
  rw [htake, reverse_append, takeWhile_append_of_pos hall]
  rcases hstart with rfl | ⟨init, rfl⟩
  · simp
  · simp

/-- The masker's extent of a field: that of one spelled 554. -/
def passwordExtent (frame : Bytes) : Option FieldSpan → Option (ℕ × ℕ)
  | some f => if spelling frame f = ascii "554" then some (f.start, f.stop) else none
  | none => none

/-- What the masker adds behind a malformed count. -/
def fallbackExtents : Option Bytes → List (ℕ × ℕ)
  | none => []
  | some rest => anchoredTag554 (n - rest.length) true rest

/-- Offset `pos` of a frame is where the field starts that `bytes` begin with; at the
end of the frame there is none. -/
def AtField (frame bytes : Bytes) (pos : ℕ) : Prop :=
  bytes ≠ [] → ∃ before, frame = before ++ bytes ∧ pos = before.length ∧ FieldStart before

theorem atField_start (frame : Bytes) : AtField frame frame 0 := fun _ => ⟨[], rfl, rfl, .inl rfl⟩

theorem AtField.next {frame bytes rest : Bytes} {pos : ℕ} (h : AtField frame bytes pos)
    (hbytes : bytes = taken ++ soh :: rest) : AtField frame rest (pos + taken.length + 1) := by
  intro _
  obtain ⟨before, hframe, hpos, -⟩ := h (by rw [hbytes]; simp)
  refine ⟨before ++ taken ++ [soh], ?_, ?_, .inr ⟨before ++ taken, rfl⟩⟩
  · rw [hframe, hbytes]
    simp
  simp only [length_append, length_singleton]
  omega

theorem atField_nil (frame : Bytes) (pos : ℕ) : AtField frame [] pos := fun h => absurd rfl h

theorem skipField_eq (bytes : Bytes) : skipField bytes = (splitValue bytes).2.drop 1 := by
  unfold skipField splitValue
  rw [span_eq_takeWhile_dropWhile]

theorem skipField_cases (bytes : Bytes) : skipField bytes = [] ∨
      ∃ skipped, bytes = skipped ++ soh :: skipField bytes ∧ ∀ b ∈ skipped, b ≠ soh := by
  rw [skipField_eq]
  rcases rest_of_splitValue bytes with hnil | ⟨rest, hcons⟩
  · rw [hnil]
    exact .inl rfl
  refine .inr ⟨(splitValue bytes).1, ?_, not_soh_of_splitValue bytes⟩
  have happend := append_of_splitValue bytes
  rw [hcons] at happend ⊢
  exact happend.symm

theorem walkTag554_field {fuel : ℕ} {value : Bytes} (htag : tagFrom 0 digits = some tag) :
    walkTag554 hooks (fuel + 1) carry pos (digits ++ equalsSign :: value) =
      match carry.readValue hooks tag value with
      | none => anchoredTag554 pos true (digits ++ equalsSign :: value)
      | some (v, rest, carry') =>
        let later := walkTag554 hooks fuel carry' (pos + digits.length + 1 + v.length + 1)
          (rest.drop 1)
        if digits = ascii "554" then
          (pos + digits.length + 1, pos + digits.length + 1 + v.length) :: later
        else later := by
  obtain ⟨b, bytes, hcons⟩ := exists_cons_of_ne_nil
    (show digits ++ equalsSign :: value ≠ [] by simp)
  rw [hcons, walkTag554]
  have hhead : ((equalsSign :: value).head? == some equalsSign) = true := by simp
  rw [← hcons, span_digits (isDigit_of_tagFrom htag), looseTag_eq]
  rw [htag, hhead]
  rfl

theorem AtField.skip (h : AtField frame bytes pos) :
    AtField frame (skipField bytes) (pos + (bytes.length - (skipField bytes).length)) := by
  rcases skipField_cases bytes with hnil | ⟨skipped, hbytes, -⟩
  · rw [hnil]
    exact atField_nil frame _
  have hlen := congrArg length hbytes
  rw [length_append, length_cons] at hlen
  have hnext := h.next hbytes
  rwa [show pos + skipped.length + 1 = pos + (bytes.length - (skipField bytes).length) by omega]
    at hnext

theorem skipField_append (h : ∀ b ∈ digits, b ≠ soh) :
    skipField (digits ++ rest) = skipField rest := by
  unfold skipField
  rw [dropWhile_append_of_pos (by simpa using h)]

theorem walkTag554_nil (pos : ℕ) : walkTag554 hooks fuel carry pos [] = [] := by
  cases fuel <;> rfl

theorem walkTag554_empty (value : Bytes) :
    walkTag554 hooks (fuel + 1) carry pos (equalsSign :: value) =
      walkTag554 hooks fuel (carryBehind hooks carry (equalsSign :: value))
        (pos + (value.length + 1 - (skipField value).length)) (skipField value) := by
  have hcounted : ¬(carry.dataTag ≠ 0 ∧ carry.dataTag = 0) := fun h => h.1 h.2
  have hvalue : carry.readValue hooks 0 value = some ((splitValue value).1, (splitValue value).2,
      carryBehind hooks carry (equalsSign :: value)) := by
    rw [carryBehind, if_pos head?_cons, LengthDataCarry.readValue]
    rw [if_neg hcounted]
    rfl
  rw [← nil_append (equalsSign :: value), walkTag554_field rfl, nil_append, hvalue]
  dsimp only
  rw [if_neg (by decide), skipField_eq]
  have hlen := congrArg length (append_of_splitValue value)
  rw [length_append] at hlen
  rcases rest_of_splitValue value with hnil | ⟨tail, htail⟩
  · rw [hnil, drop_nil, walkTag554_nil, walkTag554_nil]
  rw [htail, length_cons] at hlen
  rw [htail, drop_one, tail_cons, length_nil]
  congr 1
  omega

/-- A field with an equals sign behind a tag that may be empty. -/
def Tagged (bytes : Bytes) : Prop :=
  ∃ digits tag value, bytes = digits ++ equalsSign :: value ∧ tagFrom 0 digits = some tag

theorem walkTag554_untagged (hne : bytes ≠ []) (h : ¬Tagged bytes) :
    walkTag554 hooks (fuel + 1) carry pos bytes = walkTag554 hooks fuel { carry with dataTag := 0 }
        (pos + (bytes.length - (skipField bytes).length)) (skipField bytes) := by
  obtain ⟨digits, rest, hspan, hbytes, hdigits⟩ : ∃ digits rest : Bytes,
      bytes.span (fun c => decide (c ≠ equalsSign ∧ c ≠ soh)) = (digits, rest) ∧
      bytes = digits ++ rest ∧ ∀ c ∈ digits, c ≠ soh := by
    refine ⟨_, _, span_eq_takeWhile_dropWhile _ _, takeWhile_append_dropWhile.symm, ?_⟩
    intro c hc
    have htaken := mem_takeWhile_imp hc
    simp only [decide_eq_true_eq] at htaken
    exact htaken.2
  obtain ⟨b, bs, hcons⟩ := exists_cons_of_ne_nil hne
  rw [hbytes, skipField_append hdigits, ← hbytes]
  conv_lhs => rw [hcons, walkTag554, ← hcons, hspan, looseTag_eq]
  split
  next tag hfrom hhead =>
    refine absurd ?_ h
    cases rest with
    | nil => simp at hhead
    | cons c value =>
      have hc : c = equalsSign := by simpa using hhead
      exact ⟨digits, tag, value, by rw [hbytes, hc], hfrom⟩
  · rfl

theorem walkTag554_skip (hne : bytes ≠ []) (htag : readTag false 0 bytes = none) :
    walkTag554 hooks (fuel + 1) carry pos bytes =
      walkTag554 hooks fuel (carryBehind hooks carry bytes)
        (pos + (bytes.length - (skipField bytes).length)) (skipField bytes) := by
  by_cases htagged : Tagged bytes
  · -- only an empty tag is malformed with its digits and its equals sign in order
    obtain ⟨digits, tag, value, rfl, hfrom⟩ := htagged
    have hempty : digits = [] := by
      by_contra hdigit
      rw [readTag_iff.mpr ⟨digits, hdigit, rfl, hfrom⟩] at htag
      cases htag
    subst hempty
    have hsign : skipField ([equalsSign] ++ value) = skipField value := skipField_append (by decide)
    rw [singleton_append] at hsign
    rw [nil_append, walkTag554_empty, hsign, length_cons]
  · rw [walkTag554_untagged fuel hne htagged, carryBehind, if_neg]
    intro hhead
    obtain ⟨b, value, rfl⟩ := exists_cons_of_ne_nil hne
    exact htagged ⟨[], 0, value, by rw [Option.some.inj hhead]; rfl, rfl⟩

theorem length_skipField_lt (h : bytes ≠ []) : (skipField bytes).length < bytes.length := by
  have hdrop : (bytes.dropWhile (· ≠ soh)).length ≤ bytes.length := length_dropWhile_le _ _
  have hpos : 0 < bytes.length := length_pos_iff.mpr h
  unfold skipField
  rw [length_drop]
  omega

theorem AtField.value {value v : Bytes} (h : AtField frame (digits ++ equalsSign :: value) pos)
    (hvalue : carry.readValue hooks tag value = some (v, rest, carry')) :
    AtField frame (rest.drop 1) (pos + digits.length + 1 + v.length + 1) := by
  have happend := append_of_readValue hvalue
  rcases rest_of_readValue hvalue with rfl | ⟨tail, rfl⟩
  · exact atField_nil frame _
  have hshape : digits ++ equalsSign :: value = (digits ++ equalsSign :: v) ++ soh :: tail := by
    rw [← happend, append_assoc, cons_append]
  have hnext := h.next hshape
  rwa [length_append, length_cons, show pos + (digits.length + (v.length + 1)) + 1 =
    pos + digits.length + 1 + v.length + 1 by omega] at hnext

/-- What a round of the scan finds: a malformed tag, which it steps over, a malformed
count, at which it sticks, or a field. -/
inductive SkipRound (hooks : DictHooks) (n : ℕ) (carry : LengthDataCarry) (bytes : Bytes) :
    Option (Option FieldSpan × Bytes × LengthDataCarry) → Prop
  | skipped (htag : readTag false 0 bytes = none) :
      SkipRound hooks n carry bytes (some (none, skipField bytes, carryBehind hooks carry bytes))
  | stuck {digits value : Bytes} {tag : ℕ} (hbytes : bytes = digits ++ equalsSign :: value)
      (hdigits : digits ≠ []) (hfrom : tagFrom 0 digits = some tag)
      (hvalue : carry.readValue hooks tag value = none) : SkipRound hooks n carry bytes none
  | field {digits value v rest : Bytes} {tag : ℕ} {carry' : LengthDataCarry}
      (hbytes : bytes = digits ++ equalsSign :: value) (hdigits : digits ≠ [])
      (hfrom : tagFrom 0 digits = some tag)
      (hvalue : carry.readValue hooks tag value = some (v, rest, carry')) :
      SkipRound hooks n carry bytes
        (some (some { tag := tag, start := n - value.length, stop := n - rest.length },
          rest.drop 1, carry'))

theorem skipRound (hooks : DictHooks) (n : ℕ) (carry : LengthDataCarry) (bytes : Bytes) :
    SkipRound hooks n carry bytes (skippingRead hooks n carry bytes) := by
  unfold skippingRead
  cases htag : readTag false 0 bytes with
  | none => exact .skipped htag
  | some field =>
    obtain ⟨tag, value⟩ := field
    obtain ⟨digits, hdigits, hbytes, hfrom⟩ := readTag_iff.mp htag
    cases hvalue : carry.readValue hooks tag value with
    | none => simp only [hvalue]; exact .stuck hbytes hdigits hfrom hvalue
    | some r => simp only [hvalue]; exact .field hbytes hdigits hfrom hvalue

/-- The header scan stops where this one steps over a field. -/
theorem headerRead_eq_skipping (hooks : DictHooks) (n : ℕ) (carry : LengthDataCarry)
    (bytes : Bytes) : headerRead hooks n carry bytes =
      (skippingRead hooks n carry bytes).bind fun r => r.1.map fun f => (f, r.2) := by
  unfold headerRead skippingRead
  cases readTag false 0 bytes with
  | none => rfl
  | some field =>
    dsimp only
    cases carry.readValue hooks field.1 field.2 <;> rfl

/-- What the masker finds: the fields spelled 554 of the scan that steps over
malformed tags, and everything anchored behind a malformed count. -/
theorem walkTag554_eq (hooks : DictHooks) (fuel pos : ℕ) (carry : LengthDataCarry) (bytes : Bytes)
    (hfuel : bytes.length ≤ fuel) (hat : AtField frame bytes pos) :
    let c := (skippingRead hooks frame.length).cut fuel carry bytes
    walkTag554 hooks fuel carry pos bytes =
      c.items.filterMap (passwordExtent frame) ++ fallbackExtents frame.length c.stuck := by
  induction fuel generalizing pos carry bytes with
  | zero =>
    have hnil : bytes = [] := eq_nil_of_length_eq_zero (by omega)
    subst hnil
    rfl
  | succ fuel ih =>
    by_cases hne : bytes = []
    · subst hne
      rfl
    obtain ⟨b, bs, hcons⟩ := exists_cons_of_ne_nil hne
    have hround := skipRound hooks frame.length carry bytes
    generalize hread : skippingRead hooks frame.length carry bytes = r at hround
    rw [hcons] at hread
    cases hround with
    | skipped htag =>
      have hlt := length_skipField_lt hne
      rw [walkTag554_skip fuel hne htag, ih _ _ _ (by omega) hat.skip, hcons,
        cut_of_some (hcons ▸ hread)]
      rfl
    | stuck hbytes hdigits hfrom hvalue =>
      obtain ⟨before, hframe, hpos, -⟩ := hat hne
      have hplace : frame.length - bytes.length = pos := by
        rw [hframe, hpos, length_append, Nat.add_sub_cancel]
      have hwalk : walkTag554 hooks (fuel + 1) carry pos bytes =
          anchoredTag554 pos true bytes := by
        rw [hbytes, walkTag554_field hfrom, hvalue]
      rw [hwalk, hcons, cut_of_none hread, ← hcons]
      simp [filterMap_nil, nil_append, fallbackExtents, hplace]
    | @field digits value v rest tag carry' hbytes hdigits hfrom hvalue =>
      subst hbytes
      obtain ⟨before, hframe, hpos, hstart⟩ := hat hne
      have hlen := congrArg length hframe
      have hsum := congrArg length (append_of_readValue hvalue)
      simp only [length_append, length_cons] at hlen hsum hfuel
      have hvstart : frame.length - value.length = pos + digits.length + 1 := by omega
      have hvend : frame.length - rest.length = pos + digits.length + 1 + v.length := by omega
      have hshort : (rest.drop 1).length ≤ fuel := by
        rw [length_drop]
        omega
      rw [walkTag554_field hfrom, hvalue]
      dsimp only
      rw [ih _ carry' _ hshort (hat.value hvalue), hcons, cut_of_some hread,
        Cut.items_cons, Cut.stuck_cons, filterMap_cons]
      unfold passwordExtent
      dsimp only
      rw [spelling_eq hframe hstart (isDigit_of_tagFrom hfrom) rfl, hvstart, hvend]
      split <;> simp

/-! ## Anchored passwords -/

theorem mem_anchoredTag554_cons {b : UInt8} :
    v ∈ anchoredTag554 pos anchored (b :: bytes) ↔
      (anchored = true ∧ ∃ rest, b :: bytes = ascii "554=" ++ rest ∧
        v = (pos + 4, pos + 4 + rest.findIdx (· = soh))) ∨
      v ∈ anchoredTag554 (pos + 1) (b = soh) bytes := by
  rw [anchoredTag554]
  split
  next hhere =>
    obtain ⟨rest, hrest⟩ := List.isPrefixOf_iff_prefix.mp hhere.2
    have hdrop : bytes.drop 3 = rest := by
      have := congrArg (drop 4) hrest
      simpa [ascii] using this.symm
    rw [mem_cons, hdrop]
    apply or_congr_left
    constructor
    · intro hv
      exact ⟨hhere.1, rest, hrest.symm, hv⟩
    rintro ⟨-, rest', hrest', hv⟩
    rw [hv, append_cancel_left (hrest.trans hrest')]
  next hnot =>
    refine (or_iff_right ?_).symm
    rintro ⟨ha, rest, hbytes, -⟩
    exact hnot ⟨ha, List.isPrefixOf_iff_prefix.mpr ⟨rest, hbytes.symm⟩⟩

/-- Where a `554=` stands at the start of a field, and what its value spans. -/
theorem mem_anchoredTag554 : v ∈ anchoredTag554 pos anchored bytes ↔
      ∃ before rest, bytes = before ++ (ascii "554=" ++ rest) ∧
        (before = [] ∧ anchored = true ∨ ∃ init, before = init ++ [soh]) ∧
        v = (pos + before.length + 4, pos + before.length + 4 + rest.findIdx (· = soh)) := by
  induction bytes generalizing pos anchored with
  | nil =>
    constructor
    · intro h
      cases h
    rintro ⟨before, rest, hbytes, -⟩
    have hlen := congrArg length hbytes
    simp [ascii] at hlen
  | cons b bytes ih =>
    rw [mem_anchoredTag554_cons, ih]
    have hpos : ∀ before : Bytes, pos + 1 + before.length = pos + (b :: before).length := by
      intro before
      rw [length_cons]
      omega
    constructor
    · rintro (⟨ha, rest, hbytes, hv⟩ | ⟨before, rest, rfl, hbefore, hv⟩)
      · exact ⟨[], rest, hbytes, .inl ⟨rfl, ha⟩, hv⟩
      rw [hpos] at hv
      refine ⟨b :: before, rest, rfl, .inr ?_, hv⟩
      rcases hbefore with ⟨rfl, hb⟩ | ⟨init, rfl⟩
      · exact ⟨[], by rw [of_decide_eq_true hb]; rfl⟩
      · exact ⟨b :: init, rfl⟩
    rintro ⟨before, rest, hbytes, hbefore, hv⟩
    cases before with
    | nil => exact .inl ⟨(hbefore.resolve_right (by simp)).2, rest, hbytes, hv⟩
    | cons c before =>
      obtain ⟨rfl, hrest⟩ := cons.inj hbytes
      rw [← hpos] at hv
      refine .inr ⟨before, rest, hrest, ?_, hv⟩
      obtain ⟨init, hinit⟩ := hbefore.resolve_left (by simp)
      cases init with
      | nil =>
        obtain ⟨rfl, rfl⟩ := cons.inj hinit
        exact .inl ⟨rfl, by decide⟩
      | cons c init => exact .inr ⟨init, (cons.inj hinit).2⟩

theorem mem_anchored_behind (h : v ∈ anchoredTag554 (pos + taken.length + 1) true rest) :
    v ∈ anchoredTag554 pos anchored (taken ++ soh :: rest) := by
  obtain ⟨before, tail, rfl, hbefore, rfl⟩ := mem_anchoredTag554.mp h
  refine mem_anchoredTag554.mpr ⟨taken ++ soh :: before, tail, by simp, .inr ?_, ?_⟩
  · rcases hbefore with ⟨rfl, -⟩ | ⟨init, rfl⟩
    · exact ⟨taken, rfl⟩
    · exact ⟨taken ++ soh :: init, by simp⟩
  · simp only [length_append, length_cons, Prod.mk.injEq]
    omega

theorem findIdx_soh {value : Bytes} (hvalue : ∀ b ∈ value, b ≠ soh) (rest : Bytes) :
    (value ++ rest).findIdx (· = soh) = value.length + rest.findIdx (· = soh) := by
  have hnone : value.findIdx (· = soh) = value.length := by
    rw [findIdx_eq_length]
    exact fun b hb => decide_eq_false (hvalue b hb)
  rw [findIdx_append, hnone, if_neg (Nat.lt_irrefl _), Nat.add_comm]

/-- Every Password of the walk is anchored; unless it is counted, it ends there, too. -/
theorem anchored_of_mem_walk {fuel : ℕ} (h : v ∈ walkTag554 hooks fuel carry pos bytes) :
    ∃ w ∈ anchoredTag554 pos true bytes, w.1 = v.1 ∧
      (NamesNoPassword hooks → carry.dataTag ≠ 554 → w = v) := by
  induction fuel generalizing carry pos bytes with
  | zero => cases h
  | succ fuel ih =>
    by_cases hne : bytes = []
    · subst hne
      cases h
    by_cases htagged : Tagged bytes
    · obtain ⟨digits, tag, value, rfl, hfrom⟩ := htagged
      rw [walkTag554_field hfrom] at h
      cases hvalue : carry.readValue hooks tag value with
      | none =>
        rw [hvalue] at h
        exact ⟨v, h, rfl, fun _ _ => rfl⟩
      | some r =>
        obtain ⟨text, rest, carry'⟩ := r
        obtain ⟨rfl, hends, -, rfl⟩ := readValue_iff.mp hvalue
        rw [hvalue] at h
        have hrest := rest_of_readValue hvalue
        have hin : (digits = ascii "554" ∧
              v = (pos + digits.length + 1, pos + digits.length + 1 + text.length)) ∨
            v ∈ walkTag554 hooks fuel (carry.next hooks (tag, text))
              (pos + digits.length + 1 + text.length + 1) (rest.drop 1) := by
          dsimp only at h
          split at h
          next hspelled => exact (mem_cons.mp h).imp_left fun hv => ⟨hspelled, hv⟩
          · exact .inr h
        rcases hin with ⟨rfl, rfl⟩ | hin
        · refine ⟨_, mem_anchoredTag554.mpr ⟨[], text ++ rest, rfl, .inl ⟨rfl, rfl⟩, rfl⟩, rfl, ?_⟩
          intro hnames hcarry
          obtain rfl : 554 = tag := Option.some.inj (hfrom ▸ by decide)
          rw [EndsRight, if_neg fun hcounted => hcarry hcounted.2] at hends
          rw [findIdx_soh hends]
          rcases hrest with rfl | ⟨tail, rfl⟩ <;> simp [ascii, findIdx_cons]
        rcases hrest with rfl | ⟨tail, rfl⟩
        · rw [drop_nil, walkTag554_nil] at hin
          cases hin
        obtain ⟨w, hw, hstart, hsame⟩ := ih hin
        refine ⟨w, ?_, hstart, fun hnames _ => hsame hnames (hnames.data tag)⟩
        rw [← cons_append, ← append_assoc]
        refine mem_anchored_behind ?_
        rwa [length_append, length_cons, show pos + (digits.length + (text.length + 1)) + 1 =
          pos + digits.length + 1 + text.length + 1 by omega]
    · rw [walkTag554_untagged fuel hne htagged] at h
      rcases skipField_cases bytes with hnil | ⟨skipped, hbytes, -⟩
      · rw [hnil, walkTag554_nil] at h
        cases h
      obtain ⟨w, hw, hstart, hsame⟩ := ih h
      refine ⟨w, ?_, hstart, fun hnames _ => hsame hnames (by simp)⟩
      generalize skipField bytes = rest at hbytes hw
      subst hbytes
      refine mem_anchored_behind ?_
      rwa [length_append, length_cons, show pos + (skipped.length + (rest.length + 1) - rest.length) =
        pos + skipped.length + 1 by omega] at hw

/-! ## The fields the two scans share -/

/-- The header scan reads the first fields of the scan that steps over malformed
tags: all of them when no field is malformed, and up to a malformed count when that
is the first malformed field. -/
theorem skipping_of_header (hooks : DictHooks) (n fuel : ℕ) (carry : LengthDataCarry)
    (bytes : Bytes) :
    let h := (headerRead hooks n).cut fuel carry bytes
    let c := (skippingRead hooks n).cut fuel carry bytes
    (∀ f ∈ h.items, some f ∈ c.items) ∧
      (h.stuck = none → c.items = h.items.map some ∧ c.stuck = none) ∧
      (∀ rest, h.stuck = some rest → readTag false 0 rest ≠ none → c.stuck = some rest) := by
  induction fuel generalizing carry bytes with
  | zero => cases bytes <;> simp [cut]
  | succ fuel ih =>
    cases bytes with
    | nil => simp
    | cons b bytes =>
      have hheader := headerRead_eq_skipping hooks n carry (b :: bytes)
      have hround := skipRound hooks n carry (b :: bytes)
      generalize hread : skippingRead hooks n carry (b :: bytes) = r at hheader hround
      cases hround with
      | skipped htag =>
        rw [cut_of_none hheader]
        refine ⟨by simp, by simp, fun rest hrest hne => ?_⟩
        cases hrest
        exact absurd htag hne
      | stuck =>
        rw [cut_of_none hheader, cut_of_none hread]
        exact ⟨by simp, by simp, fun rest hrest _ => hrest⟩
      | field =>
        obtain ⟨hmem, hall, hstuck⟩ := ih _ _
        rw [cut_of_some hheader, cut_of_some hread]
        refine ⟨?_, ?_, hstuck⟩
        · intro f hf
          rcases mem_cons.mp hf with rfl | hin
          · exact mem_cons_self
          · exact mem_cons_of_mem _ (hmem f hin)
        intro hnone
        obtain ⟨hitems, hc⟩ := hall hnone
        refine ⟨?_, hc⟩
        rw [Cut.items_cons, Cut.items_cons, hitems, map_cons]

theorem length_le_of_skippingRead {n : ℕ} {item : Option FieldSpan}
    (h : skippingRead hooks n carry bytes = some (item, rest, carry')) :
    (∀ f, item = some f → n - bytes.length ≤ f.start) ∧ rest.length ≤ bytes.length := by
  have hround := skipRound hooks n carry bytes
  rw [h] at hround
  cases hround with
  | skipped =>
    refine ⟨fun f hf => (nomatch hf), ?_⟩
    by_cases hne : bytes = []
    · subst hne
      exact Nat.le_refl _
    · exact Nat.le_of_lt (length_skipField_lt hne)
  | field hbytes _ _ hvalue =>
    have hlen := congrArg length (append_of_readValue hvalue)
    rw [length_append] at hlen
    rw [hbytes, length_append, length_cons, length_drop]
    refine ⟨?_, by omega⟩
    rintro f ⟨⟩
    dsimp only
    omega

/-- A field of the scan that steps over malformed tags is one the header scan reads,
or it stands behind the place where the header scan sticks. -/
theorem header_of_skipping (hooks : DictHooks) (n fuel : ℕ) (carry : LengthDataCarry)
    (bytes : Bytes) (hf : some f ∈ ((skippingRead hooks n).cut fuel carry bytes).items) :
    f ∈ ((headerRead hooks n).cut fuel carry bytes).items ∨
      ∃ rest, ((headerRead hooks n).cut fuel carry bytes).stuck = some rest ∧
        n - rest.length ≤ f.start := by
  induction fuel generalizing carry bytes with
  | zero => cases bytes <;> cases hf
  | succ fuel ih =>
    cases bytes with
    | nil => cases hf
    | cons b bytes =>
      cases hread : headerRead hooks n carry (b :: bytes) with
      | none =>
        rw [cut_of_none hread]
        refine .inr ⟨b :: bytes, rfl, ?_⟩
        refine forall_mem_cut (P := fun item => ∀ f, item = some f →
            n - (b :: bytes).length ≤ f.start)
          (I := fun input _ => input.length ≤ (b :: bytes).length) ?_ (fuel + 1)
          (Nat.le_refl _) (some f) hf f rfl
        intro s input item rest s' hshort hitem
        obtain ⟨hplace, hrest⟩ := length_le_of_skippingRead hitem
        refine ⟨fun f hf => ?_, by omega⟩
        have := hplace f hf
        omega
      | some next =>
        obtain ⟨g, rest, carry'⟩ := next
        have hskip : skippingRead hooks n carry (b :: bytes) = some (some g, rest, carry') := by
          rw [headerRead_eq_skipping] at hread
          obtain ⟨⟨item, r⟩, hskip, hitem⟩ := Option.bind_eq_some_iff.mp hread
          obtain ⟨f', rfl, hf'⟩ := Option.map_eq_some_iff.mp hitem
          cases hf'
          exact hskip
        rw [cut_of_some hskip, Cut.items_cons] at hf
        rw [cut_of_some hread, Cut.items_cons, Cut.stuck_cons]
        rcases mem_cons.mp hf with heq | hin
        · cases heq
          exact .inl mem_cons_self
        · exact (ih carry' rest hin).imp_left (mem_cons_of_mem _)

theorem skippingRead_atField (carry : LengthDataCarry) (bytes : Bytes) (item : Option FieldSpan)
    (rest : Bytes) (carry' : LengthDataCarry) (hat : ∃ pos, AtField frame bytes pos)
    (hread : skippingRead hooks frame.length carry bytes = some (item, rest, carry')) :
    ∃ pos, AtField frame rest pos := by
  obtain ⟨pos, hat⟩ := hat
  have hround := skipRound hooks frame.length carry bytes
  rw [hread] at hround
  cases hround with
  | skipped => exact ⟨_, hat.skip⟩
  | field hbytes _ _ hvalue => exact ⟨_, (hbytes ▸ hat).value hvalue⟩

/-- What a field of the scan is: a tag behind the start of a field, spelled in digits
that are read as the tag. -/
structure IsField (frame : Bytes) (f : FieldSpan) : Prop where
  spelled : spelling frame f ≠ [] ∧ tagFrom 0 (spelling frame f) = some f.tag
  place : ∃ before value, frame = before ++ (spelling frame f ++ equalsSign :: value) ∧
    FieldStart before

theorem isField_of_read (hat : ∃ pos, AtField frame bytes pos)
    (hread : skippingRead hooks frame.length carry bytes = some (some f, rest, carry')) :
    IsField frame f := by
  obtain ⟨pos, hat⟩ := hat
  have hround := skipRound hooks frame.length carry bytes
  rw [hread] at hround
  cases hround with
  | @field digits value _ rest tag _ hbytes hdigits hfrom hvalue =>
    subst hbytes
    obtain ⟨before, hframe, -, hstart⟩ := hat (by simp)
    have hspelled := fun stop => spelling_eq (f := ⟨tag, _, stop⟩) hframe hstart
      (isDigit_of_tagFrom hfrom) rfl
    refine ⟨?_, before, value, ?_, hstart⟩
    · rw [hspelled]
      exact ⟨hdigits, hfrom⟩
    rw [hspelled]
    exact hframe

theorem isField_of_mem (h : some f ∈ (skippingCut hooks frame).items) : IsField frame f := by
  refine forall_mem_cut (P := fun item => ∀ f, item = some f → IsField frame f)
    (I := fun bytes _ => ∃ pos, AtField frame bytes pos) ?_ frame.length
    ⟨0, atField_start frame⟩ (some f) h f rfl
  intro carry bytes item rest carry' hat hread
  refine ⟨?_, skippingRead_atField carry bytes item rest carry' hat hread⟩
  rintro f rfl
  exact isField_of_read hat hread

theorem stop_le_of_header (hf : f ∈ (headerCut hooks frame).fields) : f.stop ≤ frame.length := by
  refine forall_mem_cut (P := fun f => f.stop ≤ frame.length) (I := fun _ _ => True) ?_
    frame.length trivial f hf
  intro carry bytes f rest carry' _ hread
  refine ⟨?_, trivial⟩
  unfold headerRead at hread
  split at hread
  · cases hread
  split at hread
  · cases hread
  cases hread
  exact Nat.sub_le _ _

theorem stuck_place (h : (skippingCut hooks frame).stuck = some rest) :
    ∃ before, frame = before ++ rest ∧ FieldStart before := by
  obtain ⟨hne, -, ⟨pos, hat⟩, -⟩ := stuck_of_cut
    (I := fun bytes _ => ∃ pos, AtField frame bytes pos) skippingRead_atField frame.length
    ⟨0, atField_start frame⟩ h
  obtain ⟨before, hframe, -, hstart⟩ := hat hne
  exact ⟨before, hframe, hstart⟩

/-- The test for an anchored `554=` that comes first changes nothing: every Password
the walk finds is one. -/
theorem tag554Values_eq (hooks : DictHooks) (frame : Bytes) : tag554Values hooks frame =
      (skippingCut hooks frame).items.filterMap (passwordExtent frame) ++
        fallbackExtents frame.length (skippingCut hooks frame).stuck := by
  refine .trans ?_
    (walkTag554_eq hooks frame.length 0 {} frame (Nat.le_refl _) (atField_start frame))
  unfold tag554Values
  split
  next hempty =>
    rw [eq_comm, eq_nil_iff_forall_not_mem]
    intro v hv
    obtain ⟨w, hw, -⟩ := anchored_of_mem_walk hv
    rw [hempty] at hw
    cases hw
  · rfl

theorem storedImage_eq (hlogon : (scanFrameHeader hooks frame).msgType = ascii "A") :
    storedImage hooks frame = maskTag554 hooks frame := by
  unfold storedImage carriesPassword frameHasGenuineTag554
  split
  · rfl
  next hnone =>
  have hempty : tag554Values hooks frame = [] := by simpa [hlogon] using hnone
  rw [maskTag554_eq, hempty, maskAt_nil]

/-- A tag without leading zeros, as the header scan met it. -/
def NoLeadingZero (digits : Bytes) : Prop := digits.head? = some 48 → digits = [48]

instance (digits : Bytes) : Decidable (NoLeadingZero digits) :=
  inferInstanceAs (Decidable (_ → _))

theorem spelling_password (hne : digits ≠ []) (hzero : NoLeadingZero digits)
    (h : tagFrom 0 digits = some 554) : digits = ascii "554" := by
  obtain ⟨c, ds, rfl⟩ := exists_cons_of_ne_nil hne
  by_cases hc : c = 48
  · rw [hzero (by rw [hc]; rfl)] at h
    exact absurd h (by decide)
  rw [eq_renderU32_of_tagFrom hc h]
  decide

theorem inPassword_of_header (hf : f ∈ (headerCut hooks frame).fields) (htag : f.tag = 554)
    (hspelled : NoLeadingZero (spelling frame f)) (hk : f.start ≤ k ∧ k < f.stop) :
    InPassword hooks frame k := by
  have hmem : some f ∈ (skippingCut hooks frame).items :=
    (skipping_of_header hooks frame.length frame.length {} frame).1 f hf
  obtain ⟨⟨hne, hfrom⟩, -⟩ := isField_of_mem hmem
  rw [htag] at hfrom
  refine ⟨(f.start, f.stop), ?_, hk⟩
  rw [tag554Values_eq]
  refine mem_append_left _ (mem_filterMap.mpr ⟨some f, hmem, ?_⟩)
  unfold passwordExtent
  dsimp only
  rw [if_pos (spelling_password hne hspelled hfrom)]

/-- Behind a malformed count everything up to the next SOH behind an anchored `554=`
is a Password to the masker. -/
theorem inPassword_of_fallback {value tail : Bytes}
    (hstuck : (skippingCut hooks frame).stuck = some rest)
    (hframe : frame = before ++ [soh] ++ (ascii "554=" ++ (value ++ tail)))
    (hplace : frame.length - rest.length ≤ (before ++ [soh]).length) (hvalue : soh ∉ value)
    (hk : (before ++ [soh]).length + 4 ≤ k ∧ k < (before ++ [soh]).length + 4 + value.length) :
    InPassword hooks frame k := by
  obtain ⟨first, hfirst, hstart⟩ := stuck_place hstuck
  have hlen := congrArg length hfirst
  rw [length_append] at hlen
  obtain ⟨inner, hinner⟩ : first <+: before ++ [soh] := by
    refine prefix_of_prefix_length_le ⟨rest, hfirst.symm⟩ ⟨_, hframe.symm⟩ ?_
    omega
  have hrest : rest = inner ++ (ascii "554=" ++ (value ++ tail)) := by
    rw [hfirst, ← hinner, append_assoc] at hframe
    exact append_cancel_left hframe
  have hlast : inner = [] ∨ ∃ init, inner = init ++ [soh] := by
    rcases eq_nil_or_concat inner with rfl | ⟨init, last, rfl⟩
    · exact .inl rfl
    rw [concat_eq_append, ← append_assoc] at hinner
    rw [concat_eq_append, (append_inj' hinner rfl).2]
    exact .inr ⟨init, rfl⟩
  have hcount := congrArg length hinner
  rw [length_append] at hcount
  have hfar := findIdx_soh (fun b hb heq => hvalue (heq ▸ hb)) tail
  refine ⟨(frame.length - rest.length + inner.length + 4,
    frame.length - rest.length + inner.length + 4 + (value ++ tail).findIdx (· = soh)), ?_, ?_⟩
  · rw [tag554Values_eq, hstuck]
    refine mem_append_right _ (mem_anchoredTag554.mpr ⟨inner, value ++ tail, hrest, ?_, rfl⟩)
    exact hlast.imp_left fun h => ⟨h, rfl⟩
  · dsimp only
    omega

end Fixpp.Analysis.PasswordMask
