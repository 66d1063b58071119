import Fixpp.Analysis.PasswordMask

/-!
# Masking a frame twice

The masker writes asterisks over values and nothing else, so on a frame it has masked
it walks the same fields: `mem_walk_of_masked`. Behind a malformed count the fields are
gone and only the places of `554=` are left, which asterisks cannot spell.
-/

namespace Fixpp.Analysis.PasswordMask

open Foundation Model List

variable {pos tag : ℕ} {bytes shown value digits : Bytes} {v : ℕ × ℕ} {hooks : DictHooks}
    {carry carry' : LengthDataCarry} {values : List (ℕ × ℕ)}
variable {anchored : Bool} {fuel k : ℕ} {b c : UInt8} {a rest frame : Bytes} {later : List (ℕ × ℕ)}

theorem le_of_mem_anchored (h : v ∈ anchoredTag554 pos anchored bytes) : pos + 4 ≤ v.1 := by
  obtain ⟨before, rest, -, -, rfl⟩ := mem_anchoredTag554.mp h
  omega

theorem le_of_mem_walk (h : v ∈ walkTag554 hooks fuel carry pos bytes) : pos ≤ v.1 := by
  obtain ⟨w, hw, hstart, -⟩ := anchored_of_mem_walk h
  have := le_of_mem_anchored hw
  omega

/-- A byte and what masking may leave of it: an SOH stays, anything else may be an
asterisk. -/
def Veil (b c : UInt8) : Prop := c = b ∨ (b ≠ soh ∧ c = 42)

theorem Veil.soh_iff (h : Veil b c) : c = soh ↔ b = soh := by
  rcases h with rfl | ⟨hb, rfl⟩
  · exact .rfl
  · exact ⟨fun h => absurd h (by decide), fun h => absurd h hb⟩

theorem Veil.eq_of_ne (h : Veil b c) (hc : c ≠ 42) : b = c := by
  rcases h with rfl | ⟨-, rfl⟩
  · rfl
  · exact absurd rfl hc

theorem forall₂_append_right {c : Bytes} (h : List.Forall₂ Veil bytes (a ++ c)) :
    ∃ a' c', bytes = a' ++ c' ∧ List.Forall₂ Veil a' a ∧ List.Forall₂ Veil c' c := by
  induction a generalizing bytes with
  | nil => exact ⟨[], bytes, rfl, .nil, h⟩
  | cons x a ih =>
    cases h with
    | cons hx hrest =>
      obtain ⟨a', c', rfl, ha, hc⟩ := ih hrest
      exact ⟨_ :: a', c', rfl, .cons hx ha, hc⟩

theorem eq_of_veil (h : List.Forall₂ Veil bytes shown) (hshown : ∀ c ∈ shown, c ≠ 42) :
    bytes = shown := by
  induction h with
  | nil => rfl
  | cons hx _ ih =>
    rw [hx.eq_of_ne (hshown _ mem_cons_self), ih fun c hc => hshown c (mem_cons_of_mem _ hc)]

theorem findIdx_of_veil (h : List.Forall₂ Veil bytes shown) :
    shown.findIdx (· = soh) = bytes.findIdx (· = soh) := by
  induction h with
  | nil => rfl
  | cons hx _ ih => simp [findIdx_cons, hx.soh_iff, ih]

theorem veil_maskAt (h : ∀ v ∈ values, ∀ k, v.1 ≤ pos + k → pos + k < v.2 → bytes[k]? ≠ some soh) :
    List.Forall₂ Veil bytes (maskAt values pos bytes) := by
  induction bytes generalizing pos with
  | nil => exact .nil
  | cons b bytes ih =>
    rw [maskAt_cons]
    refine .cons ?_ (ih ?_)
    · split
      next hany =>
        obtain ⟨v, hv, hin⟩ := any_eq_true.mp hany
        simp only [Bool.and_eq_true, decide_eq_true_eq] at hin
        have hne := h v hv 0 hin.1 hin.2
        exact .inr ⟨fun heq => hne (by rw [heq]; rfl), rfl⟩
      · exact .inl rfl
    · intro v hv k hlow hhigh
      have hne := h v hv (k + 1) (by omega) (by omega)
      rwa [getElem?_cons_succ] at hne

theorem veil_anchored (pos : ℕ) (anchored : Bool) (bytes : Bytes) :
    List.Forall₂ Veil bytes (maskAt (anchoredTag554 pos anchored bytes) pos bytes) := by
  apply veil_maskAt
  intro v hv k hlow hhigh
  obtain ⟨before, rest, rfl, -, rfl⟩ := mem_anchoredTag554.mp hv
  obtain ⟨j, rfl⟩ : ∃ j, k = before.length + (4 + j) := ⟨k - before.length - 4, by omega⟩
  have hj : j < rest.findIdx (· = soh) := by omega
  have hlt : j < rest.length := Nat.lt_of_lt_of_le hj (findIdx_le_length)
  rw [getElem?_append_right (by omega), Nat.add_sub_cancel_left,
    getElem?_append_right (by simp [ascii]), show 4 + j - (ascii "554=").length = j by
      simp [ascii], getElem?_eq_getElem hlt]
  have hnot := not_of_lt_findIdx hj
  intro heq
  rw [Option.some.injEq] at heq
  simp [heq] at hnot

theorem mem_anchored_of_veil (h : List.Forall₂ Veil bytes shown)
    (hv : v ∈ anchoredTag554 pos anchored shown) : v ∈ anchoredTag554 pos anchored bytes := by
  obtain ⟨before, rest, rfl, hbefore, rfl⟩ := mem_anchoredTag554.mp hv
  obtain ⟨before', tail, rfl, hb, htail⟩ := forall₂_append_right h
  obtain ⟨tag, rest', rfl, htag, hrest⟩ := forall₂_append_right htail
  have htag' : tag = ascii "554=" := eq_of_veil htag (by decide)
  rw [mem_anchoredTag554]
  refine ⟨before', rest', by rw [htag'], ?_, ?_⟩
  · rcases hbefore with ⟨rfl, ha⟩ | ⟨init, rfl⟩
    · cases hb
      exact .inl ⟨rfl, ha⟩
    obtain ⟨init', last, rfl, -, hlast⟩ := forall₂_append_right hb
    refine .inr ⟨init', ?_⟩
    rw [eq_of_veil hlast (by decide)]
  · rw [hb.length_eq, findIdx_of_veil hrest]

theorem Tagged.of_soh {x y : Bytes} (h : Tagged (a ++ soh :: x)) : Tagged (a ++ soh :: y) := by
  obtain ⟨digits, tag, value, heq, hfrom⟩ := h
  rcases append_eq_append_iff.mp heq with ⟨c, hdigits, hrest⟩ | ⟨c, rfl, hrest⟩
  · exfalso
    cases c with
    | nil => exact absurd (cons.inj hrest).1 (by decide)
    | cons b c =>
      obtain ⟨rfl, -⟩ := cons.inj hrest
      have hdigit := isDigit_of_tagFrom hfrom soh (by rw [hdigits]; simp)
      exact absurd hdigit (by decide)
  · cases c with
    | nil => exact absurd (cons.inj hrest).1 (by decide)
    | cons b c =>
      obtain ⟨rfl, -⟩ := cons.inj hrest
      exact ⟨digits, tag, c ++ soh :: y, by simp, hfrom⟩

/-- Reading a value again behind which other fields were masked: a counted value is
the same, and one up to the next SOH may itself be masked when its field is no
Length. -/
theorem readValue_masked {v v' rest' : Bytes}
    (h : carry.readValue hooks tag value = some (v, rest, carry'))
    (hv : v' = v ∨ (hooks tag = 0 ∧ carry.dataTag ≠ tag ∧ v' = v.map fun _ => 42))
    (hrest : rest' = [] ∧ rest = [] ∨ ∃ tail tail', rest = soh :: tail ∧ rest' = soh :: tail') :
    carry.readValue hooks tag (v' ++ rest') = some (v', rest', carry') := by
  obtain ⟨-, hends, htail, rfl⟩ := readValue_iff.mp h
  refine readValue_iff.mpr ⟨rfl, ?_, ?_, ?_⟩
  · rcases hv with rfl | ⟨-, hne, rfl⟩
    · exact hends
    unfold EndsRight
    rw [if_neg fun hcounted => hne hcounted.2]
    intro b hb
    obtain ⟨-, -, rfl⟩ := mem_map.mp hb
    decide
  · rcases hrest with ⟨rfl, rfl⟩ | ⟨-, tail', -, rfl⟩
    · exact .inl ⟨rfl, (htail.resolve_right (by simp)).2⟩
    · exact .inr ⟨tail', rfl⟩
  rcases hv with rfl | ⟨hzero, -, -⟩
  · rfl
  · simp [LengthDataCarry.next, hzero]

theorem maskAt_field (value : Bytes) (h : ∀ w ∈ values, pos + digits.length + 1 ≤ w.1) :
    maskAt values pos (digits ++ equalsSign :: value) =
      digits ++ equalsSign :: maskAt values (pos + digits.length + 1) value := by
  have hlen : pos + (digits ++ [equalsSign]).length = pos + digits.length + 1 := by
    rw [length_append, length_singleton, Nat.add_assoc]
  have hbehind : ∀ w ∈ values, pos + (digits ++ [equalsSign]).length ≤ w.1 := by
    rwa [hlen]
  rw [append_cons, maskAt_append, maskAt_of_ge hbehind, hlen, ← append_cons]

/-- The extents of a field and of those behind it, on the field's value and what
follows: a Password turns to asterisks, and the SOH behind it stays. -/
theorem maskAt_value {v : Bytes} (password : Prop) [Decidable password]
    (hlater : ∀ w ∈ later, pos + v.length + 1 ≤ w.1)
    (hrest : rest = [] ∨ ∃ tail, rest = soh :: tail) :
    ∃ rest', maskAt (if password then (pos, pos + v.length) :: later else later) pos (v ++ rest) =
        (if password then v.map fun _ => 42 else v) ++ rest' ∧
      (rest' = [] ∧ rest = [] ∨ ∃ tail tail', rest = soh :: tail ∧ rest' = soh :: tail') ∧
      rest'.drop 1 = maskAt later (pos + v.length + 1) (rest.drop 1) := by
  have hvalue : maskAt (if password then (pos, pos + v.length) :: later else later) pos v =
      if password then v.map fun _ => 42 else v := by
    split
    · exact maskAt_cover (Nat.le_refl pos) (Nat.le_refl _)
    · exact maskAt_of_ge fun w hw => Nat.le_of_succ_le (hlater w hw)
  have hbehind : maskAt (if password then (pos, pos + v.length) :: later else later)
      (pos + v.length) rest = maskAt later (pos + v.length) rest := by
    split
    · exact maskAt_of_le rest (Nat.le_refl _)
    · rfl
  rw [maskAt_append, hvalue, hbehind]
  refine ⟨_, rfl, ?_⟩
  rcases hrest with rfl | ⟨tail, rfl⟩
  · exact ⟨.inl ⟨rfl, rfl⟩, rfl⟩
  have hsoh : maskAt later (pos + v.length) [soh] = [soh] := maskAt_of_ge hlater
  rw [← singleton_append, maskAt_append, hsoh]
  exact ⟨.inr ⟨tail, _, rfl, rfl⟩, rfl⟩

/-- The masker on a field it has masked finds the field again, and behind it what it
finds in the rest of what it has masked. -/
theorem walkTag554_masked (hnames : NamesNoPassword hooks) {v : Bytes}
    (hcarry : carry.dataTag ≠ 554) (hfrom : tagFrom 0 digits = some tag)
    (hvalue : carry.readValue hooks tag (v ++ rest) = some (v, rest, carry'))
    (hlater : ∀ w ∈ later, pos + digits.length + 1 + v.length + 1 ≤ w.1) :
    let password := (pos + digits.length + 1, pos + digits.length + 1 + v.length)
    let found := if digits = ascii "554" then password :: later else later
    let again := walkTag554 hooks fuel carry' (pos + digits.length + 1 + v.length + 1)
      (maskAt later (pos + digits.length + 1 + v.length + 1) (rest.drop 1))
    walkTag554 hooks (fuel + 1) carry pos (maskAt found pos (digits ++ equalsSign :: (v ++ rest))) =
      if digits = ascii "554" then password :: again else again := by
  intro password found again
  have hfound : ∀ w ∈ found, pos + digits.length + 1 ≤ w.1 := by
    intro w hw
    have hin : w = password ∨ w ∈ later := by
      dsimp only [found] at hw
      split at hw
      · exact mem_cons.mp hw
      · exact .inr hw
    rcases hin with rfl | hin
    · exact Nat.le_refl _
    have := hlater w hin
    omega
  obtain ⟨rest', hmask, hends, hdrop⟩ :=
    maskAt_value (digits = ascii "554") hlater (rest_of_readValue hvalue)
  have hread : carry.readValue hooks tag
      ((if digits = ascii "554" then v.map fun _ => 42 else v) ++ rest') =
      some (if digits = ascii "554" then v.map fun _ => 42 else v, rest', carry') := by
    refine readValue_masked hvalue ?_ hends
    split
    next hspelled =>
      -- tag 554 is in no pair, so its value may change without changing the carry
      rw [hspelled, show tagFrom 0 (ascii "554") = some 554 by decide, Option.some.injEq]
        at hfrom
      rw [← hfrom]
      exact .inr ⟨hnames.length, hcarry, rfl⟩
    · exact .inl rfl
  have hlen : (if digits = ascii "554" then v.map fun _ => (42 : UInt8) else v).length =
      v.length := by
    split
    · rw [length_map]
    · rfl
  rw [maskAt_field _ hfound, hmask, walkTag554_field hfrom, hread]
  dsimp only
  rw [hlen, hdrop]

theorem mem_walk_of_masked (hnames : NamesNoPassword hooks) (fuel pos : ℕ)
    (carry : LengthDataCarry) (bytes : Bytes) (hcarry : carry.dataTag ≠ 554)
    (hv : v ∈ walkTag554 hooks fuel carry pos
      (maskAt (walkTag554 hooks fuel carry pos bytes) pos bytes)) :
    v ∈ walkTag554 hooks fuel carry pos bytes := by
  induction fuel generalizing pos carry bytes with
  | zero => cases hv
  | succ fuel ih =>
    by_cases hne : bytes = []
    · subst hne
      cases hv
    by_cases htagged : Tagged bytes
    · obtain ⟨digits, tag, value, rfl, hfrom⟩ := htagged
      rw [walkTag554_field hfrom]
      cases hvalue : carry.readValue hooks tag value with
      | none =>
        -- behind a malformed count the masked bytes show no `554=` that was not there
        obtain ⟨w, hw, -, hsame⟩ := anchored_of_mem_walk hv
        rw [hsame hnames hcarry, walkTag554_field hfrom, hvalue] at hw
        exact mem_anchored_of_veil (veil_anchored pos true _) hw
      | some r =>
        obtain ⟨w, rest, carry'⟩ := r
        have happend := append_of_readValue hvalue
        rw [walkTag554_field hfrom, hvalue] at hv
        rw [← happend] at hvalue hv
        dsimp only at hv ⊢
        rw [walkTag554_masked hnames hcarry hfrom hvalue
          fun w hw => le_of_mem_walk hw] at hv
        have hnext : carry'.dataTag ≠ 554 := by
          rw [(readValue_iff.mp hvalue).2.2.2]
          exact hnames.data tag
        have hlater := ih (pos + digits.length + 1 + w.length + 1) carry' (rest.drop 1) hnext
        split at hv
        next hspelled =>
          rw [if_pos hspelled]
          rcases mem_cons.mp hv with rfl | hin
          · exact mem_cons_self
          · exact mem_cons_of_mem _ (hlater hin)
        next hspelled =>
          rw [if_neg hspelled]
          exact hlater hv
    · rcases skipField_cases bytes with hnil | ⟨skipped, hbytes, hskipped⟩
      · have hempty : walkTag554 hooks (fuel + 1) carry pos bytes = [] := by
          rw [walkTag554_untagged fuel hne htagged, hnil, walkTag554_nil]
        rw [hempty, maskAt_nil, hempty] at hv
        cases hv
      generalize skipField bytes = rest at hbytes
      subst hbytes
      have hstep : ∀ y, walkTag554 hooks (fuel + 1) carry pos (skipped ++ soh :: y) =
          walkTag554 hooks fuel { carry with dataTag := 0 } (pos + skipped.length + 1) y := by
        intro y
        have hskip : skipField (skipped ++ soh :: y) = y := by
          rw [skipField_append hskipped]
          rfl
        rw [walkTag554_untagged fuel (by simp) fun h => htagged h.of_soh, hskip, length_append,
          length_cons]
        congr 1
        omega
      rw [hstep] at hv ⊢
      have hbehind : ∀ w ∈ walkTag554 hooks fuel { carry with dataTag := 0 }
          (pos + skipped.length + 1) rest, pos + (skipped ++ [soh]).length ≤ w.1 := by
        intro w hw
        have := le_of_mem_walk hw
        rw [length_append, length_singleton]
        omega
      rw [append_cons, maskAt_append, maskAt_of_ge hbehind, ← append_cons, hstep, length_append,
        length_singleton, ← Nat.add_assoc] at hv
      exact ih _ _ rest nofun hv

theorem maskAt_of_subset {again : List (ℕ × ℕ)} (h : ∀ v ∈ again, v ∈ values) (pos : ℕ)
    (bytes : Bytes) : maskAt again pos (maskAt values pos bytes) = maskAt values pos bytes := by
  induction bytes generalizing pos with
  | nil => rfl
  | cons b bytes ih =>
    rw [maskAt_cons, maskAt_cons, ih]
    congr 1
    split
    next hany =>
      obtain ⟨v, hv, hin⟩ := any_eq_true.mp hany
      rw [if_pos (any_eq_true.mpr ⟨v, h v hv, hin⟩)]
    · rfl

theorem tag554Values_masked (hnames : NamesNoPassword hooks) (frame : Bytes) :
    ∀ v ∈ tag554Values hooks (maskTag554 hooks frame), v ∈ tag554Values hooks frame := by
  intro v hv
  rw [maskTag554_eq] at hv
  by_cases hnone : anchoredTag554 0 true frame = []
  · have hempty : tag554Values hooks frame = [] := by
      unfold tag554Values
      rw [if_pos hnone]
    rw [hempty, maskAt_nil, hempty] at hv
    cases hv
  have hwalk : tag554Values hooks frame = walkTag554 hooks frame.length {} 0 frame := by
    unfold tag554Values
    rw [if_neg hnone]
  rw [hwalk] at hv ⊢
  unfold tag554Values at hv
  split at hv
  · cases hv
  rw [length_maskAt] at hv
  exact mem_walk_of_masked hnames _ _ _ _ (show (0 : ℕ) ≠ 554 by decide) hv

theorem maskTag554_masked (hnames : NamesNoPassword hooks) (frame : Bytes) :
    maskTag554 hooks (maskTag554 hooks frame) = maskTag554 hooks frame := by
  have hsub := tag554Values_masked hnames frame
  rw [maskTag554_eq hooks (maskTag554 hooks frame)]
  rw [maskTag554_eq hooks frame] at hsub ⊢
  exact maskAt_of_subset hsub 0 frame

/-! ## What reaches the store -/

theorem getElem?_of_inPassword {hooks : DictHooks} (hin : InPassword hooks frame k)
    (hk : k < frame.length) : (maskTag554 hooks frame)[k]? = some 42 := by
  rw [getElem?_maskTag554_in hin, getElem?_eq_getElem hk]
  rfl

/-- A byte that masking changes, in a frame without a malformed count, is in the value
of a field with tag 554: one the header scan reads, or one behind the field with a
malformed tag that the header scan sticks at. -/
theorem field_of_changed (hstuck : (skippingCut hooks frame).stuck = none)
    (hk : (maskTag554 hooks frame)[k]? ≠ frame[k]?) :
    ∃ f : FieldSpan, f.tag = 554 ∧ f.start ≤ k ∧ k < f.stop ∧
      some f ∈ (skippingCut hooks frame).items ∧
      (f ∈ (headerCut hooks frame).fields ∨
        ∃ p, (headerCut hooks frame).malformedAt = some p ∧ p ≤ f.start) := by
  have hin : InPassword hooks frame k := by
    by_contra hout
    exact hk (getElem?_maskTag554_out hout)
  obtain ⟨v, hv, hlow, hhigh⟩ := hin
  rw [tag554Values_eq, hstuck, fallbackExtents, append_nil] at hv
  obtain ⟨item, hitem, hextent⟩ := mem_filterMap.mp hv
  cases item with
  | none => cases hextent
  | some f =>
    unfold passwordExtent at hextent
    dsimp only at hextent
    split at hextent
    next hspelled =>
      cases hextent
      have hfrom := (isField_of_mem hitem).spelled.2
      rw [hspelled, show tagFrom 0 (ascii "554") = some 554 by decide, Option.some.injEq]
        at hfrom
      refine ⟨f, hfrom.symm, hlow, hhigh, hitem, ?_⟩
      rcases header_of_skipping hooks frame.length frame.length {} frame hitem with
        hread | ⟨rest, hrest, hplace⟩
      · exact .inl hread
      refine .inr ⟨frame.length - rest.length, ?_, hplace⟩
      unfold headerCut
      dsimp only
      rw [hrest, Option.map_some]
    · cases hextent

/-- A Logon without leading zeros in its tags, under pairs that do not name 554. In the bytes for
the store the values read as 554 are asterisks. So is, from a field with a malformed count on,
whatever stands between an anchored `554=` and the next SOH. Without a malformed count every other
byte is the frame's, Passwords behind a malformed tag apart. -/
theorem passwords_masked (hooks : DictHooks) (frame : Bytes) (hnames : NamesNoPassword hooks)
    (hlogon : (scanFrameHeader hooks frame).msgType = ascii "A")
    (hspelled : ∀ f ∈ (headerCut hooks frame).fields, NoLeadingZero (spelling frame f)) :
    (∀ f ∈ (headerCut hooks frame).fields, f.tag = 554 → ∀ k, f.start ≤ k → k < f.stop →
      (storedImage hooks frame)[k]? = some 42) ∧
    (∀ rest, ((headerRead hooks frame.length).cut frame.length {} frame).stuck = some rest →
      readTag false 0 rest ≠ none → (skippingCut hooks frame).stuck = some rest) ∧
    (∀ rest before value tail, (skippingCut hooks frame).stuck = some rest →
      frame = before ++ [soh] ++ (ascii "554=" ++ (value ++ tail)) →
      frame.length - rest.length ≤ (before ++ [soh]).length → soh ∉ value →
      ∀ k, (before ++ [soh]).length + 4 ≤ k → k < (before ++ [soh]).length + 4 + value.length →
        (storedImage hooks frame)[k]? = some 42) ∧
    (storedImage hooks frame).length = frame.length ∧
    ((skippingCut hooks frame).stuck = none → ∀ k, (storedImage hooks frame)[k]? ≠ frame[k]? →
      ∃ f : FieldSpan, f.tag = 554 ∧ f.start ≤ k ∧ k < f.stop ∧
        some f ∈ (skippingCut hooks frame).items ∧
        (f ∈ (headerCut hooks frame).fields ∨
          ∃ p, (headerCut hooks frame).malformedAt = some p ∧ p ≤ f.start)) ∧
    maskTag554 hooks (maskTag554 hooks frame) = maskTag554 hooks frame := by
  rw [storedImage_eq hlogon]
  refine ⟨?_, ?_, ?_, ?_, ?_, maskTag554_masked hnames frame⟩
  · intro f hf htag k hlow hhigh
    have hstop := stop_le_of_header hf
    exact getElem?_of_inPassword
      (inPassword_of_header hf htag (hspelled f hf) ⟨hlow, hhigh⟩) (by omega)
  · exact (skipping_of_header hooks frame.length frame.length {} frame).2.2
  · intro rest before value tail hstuck hframe hplace hvalue k hlow hhigh
    have hlen := congrArg length hframe
    simp only [length_append, show (ascii "554=").length = 4 by decide] at hlen hlow hhigh
    refine getElem?_of_inPassword
      (inPassword_of_fallback hstuck hframe hplace hvalue ⟨?_, ?_⟩) (by omega)
    · rw [length_append]
      exact hlow
    rw [length_append]
    exact hhigh
  · rw [maskTag554_eq, length_maskAt]
  intro hstuck k hk
  exact field_of_changed hstuck hk

def rawDataPair : DictHooks := fun tag => if tag = 95 then 96 else 0

theorem rawDataPair_names : NamesNoPassword rawDataPair where
  length := rfl
  data tag := by
    unfold rawDataPair
    split <;> decide

/-- The header scan sticks at `x` and no field is counted, but the masker goes on to
the Password behind. -/
theorem password_behind_malformed_tag :
    let frame := fieldsOf ["35=A", "x", "554=abc"]
    NamesNoPassword rawDataPair ∧ (scanFrameHeader rawDataPair frame).msgType = ascii "A" ∧
      (headerCut rawDataPair frame).fields.map FieldSpan.tag = [35] ∧
      (skippingCut rawDataPair frame).stuck = none ∧ skipsStore rawDataPair frame = false ∧
      frame[11]? = some 97 ∧ (storedImage rawDataPair frame)[11]? = some 42 :=
  ⟨rawDataPair_names, by decide +kernel⟩

/-- A Password behind a counted value with an SOH in it. -/
theorem passwords_masked_counted :
    let frame := fieldsOf ["35=A", "95=8", "96=\x01554=ab\x01", "554=pw"]
    (storedImage rawDataPair frame)[26]? = some 42 ∧
      (storedImage rawDataPair frame).length = frame.length :=
  have h := passwords_masked rawDataPair
    (fieldsOf ["35=A", "95=8", "96=\x01554=ab\x01", "554=pw"]) rawDataPair_names (by decide +kernel)
    (by decide +kernel)
  ⟨h.1 ⟨554, 26, 28⟩ (by decide +kernel) rfl 26 (by decide) (by decide), h.2.2.2.1⟩

end Fixpp.Analysis.PasswordMask
