import Fixpp.Analysis.Decimal
import Fixpp.Model.Decimals

/-!
# The text of a decimal

`to_chars` writes a decimal in lowest terms `k / 10 ^ f`, where `k` is no multiple of ten unless
`f` is 0. These are unique, so the text depends on the numerical value only. `from_chars` accepts
the numerals within its limits.
-/

namespace Fixpp.Analysis.DecimalText

open Interface Model Model.Writer List PodDecimal DecimalScan

variable {s : DecimalScan} {e k' : ℤ} {negative : Bool} {src : Bytes}

def value (v : PodDecimal) : ℚ := v.mantissa * (10 : ℚ) ^ v.exponent

/-- Not the invalid marker, and the exponent in its domain. -/
def Canonical (v : PodDecimal) : Prop :=
  v.mantissa.natAbs ≤ int64Max ∧ -38 ≤ v.exponent ∧ v.exponent ≤ 0

/-- The decimal is written within `max_serialized_bytes`, and read back with its value. -/
def RoundTrips (v : PodDecimal) : Prop :=
  ∃ text w, v.toCharsInto maxSerializedBytes = .ok text ∧ text.length ≤ maxSerializedBytes ∧
    PodDecimal.fromChars text = .ok w ∧ value w = value v

variable {m n f : ℕ} {k : ℤ} {digits rest whole frac : Bytes} {v w : PodDecimal}

/-! ## Reading -/

/-- The number read from `digits` behind the number `m`. -/
def numeralFrom (m : ℕ) (digits : Bytes) : ℕ := digits.foldl (fun n c => n * 10 + digitValue c) m

theorem le_numeralFrom (m : ℕ) (digits : Bytes) : m ≤ numeralFrom m digits := by
  induction digits generalizing m with
  | nil => exact Nat.le_refl m
  | cons c digits ih => exact Nat.le_trans (by omega) (ih (m * 10 + digitValue c))

theorem foldl_digit_overflow (fraction : Bool) (digits : Bytes) (h : s.overflow = true) :
    digits.foldl (digit fraction) s = s := by
  induction digits with
  | nil => rfl
  | cons c digits ih =>
    have hstep : s.digit fraction c = s := if_pos h
    rw [foldl_cons, hstep, ih]

/-- The number and its places are in range. -/
def Fits (fraction : Bool) (m : ℕ) (e : ℤ) (digits : Bytes) : Prop :=
  numeralFrom m digits ≤ int64Max ∧ (fraction = true → -38 ≤ e - digits.length)

theorem digit_eq (fraction : Bool) (m : ℕ) (e : ℤ) (c : UInt8) :
    digit fraction ⟨m, e, false⟩ c =
      if m * 10 + digitValue c ≤ int64Max ∧ (fraction = true → -38 < e) then
        ⟨m * 10 + digitValue c, if fraction then e - 1 else e, false⟩
      else ⟨m, e, true⟩ := by
  have hbyte := c.toNat_lt
  have hguard : (fraction = true ∧ e ≤ -38) ∨ m > (int64Max - digitValue c) / 10 ↔
      ¬(m * 10 + digitValue c ≤ int64Max ∧ (fraction = true → -38 < e)) := by
    unfold digitValue int64Max
    cases fraction <;> simp <;> omega
  unfold digit
  simp only [Bool.false_eq_true, if_false, hguard, ite_not]

theorem fits_cons {fraction : Bool} {c : UInt8} : Fits fraction m e (c :: digits) ↔
    (m * 10 + digitValue c ≤ int64Max ∧ (fraction = true → -38 < e)) ∧
      Fits fraction (m * 10 + digitValue c) (if fraction then e - 1 else e) digits := by
  have hle := le_numeralFrom (m * 10 + digitValue c) digits
  unfold Fits
  rw [show numeralFrom m (c :: digits) = numeralFrom (m * 10 + digitValue c) digits from rfl,
    length_cons, Nat.cast_succ]
  cases fraction <;> simp <;> omega

/-- A loop of `from_chars` reads the number, or sets the overflow mark when it does not fit. -/
theorem foldl_digit (fraction : Bool) (hm : m ≤ int64Max) (he : -38 ≤ e) :
    let s := digits.foldl (digit fraction) ⟨m, e, false⟩
    (Fits fraction m e digits →
        s = ⟨numeralFrom m digits, if fraction then e - digits.length else e, false⟩) ∧
      (¬Fits fraction m e digits → s.overflow = true) := by
  induction digits generalizing m e with
  | nil =>
    have hfits : Fits fraction m e [] := ⟨hm, fun _ => by simpa using he⟩
    exact ⟨fun _ => by cases fraction <;> simp [numeralFrom], fun h => absurd hfits h⟩
  | cons c digits ih =>
    rw [foldl_cons, digit_eq, fits_cons]
    by_cases hnext : m * 10 + digitValue c ≤ int64Max ∧ (fraction = true → -38 < e)
    · rw [if_pos hnext]
      have he' : -38 ≤ if fraction then e - 1 else e := by
        cases fraction <;> simp at hnext ⊢ <;> omega
      obtain ⟨hread, hover⟩ := ih hnext.1 he'
      refine ⟨fun h => ?_, fun h => hover fun hfits => h ⟨hnext, hfits⟩⟩
      rw [hread h.2, length_cons, Nat.cast_succ]
      cases fraction with
      | false => rfl
      | true => simp [numeralFrom, sub_sub, add_comm]
    · rw [if_neg hnext, foldl_digit_overflow fraction digits rfl]
      exact ⟨fun h => absurd h.1 hnext, fun _ => rfl⟩

theorem head_digits (hne : digits ≠ []) (h : ∀ c ∈ digits, isDigit c = true) :
    (digits ++ rest).head?.any isDigit = true := by
  cases digits with
  | nil => exact absurd rfl hne
  | cons c digits => exact h c mem_cons_self

theorem span_digits (h : ∀ c ∈ digits, isDigit c = true) (hrest : ¬rest.head?.any isDigit) :
    (digits ++ rest).takeWhile isDigit = digits ∧ (digits ++ rest).dropWhile isDigit = rest := by
  cases rest <;> simp_all

def pointed (frac : Bytes) : Bytes := if frac = [] then [] else 46 :: frac

def readAs (negative : Bool) (whole frac : Bytes) : Except Error PodDecimal :=
  if frac.length ≤ 38 ∧ decimal (whole ++ frac) ≤ int64Max then
    .ok ⟨if negative then -decimal (whole ++ frac) else decimal (whole ++ frac), -frac.length⟩
  else .error .decimalOverflow

theorem finish_ok (hmax : n ≤ int64Max) :
    finish ⟨n, e, false⟩ negative [] = .ok ⟨if negative then -n else n, e⟩ := by
  have hne : (if negative then -(n : ℤ) else n) ≠ int64Min := by
    unfold int64Max at hmax
    unfold int64Min
    split <;> omega
  exact if_neg hne

theorem finish_overflow (negative : Bool) (h : s.overflow = true) :
    s.finish negative [] = .error .decimalOverflow :=
  if_pos h

theorem finish_loops (negative : Bool) (whole frac : Bytes) :
    (frac.foldl (digit true) (whole.foldl (digit false) {})).finish
      negative [] = readAs negative whole frac := by
  have hsum : numeralFrom (numeralFrom 0 whole) frac = decimal (whole ++ frac) :=
    (foldl_append ..).symm
  have hle := le_numeralFrom (numeralFrom 0 whole) frac
  obtain ⟨hread, hover⟩ := @foldl_digit 0 0 whole false (Nat.zero_le _) (by decide)
  unfold readAs
  by_cases hwhole : Fits false 0 0 whole
  · obtain ⟨hread', hover'⟩ := @foldl_digit 0 (numeralFrom 0 whole) frac true hwhole.1 (by decide)
    have hfits : Fits true (numeralFrom 0 whole) 0 frac ↔
        frac.length ≤ 38 ∧ decimal (whole ++ frac) ≤ int64Max := by
      unfold Fits
      rw [hsum]
      simp [and_comm]
    rw [hread hwhole]
    by_cases hfrac : Fits true (numeralFrom 0 whole) 0 frac
    · rw [if_pos (hfits.mp hfrac), ← hsum]
      refine (congrArg (finish · negative []) (hread' hfrac)).trans ?_
      rw [finish_ok hfrac.1, if_pos rfl, zero_sub]
    · rw [if_neg (mt hfits.mpr hfrac)]
      exact finish_overflow negative (hover' hfrac)
  · have hlarge : ¬numeralFrom 0 whole ≤ int64Max := fun h => hwhole ⟨h, nofun⟩
    rw [foldl_digit_overflow true frac (hover hwhole), if_neg fun h => hlarge (by omega)]
    exact finish_overflow negative (hover hwhole)

theorem fromUnsignedChars_pointed (negative : Bool) (hne : whole ≠ [])
    (hdigits : ∀ c ∈ whole ++ frac, isDigit c = true) :
    fromUnsignedChars negative (whole ++ pointed frac) = readAs negative whole frac := by
  obtain ⟨hwhole, hfrac⟩ := forall_mem_append.mp hdigits
  have hstop : ¬(pointed frac).head?.any isDigit := by
    unfold pointed
    split <;> simp [isDigit]
  obtain ⟨htake, hdrop⟩ := span_digits hwhole hstop
  rw [← finish_loops]
  unfold fromUnsignedChars
  rw [if_neg (not_not_intro (head_digits hne hwhole)), htake, hdrop]
  unfold pointed
  by_cases hnone : frac = []
  · subst hnone
    rfl
  have hfirst := @head_digits _ [] hnone hfrac
  have hspan := @span_digits _ [] hfrac (by simp)
  rw [append_nil] at hfirst hspan
  rw [if_neg hnone]
  show (if ¬frac.head?.any isDigit then _ else _) = _
  rw [if_neg (not_not_intro hfirst), hspan.1, hspan.2]

theorem fromUnsignedChars_or (negative : Bool) (src : Bytes) :
    fromUnsignedChars negative src = .error .decimalInvalidInput ∨
      ∃ whole frac, src = whole ++ pointed frac ∧ whole ≠ [] ∧
        ∀ c ∈ whole ++ frac, isDigit c = true := by
  have hdigits : ∀ {bytes : Bytes}, ∀ c ∈ bytes.takeWhile isDigit, isDigit c = true :=
    fun _ hc => mem_takeWhile_imp hc
  have hsrc := @takeWhile_append_dropWhile _ isDigit src
  unfold fromUnsignedChars
  split
  · exact .inl rfl
  have hne : src.takeWhile isDigit ≠ [] := by
    cases src <;> simp_all
  split
  next frac hrest =>
    split
    · exact .inl rfl
    by_cases hend : frac.dropWhile isDigit = []
    · have hall := @takeWhile_append_dropWhile _ isDigit frac
      rw [hend, append_nil] at hall
      have hpoint : pointed frac = 46 :: frac := if_neg (by rintro rfl; simp_all)
      refine .inr ⟨_, frac, by rw [hpoint, ← hrest, hsrc], hne, ?_⟩
      rw [forall_mem_append, ← hall]
      exact ⟨hdigits, hdigits⟩
    · exact .inl (if_pos hend)
  · by_cases hend : src.dropWhile isDigit = []
    · rw [hend, append_nil] at hsrc
      refine .inr ⟨src, [], by simp [pointed], hsrc ▸ hne, ?_⟩
      rw [append_nil, ← hsrc]
      exact hdigits
    · exact .inl (if_pos hend)

/-- An optional sign, at least one digit, and optionally a point and at least one digit. -/
structure Numeral (src : Bytes) (negative : Bool) (whole frac : Bytes) : Prop where
  text : ∃ sign, src = sign ++ (whole ++ pointed frac) ∧
    (if negative then sign = ascii "-" else sign = [] ∨ sign = ascii "+")
  whole_ne : whole ≠ []
  digits : ∀ c ∈ whole ++ frac, isDigit c = true

theorem fromChars_numeral (h : Numeral src negative whole frac) :
    fromChars src = readAs negative whole frac := by
  obtain ⟨sign, rfl, hsign⟩ := h.text
  rw [← fromUnsignedChars_pointed negative h.whole_ne h.digits]
  have hhead := @head_digits _ (pointed frac) h.whole_ne fun c hc => h.digits c (mem_append_left _ hc)
  cases negative with
  | true => rw [show sign = ascii "-" from hsign]; rfl
  | false =>
    rcases hsign with rfl | rfl
    · generalize whole ++ pointed frac = text at hhead
      cases text with
      | nil => cases hhead
      | cons c text =>
        unfold fromChars
        split <;> simp_all [isDigit]
    · rfl

theorem fromChars_or (src : Bytes) : fromChars src = .error .decimalInvalidInput ∨
    ∃ negative whole frac, Numeral src negative whole frac := by
  have hsigned : ∀ negative sign text, (if negative then sign = ascii "-"
      else sign = [] ∨ sign = ascii "+") →
      fromUnsignedChars negative text = .error .decimalInvalidInput ∨
        ∃ negative whole frac, Numeral (sign ++ text) negative whole frac := by
    intro negative sign text hsign
    refine (fromUnsignedChars_or negative text).imp_right ?_
    rintro ⟨whole, frac, rfl, hne, hdigits⟩
    exact ⟨negative, whole, frac, ⟨sign, rfl, hsign⟩, hne, hdigits⟩
  unfold fromChars
  split
  · exact .inl rfl
  · exact hsigned false (ascii "+") _ (.inr rfl)
  · exact hsigned true (ascii "-") _ rfl
  · exact hsigned false [] _ (.inl rfl)

/-- The parser accepts the numerals within its limits, each as the number its digits form
over its places, reports a numeral beyond them as an overflow and anything else as invalid. -/
theorem decimal_parser_exact (src : Bytes) :
    (∀ v, PodDecimal.fromChars src = .ok v ↔ ∃ negative whole frac,
      Numeral src negative whole frac ∧ frac.length ≤ 38 ∧ decimal (whole ++ frac) ≤ int64Max ∧
        v = ⟨if negative then -decimal (whole ++ frac) else decimal (whole ++ frac),
          -frac.length⟩) ∧
    (PodDecimal.fromChars src = .error .decimalOverflow ↔ ∃ negative whole frac,
      Numeral src negative whole frac ∧ ¬(frac.length ≤ 38 ∧ decimal (whole ++ frac) ≤ int64Max)) ∧
    (PodDecimal.fromChars src = .error .decimalInvalidInput ↔
      ¬∃ negative whole frac, Numeral src negative whole frac) := by
  have hread : ∀ {negative whole frac}, Numeral src negative whole frac →
      fromChars src = readAs negative whole frac := fromChars_numeral
  have hvalid : ∀ {negative whole frac}, readAs negative whole frac ≠ .error .decimalInvalidInput := by
    intro negative whole frac
    unfold readAs
    split <;> simp
  refine ⟨fun v => ⟨fun h => ?_, ?_⟩, ⟨fun h => ?_, ?_⟩, fun h => ?_, (fromChars_or src).resolve_right⟩
  · obtain hinvalid | ⟨negative, whole, frac, hnumeral⟩ := fromChars_or src
    · rw [hinvalid] at h
      cases h
    rw [hread hnumeral, readAs] at h
    split at h
    next hlimits => exact ⟨_, _, _, hnumeral, hlimits.1, hlimits.2, (Except.ok.inj h).symm⟩
    · cases h
  · rintro ⟨negative, whole, frac, hnumeral, hplaces, hmax, rfl⟩
    rw [hread hnumeral, readAs, if_pos ⟨hplaces, hmax⟩]
  · obtain hinvalid | ⟨negative, whole, frac, hnumeral⟩ := fromChars_or src
    · rw [hinvalid] at h
      cases h
    rw [hread hnumeral, readAs] at h
    split at h
    · cases h
    next hlimits => exact ⟨_, _, _, hnumeral, hlimits⟩
  · rintro ⟨negative, whole, frac, hnumeral, hlimits⟩
    rw [hread hnumeral, readAs, if_neg hlimits]
  rintro ⟨negative, whole, frac, hnumeral⟩
  exact hvalid (hread hnumeral ▸ h)

theorem canonical_of_fromChars (h : fromChars src = .ok v) : Canonical v := by
  obtain hinvalid | ⟨negative, whole, frac, hnumeral⟩ := fromChars_or src
  · rw [hinvalid] at h
    cases h
  rw [fromChars_numeral hnumeral, readAs] at h
  split at h
  next hlimits =>
    cases h
    refine ⟨?_, by dsimp only; omega, by dsimp only; omega⟩
    cases negative <;> simpa using hlimits.2
  · cases h

/-! ## Lowest terms -/

/-- `k / 10 ^ f` is `v` in lowest terms. -/
structure Lowest (v : PodDecimal) (k : ℤ) (f : ℕ) : Prop where
  places : f ≤ v.exponent.natAbs
  scaled : k * 10 ^ (v.exponent.natAbs - f) = v.mantissa
  stripped : f = 0 ∨ ¬10 ∣ k

def textOf (k : ℤ) (f : ℕ) : Bytes :=
  (if k < 0 then ascii "-" else []) ++ pointedDigits f (renderU32 k.natAbs)

theorem getLast_renderU32 (n : ℕ) : (renderU32 n).getLast? = some 48 ↔ n % 10 = 0 := by
  have hlast : (renderU32 n).getLast? = some (digitByte (n % 10)) := by
    by_cases hn : n < 10
    · rw [renderU32_of_lt hn, Nat.mod_eq_of_lt hn]
      rfl
    · rw [renderU32_of_ge (by omega), getLast?_concat]
  have hdigit := toNat_digitByte (d := n % 10) (by omega)
  rw [hlast, Option.some.injEq, ← UInt8.toNat_inj, hdigit]
  show 48 + n % 10 = 48 ↔ _
  omega

theorem stripFraction_renderU32 (places : ℕ) (hn : 0 < n) :
    ∃ k f, stripFraction places (renderU32 n) = (renderU32 k, f) ∧ f ≤ places ∧
      k * 10 ^ (places - f) = n ∧ (f = 0 ∨ k % 10 ≠ 0) := by
  induction places generalizing n with
  | zero => exact ⟨n, 0, rfl, Nat.le_refl 0, Nat.mul_one n, .inl rfl⟩
  | succ places ih =>
    unfold stripFraction
    by_cases hzero : n % 10 = 0
    · rw [if_pos ((getLast_renderU32 n).mpr hzero), renderU32_of_ge (by omega), dropLast_concat]
      obtain ⟨k, f, hstrip, hf, hk, hlow⟩ := ih (n := n / 10) (by omega)
      refine ⟨k, f, hstrip, by omega, ?_, hlow⟩
      rw [Nat.succ_sub hf, Nat.pow_succ, ← Nat.mul_assoc, hk]
      omega
    · rw [if_neg (mt (getLast_renderU32 n).mp hzero)]
      exact ⟨n, places + 1, rfl, Nat.le_refl _, by simp, .inr hzero⟩

theorem toChars_lowest (hv : Canonical v) : ∃ k f, Lowest v k f ∧ v.toChars = some (textOf k f) := by
  have hdomain : ¬(v.mantissa = int64Min ∨ v.exponent > 0 ∨ v.exponent < -38) := by
    unfold Canonical int64Max at hv
    unfold int64Min
    omega
  unfold toChars
  rw [if_neg hdomain]
  by_cases hzero : v.mantissa = 0
  · rw [if_pos hzero]
    exact ⟨0, 0, ⟨Nat.zero_le _, by simp [hzero], .inl rfl⟩, rfl⟩
  rw [if_neg hzero]
  obtain ⟨n, f, hstrip, hf, hn, hlow⟩ :=
    stripFraction_renderU32 v.exponent.natAbs (Int.natAbs_pos.mpr hzero)
  have hpos : n ≠ 0 := by
    rintro rfl
    omega
  have hscaled : (n : ℤ) * 10 ^ (v.exponent.natAbs - f) = v.mantissa.natAbs := by
    exact_mod_cast hn
  rw [hstrip]
  by_cases hneg : v.mantissa < 0
  · refine ⟨-n, f, ⟨hf, by rw [neg_mul]; omega, by omega⟩, ?_⟩
    simp [textOf, hneg, Nat.pos_of_ne_zero hpos]
  refine ⟨n, f, ⟨hf, by omega, by omega⟩, ?_⟩
  simp [textOf, hneg]

/-! ## The text of lowest terms -/

theorem decimal_zeros (j : ℕ) (digits : Bytes) :
    decimal (replicate j 48 ++ digits) = decimal digits := by
  induction j with
  | zero => rfl
  | succ j ih => exact ih

/-- Around the point stand the digits, behind as many zeros as it takes. -/
theorem pointedDigits_eq (hne : 0 < digits.length) (f : ℕ) : ∃ whole frac,
    pointedDigits f digits = whole ++ pointed frac ∧
    whole ++ frac = replicate (f + 1 - digits.length) 48 ++ digits ∧
    frac.length = f ∧ whole.length = max 1 (digits.length - f) := by
  have hpoint : ∀ {frac : Bytes}, 0 < frac.length → pointed frac = 46 :: frac :=
    fun h => if_neg (ne_nil_of_length_pos h)
  unfold pointedDigits
  split
  next hf =>
    subst hf
    refine ⟨digits, [], by simp [pointed], ?_, rfl, by omega⟩
    rw [Nat.sub_eq_zero_of_le hne, append_nil]
    rfl
  split
  · refine ⟨[48], replicate (f - digits.length) 48 ++ digits, ?_, ?_, by simp; omega,
      by simp; omega⟩
    · rw [hpoint (by simp; omega), append_assoc]
      rfl
    rw [Nat.succ_sub ‹_›]
    rfl
  refine ⟨digits.take (digits.length - f), digits.drop (digits.length - f), ?_, ?_,
    by simp; omega, by simp; omega⟩
  · rw [hpoint (by simp; omega), append_assoc]
    rfl
  rw [take_append_drop, Nat.sub_eq_zero_of_le (by omega)]
  rfl

theorem fromChars_textOf (hk : k.natAbs ≤ int64Max) (hf : f ≤ 38) :
    fromChars (textOf k f) = .ok ⟨k, -f⟩ ∧
      (textOf k f).length ≤ maxSerializedBytes := by
  have hlow := length_pos_iff.mpr (renderU32_ne_nil k.natAbs)
  have hhigh : (renderU32 k.natAbs).length ≤ 19 :=
    (length_renderU32_le (by decide)).mpr (hk.trans_lt (by decide))
  obtain ⟨whole, frac, htext, hfilled, rfl, hwhole⟩ := pointedDigits_eq hlow f
  have hdigits : ∀ c ∈ whole ++ frac, isDigit c = true := by
    rw [hfilled, forall_mem_append]
    exact ⟨fun c hc => eq_of_mem_replicate hc ▸ by decide, fun _ => isDigit_of_mem_renderU32⟩
  have hnumeral : decimal (whole ++ frac) = k.natAbs := by
    rw [hfilled, decimal_zeros, decimal_renderU32]
  have hne : whole ≠ [] := ne_nil_of_length_pos (by omega)
  unfold textOf
  rw [htext]
  constructor
  · have hread := fromChars_numeral (⟨⟨_, rfl, by split <;> simp_all⟩, hne, hdigits⟩ :
      Numeral ((if k < 0 then ascii "-" else []) ++ _) (decide (k < 0)) whole frac)
    rw [readAs, hnumeral, if_pos (And.intro hf hk)] at hread
    simp only [decide_eq_true_eq] at hread
    rw [hread, show (if k < 0 then -(k.natAbs : ℤ) else k.natAbs) = k by split <;> omega]
  have hsign : (if k < 0 then ascii "-" else []).length ≤ 1 := by
    split <;> decide
  have hpoint : (pointed frac).length ≤ frac.length + 1 := by
    unfold pointed
    split <;> simp
  rw [length_append, length_append, maxSerializedBytes]
  omega

/-! ## Values -/

theorem Lowest.value_eq (hv : Canonical v) (h : Lowest v k f) : value ⟨k, -f⟩ = value v := by
  obtain ⟨d, hd⟩ := Nat.exists_eq_add_of_le h.places
  have hscaled := h.scaled
  have hexponent : v.exponent = -((f + d : ℕ) : ℤ) := by
    have := hv.2.2
    omega
  rw [hd, Nat.add_sub_cancel_left] at hscaled
  unfold value
  rw [hexponent, ← hscaled, zpow_neg, zpow_neg, zpow_natCast, zpow_natCast, pow_add]
  push_cast
  field_simp

theorem le_of_scaled {f' : ℕ} (hscaled : k * 10 ^ f' = k' * 10 ^ f) (hlow' : f' = 0 ∨ ¬10 ∣ k') :
    f' ≤ f := by
  by_contra hlt
  obtain ⟨d, rfl⟩ : ∃ d, f' = f + (d + 1) := ⟨f' - f - 1, by omega⟩
  have hk : k * 10 ^ d * 10 = k' := by
    apply mul_right_cancel₀ (pow_ne_zero f (show (10 : ℤ) ≠ 0 by decide))
    rw [← hscaled]
    ring
  exact hlow'.elim (by omega) fun h => h ⟨k * 10 ^ d, by rw [← hk, mul_comm]⟩

theorem Lowest.unique {f' : ℕ} (hv : Canonical v) (hw : Canonical w) (h : Lowest v k f)
    (h' : Lowest w k' f') (heq : value v = value w) : k = k' ∧ f = f' := by
  rw [← h.value_eq hv, ← h'.value_eq hw] at heq
  unfold value at heq
  rw [zpow_neg, zpow_neg, zpow_natCast, zpow_natCast] at heq
  field_simp at heq
  have hscaled : k * 10 ^ f' = k' * 10 ^ f := by
    rw [mul_comm k']
    exact_mod_cast heq
  obtain rfl : f = f' :=
    le_antisymm (le_of_scaled hscaled.symm h.stripped) (le_of_scaled hscaled h'.stripped)
  exact ⟨mul_right_cancel₀ (pow_ne_zero f (by decide)) hscaled, rfl⟩

theorem toCharsInto_lowest (hv : Canonical v) : ∃ k f, Lowest v k f ∧
    v.toCharsInto maxSerializedBytes = .ok (textOf k f) ∧
    (textOf k f).length ≤ maxSerializedBytes ∧
    fromChars (textOf k f) = .ok ⟨k, -f⟩ := by
  obtain ⟨k, f, h, htext⟩ := toChars_lowest hv
  have hsize : k.natAbs ≤ v.mantissa.natAbs := by
    rw [← h.scaled, Int.natAbs_mul]
    exact Nat.le_mul_of_pos_right _ (Int.natAbs_pos.mpr (pow_ne_zero _ (by decide)))
  have hplaces := h.places
  obtain ⟨hmax, hlow, hhigh⟩ := hv
  obtain ⟨hread, hlen⟩ := fromChars_textOf (f := f) (hsize.trans hmax) (by omega)
  refine ⟨k, f, h, ?_, hlen, hread⟩
  unfold toCharsInto
  rw [htext]
  exact if_neg (Nat.not_lt.mpr hlen)

theorem roundTrips (hv : Canonical v) : RoundTrips v := by
  obtain ⟨k, f, h, htext, hlen, hread⟩ := toCharsInto_lowest hv
  exact ⟨_, _, htext, hlen, hread, h.value_eq hv⟩

/-- Every canonical decimal and every decimal that `from_chars` accepts round-trips, and
canonical decimals have one text exactly when they have one value. -/
theorem decimal_text_round_trip : (∀ v, Canonical v → RoundTrips v) ∧
    (∀ v w, Canonical v → Canonical w →
      (v.toCharsInto maxSerializedBytes = w.toCharsInto maxSerializedBytes ↔ value v = value w)) ∧
    ∀ src v, PodDecimal.fromChars src = .ok v → RoundTrips v := by
  refine ⟨fun v hv => roundTrips hv, ?_, fun src v h => roundTrips (canonical_of_fromChars h)⟩
  intro v w hv hw
  obtain ⟨k, f, h, htext, -, hread⟩ := toCharsInto_lowest hv
  obtain ⟨k', f', h', htext', -, hread'⟩ := toCharsInto_lowest hw
  rw [htext, htext']
  constructor
  · intro hsame
    rw [Except.ok.inj hsame, hread'] at hread
    rw [← h.value_eq hv, ← h'.value_eq hw, Except.ok.inj hread]
  intro heq
  obtain ⟨rfl, rfl⟩ := h.unique hv hw h' heq
  rfl

end Fixpp.Analysis.DecimalText
