import Fixpp.Analysis.FieldReading
import Fixpp.Interface.WireFrame

/-!
# Decimal digits

A tag written without leading zeros is the one rendering of its number
(`eq_renderU32_of_tagFrom`), and a rendered tag is read as its number (`tagFrom_renderU32`).
-/

namespace Fixpp.Model

open Interface Writer List

variable {c : UInt8} {n : ℕ} {digits : Bytes}
variable {d tag t acc : ℕ}

theorem isDigit_iff : isDigit c = true ↔ 48 ≤ c.toNat ∧ c.toNat ≤ 57 := by
  simp only [isDigit, Bool.and_eq_true, decide_eq_true_eq]
  exact Iff.rfl

theorem digitValue_lt (h : isDigit c = true) : digitValue c < 10 := by
  obtain ⟨-, hle⟩ := isDigit_iff.mp h
  unfold digitValue
  omega

def digitByte (d : ℕ) : UInt8 := UInt8.ofNat (48 + d)

theorem toNat_digitByte (h : d < 10) : (digitByte d).toNat = 48 + d := by
  unfold digitByte
  rw [UInt8.toNat_ofNat', Nat.mod_eq_of_lt (by omega)]

theorem isDigit_digitByte (h : d < 10) : isDigit (digitByte d) = true := by
  rw [isDigit_iff, toNat_digitByte h]
  omega

@[simp] theorem digitValue_digitByte (h : d < 10) : digitValue (digitByte d) = d := by
  rw [digitValue, toNat_digitByte h]
  omega

theorem digitByte_digitValue (h : isDigit c = true) : digitByte (digitValue c) = c := by
  obtain ⟨hge, hle⟩ := isDigit_iff.mp h
  apply UInt8.toNat_inj.mp
  rw [toNat_digitByte (digitValue_lt h), digitValue]
  omega

/-! ## Rendering -/

theorem renderU32_of_lt (h : n < 10) : renderU32 n = [digitByte n] := by
  rw [renderU32, Nat.toDigits_of_lt_base h, map_singleton, digitByte,
    Nat.toNat_digitChar_of_lt_ten h]

theorem renderU32_of_ge (h : 10 ≤ n) :
    renderU32 n = renderU32 (n / 10) ++ [digitByte (n % 10)] := by
  rw [renderU32, Nat.toDigits_of_base_le (by decide) h, map_append, map_singleton,
    digitByte, Nat.toNat_digitChar_of_lt_ten (Nat.mod_lt _ (by decide))]
  rfl

theorem renderU32_ne_nil (n : ℕ) : renderU32 n ≠ [] := by
  simp [renderU32]

theorem isDigit_of_mem_renderU32 {b : UInt8} (h : b ∈ renderU32 n) : isDigit b = true := by
  induction n using Nat.strongRecOn with
  | ind n ih =>
    by_cases hn : n < 10
    · rw [renderU32_of_lt hn, mem_singleton] at h
      rw [h]
      exact isDigit_digitByte hn
    rw [renderU32_of_ge (by omega), mem_append, mem_singleton] at h
    rcases h with hin | rfl
    · exact ih (n / 10) (by omega) hin
    · exact isDigit_digitByte (Nat.mod_lt _ (by decide))

theorem length_renderU32_le {k : ℕ} (hk : 0 < k) : (renderU32 n).length ≤ k ↔ n < 10 ^ k := by
  rw [renderU32, length_map]
  exact Nat.length_toDigits_le_iff (by decide) hk

theorem decimal_renderU32 (n : ℕ) : decimal (renderU32 n) = n := by
  induction n using Nat.strongRecOn with
  | ind n ih =>
    by_cases hn : n < 10
    · rw [renderU32_of_lt hn]
      simp [decimal, hn]
    have hmod : n % 10 < 10 := Nat.mod_lt _ (by decide)
    rw [renderU32_of_ge (by omega), decimal_append, ih (n / 10) (by omega),
      digitValue_digitByte hmod]
    omega

theorem renderU32_append_digit (hn : 0 < n) (hc : isDigit c = true) :
    renderU32 n ++ [c] = renderU32 (n * 10 + digitValue c) := by
  have hd := digitValue_lt hc
  have hdiv : (n * 10 + digitValue c) / 10 = n := by omega
  have hmod : (n * 10 + digitValue c) % 10 = digitValue c := by omega
  rw [renderU32_of_ge (n := n * 10 + digitValue c) (by omega), hdiv, hmod, digitByte_digitValue hc]

/-! ## Tags -/

theorem accumulateTagDigit_eq_some (hc : isDigit c = true) :
    accumulateTagDigit tag c = some t ↔ t = tag * 10 + digitValue c ∧ t ≤ tagMax := by
  have hd := digitValue_lt hc
  unfold accumulateTagDigit tagMax
  split
  · constructor
    · intro h
      cases h
    rintro ⟨rfl, hle⟩
    omega
  constructor
  · intro h
    cases h
    exact ⟨rfl, by omega⟩
  · rintro ⟨rfl, -⟩
    rfl

theorem tagFrom_append (tag : ℕ) (a b : Bytes) :
    tagFrom tag (a ++ b) = (tagFrom tag a).bind fun t => tagFrom t b := by
  induction a generalizing tag with
  | nil => rfl
  | cons c a ih =>
    rw [cons_append, tagFrom_cons, tagFrom_cons]
    split
    · rw [Option.bind_assoc]
      congr
      funext t
      exact ih t
    · rfl

theorem tagFrom_singleton (hc : isDigit c = true) (ht : t = tag * 10 + digitValue c)
    (hle : t ≤ tagMax) : tagFrom tag [c] = some t := by
  rw [tagFrom_cons, if_pos hc, (accumulateTagDigit_eq_some hc).mpr ⟨ht, hle⟩]
  rfl

theorem tagFrom_renderU32 (h : n ≤ tagMax) : tagFrom 0 (renderU32 n) = some n := by
  induction n using Nat.strongRecOn with
  | ind n ih =>
    by_cases hn : n < 10
    · rw [renderU32_of_lt hn]
      exact tagFrom_singleton (isDigit_digitByte hn) (by simp [hn]) h
    have hmod : n % 10 < 10 := Nat.mod_lt _ (by decide)
    rw [renderU32_of_ge (by omega), tagFrom_append, ih (n / 10) (by omega) (by omega),
      Option.bind_some]
    exact tagFrom_singleton (isDigit_digitByte hmod)
      (by rw [digitValue_digitByte hmod]; omega) h

theorem tagFrom_le (hacc : acc ≤ tagMax) (h : tagFrom acc digits = some n) : n ≤ tagMax := by
  induction digits generalizing acc with
  | nil =>
    cases h
    exact hacc
  | cons c digits ih =>
    obtain ⟨hc, t, ht, hrest⟩ := tagFrom_cons_iff.mp h
    exact ih ((accumulateTagDigit_eq_some hc).mp ht).2 hrest

theorem renderU32_append_of_tagFrom (hacc : 0 < acc) (h : tagFrom acc digits = some n) :
    renderU32 acc ++ digits = renderU32 n := by
  induction digits generalizing acc with
  | nil =>
    cases h
    exact append_nil _
  | cons c digits ih =>
    obtain ⟨hc, t, ht, hrest⟩ := tagFrom_cons_iff.mp h
    obtain ⟨rfl, -⟩ := (accumulateTagDigit_eq_some hc).mp ht
    rw [← ih (by omega) hrest, ← renderU32_append_digit hacc hc, append_assoc, singleton_append]

theorem eq_renderU32_of_tagFrom (hc : c ≠ 48) (h : tagFrom 0 (c :: digits) = some n) :
    c :: digits = renderU32 n := by
  obtain ⟨hdigit, t, ht, hrest⟩ := tagFrom_cons_iff.mp h
  have hpos : 0 < digitValue c := by
    obtain ⟨hge, -⟩ := isDigit_iff.mp hdigit
    have hne : c.toNat ≠ 48 := fun heq => hc (UInt8.toNat_inj.mp heq)
    unfold digitValue
    omega
  obtain ⟨rfl, -⟩ := (accumulateTagDigit_eq_some hdigit).mp ht
  rw [Nat.zero_mul, Nat.zero_add] at hrest
  have hfirst : renderU32 (digitValue c) = [c] := by
    rw [renderU32_of_lt (digitValue_lt hdigit), digitByte_digitValue hdigit]
  rw [← renderU32_append_of_tagFrom hpos hrest, hfirst, singleton_append]

theorem head_renderU32 (h : 0 < n) : (renderU32 n).head? ≠ some 48 := by
  induction n using Nat.strongRecOn with
  | ind n ih =>
    by_cases hn : n < 10
    · rw [renderU32_of_lt hn]
      intro heq
      have hbyte : digitByte n = 48 := by simpa using heq
      have hval := toNat_digitByte hn
      rw [hbyte] at hval
      have : (48 : UInt8).toNat = 48 := rfl
      omega
    · rw [renderU32_of_ge (by omega), head?_append_of_ne_nil _ (renderU32_ne_nil _)]
      exact ih (n / 10) (by omega) (by omega)

theorem parseOutboundTag_iff :
    parseOutboundTag digits = some tag ↔ 0 < tag ∧ tag ≤ tagMax ∧ digits = renderU32 tag := by
  rw [parseOutboundTag_eq]
  constructor
  · intro h
    split at h
    · cases h
    rename_i hshape
    rw [not_or] at hshape
    obtain ⟨c, ds, rfl⟩ := exists_cons_of_ne_nil hshape.1
    have hc : c ≠ 48 := by simpa using hshape.2
    have hrender := eq_renderU32_of_tagFrom hc h
    refine ⟨?_, tagFrom_le (Nat.zero_le _) h, hrender⟩
    by_contra hzero
    have htag : tag = 0 := by omega
    rw [htag] at hrender
    exact hc (cons.inj hrender).1
  · rintro ⟨hpos, hle, rfl⟩
    rw [if_neg (not_or.mpr ⟨renderU32_ne_nil tag, head_renderU32 hpos⟩)]
    exact tagFrom_renderU32 hle

end Fixpp.Model
