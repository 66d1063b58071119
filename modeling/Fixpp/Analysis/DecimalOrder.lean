import Fixpp.Model.Decimals

/-!
# Decimals are ordered as the numbers they stand for

A decimal stands for its mantissa times a power of ten, and an invalid one for a value above all
of these (`rank`). `compare` answers as the ranks are ordered, whichever body of the widening
product is built in.
-/

namespace Fixpp.Model.MachineDecimal

/-! ## What a decimal stands for -/

def value (a : MachineDecimal) : ℚ := (a.mantissa.toInt : ℚ) * 10 ^ a.exponent.toInt

/-- Where a decimal stands: an invalid one above every number. -/
def rank (a : MachineDecimal) : WithTop ℚ := if a.isInvalid then ⊤ else (a.value : WithTop ℚ)

theorem scale_pos (e : ℤ) : (0 : ℚ) < 10 ^ e := zpow_pos (by norm_num) e

/-! ## The widening product -/

theorem mulU64Wide_spec (a b : UInt64) :
    (mulU64Wide a b).1.toNat * 2 ^ 64 + (mulU64Wide a b).2.toNat = a.toNat * b.toNat := by
  have hprod : a.toNat * b.toNat < 2 ^ 64 * 2 ^ 64 := Nat.mul_lt_mul'' a.toNat_lt b.toNat_lt
  unfold mulU64Wide
  simp only [UInt64.toNat_ofNat']
  omega

theorem toNat_lowHalf (x : UInt64) : (x &&& 0xFFFFFFFF).toNat = x.toNat % 2 ^ 32 := by
  exact Nat.and_two_pow_sub_one_eq_mod x.toNat 32

theorem toNat_highHalf (x : UInt64) : (x >>> 32).toNat = x.toNat / 2 ^ 32 := by
  exact Nat.shiftRight_eq_div_pow x.toNat 32

theorem limb_product_le {x y : ℕ} (hx : x < 2 ^ 32) (hy : y < 2 ^ 32) :
    x * y ≤ (2 ^ 32 - 1) * (2 ^ 32 - 1) :=
  Nat.mul_le_mul (by omega) (by omega)

theorem lowHalf_lt (x : UInt64) : (x &&& 0xFFFFFFFF).toNat < 2 ^ 32 := by
  rw [toNat_lowHalf]
  exact Nat.mod_lt _ (Nat.two_pow_pos 32)

theorem highHalf_lt (x : UInt64) : (x >>> 32).toNat < 2 ^ 32 := by
  have hx := x.toNat_lt
  rw [toNat_highHalf]
  omega

/-! Two limbs multiply without overflow and leave room for two more. -/

section Limbs

variable {x y z w : UInt64} (hx : x.toNat < 2 ^ 32) (hy : y.toNat < 2 ^ 32)
include hx hy

theorem limb_mul_lt : x.toNat * y.toNat < 2 ^ 64 := by
  have hle := limb_product_le hx hy
  omega

theorem toNat_limb_mul : (x * y).toNat = x.toNat * y.toNat := by
  rw [UInt64.toNat_mul]
  exact Nat.mod_eq_of_lt (limb_mul_lt hx hy)

variable (hz : z.toNat < 2 ^ 32)
include hz

theorem limb_mul_add_lt : (x * y).toNat + z.toNat < 2 ^ 64 := by
  have hle := limb_product_le hx hy
  rw [toNat_limb_mul hx hy]
  omega

theorem toNat_limb_mul_add : (x * y + z).toNat = x.toNat * y.toNat + z.toNat := by
  rw [UInt64.toNat_add, Nat.mod_eq_of_lt (limb_mul_add_lt hx hy hz), toNat_limb_mul hx hy]

theorem limb_mul_add_add_lt (hw : w.toNat < 2 ^ 32) : (x * y + z).toNat + w.toNat < 2 ^ 64 := by
  have hle := limb_product_le hx hy
  rw [toNat_limb_mul_add hx hy hz]
  omega

end Limbs

theorem toNat_shl_or {t w : UInt64} (hw : w.toNat < 2 ^ 32) :
    (t <<< 32 ||| w).toNat = t.toNat % 2 ^ 32 * 2 ^ 32 + w.toNat := by
  have hshift : (t <<< 32).toNat = (t.toNat % 2 ^ 32) <<< 32 := by
    rw [UInt64.toNat_shiftLeft, Nat.shiftLeft_eq, Nat.shiftLeft_eq]
    change t.toNat * 2 ^ 32 % 2 ^ 64 = _
    omega
  rw [UInt64.toNat_or, hshift, ← Nat.shiftLeft_add_eq_or_of_lt hw, Nat.shiftLeft_eq]

theorem mulU64WidePortable_spec (a b : UInt64) :
    (mulU64WidePortable a b).1.toNat * 2 ^ 64 + (mulU64WidePortable a b).2.toNat =
      a.toNat * b.toNat := by
  have ha := a.toNat_lt
  have hb := b.toNat_lt
  have haLo := toNat_lowHalf a
  have haHi := toNat_highHalf a
  have hbLo := toNat_lowHalf b
  have hbHi := toNat_highHalf b
  have hfactors : a.toNat * b.toNat = ((a >>> 32).toNat * 2 ^ 32 + (a &&& 0xFFFFFFFF).toNat) *
        ((b >>> 32).toNat * 2 ^ 32 + (b &&& 0xFFFFFFFF).toNat) := by
    rw [haLo, haHi, hbLo, hbHi, Nat.div_add_mod', Nat.div_add_mod']
  rw [hfactors]
  unfold mulU64WidePortable
  dsimp only
  generalize a &&& 0xFFFFFFFF = aLo at *
  generalize a >>> 32 = aHi at *
  generalize b &&& 0xFFFFFFFF = bLo at *
  generalize b >>> 32 = bHi at *
  have hx0 : aLo.toNat < 2 ^ 32 := by omega
  have hx1 : aHi.toNat < 2 ^ 32 := by omega
  have hy0 : bLo.toNat < 2 ^ 32 := by omega
  have hy1 : bHi.toNat < 2 ^ 32 := by omega
  have hle00 := limb_product_le hx0 hy0
  have hle10 := limb_product_le hx1 hy0
  have hle01 := limb_product_le hx0 hy1
  have hle11 := limb_product_le hx1 hy1
  -- each step adds the carry of the one before, and none overflows
  have ht0 := toNat_limb_mul hx0 hy0
  generalize aLo * bLo = t0 at *
  have hw0 := toNat_lowHalf t0
  have hk0 := toNat_highHalf t0
  have ht1 := toNat_limb_mul_add hx1 hy0 (z := t0 >>> 32) (by omega)
  generalize aHi * bLo + t0 >>> 32 = t1 at *
  have hw1 := toNat_lowHalf t1
  have hw2 := toNat_highHalf t1
  have ht2 := toNat_limb_mul_add hx0 hy1 (z := t1 &&& 0xFFFFFFFF) (by omega)
  generalize aLo * bHi + (t1 &&& 0xFFFFFFFF) = t2 at *
  have hk1 := toNat_highHalf t2
  have hhi : (aHi * bHi + t1 >>> 32 + t2 >>> 32).toNat =
      aHi.toNat * bHi.toNat + (t1 >>> 32).toNat + (t2 >>> 32).toNat := by
    rw [UInt64.toNat_add, toNat_limb_mul_add hx1 hy1 (highHalf_lt t1)]
    exact Nat.mod_eq_of_lt (by omega)
  have hexpand : (aHi.toNat * 2 ^ 32 + aLo.toNat) * (bHi.toNat * 2 ^ 32 + bLo.toNat) =
      aHi.toNat * bHi.toNat * 2 ^ 64 + (aHi.toNat * bLo.toNat + aLo.toNat * bHi.toNat) * 2 ^ 32 +
        aLo.toNat * bLo.toNat := by
    ring
  rw [toNat_shl_or (by omega), hhi, hexpand]
  omega

/-- A 64-bit sum, or nothing where it overflows. -/
def checkedAdd (x y : UInt64) : Option UInt64 :=
  if x.toNat + y.toNat < 2 ^ 64 then some (x + y) else none

def checkedMul (x y : UInt64) : Option UInt64 :=
  if x.toNat * y.toNat < 2 ^ 64 then some (x * y) else none

/-- `mulU64WidePortable` with every sum and product checked. -/
def mulU64WideChecked (a b : UInt64) : Option (UInt64 × UInt64) := do
  let aLo := a &&& 0xFFFFFFFF
  let aHi := a >>> 32
  let bLo := b &&& 0xFFFFFFFF
  let bHi := b >>> 32
  let t ← checkedMul aLo bLo
  let w0 := t &&& 0xFFFFFFFF
  let k := t >>> 32
  let t ← checkedAdd (← checkedMul aHi bLo) k
  let w1 := t &&& 0xFFFFFFFF
  let w2 := t >>> 32
  let t ← checkedAdd (← checkedMul aLo bHi) w1
  let k := t >>> 32
  let hi ← checkedAdd (← checkedAdd (← checkedMul aHi bHi) w2) k
  return (hi, t <<< 32 ||| w0)

/-- The limbs compute the whole product, and no check fails on the way. -/
theorem portable_product_exact (a b : UInt64) :
    (mulU64WidePortable a b).1.toNat * 2 ^ 64 + (mulU64WidePortable a b).2.toNat =
        a.toNat * b.toNat ∧
      mulU64WideChecked a b = some (mulU64WidePortable a b) := by
  constructor
  · exact mulU64WidePortable_spec a b
  · unfold mulU64WideChecked checkedMul checkedAdd
    simp only [limb_mul_lt, limb_mul_add_lt, limb_mul_add_add_lt, lowHalf_lt, highHalf_lt,
      if_true, Option.bind_eq_bind, Option.bind_some]
    rfl

variable (build : WideMul)

theorem WideMul.mul_spec (a b : UInt64) :
    (build.mul a b).1.toNat * 2 ^ 64 + (build.mul a b).2.toNat = a.toNat * b.toNat := by
  cases build with
  | int128 => exact mulU64Wide_spec a b
  | portable => exact mulU64WidePortable_spec a b

/-! ## Magnitudes -/

theorem toNat_kPow10 {k : ℕ} (h : k < 19) : (kPow10 k).toNat = 10 ^ k := by
  have hpow : 10 ^ k ≤ 10 ^ 18 := Nat.pow_le_pow_right (by decide) (by omega)
  exact Nat.mod_eq_of_lt (by omega)

/-- The limb comparison: any high word at all is more than the other magnitude. -/
theorem cmp_words {hi lo other : ℕ} (hother : other < 2 ^ 63) :
    (if hi ≠ 0 ∨ other < lo then Ordering.gt else if lo = other then .eq else .lt) =
      cmp (hi * 2 ^ 64 + lo) other := by
  by_cases hgt : hi ≠ 0 ∨ other < lo
  · rw [if_pos hgt, eq_comm, cmp_eq_gt_iff]
    omega
  rw [if_neg hgt]
  rw [not_or, not_not, not_lt] at hgt
  obtain ⟨rfl, hle⟩ := hgt
  rw [Nat.zero_mul, Nat.zero_add]
  rcases hle.lt_or_eq with hlt | heq
  · rw [if_neg hlt.ne, (cmp_eq_lt_iff _ _).mpr hlt]
  · rw [if_pos heq, (cmp_eq_eq_iff _ _).mpr heq]

/-- A scaled magnitude is compared exactly: by its product, or by dominance. -/
theorem scaledVsOther_eq (k : ℕ) {scaled other : UInt64}
    (hscaled : 0 < scaled.toNat) (hother : other.toNat < 2 ^ 63) :
    scaledVsOther build k scaled other = cmp (scaled.toNat * 10 ^ k) other.toNat := by
  unfold scaledVsOther
  by_cases hk : k ≥ 19
  · rw [if_pos hk, eq_comm, cmp_eq_gt_iff]
    have hpow : 10 ^ 19 ≤ 10 ^ k := Nat.pow_le_pow_right (by decide) hk
    have hprod : 1 * 10 ^ 19 ≤ scaled.toNat * 10 ^ k := Nat.mul_le_mul hscaled hpow
    omega
  rw [if_neg hk]
  have hspec := build.mul_spec scaled (kPow10 k)
  rw [toNat_kPow10 (by omega)] at hspec
  rw [← hspec]
  generalize build.mul scaled (kPow10 k) = product
  obtain ⟨hi, lo⟩ := product
  have hzero : hi ≠ 0 ↔ hi.toNat ≠ 0 := by
    rw [Ne, Ne, ← UInt64.toNat_inj]
    rfl
  simp only [hzero, gt_iff_lt, UInt64.lt_iff_toNat_lt, ← UInt64.toNat_inj]
  exact cmp_words hother

variable {a b : MachineDecimal}

theorem mantissa_bounds (h : a.isInvalid = false) :
    -2 ^ 63 < a.mantissa.toInt ∧ a.mantissa.toInt < 2 ^ 63 := by
  have hne : a.mantissa ≠ Int64.minValue := of_decide_eq_false h
  have hint : a.mantissa.toInt ≠ Int64.minValue.toInt := fun heq => hne (Int64.toInt_inj.mp heq)
  have hle := a.mantissa.le_toInt
  have hlt := a.mantissa.toInt_lt
  rw [Int64.toInt_minValue] at hint
  omega

theorem mantissa_neg_iff (a : MachineDecimal) : a.mantissa < 0 ↔ a.mantissa.toInt < 0 := by
  rw [Int64.lt_iff_toInt_lt, Int64.toInt_zero]

theorem mantissa_eq_zero_iff (a : MachineDecimal) : a.mantissa = 0 ↔ a.mantissa.toInt = 0 := by
  rw [← Int64.toInt_inj, Int64.toInt_zero]

theorem toNat_magnitude (h : a.isInvalid = false) :
    a.magnitude.toNat = a.mantissa.toInt.natAbs := by
  obtain ⟨hlow, hhigh⟩ := mantissa_bounds h
  have habs : ∀ m : Int64, 0 ≤ m.toInt → m.toUInt64.toNat = m.toInt.toNat := by
    intro m hm
    rw [Int64.toNat_toUInt64_of_le (by rw [Int64.le_iff_toInt_le, Int64.toInt_zero]; exact hm)]
    rfl
  unfold magnitude
  by_cases hneg : a.mantissa < 0
  · rw [if_pos hneg]
    rw [mantissa_neg_iff] at hneg
    have htoInt : (-a.mantissa).toInt = -a.mantissa.toInt := by
      rw [Int64.toInt_neg]
      exact Int.bmod_eq_of_le (by omega) (by omega)
    rw [habs _ (by omega), htoInt]
    omega
  · rw [if_neg hneg]
    rw [mantissa_neg_iff] at hneg
    rw [habs _ (by omega)]
    omega

/-! ## Finite decimals -/

def size (a : MachineDecimal) : ℚ := (a.mantissa.toInt.natAbs : ℚ) * 10 ^ a.exponent.toInt

theorem value_of_neg (h : a.mantissa < 0) : a.value = -a.size := by
  have habs : (a.mantissa.toInt : ℚ) = -(a.mantissa.toInt.natAbs : ℚ) := by
    rw [mantissa_neg_iff] at h
    have hint : a.mantissa.toInt = -(a.mantissa.toInt.natAbs : ℤ) := by omega
    exact_mod_cast hint
  unfold value size
  rw [habs, neg_mul]

theorem value_of_nonneg (h : ¬a.mantissa < 0) : a.value = a.size := by
  have habs : (a.mantissa.toInt : ℚ) = (a.mantissa.toInt.natAbs : ℚ) := by
    rw [mantissa_neg_iff] at h
    have hint : a.mantissa.toInt = (a.mantissa.toInt.natAbs : ℤ) := by omega
    rw [← Int.cast_natCast, ← hint]
  unfold value size
  rw [habs]

theorem size_nonneg (a : MachineDecimal) : 0 ≤ a.size :=
  mul_nonneg (Nat.cast_nonneg _) (scale_pos _).le

theorem size_pos (h : a.mantissa ≠ 0) : 0 < a.size := by
  rw [Ne, mantissa_eq_zero_iff] at h
  have habs : 0 < a.mantissa.toInt.natAbs := Int.natAbs_pos.mpr h
  exact mul_pos (Nat.cast_pos.mpr habs) (scale_pos _)

theorem size_of_zero (h : a.mantissa = 0) : a.size = 0 := by
  simp [size, h]

/-- The side with the larger exponent is scaled to the other one's. -/
theorem scaledVsOther_eq_cmp_size (ha : a.isInvalid = false) (hb : b.isInvalid = false)
    (hzero : a.mantissa ≠ 0) (hexp : b.exponent.toInt ≤ a.exponent.toInt) :
    scaledVsOther build (a.exponent.toInt - b.exponent.toInt).toNat a.magnitude b.magnitude =
      cmp a.size b.size := by
  obtain ⟨hlow, hhigh⟩ := mantissa_bounds hb
  rw [Ne, mantissa_eq_zero_iff] at hzero
  rw [scaledVsOther_eq build _ (by rw [toNat_magnitude ha]; omega)
    (by rw [toNat_magnitude hb]; omega), toNat_magnitude ha, toNat_magnitude hb]
  generalize hk : (a.exponent.toInt - b.exponent.toInt).toNat = k
  have hscale : a.exponent.toInt = k + b.exponent.toInt := by omega
  have hsize : a.size =
      ((a.mantissa.toInt.natAbs * 10 ^ k : ℕ) : ℚ) * 10 ^ b.exponent.toInt := by
    unfold size
    rw [hscale, zpow_add₀ (by norm_num), zpow_natCast]
    push_cast
    ring
  rw [hsize, size, cmp_mul_pos_right (scale_pos _), Nat.strictMono_cast.cmp_map_eq]

theorem compareOfLessAndEq_mantissa (hexp : a.exponent = b.exponent) :
    compareOfLessAndEq a.mantissa b.mantissa = cmp a.value b.value := by
  unfold value compareOfLessAndEq
  rw [hexp, cmp_mul_pos_right (scale_pos _), Int.cast_strictMono.cmp_map_eq, eq_comm]
  split
  next hlt => exact (cmp_eq_lt_iff _ _).mpr (Int64.lt_iff_toInt_lt.mp hlt)
  split
  next heq => exact (cmp_eq_eq_iff _ _).mpr (congrArg Int64.toInt heq)
  rename_i hnlt hne
  rw [Int64.lt_iff_toInt_lt] at hnlt
  rw [← Int64.toInt_inj] at hne
  rw [cmp_eq_gt_iff]
  omega

theorem sizes_compared (ha : a.isInvalid = false) (hb : b.isInvalid = false)
    (hazero : a.mantissa ≠ 0) (hbzero : b.mantissa ≠ 0) :
    (let aScales := a.exponent.toInt > b.exponent.toInt
     let k := if aScales then a.exponent.toInt - b.exponent.toInt
       else b.exponent.toInt - a.exponent.toInt
     let cmpScaled := scaledVsOther build k.toNat (if aScales then a.magnitude else b.magnitude)
       (if aScales then b.magnitude else a.magnitude)
     if aScales then cmpScaled else cmpScaled.swap) = cmp a.size b.size := by
  by_cases hscales : a.exponent.toInt > b.exponent.toInt
  · simp only [if_pos hscales]
    exact scaledVsOther_eq_cmp_size build ha hb hazero hscales.le
  simp only [if_neg hscales]
  rw [scaledVsOther_eq_cmp_size build hb ha hbzero (not_lt.mp hscales), cmp_swap]

theorem compare_of_finite (ha : a.isInvalid = false) (hb : b.isInvalid = false) :
    compare build a b = cmp a.value b.value := by
  unfold compare
  rw [if_neg (by simp [ha]), if_neg (by simp [ha]), if_neg (by simp [hb])]
  dsimp only
  by_cases hsign : decide (a.mantissa < 0) ≠ decide (b.mantissa < 0)
  · rw [if_pos hsign]
    by_cases hneg : a.mantissa < 0
    · have hpos : ¬b.mantissa < 0 := by simpa [hneg] using hsign
      have hzero : a.mantissa ≠ 0 := by
        rw [Ne, mantissa_eq_zero_iff]
        rw [mantissa_neg_iff] at hneg
        omega
      rw [if_pos hneg, value_of_neg hneg, value_of_nonneg hpos, eq_comm, cmp_eq_lt_iff]
      exact (neg_neg_of_pos (size_pos hzero)).trans_le (size_nonneg b)
    have hpos : b.mantissa < 0 := by simpa [hneg] using hsign
    have hzero : b.mantissa ≠ 0 := by
      rw [Ne, mantissa_eq_zero_iff]
      rw [mantissa_neg_iff] at hpos
      omega
    rw [if_neg hneg, value_of_nonneg hneg, value_of_neg hpos, eq_comm, cmp_eq_gt_iff]
    exact (neg_neg_of_pos (size_pos hzero)).trans_le (size_nonneg a)
  rw [if_neg hsign]
  rw [not_not, decide_eq_decide] at hsign
  by_cases hexp : a.exponent = b.exponent
  · rw [if_pos hexp]
    exact compareOfLessAndEq_mantissa hexp
  rw [if_neg hexp]
  by_cases hazero : a.mantissa = 0
  · have hapos : ¬a.mantissa < 0 := by
      rw [hazero]
      decide
    have hbpos := fun h => hapos (hsign.mpr h)
    rw [value_of_nonneg hapos, value_of_nonneg hbpos, size_of_zero hazero]
    by_cases hbzero : b.mantissa = 0
    · rw [if_pos ⟨hazero, hbzero⟩, size_of_zero hbzero, cmp_self_eq_eq]
    rw [if_neg fun h => hbzero h.2, if_pos hazero, if_neg hbpos, eq_comm, cmp_eq_lt_iff]
    exact size_pos hbzero
  rw [if_neg fun h => hazero h.1, if_neg hazero]
  by_cases hbzero : b.mantissa = 0
  · have hbpos : ¬b.mantissa < 0 := by
      rw [hbzero]
      decide
    have hapos := fun h => hbpos (hsign.mp h)
    rw [if_pos hbzero, if_neg hapos, value_of_nonneg hapos, value_of_nonneg hbpos,
      size_of_zero hbzero, eq_comm, cmp_eq_gt_iff]
    exact size_pos hazero
  rw [if_neg hbzero]
  have hsizes := sizes_compared build ha hb hazero hbzero
  rw [hsizes]
  by_cases hneg : a.mantissa < 0
  · have hanti : StrictAnti fun q : ℚ => -q := fun _ _ hlt => neg_lt_neg hlt
    rw [if_pos hneg, value_of_neg hneg, value_of_neg (hsign.mp hneg), cmp_swap]
    exact (hanti.cmp_map_eq a.size b.size).symm
  · rw [if_neg hneg, value_of_nonneg hneg, value_of_nonneg fun h => hneg (hsign.mpr h)]

/-! ## All decimals -/

theorem compare_eq_cmp_rank (a b : MachineDecimal) : compare build a b = cmp a.rank b.rank := by
  unfold rank
  by_cases ha : a.isInvalid = true
  · by_cases hb : b.isInvalid = true
    · rw [if_pos ha, if_pos hb, cmp_self_eq_eq]
      simp [compare, ha, hb]
    rw [if_pos ha, if_neg hb, (cmp_eq_gt_iff _ _).mpr (WithTop.coe_lt_top _)]
    simp [compare, ha, hb]
  by_cases hb : b.isInvalid = true
  · rw [if_neg ha, if_pos hb, (cmp_eq_lt_iff _ _).mpr (WithTop.coe_lt_top _)]
    simp [compare, ha, hb]
  rw [if_neg ha, if_neg hb, WithTop.coe_strictMono.cmp_map_eq]
  exact compare_of_finite build (Bool.eq_false_iff.mpr ha) (Bool.eq_false_iff.mpr hb)

/-- Finite decimals are compared as rational numbers, an invalid one is above every finite one, and
the comparison is a total order up to the value. -/
theorem compare_is_exact_order (build : WideMul) :
    (∀ a b : MachineDecimal, a.isInvalid = false → b.isInvalid = false →
      compare build a b = cmp a.value b.value) ∧
    (∀ a b : MachineDecimal, a.isInvalid = true → b.isInvalid = false →
      compare build a b = .gt ∧ compare build b a = .lt) ∧
    (∀ a : MachineDecimal, compare build a a = .eq) ∧
    (∀ a b : MachineDecimal, compare build b a = (compare build a b).swap) ∧
    (∀ a b : MachineDecimal, compare build a b ≠ .gt → compare build b a ≠ .gt →
      a.isInvalid = b.isInvalid ∧ (a.isInvalid = false → a.value = b.value)) ∧
    (∀ a b c : MachineDecimal, compare build a b ≠ .gt → compare build b c ≠ .gt →
      compare build a c ≠ .gt) := by
  have hgt : ∀ a b : MachineDecimal, compare build a b ≠ .gt ↔ a.rank ≤ b.rank := by
    intro a b
    rw [compare_eq_cmp_rank, Ne, cmp_eq_gt_iff, not_lt]
  refine ⟨fun a b ha hb => compare_of_finite build ha hb, ?_, ?_, ?_, ?_, ?_⟩
  · intro a b ha hb
    simp [compare, ha, hb]
  · intro a
    rw [compare_eq_cmp_rank, cmp_self_eq_eq]
  · intro a b
    rw [compare_eq_cmp_rank, compare_eq_cmp_rank, cmp_swap]
  · intro a b hab hba
    rw [hgt] at hab hba
    have hrank : a.rank = b.rank := le_antisymm hab hba
    unfold rank at hrank
    cases ha : a.isInvalid <;> cases hb : b.isInvalid <;> simp [ha, hb] at hrank ⊢
    exact hrank
  · intro a b c hab hbc
    rw [hgt] at hab hbc ⊢
    exact hab.trans hbc

/-- One unit is ten tenths; a high word decides by itself; a gap of 38 in the exponents
needs no product. -/
example : compare .portable ⟨1, 0⟩ ⟨10, -1⟩ = .eq ∧ compare .portable ⟨2, 18⟩ ⟨5, -1⟩ = .gt ∧
    compare .int128 ⟨-1, 38⟩ ⟨-9223372036854775807, 0⟩ = .lt := by
  decide +kernel

end Fixpp.Model.MachineDecimal
