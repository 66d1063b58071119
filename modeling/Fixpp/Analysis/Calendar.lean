import Fixpp.Model.SendingTime

/-!
# The calendar

`days_to_date` and `date_to_days` count from the first of March, so that a leap day ends its
year: `marchStart` is the first day of such a year and `monthStart` that of a month within it.
`date_to_days` takes the next date to the next day (`ofDate_next`), so every day has a date.
-/

namespace Fixpp.Analysis.Calendar

open Model

/-! ## Years -/

def marchStart (y : ℤ) : ℤ := 365 * y + y / 4 - y / 100 + y / 400

theorem isLeap_iff (y : ℤ) : isLeap y = true ↔ 4 ∣ y ∧ ¬100 ∣ y ∨ 400 ∣ y := by
  simp [isLeap, Int.dvd_iff_tmod_eq_zero]

theorem marchStart_pred (y : ℤ) :
    marchStart y = marchStart (y - 1) + if isLeap y then 366 else 365 := by
  unfold marchStart
  simp only [isLeap_iff]
  split <;> omega

theorem marchStart_era (era : ℤ) {yoe : ℕ} (hyoe : yoe < 400) :
    marchStart (era * 400 + yoe) = era * 146097 + (yoe * 365 + yoe / 4 - yoe / 100 : ℕ) := by
  unfold marchStart
  omega

theorem exists_era (y : ℤ) : ∃ (era : ℤ) (yoe : ℕ), yoe < 400 ∧ y = era * 400 + yoe :=
  ⟨y / 400, (y % 400).toNat, by omega, by omega⟩

theorem era_of_day (era : ℤ) {doe : ℕ} (hdoe : doe < 146097) :
    (if era * 146097 + doe ≥ 0 then era * 146097 + doe
      else era * 146097 + doe - 146096 : ℤ).tdiv 146097 = era := by
  rw [Int.tdiv_eq_ediv, show Int.sign 146097 = 1 from rfl]
  split <;> split <;> omega

theorem era_of_year (era : ℤ) {yoe : ℕ} (hyoe : yoe < 400) :
    (if era * 400 + yoe ≥ 0 then era * 400 + yoe else era * 400 + yoe - 399 : ℤ).tdiv 400 = era := by
  rw [Int.tdiv_eq_ediv, show Int.sign 400 = 1 from rfl]
  split <;> split <;> omega

/-- The year of the era, out of the day `doe` of the era. -/
theorem year_of_day {yoe doy doe : ℕ} (hyoe : yoe < 400)
    (hdoy : doy ≤ 364 ∨ doy = 365 ∧ yoe % 4 = 3 ∧ (yoe % 100 ≠ 99 ∨ yoe = 399))
    (hdoe : doe = yoe * 365 + yoe / 4 - yoe / 100 + doy) :
    (doe - doe / 1460 + doe / 36524 - doe / 146096) / 365 = yoe := by
  by_cases hlast : doe = 146096
  · subst hlast
    omega
  have hcentury : doe / 36524 = yoe / 100 := by omega
  have hera : doe / 146096 = 0 := by omega
  rw [hcentury, hera]
  -- four years are a day longer than 1460 days: the quotient is ahead by one where that day counts
  have hquad : doe / 1460 = yoe / 4 ∨ doe / 1460 = yoe / 4 + 1 := by omega
  have hcarry : doe / 1460 = yoe / 4 + 1 → 1 ≤ doy := by omega
  have hleap : doy = 365 → doe / 1460 = yoe / 4 + 1 := by omega
  omega

/-! ## Months -/

def monthStart (mp : ℕ) : ℕ := (153 * mp + 2) / 5

def monthIndex (m : ℕ) : ℕ := if m > 2 then m - 3 else m + 9

/-- The year that began in the last March. -/
def marchYear (y : ℤ) (m : ℕ) : ℤ := if m ≤ 2 then y - 1 else y

theorem month_of_day {mp d doy : ℕ} (heq : doy = monthStart mp + d)
    (hlen : doy < monthStart (mp + 1)) : (5 * doy + 2) / 153 = mp := by
  unfold monthStart at *
  omega

theorem daysToDate_march {y : ℤ} {mp d doy : ℕ} (heq : doy = monthStart mp + d)
    (hlen : doy < monthStart (mp + 1)) (hdoy : doy ≤ 364 ∨ doy = 365 ∧ isLeap (y + 1) = true) :
    daysToDate (marchStart y + doy - 719468) =
      { year := if mp < 10 then y else y + 1, month := if mp < 10 then mp + 3 else mp - 9,
        day := d + 1 } := by
  have hmp : mp < 12 := by
    unfold monthStart at heq
    omega
  obtain ⟨era, yoe, hyoe, rfl⟩ := exists_era y
  have hlong : doy ≤ 364 ∨ doy = 365 ∧ yoe % 4 = 3 ∧ (yoe % 100 ≠ 99 ∨ yoe = 399) := by
    rw [isLeap_iff] at hdoy
    omega
  obtain ⟨doe, hdoe⟩ : ∃ doe, doe = yoe * 365 + yoe / 4 - yoe / 100 + doy := ⟨_, rfl⟩
  have hz : marchStart (era * 400 + yoe) + doy - 719468 + 719468 = era * 146097 + doe := by
    rw [marchStart_era era hyoe]
    omega
  have hday : doe - (365 * yoe + yoe / 4 - yoe / 100) = doy := by omega
  have hdom : doy - (153 * mp + 2) / 5 = d := Nat.sub_eq_of_eq_add' heq
  unfold daysToDate
  dsimp only
  rw [hz, era_of_day era (by omega), add_sub_cancel_left, Int.toNat_natCast,
    year_of_day hyoe hlong hdoe, hday, month_of_day heq hlen, hdom, Date.mk.injEq]
  refine ⟨?_, rfl, rfl⟩
  rw [Int.add_comm (yoe : ℤ)]
  split <;> split <;> omega

theorem dateToDays_eq (y : ℤ) (m : ℕ) {d : ℕ} (hd : 1 ≤ d) :
    dateToDays y m d = marchStart (marchYear y m) + monthStart (monthIndex m) + d - 719469 := by
  change dateToDays y m d = marchStart (if m ≤ 2 then y - 1 else y) +
    ((153 * (if m > 2 then m - 3 else m + 9) + 2) / 5 : ℕ) + d - 719469
  unfold dateToDays
  generalize (if m > 2 then m - 3 else m + 9) = mp
  generalize (if m ≤ 2 then y - 1 else y) = y
  obtain ⟨era, yoe, hyoe, rfl⟩ := exists_era y
  dsimp only
  rw [marchStart_era era hyoe, era_of_year era hyoe, add_sub_cancel_left, Int.toNat_natCast]
  omega

section Months

variable (y : ℤ) {m : ℕ} (hm : 1 ≤ m ∧ m ≤ 12)
include hm

theorem one_le_daysInMonth : 1 ≤ daysInMonth y m := by
  obtain ⟨hlo, hhi⟩ := hm
  unfold daysInMonth
  split
  · decide
  · interval_cases m <;> decide

theorem daysInMonth_of_ne (hne : m ≠ 2) :
    monthStart (monthIndex m) + daysInMonth y m = monthStart (monthIndex m + 1) := by
  obtain ⟨hlo, hhi⟩ := hm
  unfold daysInMonth
  rw [if_neg fun h => hne h.1]
  interval_cases m <;> first | rfl | exact absurd rfl hne

theorem month_end : dateToDays y m (daysInMonth y m) + 1 =
    if m < 12 then dateToDays y (m + 1) 1 else dateToDays (y + 1) 1 1 := by
  rw [dateToDays_eq y m (one_le_daysInMonth y hm), dateToDays_eq y (m + 1) (Nat.le_refl 1),
    dateToDays_eq (y + 1) 1 (Nat.le_refl 1)]
  by_cases htwo : m = 2
  · have hyear := marchStart_pred y
    subst htwo
    simp only [daysInMonth, marchYear, monthIndex, monthStart]
    norm_num
    rw [hyear]
    split <;> omega
  · have hlen := daysInMonth_of_ne y hm htwo
    split
    · have hindex : monthIndex (m + 1) = monthIndex m + 1 := by
        unfold monthIndex
        split <;> split <;> omega
      have hyear : marchYear y (m + 1) = marchYear y m := by
        unfold marchYear
        split <;> split <;> omega
      rw [hindex, hyear, ← hlen]
      omega
    · have htwelve : m = 12 := by omega
      have hyear : marchYear (y + 1) 1 = marchYear y 12 := Int.add_sub_cancel y 1
      subst htwelve
      rw [hyear, show monthIndex 1 = monthIndex 12 + 1 from rfl, ← hlen]
      omega

end Months

/-! ## Dates -/

def ofDate (date : Date) : ℤ := dateToDays date.year date.month date.day

structure Valid (date : Date) : Prop where
  month : 1 ≤ date.month ∧ date.month ≤ 12
  day : 1 ≤ date.day ∧ date.day ≤ daysInMonth date.year date.month

def next (date : Date) : Date :=
  if date.day < daysInMonth date.year date.month then { date with day := date.day + 1 }
  else if date.month < 12 then { date with month := date.month + 1, day := 1 }
  else { year := date.year + 1, month := 1, day := 1 }

section Valid

variable {date : Date} (h : Valid date)
include h

theorem next_valid : Valid (next date) := by
  obtain ⟨hm, hd⟩ := h
  have hfirst (y : ℤ) {m : ℕ} (hm : 1 ≤ m ∧ m ≤ 12) : Valid ⟨y, m, 1⟩ :=
    ⟨hm, Nat.le_refl 1, one_le_daysInMonth y hm⟩
  unfold next
  split
  · constructor <;> dsimp only <;> omega
  · split
    · exact hfirst _ (by omega)
    · exact hfirst _ (by omega)

theorem ofDate_next : ofDate (next date) = ofDate date + 1 := by
  obtain ⟨hm, hd⟩ := h
  unfold next ofDate
  split
  · dsimp only
    rw [dateToDays_eq _ _ hd.1, dateToDays_eq _ _ (Nat.le_add_left 1 _)]
    omega
  · have hlast : date.day = daysInMonth date.year date.month := by omega
    rw [hlast, month_end date.year hm]
    split <;> rfl

/-- A day falls into its month, and on day 365 only behind a leap day. -/
theorem dayOfYear_bounds {doy : ℕ}
    (heq : doy = monthStart (monthIndex date.month) + (date.day - 1)) :
    doy < monthStart (monthIndex date.month + 1) ∧
      (doy ≤ 364 ∨ doy = 365 ∧ isLeap (marchYear date.year date.month + 1) = true) := by
  obtain ⟨hm, hd⟩ := h
  by_cases htwo : date.month = 2
  · rw [htwo] at hd heq ⊢
    have hstart : doy = 337 + (date.day - 1) := heq
    have hyear : marchYear date.year 2 + 1 = date.year := Int.sub_add_cancel date.year 1
    change doy < 367 ∧ _
    rw [hyear]
    unfold daysInMonth at hd
    cases hleap : isLeap date.year <;> simp [hleap] at hd ⊢ <;> omega
  · have hlen := daysInMonth_of_ne date.year hm htwo
    have hlast : monthStart (monthIndex date.month + 1) ≤ 337 := by
      unfold monthStart monthIndex
      split <;> omega
    omega

theorem daysToDate_ofDate : daysToDate (ofDate date) = date := by
  obtain ⟨hlen, hdoy⟩ := dayOfYear_bounds h rfl
  obtain ⟨hm, hd⟩ := h
  have hdays : ofDate date = marchStart (marchYear date.year date.month) +
      (monthStart (monthIndex date.month) + (date.day - 1) : ℕ) - 719468 := by
    unfold ofDate
    rw [dateToDays_eq _ _ hd.1]
    omega
  rw [hdays, daysToDate_march rfl hlen hdoy]
  unfold monthIndex marchYear
  cases date with
  | mk year month day =>
    rw [Date.mk.injEq]
    dsimp only at *
    refine ⟨?_, ?_, Nat.sub_add_cancel hd.1⟩ <;> split <;> split <;> omega

end Valid

/-- The days of an era follow its first of March one by one. -/
theorem exists_date (days : ℤ) : ∃ date, Valid date ∧ ofDate date = days := by
  have hrun (era : ℤ) (n : ℕ) : ∃ date, Valid date ∧ ofDate date = era * 146097 - 719468 + n := by
    induction n with
    | zero =>
      refine ⟨{ year := era * 400, month := 3, day := 1 }, ⟨by simp, by simp [daysInMonth]⟩, ?_⟩
      have hstart : marchStart (era * 400) = era * 146097 := by
        unfold marchStart
        omega
      unfold ofDate
      rw [dateToDays_eq _ _ (Nat.le_refl 1)]
      simp [marchYear, monthIndex, monthStart, hstart]
      omega
    | succ n ih =>
      obtain ⟨date, hdate, hn⟩ := ih
      refine ⟨next date, next_valid hdate, ?_⟩
      rw [ofDate_next hdate, hn]
      omega
  obtain ⟨date, hdate, heq⟩ := hrun ((days + 719468) / 146097) ((days + 719468) % 146097).toNat
  exact ⟨date, hdate, by omega⟩

def FourDigitYear (date : Date) : Prop := 0 ≤ date.year ∧ date.year ≤ 9999

/-- The conversions are inverse to each other; a day has a valid date, and the next day the next
date. -/
theorem calendar_conversion :
    (∀ days, FourDigitYear (daysToDate days) →
        Valid (daysToDate days) ∧ ofDate (daysToDate days) = days ∧
          daysToDate (days + 1) = next (daysToDate days)) ∧
      ∀ date, Valid date → FourDigitYear date → daysToDate (ofDate date) = date := by
  constructor
  · intro days _
    obtain ⟨date, hdate, rfl⟩ := exists_date days
    rw [daysToDate_ofDate hdate, ← ofDate_next hdate]
    exact ⟨hdate, rfl, daysToDate_ofDate (next_valid hdate)⟩
  · intro date hdate _
    exact daysToDate_ofDate hdate

end Fixpp.Analysis.Calendar
