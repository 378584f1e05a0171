import Intake.Calendar

/-!
# Days and dates

`toDay_ofDay`: the date of a day falls on that day. A day is placed in its era of 400 years: in a
century, in a span of four years, in a year that begins in March, and in that year (`Split`). The
formula of `ofDay` for the year of the era agrees with that place, and from there the month and the
day of the month are found and lead back.
-/

namespace Intake.Date

/-! ### The place of a day in its era -/

/-- A day of an era, split into its century, its span of four years, its year and the day of that
year. Only the last year of a span has 366 days, and the last span of a century has none such
unless it is the last of the era. -/
structure Split (d g k j t : Int) : Prop where
  eq : d = 36524 * g + 1461 * k + 365 * j + t
  century : 0 ≤ g ∧ g ≤ 3
  span : 0 ≤ k ∧ k ≤ 24
  year : 0 ≤ j ∧ j ≤ 3
  day : 0 ≤ t ∧ t ≤ 365
  leap : t = 365 → j = 3 ∧ (k ≠ 24 ∨ g = 3)

theorem exists_split {d : Int} (h : 0 ≤ d) (h' : d < 146097) : ∃ g k j t, Split d g k j t := by
  -- the last day of an era would be the first of a fifth century
  obtain ⟨g, hg⟩ : ∃ g, g = min (d / 36524) 3 := ⟨_, rfl⟩
  obtain ⟨r, hr⟩ : ∃ r, r = d - 36524 * g := ⟨_, rfl⟩
  obtain ⟨j, hj⟩ : ∃ j, j = min (r % 1461 / 365) 3 := ⟨_, rfl⟩
  have hr' : 0 ≤ r ∧ r ≤ 36524 ∧ (r = 36524 → g = 3) := by omega
  exact ⟨g, r / 1461, j, r % 1461 - 365 * j, by omega, by omega, by omega, by omega, by omega,
    by omega⟩

/-- The year of the era on which a day falls, and the day of that year. -/
def yearOfEra (d : Int) : Int := (d - d / 1460 + d / 36524 - d / 146096) / 365

def dayOfYear (d : Int) : Int := d - (365 * yearOfEra d + yearOfEra d / 4 - yearOfEra d / 100)

variable {d g k j t : Int}

theorem Split.yearOfEra (h : Split d g k j t) : yearOfEra d = 100 * g + 4 * k + j := by
  obtain ⟨rfl, hg, hk, hj, ht, hleap⟩ := h
  unfold Date.yearOfEra
  obtain ⟨e, he⟩ : ∃ e, e = 36524 * g + 1461 * k + 365 * j + t := ⟨_, rfl⟩
  rw [← he]
  have h₁ : e / 1460 = 25 * g + k + (24 * g + k + 365 * j + t) / 1460 := by omega
  -- at the end of a span of four years this division is ahead by one
  have h₂ : (24 * g + k + 365 * j + t) / 1460 = 0 ∧ t < 365 ∨
      (24 * g + k + 365 * j + t) / 1460 = 1 ∧ 0 < t := by omega
  have h₃ : e / 36524 - e / 146096 = g := by
    have hend : 36524 * g ≤ e ∧ e < 36524 * g + 36524 ∨ g = 3 ∧ e = 146096 := by omega
    rcases hend with hend | ⟨rfl, rfl⟩
    · omega
    · rfl
  have h₄ : e - e / 1460 + e / 36524 - e / 146096 =
      365 * (100 * g + 4 * k + j) + (t - (24 * g + k + 365 * j + t) / 1460) := by omega
  rw [h₄]
  omega

theorem Split.dayOfYear (h : Split d g k j t) : dayOfYear d = t := by
  have hy := h.yearOfEra
  obtain ⟨hd, hg, hk, hj, ht, -⟩ := h
  unfold Date.dayOfYear
  rw [hy]
  omega

/-- What is known of the year and of the day of a day of an era. -/
theorem place_bounds {d : Int} (h : 0 ≤ d) (h' : d < 146097) :
    (0 ≤ yearOfEra d ∧ yearOfEra d < 400) ∧ (0 ≤ Date.dayOfYear d ∧ Date.dayOfYear d ≤ 365) ∧
      (Date.dayOfYear d = 365 → (yearOfEra d + 1) % 4 = 0 ∧
        ((yearOfEra d + 1) % 100 ≠ 0 ∨ (yearOfEra d + 1) % 400 = 0)) := by
  obtain ⟨g, k, j, t, hs⟩ := exists_split h h'
  rw [hs.yearOfEra, hs.dayOfYear]
  obtain ⟨-, hg, hk, hj, ht, hleap⟩ := hs
  refine ⟨by omega, ht, fun h => ?_⟩
  obtain ⟨rfl, hk'⟩ := hleap h
  omega

/-! ### Months -/

/-- The month of a day of the year, where March is month 0, and the day of that month. -/
def monthOf (t : Int) : Int := (5 * t + 2) / 153

def dayOfMonth (t : Int) : Int := t - (153 * monthOf t + 2) / 5 + 1

theorem ofDay_eq (n : Int) : ofDay n =
    (let d := (n + 719468) % 146097
     let year := yearOfEra d + (n + 719468) / 146097 * 400
     let month := monthOf (dayOfYear d)
     if month < 10 then ⟨year, (month + 3).toNat, (dayOfMonth (dayOfYear d)).toNat⟩
     else ⟨year + 1, (month - 9).toNat, (dayOfMonth (dayOfYear d)).toNat⟩) := rfl

theorem month_bounds (h : 0 ≤ t ∧ t ≤ 365) : 0 ≤ monthOf t ∧ monthOf t ≤ 11 ∧
    1 ≤ dayOfMonth t ∧ dayOfMonth t ≤ 31 := by
  unfold dayOfMonth monthOf
  omega

/-- The day of a date that is given by its place. -/
theorem toDay_place {era y m dom : Int} (hy : 0 ≤ y ∧ y < 400) (hm : 0 ≤ m ∧ m ≤ 11)
    (hdom : 1 ≤ dom) : (if m < 10 then (⟨y + era * 400, (m + 3).toNat, dom.toNat⟩ : Date)
      else ⟨y + era * 400 + 1, (m - 9).toNat, dom.toNat⟩).toDay =
        era * 146097 + (y * 365 + y / 4 - y / 100 + ((153 * m + 2) / 5 + dom - 1)) - 719468 := by
  have hd : ((dom.toNat : Nat) : Int) = dom := Int.toNat_of_nonneg (by omega)
  have hmod : (y + era * 400) % 400 = y := by omega
  have hdiv : (y + era * 400) / 400 = era := by omega
  split
  · next hm10 =>
    have hgt : ¬(m + 3).toNat ≤ 2 := by omega
    have hmonth : (((m + 3).toNat : Nat) : Int) - 3 = m := by omega
    simp only [toDay, if_neg hgt, hmonth, hd, hmod, hdiv]
  · next hm10 =>
    have hle : (m - 9).toNat ≤ 2 := by omega
    have hmonth : (((m - 9).toNat : Nat) : Int) + 9 = m := by omega
    have hyear : y + era * 400 + 1 - 1 = y + era * 400 := by omega
    simp only [toDay, if_pos hle, hmonth, hd, hyear, hmod, hdiv]

theorem toDay_ofDay (n : Int) : (ofDay n).toDay = n := by
  have hlt := Int.emod_lt_of_pos (n + 719468) (by decide : (0 : Int) < 146097)
  have hge := Int.emod_nonneg (n + 719468) (by decide : (146097 : Int) ≠ 0)
  have hn := Int.emod_add_mul_ediv (n + 719468) 146097
  obtain ⟨hyear, hday, -⟩ := place_bounds hge hlt
  obtain ⟨hm, hm', hd, -⟩ := month_bounds hday
  rw [ofDay_eq]
  refine (toDay_place hyear ⟨hm, hm'⟩ hd).trans ?_
  unfold dayOfMonth dayOfYear
  omega

/-! ### The date exists -/

theorem isLeapYear_iff (y : Int) : isLeapYear y = true ↔ y % 4 = 0 ∧ (y % 100 ≠ 0 ∨ y % 400 = 0) := by
  simp [isLeapYear]

/-- No month is longer than it can be, and February has a leap day only at the end of a leap year. -/
theorem exists_place {year t : Int} (h : 0 ≤ t ∧ t ≤ 365)
    (hleap : t = 365 → isLeapYear (year + 1) = true) :
    (if monthOf t < 10 then (⟨year, (monthOf t + 3).toNat, (dayOfMonth t).toNat⟩ : Date)
      else ⟨year + 1, (monthOf t - 9).toNat, (dayOfMonth t).toNat⟩).Exists := by
  have hday : 1 ≤ dayOfMonth t := (month_bounds h).2.2.1
  have hmonth : monthOf t = 0 ∨ monthOf t = 1 ∨ monthOf t = 2 ∨ monthOf t = 3 ∨ monthOf t = 4 ∨
      monthOf t = 5 ∨ monthOf t = 6 ∨ monthOf t = 7 ∨ monthOf t = 8 ∨ monthOf t = 9 ∨
      monthOf t = 10 ∨ monthOf t = 11 := by
    have hm := month_bounds h
    omega
  have hdef : dayOfMonth t = t - (153 * monthOf t + 2) / 5 + 1 := rfl
  have hspan : 153 * monthOf t ≤ 5 * t + 2 ∧ 5 * t + 2 < 153 * monthOf t + 153 := by
    unfold monthOf
    omega
  rcases hmonth with hm | hm | hm | hm | hm | hm | hm | hm | hm | hm | hm | hm
  case inr.inr.inr.inr.inr.inr.inr.inr.inr.inr.inr =>
    rw [hm] at hspan hdef ⊢
    have hfebruary : daysIn (year + 1) 2 = if isLeapYear (year + 1) then 29 else 28 := rfl
    refine ⟨show 1 ≤ (dayOfMonth t).toNat by omega, ?_⟩
    show (dayOfMonth t).toNat ≤ daysIn (year + 1) 2
    rw [hfebruary]
    cases hy : isLeapYear (year + 1) with
    | true =>
      rw [if_pos rfl]
      omega
    | false =>
      have hno : t ≠ 365 := fun ht => by simp [hleap ht] at hy
      rw [if_neg (by decide)]
      omega
  all_goals
    rw [hm] at hspan hdef ⊢
    simp [Exists, daysIn]
    omega

theorem exists_ofDay (n : Int) : (ofDay n).Exists := by
  have hlt := Int.emod_lt_of_pos (n + 719468) (by decide : (0 : Int) < 146097)
  have hge := Int.emod_nonneg (n + 719468) (by decide : (146097 : Int) ≠ 0)
  obtain ⟨hyear, hday, hleap⟩ := place_bounds hge hlt
  obtain ⟨hm, hm', hd, -⟩ := month_bounds hday
  rw [ofDay_eq]
  refine exists_place hday fun h => ?_
  rw [isLeapYear_iff]
  have hl := hleap h
  omega

theorem Exists.month_le {d : Date} (h : d.Exists) : d.month ≤ 12 := by
  have hpos : 0 < daysIn d.year d.month := Nat.lt_of_lt_of_le h.1 h.2
  unfold daysIn at hpos
  split at hpos <;> omega

theorem Exists.day_le {d : Date} (h : d.Exists) : d.day ≤ 31 := by
  have hle := h.2
  unfold daysIn at hle
  repeat' split at hle
  all_goals omega

end Intake.Date
