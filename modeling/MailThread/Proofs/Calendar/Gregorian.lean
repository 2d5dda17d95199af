import MailThread.Calendar
import Mathlib.Algebra.BigOperators.Intervals
import Mathlib.Tactic.IntervalCases

namespace MailThread

namespace Calendar

/-- Every fourth year has a leap day; of the full centuries only every fourth one has. -/
def IsLeap (year : Int) : Prop := 4 ∣ year ∧ (¬ 100 ∣ year ∨ 400 ∣ year)

instance (year : Int) : Decidable (IsLeap year) := inferInstanceAs (Decidable (_ ∧ _))

def yearLength (year : Int) : Int := if IsLeap year then 366 else 365

/-- The number of days of a month, January being 1. -/
def monthLength (year : Int) (month : Nat) : Nat :=
  if month = 2 then if IsLeap year then 29 else 28
  else if month ∈ [4, 6, 9, 11] then 30
  else 31

/-- The days from the start of 1970 to the start of a year: the years from 1970 on, less those up to
1969. One of the two sums is empty. -/
def daysToYear (year : Int) : Int :=
  ∑ k ∈ Finset.range (year - 1970).toNat, yearLength (1970 + k) -
    ∑ k ∈ Finset.range (1970 - year).toNat, yearLength (1969 - k)

def daysToMonth (year : Int) (month : Nat) : Nat :=
  ∑ k ∈ Finset.range (month - 1), monthLength year (k + 1)

end Calendar

namespace Moment

open Calendar

/-- The fields name a date that the calendar has, and a time of day. -/
structure Valid (m : Moment) : Prop where
  month : 1 ≤ m.month ∧ m.month ≤ 12
  day : 1 ≤ m.day ∧ m.day ≤ monthLength m.year m.month
  hour : m.hour < 24
  minute : m.minute < 60
  second : m.second < 60

/-- The seconds from the start of 1970 to a moment. -/
def seconds (m : Moment) : Int :=
  86400 * (daysToYear m.year + daysToMonth m.year m.month + (m.day - 1)) +
    3600 * m.hour + 60 * m.minute + m.second

end Moment

namespace Calendar

theorem daysToYear_add_one (year : Int) :
    daysToYear (year + 1) = daysToYear year + yearLength year := by
  unfold daysToYear
  obtain ⟨n, rfl | rfl⟩ : ∃ n : Nat, year = 1970 + n ∨ year = 1969 - n :=
    ⟨(max (year - 1970) (1969 - year)).toNat, by omega⟩
  · have hnow : (1970 + (n : Int) - 1970).toNat = n := by omega
    have hnext : (1970 + (n : Int) + 1 - 1970).toNat = n + 1 := by omega
    have hpast : (1970 - (1970 + (n : Int))).toNat = 0 := by omega
    have hpast' : (1970 - (1970 + (n : Int) + 1)).toNat = 0 := by omega
    rw [hnow, hnext, hpast, hpast', Finset.sum_range_succ]
    omega
  · have hnow : (1970 - (1969 - (n : Int))).toNat = n + 1 := by omega
    have hnext : (1970 - (1969 - (n : Int) + 1)).toNat = n := by omega
    have hlater : (1969 - (n : Int) - 1970).toNat = 0 := by omega
    have hlater' : (1969 - (n : Int) + 1 - 1970).toNat = 0 := by omega
    rw [hnow, hnext, hlater, hlater', Finset.sum_range_succ]
    omega

/-- The years before `year` have 365 days each and their leap days. -/
theorem daysToYear_eq (year : Int) :
    daysToYear year =
      365 * (year - 1970) + (year - 1) / 4 - (year - 1) / 100 + (year - 1) / 400 - 477 := by
  have hlength : ∀ y : Int, yearLength y =
      365 + (y / 4 - (y - 1) / 4) - (y / 100 - (y - 1) / 100) + (y / 400 - (y - 1) / 400) := by
    intro y
    unfold yearLength
    split
    next h =>
      unfold IsLeap at h
      omega
    next h =>
      unfold IsLeap at h
      omega
  -- by induction to both sides of 1970
  induction year using Int.inductionOn' with
  | b => exact 1970
  | zero => rfl
  | succ k _ ih =>
    have := hlength k
    rw [daysToYear_add_one, ih]
    omega
  | pred k _ ih =>
    have hk := daysToYear_add_one (k - 1)
    have := hlength (k - 1)
    rw [sub_add_cancel, ih] at hk
    omega

theorem daysToMonth_three (year : Int) :
    daysToMonth year 3 = if IsLeap year then 60 else 59 := by
  by_cases h : IsLeap year <;> simp [daysToMonth, Finset.sum_range_succ, monthLength, h]

theorem monthLength_march (year : Int) {k : Nat} (hk : k ≤ 9) :
    monthLength year (k + 3) + (153 * k + 2) / 5 = (153 * (k + 1) + 2) / 5 := by
  interval_cases k <;> rfl

theorem daysToMonth_march (year : Int) {k : Nat} (hk : k ≤ 9) :
    daysToMonth year (k + 3) = daysToMonth year 3 + (153 * k + 2) / 5 := by
  induction k with
  | zero => rfl
  | succ k ih =>
    have hstep : daysToMonth year (k + 1 + 3) =
        daysToMonth year (k + 3) + monthLength year (k + 3) := Finset.sum_range_succ _ _
    rw [hstep, ih (by omega), ← monthLength_march year (by omega : k ≤ 9)]
    omega

def daysToMarch (year : Int) : Int :=
  daysToYear year + daysToMonth year 3

theorem daysToMarch_eq (year : Int) : daysToMarch year = daysToYear (year + 1) - 306 := by
  rw [daysToMarch, daysToYear_add_one, daysToMonth_three, yearLength]
  split <;> omega

/-- The day of the year is one that the year has. Its leap day is that of the next civil year. -/
def MarchDate.Proper (d : MarchDate) : Prop :=
  d.dayOfYear < 365 ∨ d.dayOfYear = 365 ∧ IsLeap (d.year + 1)

theorem exists_parts {day : Nat} (h : day < 146097) :
    ∃ c g y d, c ≤ 3 ∧ g ≤ 24 ∧ y ≤ 3 ∧
      (d < 365 ∨ d = 365 ∧ y = 3 ∧ (g = 24 → c = 3)) ∧
      day = 36524 * c + 1461 * g + 365 * y + d := by
  obtain ⟨c, hc⟩ : ∃ c, c = min (day / 36524) 3 := ⟨_, rfl⟩
  obtain ⟨r, hr⟩ : ∃ r, day = 36524 * c + r := ⟨day - 36524 * c, by omega⟩
  obtain ⟨y, hy⟩ : ∃ y, y = min (r % 1461 / 365) 3 := ⟨_, rfl⟩
  refine ⟨c, r / 1461, y, r % 1461 - 365 * y, ?_, ?_, ?_, ?_, ?_⟩ <;> omega

/-- The year of a day in its cycle is found by striking out the leap days before it. -/
theorem yearOfCycle_eq {day c g y d : Nat} (hc : c ≤ 3) (hg : g ≤ 24) (hy : y ≤ 3)
    (hd : d < 365 ∨ d = 365 ∧ y = 3 ∧ (g = 24 → c = 3))
    (h : day = 36524 * c + 1461 * g + 365 * y + d) :
    (day - day / 1460 + day / 36524 - day / 146096) / 365 = 100 * c + 4 * g + y := by
  have hfours : day / 1460 = 25 * c + g + (24 * c + g + 365 * y + d) / 1460 := by omega
  have hcenturies : day / 36524 = c + day / 146096 := by
    have hrest : 1461 * g + 365 * y + d < 36524 ∨ c = 3 ∧ 1461 * g + 365 * y + d = 36524 := by
      omega
    omega
  have hnext : (24 * c + g + 365 * y + d) / 1460 ≤ d := by omega
  have hleap : d = 365 → 1 ≤ (24 * c + g + 365 * y + d) / 1460 := by omega
  rw [hfours, hcenturies]
  generalize (24 * c + g + 365 * y + d) / 1460 = next at *
  omega

theorem daysBefore_eq {c g y : Nat} (hg : g ≤ 24) (hy : y ≤ 3) :
    365 * (100 * c + 4 * g + y) + (100 * c + 4 * g + y) / 4 - (100 * c + 4 * g + y) / 100 =
      36524 * c + 1461 * g + 365 * y := by
  have hfours : (100 * c + 4 * g + y) / 4 = 25 * c + g := by omega
  have hcenturies : (100 * c + 4 * g + y) / 100 = c := by omega
  omega

theorem marchDate_proper (days : Int) :
    (marchDate days).Proper ∧
      days = daysToMarch (marchDate days).year + (marchDate days).dayOfYear := by
  obtain ⟨n, hn⟩ : ∃ n, n = (days + 719468).fdiv 146097 := ⟨_, rfl⟩
  obtain ⟨day, hday⟩ : ∃ day, day = ((days + 719468).fmod 146097).toNat := ⟨_, rfl⟩
  have hsplit : days + 719468 = 146097 * n + day ∧ day < 146097 := by
    rw [Int.fdiv_eq_ediv_of_nonneg _ (by decide)] at hn
    rw [Int.fmod_eq_emod_of_nonneg _ (by decide)] at hday
    omega
  obtain ⟨c, g, y, d, hc, hg, hy, hd, hparts⟩ := exists_parts hsplit.2
  have hyear := yearOfCycle_eq hc hg hy hd hparts
  have hdate : marchDate days = ⟨n * 400 + (100 * c + 4 * g + y : Nat), d⟩ := by
    unfold marchDate
    simp only [← hn, ← hday, hyear, daysBefore_eq hg hy]
    rw [hparts, Nat.add_sub_cancel_left]
  clear hn hday hyear
  rw [hdate, daysToMarch_eq, daysToYear_eq]
  constructor
  · unfold MarchDate.Proper IsLeap
    dsimp only
    omega
  · dsimp only
    omega

namespace MarchDate

variable {d : MarchDate}

theorem monthIndex_bounds (h : d.Proper) :
    d.monthIndex ≤ 11 ∧ (153 * d.monthIndex + 2) / 5 ≤ d.dayOfYear ∧
      d.dayOfYear < (153 * (d.monthIndex + 1) + 2) / 5 := by
  have hday : d.dayOfYear ≤ 365 := by
    rcases h with h | ⟨h, _⟩ <;> omega
  unfold monthIndex
  omega

theorem month_bounds (h : d.Proper) : 1 ≤ d.month ∧ d.month ≤ 12 := by
  have hindex := (monthIndex_bounds h).1
  unfold month
  split <;> omega

theorem day_bounds (h : d.Proper) : 1 ≤ d.day ∧ d.day ≤ monthLength d.civilYear d.month := by
  obtain ⟨hindex, hlow, hhigh⟩ := monthIndex_bounds h
  refine ⟨by unfold day; omega, ?_⟩
  by_cases hlt : d.monthIndex < 10
  · have hlength := monthLength_march d.year (by omega : d.monthIndex ≤ 9)
    rw [civilYear, month, if_pos hlt, if_pos hlt, day]
    omega
  · rw [civilYear, month, if_neg hlt, if_neg hlt, day]
    obtain hk | hk : d.monthIndex = 10 ∨ d.monthIndex = 11 := by omega
    · have hjanuary : monthLength (d.year + 1) 1 = 31 := rfl
      rw [hk] at hhigh
      rw [hk, hjanuary]
      omega
    · have hfebruary : monthLength (d.year + 1) 2 = if IsLeap (d.year + 1) then 29 else 28 := rfl
      rw [hk, hfebruary]
      -- the year has a day 365 only where the February at its end has a day 29
      rcases h with h | ⟨h, hleap⟩
      · split <;> omega
      · rw [if_pos hleap]
        omega

/-- Counted from the start of its civil year, a date is the day that it is from March. -/
theorem days_civil (h : d.Proper) :
    daysToYear d.civilYear + daysToMonth d.civilYear d.month + (d.day - 1) =
      daysToMarch d.year + d.dayOfYear := by
  obtain ⟨hindex, hlow, _⟩ := monthIndex_bounds h
  have hday : ((d.day : Nat) : Int) - 1 = d.dayOfYear - (153 * d.monthIndex + 2) / 5 := by
    unfold day
    omega
  rw [hday]
  by_cases hlt : d.monthIndex < 10
  · rw [civilYear, month, if_pos hlt, if_pos hlt, daysToMonth_march _ (by omega), daysToMarch]
    push_cast
    omega
  · rw [civilYear, month, if_neg hlt, if_neg hlt, daysToMarch_eq]
    obtain hk | hk : d.monthIndex = 10 ∨ d.monthIndex = 11 := by omega
    · rw [hk]
      have hjanuary : daysToMonth (d.year + 1) 1 = 0 := rfl
      rw [hjanuary]
      omega
    · rw [hk]
      have hfebruary : daysToMonth (d.year + 1) 2 = 31 := rfl
      rw [hfebruary]
      omega

end MarchDate

end Calendar

namespace Moment

open Calendar

theorem valid_ofSeconds (s : Int) : (ofSeconds s).Valid := by
  obtain ⟨hproper, _⟩ := marchDate_proper (s.fdiv 86400)
  have htime : (s.fmod 86400).toNat < 86400 := by
    rw [Int.fmod_eq_emod_of_nonneg _ (by decide)]
    omega
  unfold ofSeconds
  refine ⟨MarchDate.month_bounds hproper, MarchDate.day_bounds hproper, ?_, ?_, ?_⟩
  all_goals
    dsimp only
    omega

theorem seconds_ofSeconds (s : Int) : (ofSeconds s).seconds = s := by
  obtain ⟨hproper, hdays⟩ := marchDate_proper (s.fdiv 86400)
  have htime : s = 86400 * s.fdiv 86400 + ((s.fmod 86400).toNat : Int) := by
    rw [Int.fdiv_eq_ediv_of_nonneg _ (by decide), Int.fmod_eq_emod_of_nonneg _ (by decide)]
    omega
  have hdate := MarchDate.days_civil hproper
  rw [← hdays] at hdate
  unfold ofSeconds seconds
  dsimp only
  rw [hdate]
  omega

end Moment

end MailThread
