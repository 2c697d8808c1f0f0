import ApiScaffold.Calendar
import Mathlib.Algebra.BigOperators.Group.List.Basic
import Mathlib.Algebra.GroupWithZero.Nat
import Mathlib.Data.List.GetD
import Mathlib.Data.Nat.Init
import Mathlib.Tactic.SplitIfs

/-!
# The days of the calendar

Every year begins with the day behind the last one of the year before it, and its months divide its
days among themselves. So the day numbers order the dates by year, month and day, and a day is found
by its number in the cycles of 400, 100 and 4 years as it is by counting from the start.
-/
namespace ApiScaffold.Date

variable {d e : Date} {n year : Nat}

/-! ### Years -/

/-- The years behind `a` cycles of 400 years, `b` of 100 and `c` of 4. -/
def yearIn (a b c d : Nat) : Nat := 400 * a + 100 * b + 4 * c + d + 1

theorem daysBefore_yearIn {a b c d : Nat} (hb : b ≤ 3) (hc : c ≤ 24) (hd : d ≤ 3) :
    daysBefore (yearIn a b c d) = 146097 * a + 36524 * b + 1461 * c + 365 * d := by
  have h4 : (400 * a + 100 * b + 4 * c + d) / 4 = 100 * a + 25 * b + c := by omega
  have h100 : (400 * a + 100 * b + 4 * c + d) / 100 = 4 * a + b := by omega
  have h400 : (400 * a + 100 * b + 4 * c + d) / 400 = a := by omega
  rw [daysBefore, yearIn, Nat.add_sub_cancel, h4, h100, h400]
  omega

theorem isLeapYear_yearIn {a b c d : Nat} (hb : b ≤ 3) (hc : c ≤ 24) (hd : d ≤ 3) :
    isLeapYear (yearIn a b c d) = true ↔ d = 3 ∧ (c = 24 → b = 3) := by
  have h4 : yearIn a b c d % 4 = (d + 1) % 4 := by unfold yearIn; omega
  have h100 : yearIn a b c d % 100 = 0 ↔ c = 24 ∧ d = 3 := by unfold yearIn; omega
  have h400 : yearIn a b c d % 400 = 0 ↔ b = 3 ∧ c = 24 ∧ d = 3 := by unfold yearIn; omega
  simp only [isLeapYear, Bool.and_eq_true, Bool.or_eq_true, beq_iff_eq, bne_iff_ne, ne_eq, h4, h100,
    h400]
  omega

theorem exists_yearIn (h : 1 ≤ year) :
    ∃ a b c d, b ≤ 3 ∧ c ≤ 24 ∧ d ≤ 3 ∧ year = yearIn a b c d :=
  ⟨(year - 1) / 400, (year - 1) / 100 % 4, (year - 1) / 4 % 25, (year - 1) % 4, by omega, by omega,
    by omega, by unfold yearIn; omega⟩

/-- A year begins when the one before it is over. -/
theorem daysBefore_succ (h : 1 ≤ year) :
    daysBefore (year + 1) = daysBefore year + daysInYear year := by
  obtain ⟨a, b, c, d, hb, hc, hd, rfl⟩ := exists_yearIn h
  have hleap := isLeapYear_yearIn (a := a) hb hc hd
  rw [daysBefore_yearIn hb hc hd, daysInYear]
  -- The next year is in the same cycles, or the first of the next cycle of 4, 100 or 400 years.
  by_cases hd' : d < 3
  · rw [show yearIn a b c d + 1 = yearIn a b c (d + 1) by unfold yearIn; omega,
      daysBefore_yearIn hb hc hd', if_neg (by rw [hleap]; omega)]
    omega
  by_cases hc' : c < 24
  · rw [show yearIn a b c d + 1 = yearIn a b (c + 1) 0 by unfold yearIn; omega,
      daysBefore_yearIn hb hc' (by omega), if_pos (by rw [hleap]; omega)]
    omega
  by_cases hb' : b < 3
  · rw [show yearIn a b c d + 1 = yearIn a (b + 1) 0 0 by unfold yearIn; omega,
      daysBefore_yearIn hb' (by omega) (by omega), if_neg (by rw [hleap]; omega)]
    omega
  · rw [show yearIn a b c d + 1 = yearIn (a + 1) 0 0 0 by unfold yearIn; omega,
      daysBefore_yearIn (by omega) (by omega) (by omega), if_pos (by rw [hleap]; omega)]
    omega

theorem daysBefore_mono {later : Nat} (hyear : 1 ≤ year) (h : year ≤ later) :
    daysBefore year ≤ daysBefore later := by
  induction later, h using Nat.le_induction with
  | base => exact Nat.le_refl _
  | succ later hle ih =>
    rw [daysBefore_succ (by omega)]
    omega

/-- What is left of a day number when the cycles are taken out is a day of the year. -/
theorem exists_yearOf (n : Nat) : ∃ a b c d rest, b ≤ 3 ∧ c ≤ 24 ∧ d ≤ 3 ∧
    yearOf n = yearIn a b c d ∧ n = 146097 * a + 36524 * b + 1461 * c + 365 * d + rest ∧
      (rest < 365 ∨ rest = 365 ∧ d = 3 ∧ (c = 24 → b = 3)) := by
  obtain ⟨r, hr⟩ : ∃ r, r = n % 146097 := ⟨_, rfl⟩
  obtain ⟨b, hb⟩ : ∃ b, b = min (r / 36524) 3 := ⟨_, rfl⟩
  obtain ⟨r', hr'⟩ : ∃ r', r' = r - b * 36524 := ⟨_, rfl⟩
  obtain ⟨d, hd⟩ : ∃ d, d = min (r' % 1461 / 365) 3 := ⟨_, rfl⟩
  have hyear : yearOf n = n / 146097 * 400 + b * 100 + r' / 1461 * 4 + d + 1 := by
    subst hd hr' hb hr
    rfl
  -- The last day of 400 years would be a fifth century of its own, but for the minimum.
  have hcycle : r' < 36524 ∨ r' = 36524 ∧ b = 3 := by omega
  refine ⟨n / 146097, b, r' / 1461, d, r' % 1461 - 365 * d, by omega, by omega, by omega, ?_,
    by omega, by omega⟩
  rw [hyear, yearIn]
  omega

/-- The year of a day has begun on it and is not over. -/
theorem daysBefore_yearOf (n : Nat) :
    1 ≤ yearOf n ∧ daysBefore (yearOf n) ≤ n ∧ n < daysBefore (yearOf n + 1) := by
  obtain ⟨a, b, c, d, rest, hb, hc, hd, hyear, hn, hrest⟩ := exists_yearOf n
  have hpos : 1 ≤ yearOf n := by rw [hyear, yearIn]; omega
  have hleap := isLeapYear_yearIn (a := a) hb hc hd
  rw [daysBefore_succ hpos, hyear, daysBefore_yearIn hb hc hd, daysInYear]
  refine ⟨by unfold yearIn; omega, by omega, ?_⟩
  split_ifs with h
  · omega
  · rw [hleap] at h
    omega

theorem yearOf_le {n : Nat} (h : n < calendarDays) : yearOf n ≤ 9999 := by
  by_contra hlate
  have hend := daysBefore_mono (show 1 ≤ 10000 by decide) (show 10000 ≤ yearOf n by omega)
  have hbegun := (daysBefore_yearOf n).2.1
  rw [calendarDays] at h
  omega

/-! ### Months -/

theorem length_monthLengths (year : Nat) : (monthLengths year).length = 12 := rfl

theorem sum_monthLengths (year : Nat) : (monthLengths year).sum = daysInYear year := by
  unfold monthLengths daysInYear
  split_ifs <;> rfl

theorem daysInMonth_le (year month : Nat) : daysInMonth year month ≤ 31 := by
  have hall : ∀ length ∈ monthLengths year, length ≤ 31 := by
    unfold monthLengths
    split_ifs <;> decide
  unfold daysInMonth
  rcases Nat.lt_or_ge (month - 1) (monthLengths year).length with h | h
  · rw [List.getD_eq_getElem _ _ h]
    exact hall _ (List.getElem_mem h)
  · rw [List.getD_eq_default _ _ h]
    exact Nat.zero_le 31

/-- The days of a year before one of its months. -/
def daysBeforeMonth (year month : Nat) : Nat := ((monthLengths year).take (month - 1)).sum

theorem dayNumber_eq (d : Date) :
    d.dayNumber = daysBefore d.year + daysBeforeMonth d.year d.month + (d.day - 1) := rfl

/-- A month begins when the one before it is over. -/
theorem daysBeforeMonth_succ (year : Nat) {month : Nat} (h : 1 ≤ month) (hend : month ≤ 12) :
    daysBeforeMonth year (month + 1) = daysBeforeMonth year month + daysInMonth year month := by
  have hlength : month - 1 < (monthLengths year).length := by
    rw [length_monthLengths]
    omega
  have hsum := List.sum_take_succ (monthLengths year) (month - 1) hlength
  rwa [Nat.sub_add_cancel h, ← List.getD_eq_getElem _ 0 hlength] at hsum

theorem daysBeforeMonth_mono (year : Nat) {month later : Nat} (hmonth : 1 ≤ month)
    (h : month ≤ later) (hend : later ≤ 13) :
    daysBeforeMonth year month ≤ daysBeforeMonth year later := by
  induction later, h using Nat.le_induction with
  | base => exact Nat.le_refl _
  | succ later hle ih =>
    rw [daysBeforeMonth_succ year (by omega) (by omega)]
    have hbefore := ih (by omega)
    omega

theorem daysBeforeMonth_one (year : Nat) : daysBeforeMonth year 1 = 0 := rfl

theorem daysBeforeMonth_thirteen (year : Nat) : daysBeforeMonth year 13 = daysInYear year :=
  sum_monthLengths year

theorem locate_eq (month : Nat) {lengths : List Nat} (h : n < lengths.sum) :
    ∃ k day, locate month lengths n = (month + k, day + 1) ∧
      (lengths.take k).sum + day = n ∧ day < lengths.getD k 0 := by
  induction lengths generalizing month n with
  | nil => simp at h
  | cons length rest ih =>
    rw [locate]
    split_ifs with hhere
    · exact ⟨0, n, rfl, by simp, hhere⟩
    · rw [List.sum_cons] at h
      obtain ⟨k, day, hlocate, hsum, hday⟩ := ih (month + 1) (show n - length < rest.sum by omega)
      refine ⟨k + 1, day, ?_, ?_, hday⟩
      · rw [hlocate, Nat.add_right_comm, Nat.add_assoc]
      · rw [List.take_succ_cons, List.sum_cons]
        omega

/-! ### Dates -/

theorem valid_iff : d.valid = true ↔ (1 ≤ d.year ∧ d.year ≤ 9999) ∧ (1 ≤ d.month ∧ d.month ≤ 12) ∧
    1 ≤ d.day ∧ d.day ≤ daysInMonth d.year d.month := by
  simp only [valid, Bool.and_eq_true, decide_eq_true_eq, and_assoc]

/-- A date is in its year. -/
theorem dayNumber_lt_year (hd : d.valid = true) :
    d.dayNumber < daysBefore (d.year + 1) := by
  obtain ⟨⟨hyear, -⟩, ⟨hmonth, hmonth'⟩, hday, hday'⟩ := valid_iff.mp hd
  have hsucc := daysBeforeMonth_succ d.year hmonth hmonth'
  have hend := daysBeforeMonth_mono d.year (by omega) (show d.month + 1 ≤ 13 by omega)
    (Nat.le_refl 13)
  rw [daysBeforeMonth_thirteen] at hend
  rw [daysBefore_succ hyear, dayNumber_eq]
  omega

theorem dayNumber_lt (hd : d.valid = true) : d.dayNumber < calendarDays := by
  obtain ⟨⟨hyear, hyear'⟩, -, -⟩ := valid_iff.mp hd
  have hlater := daysBefore_mono (by omega) (show d.year + 1 ≤ 10000 by omega)
  have hlt := dayNumber_lt_year hd
  rw [calendarDays]
  omega

/-- The days of the calendar are counted without a gap: the date of every number is in the calendar
and has this number. -/
theorem ofDayNumber_spec (h : n < calendarDays) :
    (ofDayNumber n).valid = true ∧ (ofDayNumber n).dayNumber = n := by
  obtain ⟨hpos, hbegun, hover⟩ := daysBefore_yearOf n
  rw [daysBefore_succ hpos, ← sum_monthLengths] at hover
  have hinside : n - daysBefore (yearOf n) < (monthLengths (yearOf n)).sum := by omega
  obtain ⟨k, day, hlocate, hsum, hday⟩ := locate_eq 1 hinside
  have hmonth : k < 12 := by
    by_contra hlate
    rw [List.getD_eq_default _ _ (by rw [length_monthLengths]; omega)] at hday
    omega
  have hdate : ofDayNumber n = ⟨yearOf n, 1 + k, day + 1⟩ := by
    rw [ofDayNumber, hlocate]
  rw [hdate, valid_iff, dayNumber_eq, daysBeforeMonth, daysInMonth]
  dsimp only
  rw [Nat.add_sub_cancel_left, Nat.add_sub_cancel]
  exact ⟨⟨⟨hpos, yearOf_le h⟩, by omega, by omega, hday⟩, by omega⟩

/-- The day behind a date. -/
def next (d : Date) : Date :=
  if d.day < daysInMonth d.year d.month then { d with day := d.day + 1 }
  else if d.month < 12 then { d with month := d.month + 1, day := 1 }
  else { year := d.year + 1, month := 1, day := 1 }

/-- Each day is counted behind the one before it. -/
theorem dayNumber_next (hd : d.valid = true) : d.next.dayNumber = d.dayNumber + 1 := by
  obtain ⟨⟨hyear, -⟩, ⟨hmonth, hmonth'⟩, hday, hday'⟩ := valid_iff.mp hd
  have hsucc := daysBeforeMonth_succ d.year hmonth hmonth'
  unfold next
  split_ifs with hinside hlast
  · rw [dayNumber_eq, dayNumber_eq]
    dsimp only
    omega
  · rw [dayNumber_eq, dayNumber_eq]
    dsimp only
    omega
  · have hlast : d.month = 12 := by omega
    rw [hlast, daysBeforeMonth_thirteen] at hsucc
    rw [dayNumber_eq, dayNumber_eq, hlast]
    dsimp only
    rw [daysBefore_succ hyear, daysBeforeMonth_one]
    rw [hlast] at hinside hday'
    omega

/-- The order by year, month and day. -/
def Before (d e : Date) : Prop :=
  d.year < e.year ∨ d.year = e.year ∧ (d.month < e.month ∨ d.month = e.month ∧ d.day < e.day)

theorem dayNumber_lt_of_before (hd : d.valid = true) (he : e.valid = true) (h : Before d e) :
    d.dayNumber < e.dayNumber := by
  obtain ⟨-, ⟨hmonth, hmonth'⟩, hday, hday'⟩ := valid_iff.mp hd
  obtain ⟨-, ⟨-, hlast⟩, -, -⟩ := valid_iff.mp he
  have hsucc := daysBeforeMonth_succ d.year hmonth hmonth'
  have hlt := dayNumber_lt_year hd
  rcases h with hlater | ⟨hsame, hlater | ⟨hsame', hlater⟩⟩
  · have hnext := daysBefore_mono (by omega) (show d.year + 1 ≤ e.year from hlater)
    rw [dayNumber_eq e]
    omega
  · have hnext := daysBeforeMonth_mono d.year (by omega)
      (show d.month + 1 ≤ e.month from hlater) (by omega)
    rw [dayNumber_eq, dayNumber_eq, ← hsame]
    omega
  · rw [dayNumber_eq, dayNumber_eq, ← hsame, ← hsame']
    omega

theorem eq_iff : d = e ↔ d.year = e.year ∧ d.month = e.month ∧ d.day = e.day := by
  obtain ⟨year, month, day⟩ := d
  obtain ⟨year', month', day'⟩ := e
  rw [Date.mk.injEq]

theorem eq_or_before (d e : Date) : d = e ∨ Before d e ∨ Before e d := by
  rw [eq_iff, Before, Before]
  omega

/-- Dates of the calendar are ordered as their days are counted. -/
theorem dayNumber_lt_iff (hd : d.valid = true) (he : e.valid = true) :
    d.dayNumber < e.dayNumber ↔ Before d e := by
  refine ⟨fun hlt => ?_, dayNumber_lt_of_before hd he⟩
  rcases eq_or_before d e with rfl | hbefore | hbefore
  · exact absurd hlt (Nat.lt_irrefl _)
  · exact hbefore
  · exact absurd hlt (Nat.lt_asymm (dayNumber_lt_of_before he hd hbefore))

theorem dayNumber_inj (hd : d.valid = true) (he : e.valid = true) (h : d.dayNumber = e.dayNumber) :
    d = e := by
  rcases eq_or_before d e with heq | hbefore | hbefore
  · exact heq
  · exact absurd h (Nat.ne_of_lt (dayNumber_lt_of_before hd he hbefore))
  · exact absurd h.symm (Nat.ne_of_lt (dayNumber_lt_of_before he hd hbefore))

/-- A date is found again by its number. -/
theorem ofDayNumber_dayNumber (hd : d.valid = true) : ofDayNumber d.dayNumber = d := by
  obtain ⟨hvalid, hnumber⟩ := ofDayNumber_spec (dayNumber_lt hd)
  exact dayNumber_inj hvalid hd hnumber

end ApiScaffold.Date
