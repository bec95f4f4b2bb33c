import Chronicle.Time.Calendar
import Mathlib.Data.Int.Init
import Mathlib.Tactic.IntervalCases
import Mathlib.Tactic.Lemma
import Mathlib.Tactic.Ring

/-!
Days counted by the calendar.

The calendar itself says which years have a leap day and how long the months are. Counting the days of whole
years since 1970, of whole months and of the month gives each date its number. The date of a day is found the
other way, by taking apart the number of the day, with years that start in March; here both are shown to agree
for every day, and the numbers to ascend with the dates.
-/

namespace Chronicle.Time

/-! ### The calendar -/

/-- Every fourth year has a leap day, but the last year of a century only if it is divisible by 400. -/
def IsLeap (year : Int) : Prop := 4 ∣ year ∧ (100 ∣ year → 400 ∣ year)

instance (year : Int) : Decidable (IsLeap year) := inferInstanceAs (Decidable (_ ∧ _))

def leapDay (year : Int) : Nat := if IsLeap year then 1 else 0

/-- The length of a month, January being the first. -/
def monthDays (year : Int) : Nat → Nat
  | 2 => 28 + leapDay year
  | 4 | 6 | 9 | 11 => 30
  | _ => 31

/-- The days of a year before a month. -/
def daysToMonth (year : Int) (month : Nat) : Nat := ((List.range' 1 (month - 1)).map (monthDays year)).sum

/-- The days of all twelve months. -/
def yearDays (year : Int) : Nat := daysToMonth year 13

/-- The days of so many years in a row. -/
def daysOfYears (first : Int) (count : Nat) : Nat :=
  ((List.range count).map fun (passed : Nat) => yearDays (first + passed)).sum

/-- The days from the start of 1970 to the start of a year, negative for a year before. -/
def daysToYear (year : Int) : Int := daysOfYears 1970 (year - 1970).toNat - daysOfYears year (1970 - year).toNat

namespace Date

/-- The calendar has this date. -/
structure Valid (date : Date) : Prop where
  month_pos : 1 ≤ date.month
  month_le : date.month ≤ 12
  day_pos : 1 ≤ date.day
  day_le : date.day ≤ monthDays date.year date.month

instance (date : Date) : Decidable date.Valid :=
  decidable_of_iff (1 ≤ date.month ∧ date.month ≤ 12 ∧ 1 ≤ date.day ∧ date.day ≤ monthDays date.year date.month)
    ⟨fun ⟨h₁, h₂, h₃, h₄⟩ => ⟨h₁, h₂, h₃, h₄⟩, fun ⟨h₁, h₂, h₃, h₄⟩ => ⟨h₁, h₂, h₃, h₄⟩⟩

/-- The number of a date: the days that have passed since the start of 1970 when it begins. -/
def number (date : Date) : Int := daysToYear date.year + daysToMonth date.year date.month + (date.day - 1 : Nat)

end Date

/-! ### Years and months -/

lemma leapDay_le (year : Int) : leapDay year ≤ 1 := by
  unfold leapDay
  split <;> omega

lemma monthDays_le (year : Int) (month : Nat) : monthDays year month ≤ 31 := by
  have := leapDay_le year
  unfold monthDays
  split <;> omega

lemma daysToMonth_succ (year : Int) {month : Nat} (h : 1 ≤ month) :
    daysToMonth year (month + 1) = daysToMonth year month + monthDays year month := by
  obtain ⟨month, rfl⟩ := Nat.exists_eq_add_of_le h
  simp [daysToMonth, Nat.add_comm, List.range'_concat]

lemma yearDays_eq (year : Int) : yearDays year = 365 + leapDay year := by
  have hmonths : yearDays year = 31 + (28 + leapDay year + (31 + (30 + (31 + (30 + (31 + (31 + (30 + (31 + (30 +
      (31 + 0))))))))))) := rfl
  omega

lemma daysOfYears_succ (first : Int) (count : Nat) :
    daysOfYears first (count + 1) = daysOfYears first count + yearDays (first + count) := by
  simp [daysOfYears, List.range_succ]

lemma daysOfYears_succ' (first : Int) (count : Nat) :
    daysOfYears first (count + 1) = yearDays first + daysOfYears (first + 1) count := by
  simp [daysOfYears, List.range_succ_eq_map, Function.comp_def, Int.add_assoc, Int.add_comm 1]

lemma daysToYear_succ (year : Int) : daysToYear (year + 1) = daysToYear year + yearDays year := by
  unfold daysToYear
  by_cases h : 1970 ≤ year
  · have hsince : (year + 1 - 1970).toNat = (year - 1970).toNat + 1 := by omega
    have hbefore : (1970 - year).toNat = 0 ∧ (1970 - (year + 1)).toNat = 0 := by omega
    have hyear : 1970 + ((year - 1970).toNat : Int) = year := by omega
    rw [hsince, daysOfYears_succ, hbefore.1, hbefore.2, hyear]
    simp [daysOfYears]
  · have hbefore : (1970 - year).toNat = (1970 - (year + 1)).toNat + 1 := by omega
    have hsince : (year - 1970).toNat = 0 ∧ (year + 1 - 1970).toNat = 0 := by omega
    rw [hbefore, daysOfYears_succ', hsince.1, hsince.2]
    simp [daysOfYears]

/-- The leap days up to a year, as many as there are fourth years, less the centuries, plus every fourth one. -/
def leapsUpTo (year : Int) : Int := year / 4 - year / 100 + year / 400

lemma leapDay_eq (year : Int) : (leapDay year : Int) = leapsUpTo year - leapsUpTo (year - 1) := by
  unfold leapsUpTo
  by_cases h : IsLeap year
  · rw [leapDay, if_pos h]
    obtain ⟨hfour, hcentury⟩ := h
    omega
  · rw [leapDay, if_neg h]
    unfold IsLeap at h
    omega

lemma daysToYear_eq (year : Int) : daysToYear year = 365 * year + leapsUpTo (year - 1) - 719527 := by
  induction year using Int.inductionOn' (b := 1970) with
  | zero => decide
  | succ year _ ih =>
    rw [daysToYear_succ, ih, yearDays_eq, Nat.cast_add, leapDay_eq, add_sub_cancel_right]
    omega
  | pred year _ ih =>
    have hstep := daysToYear_succ (year - 1)
    rw [sub_add_cancel, ih, yearDays_eq, Nat.cast_add, leapDay_eq] at hstep
    omega

/-! ### The date of a day -/

lemma sum_take_splitMonth (lengths : List Nat) (day : Nat) :
    (lengths.take (splitMonth lengths day).1).sum + (splitMonth lengths day).2 = day := by
  induction lengths generalizing day with
  | nil => simp [splitMonth]
  | cons length lengths ih =>
    rw [splitMonth]
    split
    · simp
    · have hrest := ih (day - length)
      simp only [List.take_succ_cons, List.sum_cons]
      omega

lemma splitMonth_lt {lengths : List Nat} {day : Nat} (h : day < lengths.sum) :
    ∃ length, lengths[(splitMonth lengths day).1]? = some length ∧ (splitMonth lengths day).2 < length := by
  induction lengths generalizing day with
  | nil => cases h
  | cons length lengths ih =>
    rw [splitMonth]
    split
    · next hlt => exact ⟨length, rfl, hlt⟩
    · rw [List.sum_cons] at h
      exact ih (by omega)

/-- The date of a day of a year that starts in March. -/
def marchDate (year : Int) (day : Nat) : Date :=
  let (month, rest) := splitMonth monthLengths day
  if month < 10 then ⟨year, month + 3, rest + 1⟩ else ⟨year + 1, month - 9, rest + 1⟩

lemma leapsUpTo_split (era : Int) {century span year : Nat} (hcentury : century ≤ 3) (hspan : span ≤ 24)
    (hyear : year ≤ 3) :
    leapsUpTo (era * 400 + (century * 100 + span * 4 + year : Nat)) = era * 97 + century * 24 + span := by
  have hfour : (era * 400 + (century * 100 + span * 4 + year : Nat)) / 4 = era * 100 + century * 25 + span := by omega
  have hhundred : (era * 400 + (century * 100 + span * 4 + year : Nat)) / 100 = era * 4 + century := by omega
  have hera : (era * 400 + (century * 100 + span * 4 + year : Nat)) / 400 = era := by omega
  rw [leapsUpTo, hfour, hhundred, hera]
  ring

/-- Spans of 400 years, centuries, fourths of them and years are those of the calendar. -/
lemma dateOfDay_eq (day : Int) :
    ∃ (year : Int) (inYear : Nat), dateOfDay day = marchDate year inYear ∧
      inYear < 365 + leapDay (year + 1) ∧ day + epoch = 365 * year + leapsUpTo year + inYear := by
  have hera : day + epoch = (day + epoch).fdiv 146097 * 146097 + ((day + epoch).fmod 146097).toNat := by
    rw [Int.fdiv_eq_ediv_of_nonneg _ (by decide), Int.fmod_eq_emod_of_nonneg _ (by decide)]
    omega
  have hinEra : ((day + epoch).fmod 146097).toNat < 146097 := by
    rw [Int.fmod_eq_emod_of_nonneg _ (by decide)]
    omega
  refine ⟨_, _, rfl, ?_⟩
  generalize (day + epoch).fdiv 146097 = era at *
  generalize ((day + epoch).fmod 146097).toNat = inEra at *
  generalize hcentury : min 3 (inEra / 36524) = century
  generalize hspan : (inEra - century * 36524) / 1461 = span
  generalize hyear : min 3 ((inEra - century * 36524 - span * 1461) / 365) = year
  rw [leapsUpTo_split era (by omega) (by omega) (by omega)]
  refine ⟨?_, by omega⟩
  -- only the last year of a span has a day more, and only if no century ends there, or every fourth one does
  by_cases hlast : inEra - century * 36524 - span * 1461 - year * 365 < 365
  · omega
  · have hleap : IsLeap (era * 400 + (century * 100 + span * 4 + year : Nat) + 1) := by
      constructor <;> omega
    rw [leapDay, if_pos hleap]
    omega

lemma month_march (year : Int) {month : Nat} (h : month < 10) :
    monthLengths[month]? = some (monthDays year (month + 3)) ∧
      daysToMonth year (month + 3) = 59 + leapDay year + (monthLengths.take month).sum := by
  interval_cases month <;>
    simp [monthLengths, daysToMonth, List.range', monthDays] <;> omega

lemma number_march {year : Int} {month rest : Nat} (h : month < 10) (hrest : rest < monthDays year (month + 3)) :
    Date.Valid ⟨year, month + 3, rest + 1⟩ ∧
      Date.number ⟨year, month + 3, rest + 1⟩ + epoch =
        365 * year + leapsUpTo year + (monthLengths.take month).sum + rest := by
  refine ⟨⟨Nat.le_add_left 1 _, show month + 3 ≤ 12 by omega, Nat.le_add_left 1 rest, hrest⟩, ?_⟩
  have hleap := leapDay_eq year
  rw [Date.number, daysToYear_eq, (month_march year h).2, epoch]
  simp only [Nat.add_sub_cancel]
  omega

lemma number_january {year : Int} {month rest : Nat} (h : month < 2) (hrest : rest < monthDays (year + 1) (month + 1)) :
    Date.Valid ⟨year + 1, month + 1, rest + 1⟩ ∧
      Date.number ⟨year + 1, month + 1, rest + 1⟩ + epoch =
        365 * year + leapsUpTo year + (306 + 31 * month : Nat) + rest := by
  refine ⟨⟨Nat.le_add_left 1 _, show month + 1 ≤ 12 by omega, Nat.le_add_left 1 rest, hrest⟩, ?_⟩
  have hbefore : daysToMonth (year + 1) (month + 1) = 31 * month := by
    interval_cases month <;> rfl
  rw [Date.number, daysToYear_eq, hbefore, epoch, add_sub_cancel_right]
  simp only [Nat.add_sub_cancel]
  omega

/-- The months of a year that starts in March are those of the calendar; the last one may be a day shorter than
the table has it, but then so is the year. -/
lemma marchDate_spec {year : Int} {day : Nat} (h : day < 365 + leapDay (year + 1)) :
    (marchDate year day).Valid ∧ (marchDate year day).number + epoch = 365 * year + leapsUpTo year + day := by
  have htotal : day < monthLengths.sum := by
    have := leapDay_le (year + 1)
    rw [show monthLengths.sum = 366 from rfl]
    omega
  have hsum := sum_take_splitMonth monthLengths day
  obtain ⟨length, hmonth, hrest⟩ := splitMonth_lt htotal
  rcases hsplit : splitMonth monthLengths day with ⟨month, rest⟩
  simp only [hsplit] at hsum hmonth hrest
  have htwelve : month < 12 := (List.getElem?_eq_some_iff.mp hmonth).1
  by_cases hten : month < 10
  · have hdate : marchDate year day = ⟨year, month + 3, rest + 1⟩ := by simp only [marchDate, hsplit, if_pos hten]
    have hlength : monthDays year (month + 3) = length := Option.some.inj ((month_march year hten).1.symm.trans hmonth)
    obtain ⟨hvalid, hnumber⟩ := number_march hten (hlength.symm ▸ hrest)
    rw [hdate]
    exact ⟨hvalid, by omega⟩
  · obtain ⟨winter, hwinter, rfl⟩ : ∃ winter < 2, month = winter + 10 := ⟨month - 10, by omega, by omega⟩
    have hdate : marchDate year day = ⟨year + 1, winter + 1, rest + 1⟩ := by
      simp only [marchDate, hsplit, if_neg hten, Date.mk.injEq, true_and, and_true]
      omega
    have hbefore : (monthLengths.take (winter + 10)).sum = 306 + 31 * winter := by
      interval_cases winter <;> rfl
    have hfits : rest < monthDays (year + 1) (winter + 1) := by
      interval_cases winter
      · exact hrest.trans_eq (Option.some.inj hmonth).symm
      · change rest < 28 + leapDay (year + 1)
        omega
    obtain ⟨hvalid, hnumber⟩ := number_january hwinter hfits
    rw [hdate]
    exact ⟨hvalid, by omega⟩

/-- **The calendar's date.** The date of a day is a date of the calendar, and its number is the day. -/
theorem number_dateOfDay (day : Int) : (dateOfDay day).Valid ∧ (dateOfDay day).number = day := by
  obtain ⟨year, inYear, hdate, hinYear, hday⟩ := dateOfDay_eq day
  obtain ⟨hvalid, hnumber⟩ := marchDate_spec hinYear
  rw [hdate]
  exact ⟨hvalid, by omega⟩

/-! ### Order -/

lemma daysToYear_le {year year' : Int} (h : year ≤ year') : daysToYear year ≤ daysToYear year' := by
  induction year', h using Int.leInduction with
  | base => exact le_rfl
  | succ year' _ ih =>
    rw [daysToYear_succ]
    omega

lemma daysToMonth_le (year : Int) {month month' : Nat} (hpos : 1 ≤ month) (h : month ≤ month') :
    daysToMonth year month ≤ daysToMonth year month' := by
  induction month', h using Nat.le_induction with
  | base => exact le_rfl
  | succ month' hle ih =>
    rw [daysToMonth_succ year (hpos.trans hle)]
    omega

namespace Date

variable {date date' : Date}

lemma Valid.lt_daysToMonth (h : date.Valid) :
    daysToMonth date.year date.month + (date.day - 1) < daysToMonth date.year (date.month + 1) := by
  have hday := h.day_pos
  have hlast := h.day_le
  rw [daysToMonth_succ _ h.month_pos]
  omega

lemma Valid.lt_yearDays (h : date.Valid) :
    daysToMonth date.year date.month + (date.day - 1) < yearDays date.year :=
  h.lt_daysToMonth.trans_le (daysToMonth_le date.year (Nat.le_add_left 1 _) (Nat.succ_le_succ h.month_le))

lemma number_lt_of_year (h : date.Valid) (hyear : date.year < date'.year) : date.number < date'.number := by
  have hwithin := h.lt_yearDays
  have hnext : daysToYear date.year + yearDays date.year ≤ daysToYear date'.year := by
    rw [← daysToYear_succ]
    exact daysToYear_le hyear
  unfold number
  omega

lemma number_lt_of_month (h : date.Valid) (hyear : date.year = date'.year) (hmonth : date.month < date'.month) :
    date.number < date'.number := by
  have hwithin := h.lt_daysToMonth
  have hnext : daysToMonth date.year (date.month + 1) ≤ daysToMonth date.year date'.month :=
    daysToMonth_le date.year (Nat.le_add_left 1 _) hmonth
  rw [number, number, ← hyear]
  omega

lemma number_lt_of_day (h : date.Valid) (hyear : date.year = date'.year) (hmonth : date.month = date'.month)
    (hday : date.day < date'.day) : date.number < date'.number := by
  have hpos := h.day_pos
  rw [number, number, ← hyear, ← hmonth]
  omega

end Date

end Chronicle.Time
