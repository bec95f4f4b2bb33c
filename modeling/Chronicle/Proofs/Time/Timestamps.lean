import Chronicle.Proofs.Bytes.Decimal
import Chronicle.Proofs.Spool.Identifiers
import Chronicle.Proofs.Time.Gregorian

/-!
Timestamps as texts.

In the years that are written with four digits every part of a timestamp has its place. It can be read back by
its places, and what is read is the instant again: the date has the right number in the calendar, and the rest
is the time of the day. As the larger parts stand in front, texts are in the order of the instants. The day of
a bundle is the first ten bytes of a timestamp, so it is the day of the instant.
-/

namespace Chronicle.Time

/-! ### What is written -/

/-- A date with a place for each digit. -/
def Date.written (date : Date) : Bytes :=
  Bytes.digits 4 date.year.toNat ++ utf8 "-" ++ Bytes.digits 2 date.month ++ utf8 "-" ++ Bytes.digits 2 date.day

/-- The year has four digits. -/
def Date.FourDigits (date : Date) : Prop := 1000 ≤ date.year ∧ date.year < 10000

namespace Fields

/-- A date of the calendar and a time of the day. -/
structure Valid (fields : Fields) : Prop where
  date : fields.date.Valid
  hour : fields.hour < 24
  minute : fields.minute < 60
  second : fields.second < 60
  millisecond : 0 ≤ fields.millisecond ∧ fields.millisecond < 1000

instance (fields : Fields) : Decidable fields.Valid :=
  decidable_of_iff (fields.date.Valid ∧ fields.hour < 24 ∧ fields.minute < 60 ∧ fields.second < 60 ∧
      0 ≤ fields.millisecond ∧ fields.millisecond < 1000)
    ⟨fun ⟨h₁, h₂, h₃, h₄, h₅⟩ => ⟨h₁, h₂, h₃, h₄, h₅⟩, fun ⟨h₁, h₂, h₃, h₄, h₅⟩ => ⟨h₁, h₂, h₃, h₄, h₅⟩⟩

/-- The instant of a date and a time, in milliseconds from the start of 1970. -/
def instant (fields : Fields) : Int :=
  (((fields.date.number * 24 + fields.hour) * 60 + fields.minute) * 60 + fields.second) * 1000 + fields.millisecond

/-- Date and time with a place for each digit. -/
def written (fields : Fields) : Bytes :=
  fields.date.written ++ utf8 "T" ++ Bytes.digits 2 fields.hour ++ utf8 ":" ++ Bytes.digits 2 fields.minute ++
    utf8 ":" ++ Bytes.digits 2 fields.second ++ utf8 "." ++ Bytes.digits 3 fields.millisecond.toNat ++ utf8 "Z"

end Fields

/-- Reads `YYYY-MM-DD` in front of a text, if the calendar has this date. -/
def readDate? (text : Bytes) : Option (Date × Bytes) := do
  let (year, text) ← Bytes.readNumber? 4 text
  let text ← Bytes.readMark? (utf8 "-") text
  let (month, text) ← Bytes.readNumber? 2 text
  let text ← Bytes.readMark? (utf8 "-") text
  let (day, text) ← Bytes.readNumber? 2 text
  let date : Date := ⟨year, month, day⟩
  if date.Valid then return (date, text) else none

/-- Reads `YYYY-MM-DDTHH:MM:SS.mmmZ`, a date of the calendar and a time of the day, as the instant it denotes. -/
def readInstant? (text : Bytes) : Option Int := do
  let (date, text) ← readDate? text
  let text ← Bytes.readMark? (utf8 "T") text
  let (hour, text) ← Bytes.readNumber? 2 text
  let text ← Bytes.readMark? (utf8 ":") text
  let (minute, text) ← Bytes.readNumber? 2 text
  let text ← Bytes.readMark? (utf8 ":") text
  let (second, text) ← Bytes.readNumber? 2 text
  let text ← Bytes.readMark? (utf8 ".") text
  let (millisecond, text) ← Bytes.readNumber? 3 text
  let text ← Bytes.readMark? (utf8 "Z") text
  let fields : Fields := ⟨date, hour, minute, second, millisecond⟩
  if fields.Valid ∧ text = [] then return fields.instant else none

/-! ### The fields of an instant -/

lemma instant_fieldsOf {instant : Int} (h : 0 ≤ instant) :
    (fieldsOf instant).Valid ∧ (fieldsOf instant).instant = instant ∧
      (fieldsOf instant).date.number = instant / 86400000 := by
  obtain ⟨hdate, hnumber⟩ := number_dateOfDay (instant / 1000 / 86400)
  have hfields : fieldsOf instant =
      { date := dateOfDay (instant / 1000 / 86400)
        hour := (instant / 1000 % 86400).toNat / 3600
        minute := (instant / 1000 % 86400).toNat % 3600 / 60
        second := (instant / 1000 % 86400).toNat % 60
        millisecond := instant % 1000 } := by
    simp only [fieldsOf, Int.tdiv_eq_ediv_of_nonneg h, Int.tmod_eq_emod_of_nonneg h,
      Int.fdiv_eq_ediv_of_nonneg _ (show (0 : Int) ≤ 86400 by decide),
      Int.fmod_eq_emod_of_nonneg _ (show (0 : Int) ≤ 86400 by decide)]
  rw [hfields]
  refine ⟨⟨hdate, ?_, ?_, ?_, ?_⟩, ?_, ?_⟩
  · change (instant / 1000 % 86400).toNat / 3600 < 24
    omega
  · change (instant / 1000 % 86400).toNat % 3600 / 60 < 60
    omega
  · exact Nat.mod_lt _ (by decide)
  · exact ⟨Int.emod_nonneg _ (by decide), Int.emod_lt_of_pos _ (by decide)⟩
  · simp only [Fields.instant, hnumber]
    omega
  · simp only [hnumber]
    omega

/-- The year 1970 begins with the day 0 and the year 10000 with the day 2932897. -/
lemma fourDigits_of_number {date : Date} (h : date.Valid) (hfirst : 0 ≤ date.number) (hlast : date.number < 2932897) :
    date.FourDigits := by
  have hwithin := h.lt_yearDays
  constructor
  · by_contra hbefore
    have hend : daysToYear (date.year + 1) ≤ daysToYear 1970 := daysToYear_le (by omega)
    rw [daysToYear_succ, show daysToYear 1970 = 0 from rfl] at hend
    unfold Date.number at hfirst
    omega
  · by_contra hbehind
    have hstart : daysToYear 10000 ≤ daysToYear date.year := daysToYear_le (by omega)
    rw [daysToYear_eq 10000, show leapsUpTo (10000 - 1) = 2424 from rfl] at hstart
    unfold Date.number at hlast
    omega

/-! ### Places -/

lemma twoDigits_eq {n : Nat} (h : n < 10 ^ 2) : twoDigits n = Bytes.digits 2 n := Bytes.zeroPadded_decimal h

section

variable {date : Date} {fields : Fields}

lemma Date.Valid.month_lt (h : date.Valid) : date.month < 10 ^ 2 := by
  have := h.month_le
  omega

lemma Date.Valid.day_lt (h : date.Valid) : date.day < 10 ^ 2 := by
  have hlast := h.day_le
  have hmonth := monthDays_le date.year date.month
  omega

lemma Date.FourDigits.year_lt (h : date.FourDigits) : date.year.toNat < 10 ^ 4 := by
  have := h.2
  omega

lemma Date.FourDigits.toNat_year (h : date.FourDigits) : (date.year.toNat : Int) = date.year := by
  have := h.1
  omega

lemma Fields.Valid.hour_lt (h : fields.Valid) : fields.hour < 10 ^ 2 := by
  have := h.hour
  omega

lemma Fields.Valid.minute_lt (h : fields.Valid) : fields.minute < 10 ^ 2 := by
  have := h.minute
  omega

lemma Fields.Valid.second_lt (h : fields.Valid) : fields.second < 10 ^ 2 := by
  have := h.second
  omega

lemma Fields.Valid.millisecond_lt (h : fields.Valid) : fields.millisecond.toNat < 10 ^ 3 := by
  have := h.millisecond.2
  omega

lemma Date.text_eq (h : date.Valid) (hyear : date.FourDigits) : date.text = date.written := by
  have hleast := hyear.1
  rw [text, written, twoDigits_eq h.month_lt, twoDigits_eq h.day_lt, Bytes.signedDecimal_of_nonneg (by omega),
    Bytes.decimal_eq_digits (show 10 ^ 3 ≤ date.year.toNat by omega) hyear.year_lt]

lemma text_eq {instant : Int} (h : (fieldsOf instant).Valid) (hyear : (fieldsOf instant).date.FourDigits) :
    text instant = (fieldsOf instant).written := by
  simp only [text, Fields.written, Date.text_eq h.date hyear, twoDigits_eq h.hour_lt, twoDigits_eq h.minute_lt,
    twoDigits_eq h.second_lt, Bytes.signedDecimal_of_nonneg h.millisecond.1]
  rw [Bytes.zeroPadded_decimal h.millisecond_lt]

lemma Date.length_written (date : Date) : date.written.length = 10 := by
  simp [written, show (utf8 "-").length = 1 from rfl]

lemma Fields.length_written (fields : Fields) : fields.written.length = 24 := by
  simp [written, Date.length_written, show (utf8 "T").length = 1 from rfl, show (utf8 ":").length = 1 from rfl,
    show (utf8 ".").length = 1 from rfl, show (utf8 "Z").length = 1 from rfl]

/-! ### Reading -/

lemma readDate?_written (h : date.Valid) (hyear : date.FourDigits) (rest : Bytes) :
    readDate? (date.written ++ rest) = some (date, rest) := by
  simp only [readDate?, Date.written, List.append_assoc, Bytes.readNumber?_digits hyear.year_lt,
    Bytes.readNumber?_digits h.month_lt, Bytes.readNumber?_digits h.day_lt, Bytes.readMark?_append,
    hyear.toNat_year, Option.bind_eq_bind, Option.bind_some]
  exact if_pos h

lemma readInstant?_written (h : fields.Valid) (hyear : fields.date.FourDigits) :
    readInstant? fields.written = some fields.instant := by
  have hlast : Bytes.readMark? (utf8 "Z") (utf8 "Z") = some [] := rfl
  simp only [readInstant?, Fields.written, List.append_assoc, readDate?_written h.date hyear,
    Bytes.readNumber?_digits h.hour_lt, Bytes.readNumber?_digits h.minute_lt, Bytes.readNumber?_digits h.second_lt,
    Bytes.readNumber?_digits h.millisecond_lt, Bytes.readMark?_append, hlast, Int.toNat_of_nonneg h.millisecond.1,
    Option.bind_eq_bind, Option.bind_some]
  exact if_pos ⟨h, trivial⟩

/-! ### Order -/

lemma Fields.instant_lt_of_date {fields' : Fields} (h : fields.Valid) (h' : fields'.Valid)
    (hdate : fields.date.number < fields'.date.number) : fields.instant < fields'.instant := by
  have := h.hour
  have := h.minute
  have := h.second
  have := h.millisecond.2
  have := h'.millisecond.1
  unfold instant
  omega

/-- A text that comes first denotes the earlier instant: where two texts differ first, there is the largest part
in which they differ. -/
lemma instant_lt_of_written_lt {fields' : Fields} (h : fields.Valid) (h' : fields'.Valid)
    (hyear : fields.date.FourDigits) (hyear' : fields'.date.FourDigits)
    (hlt : fields.written < fields'.written) : fields.instant < fields'.instant := by
  simp only [Fields.written, Date.written, List.append_assoc, Bytes.mark_append_lt_iff, List.lt_irrefl,
    and_false, or_false,
    Bytes.digits_append_lt_iff hyear.year_lt hyear'.year_lt,
    Bytes.digits_append_lt_iff h.date.month_lt h'.date.month_lt,
    Bytes.digits_append_lt_iff h.date.day_lt h'.date.day_lt,
    Bytes.digits_append_lt_iff h.hour_lt h'.hour_lt, Bytes.digits_append_lt_iff h.minute_lt h'.minute_lt,
    Bytes.digits_append_lt_iff h.second_lt h'.second_lt,
    Bytes.digits_append_lt_iff h.millisecond_lt h'.millisecond_lt] at hlt
  have hsigned := hyear.toNat_year
  have hsigned' := hyear'.toNat_year
  rcases hlt with hyears | ⟨hyears, hmonths | ⟨hmonths, hdays | ⟨hdays, htime⟩⟩⟩
  · exact Fields.instant_lt_of_date h h' (Date.number_lt_of_year h.date (by omega))
  · exact Fields.instant_lt_of_date h h' (Date.number_lt_of_month h.date (by omega) hmonths)
  · exact Fields.instant_lt_of_date h h' (Date.number_lt_of_day h.date (by omega) hmonths hdays)
  · have hsame : fields.date.number = fields'.date.number := by
      rw [Date.number, Date.number, ← hsigned, ← hsigned', hyears, hmonths, hdays]
    have := h.minute
    have := h'.minute
    have := h.second
    have := h'.second
    have := h.millisecond
    have := h'.millisecond
    rw [Fields.instant, Fields.instant, hsame]
    omega

end

/-! ### Timestamps -/

lemma fieldsOf_spec {instant : Int} (h : 0 ≤ instant ∧ instant < 253402300800000) :
    (fieldsOf instant).Valid ∧ (fieldsOf instant).date.FourDigits ∧ (fieldsOf instant).instant = instant ∧
      (fieldsOf instant).date.number = instant / 86400000 := by
  obtain ⟨hvalid, hinstant, hnumber⟩ := instant_fieldsOf h.1
  exact ⟨hvalid, fourDigits_of_number hvalid.date (by omega) (by omega), hinstant, hnumber⟩

lemma readInstant?_text {instant : Int} (h : 0 ≤ instant ∧ instant < 253402300800000) :
    readInstant? (text instant) = some instant := by
  obtain ⟨hvalid, hyear, hinstant, -⟩ := fieldsOf_spec h
  rw [text_eq hvalid hyear, readInstant?_written hvalid hyear, hinstant]

lemma text_inj {a b : Int} (ha : 0 ≤ a ∧ a < 253402300800000) (hb : 0 ≤ b ∧ b < 253402300800000)
    (h : text a = text b) : a = b := by
  have hread := readInstant?_text ha
  rw [h, readInstant?_text hb] at hread
  exact (Option.some.inj hread).symm

lemma text_lt_iff {a b : Int} (ha : 0 ≤ a ∧ a < 253402300800000) (hb : 0 ≤ b ∧ b < 253402300800000) :
    text a < text b ↔ a < b := by
  have hlt : ∀ {a b : Int}, 0 ≤ a ∧ a < 253402300800000 → 0 ≤ b ∧ b < 253402300800000 →
      text a < text b → a < b := by
    intro a b ha hb h
    obtain ⟨hvalid, hyear, hinstant, -⟩ := fieldsOf_spec ha
    obtain ⟨hvalid', hyear', hinstant', -⟩ := fieldsOf_spec hb
    rw [text_eq hvalid hyear, text_eq hvalid' hyear'] at h
    rw [← hinstant, ← hinstant']
    exact instant_lt_of_written_lt hvalid hvalid' hyear hyear' h
  refine ⟨hlt ha hb, fun h => ?_⟩
  rcases Std.lt_trichotomy (text a) (text b) with hfirst | hsame | hsecond
  · exact hfirst
  · exact absurd (text_inj ha hb hsame) h.ne
  · exact absurd (hlt hb ha hsecond) h.not_gt

lemma isDay_written (date : Date) : Spool.IsDay date.written := by
  have hdigits : (Bytes.digits 4 date.year.toNat ++ Bytes.digits 2 date.month ++ Bytes.digits 2 date.day).all
      Bytes.isDigit = true := by
    simp only [List.all_append, Bytes.isDigit_digits, Bool.and_self]
  exact .mk (List.all_eq_true.mp hdigits)

lemma bundleId_of_text {instant : Int} (h : 0 ≤ instant ∧ instant < 253402300800000) (today : Bytes)
    {event : Spool.Event} (hts : event.ts = text instant) :
    Spool.bundleId today event =
      (fieldsOf instant).date.written ++ utf8 "__" ++ Spool.agentPart event.agentId := by
  obtain ⟨hvalid, hyear, -⟩ := fieldsOf_spec h
  have hbegins : event.ts.take 10 = (fieldsOf instant).date.written := by
    rw [hts, text_eq hvalid hyear, Fields.written]
    simp only [List.append_assoc]
    exact List.take_left' (Date.length_written _)
  have hday := isDay_written (fieldsOf instant).date
  rw [← hbegins] at hday
  rw [Spool.bundleId, Spool.dayOf_eq_take hday, hbegins]
  rfl

/-- **Timestamps are faithful and sortable.** In the years 1970 to 9999 the text of an instant has 24 bytes of the
form `YYYY-MM-DDTHH:MM:SS.mmmZ` and reads as this instant, so different instants have different texts. Texts are
in the order of the instants. An event that is stamped with the text belongs to a bundle of the day, read by the
calendar, that the instant lies in. -/
theorem text_faithful {a b : Int} (ha : 0 ≤ a ∧ a < 253402300800000) (hb : 0 ≤ b ∧ b < 253402300800000) :
    (text a).length = 24 ∧ readInstant? (text a) = some a ∧ (text a = text b → a = b) ∧
      (a < b ↔ Bytes.precedes (text a) (text b) = true) ∧
      ∀ (today : Bytes) (event : Spool.Event), event.ts = text a →
        ∃ (day agent : Bytes) (date : Date), Spool.bundleId today event = day ++ utf8 "__" ++ agent ∧
          readDate? day = some (date, []) ∧ date.number = a / 86400000 := by
  obtain ⟨hvalid, hyear, -, hnumber⟩ := fieldsOf_spec ha
  refine ⟨?_, readInstant?_text ha, text_inj ha hb, ?_, fun today event hts => ?_⟩
  · rw [text_eq hvalid hyear, Fields.length_written]
  · rw [Bytes.precedes, decide_eq_true_iff, text_lt_iff ha hb]
  · refine ⟨_, _, (fieldsOf a).date, bundleId_of_text ha today hts, ?_, hnumber⟩
    rw [← List.append_nil (Date.written _), readDate?_written hvalid.date hyear]

/-- The last millisecond of a leap day and the one after it. -/
theorem text_faithful_leapDay :
    (0 ≤ (1709251199999 : Int) ∧ (1709251199999 : Int) < 253402300800000) ∧
      (0 ≤ (1709251200000 : Int) ∧ (1709251200000 : Int) < 253402300800000) ∧
      text 1709251199999 = utf8 "2024-02-29T23:59:59.999Z" ∧ text 1709251200000 = utf8 "2024-03-01T00:00:00.000Z" ∧
      readInstant? (utf8 "2024-02-29T23:59:59.999Z") = some 1709251199999 ∧
      Bytes.precedes (utf8 "2024-02-29T23:59:59.999Z") (utf8 "2024-03-01T00:00:00.000Z") = true ∧
      ∃ (day agent : Bytes) (date : Date),
        Spool.bundleId [] { ts := utf8 "2024-02-29T23:59:59.999Z", kind := [] } = day ++ utf8 "__" ++ agent ∧
          readDate? day = some (date, []) ∧ date.number = 19782 := by
  have hlast : text 1709251199999 = utf8 "2024-02-29T23:59:59.999Z" := by decide
  have hfirst : text 1709251200000 = utf8 "2024-03-01T00:00:00.000Z" := by decide
  obtain ⟨-, hread, -, horder, hbundle⟩ :=
    text_faithful (a := 1709251199999) (b := 1709251200000) (by decide) (by decide)
  have hday := hbundle [] { ts := utf8 "2024-02-29T23:59:59.999Z", kind := [] } hlast.symm
  rw [hlast] at hread horder
  rw [hfirst] at horder
  exact ⟨by decide, by decide, hlast, hfirst, hread, horder.mp (by decide), hday⟩

end Chronicle.Time
