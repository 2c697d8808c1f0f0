import ApiScaffold.Proofs.AttributeReading
import ApiScaffold.Proofs.CalendarDays
import ApiScaffold.Proofs.ExampleLiterals

/-!
# Timestamps

The instant of a moment is found again in the fields of its UTC form, and there is only one such
form. Its timestamp has the fields in places of fixed width, from the year down to the microsecond,
so long as the year has four digits. So timestamps are read back, and as texts they are in the order
of the instants.
-/
namespace ApiScaffold

open Text PhpLiteral

namespace Text

variable {digits digits' x y : Text} {width m n : Nat} {c : Char}

/-! ### Numbers of a fixed width -/

theorem isAsciiDigit_ofNatPadded (width n : Nat) :
    ∀ c ∈ ofNatPadded width n, isAsciiDigit c = true := by
  intro c hc
  rcases List.mem_append.mp hc with hzero | hdigit
  · rw [List.eq_of_mem_replicate hzero]
    rfl
  · exact (isWhole_iff.mp (isWhole_ofNat n)).2.1 c hdigit

theorem length_ofNat_le (hwidth : 0 < width) (h : n < 10 ^ width) : (ofNat n).length ≤ width :=
  (Nat.length_toDigits_le_iff (by decide) hwidth).mpr h

theorem length_ofNatPadded (hwidth : 0 < width) (h : n < 10 ^ width) :
    (ofNatPadded width n).length = width := by
  have hle := length_ofNat_le hwidth h
  rw [ofNatPadded, List.length_append, List.length_replicate]
  omega

theorem ofDigitChars_ofNatPadded (width n : Nat) :
    Nat.ofDigitChars 10 (ofNatPadded width n) 0 = n := by
  rw [ofNatPadded, Nat.ofDigitChars_append, Nat.ofDigitChars_replicate_zero, Nat.mul_zero, ofNat,
    Nat.ofDigitChars_ten_toDigits]

/-- A number with as many digits as the width is not padded. -/
theorem ofNatPadded_eq_ofNat (hwidth : 0 < width) (h : 10 ^ width ≤ n) :
    ofNatPadded (width + 1) n = ofNat n := by
  have hlong : ¬(ofNat n).length ≤ width := by
    rw [ofNat, Nat.length_toDigits_le_iff (by decide) hwidth]
    omega
  rw [ofNatPadded, show width + 1 - (ofNat n).length = 0 by omega]
  rfl

/-- A digit counts as often as there are texts of the digits behind it. -/
theorem ofDigitChars_cons (c : Char) (digits : Text) :
    Nat.ofDigitChars 10 (c :: digits) 0 =
      10 ^ digits.length * (c.toNat - 48) + Nat.ofDigitChars 10 digits 0 := by
  rw [Nat.ofDigitChars_cons, Nat.ofDigitChars_eq_ofDigitChars_zero, Nat.mul_zero, Nat.zero_add]
  rfl

theorem digit_bounds (h : isAsciiDigit c = true) : 48 ≤ c.toNat ∧ c.toNat ≤ 57 := by
  obtain ⟨hlow, hhigh⟩ := Bool.and_eq_true_iff.mp h
  exact ⟨of_decide_eq_true hlow, of_decide_eq_true hhigh⟩

theorem ofDigitChars_lt (h : ∀ c ∈ digits, isAsciiDigit c = true) :
    Nat.ofDigitChars 10 digits 0 < 10 ^ digits.length := by
  induction digits with
  | nil => decide
  | cons c digits ih =>
    obtain ⟨hc, hdigits⟩ := List.forall_mem_cons.mp h
    have hdigit := digit_bounds hc
    calc Nat.ofDigitChars 10 (c :: digits) 0
        = 10 ^ digits.length * (c.toNat - 48) + Nat.ofDigitChars 10 digits 0 :=
          ofDigitChars_cons c digits
      _ < 10 ^ digits.length * (c.toNat - 48) + 10 ^ digits.length :=
          Nat.add_lt_add_left (ih hdigits) _
      _ = 10 ^ digits.length * (c.toNat - 48 + 1) := (Nat.mul_succ _ _).symm
      _ ≤ 10 ^ digits.length * 10 := Nat.mul_le_mul_left _ (by omega)
      _ = 10 ^ (c :: digits).length := (Nat.pow_succ _ _).symm

/-- The number with the greater digit in front is the greater one. -/
theorem ofDigitChars_cons_lt {c' : Char} (hc : isAsciiDigit c = true)
    (h : ∀ d ∈ digits, isAsciiDigit d = true) (hlength : digits.length = digits'.length)
    (hlt : c.toNat < c'.toNat) :
    Nat.ofDigitChars 10 (c :: digits) 0 < Nat.ofDigitChars 10 (c' :: digits') 0 := by
  have hdigit := digit_bounds hc
  rw [ofDigitChars_cons, ofDigitChars_cons, ← hlength]
  calc 10 ^ digits.length * (c.toNat - 48) + Nat.ofDigitChars 10 digits 0
      < 10 ^ digits.length * (c.toNat - 48) + 10 ^ digits.length :=
        Nat.add_lt_add_left (ofDigitChars_lt h) _
    _ = 10 ^ digits.length * (c.toNat - 48 + 1) := (Nat.mul_succ _ _).symm
    _ ≤ 10 ^ digits.length * (c'.toNat - 48) := Nat.mul_le_mul_left _ (by omega)
    _ ≤ _ := Nat.le_add_right _ _

/-- Texts that begin with digits of the same number are compared by the values of these, and behind
them if the values are equal. -/
theorem le_digits_append (h : ∀ c ∈ digits, isAsciiDigit c = true)
    (h' : ∀ c ∈ digits', isAsciiDigit c = true) (hlength : digits.length = digits'.length) :
    le (digits ++ x) (digits' ++ y) = true ↔
      Nat.ofDigitChars 10 digits 0 < Nat.ofDigitChars 10 digits' 0 ∨
        Nat.ofDigitChars 10 digits 0 = Nat.ofDigitChars 10 digits' 0 ∧ le x y = true := by
  induction digits generalizing digits' with
  | nil =>
    rw [List.length_nil, eq_comm, List.length_eq_zero_iff] at hlength
    simp [hlength]
  | cons c digits ih =>
    obtain ⟨c', digits', rfl⟩ := List.exists_cons_of_length_pos (l := digits') (by
      rw [← hlength]
      exact Nat.succ_pos _)
    obtain ⟨hc, hdigits⟩ := List.forall_mem_cons.mp h
    obtain ⟨hc', hdigits'⟩ := List.forall_mem_cons.mp h'
    have hlength := Nat.succ.inj hlength
    rw [List.cons_append, List.cons_append, le]
    split_ifs with heq
    · rw [ih hdigits hdigits' hlength, ofDigitChars_cons, ofDigitChars_cons, hlength, heq,
        Nat.add_lt_add_iff_left, Nat.add_left_cancel_iff]
    · rcases Nat.lt_or_gt_of_ne (fun hnat => heq (Char.toNat_inj.mp hnat)) with hlt | hgt
      · have hvalue := ofDigitChars_cons_lt hc hdigits hlength hlt
        exact iff_of_true (decide_eq_true hlt) (.inl hvalue)
      · have hvalue := ofDigitChars_cons_lt hc' hdigits' hlength.symm hgt
        refine iff_of_false (fun hlt => ?_) (by omega)
        exact Nat.lt_asymm hgt (of_decide_eq_true hlt)

theorem le_ofNatPadded_append (hwidth : 0 < width) (hm : m < 10 ^ width) (hn : n < 10 ^ width) :
    le (ofNatPadded width m ++ x) (ofNatPadded width n ++ y) = true ↔
      m < n ∨ m = n ∧ le x y = true := by
  have hlength : (ofNatPadded width m).length = (ofNatPadded width n).length := by
    rw [length_ofNatPadded hwidth hm, length_ofNatPadded hwidth hn]
  rw [le_digits_append (isAsciiDigit_ofNatPadded width m) (isAsciiDigit_ofNatPadded width n)
    hlength, ofDigitChars_ofNatPadded, ofDigitChars_ofNatPadded]

/-- The places of a text that hold digits, and what stands between them. -/
def digitPlaces (t : Text) : Text := t.map fun c => if isAsciiDigit c then '0' else c

theorem digitPlaces_ofNatPadded (hwidth : 0 < width) (h : n < 10 ^ width) :
    digitPlaces (ofNatPadded width n) = List.replicate width '0' := by
  refine List.eq_replicate_iff.mpr
    ⟨(List.length_map _).trans (length_ofNatPadded hwidth h), fun c hc => ?_⟩
  obtain ⟨d, hd, rfl⟩ := List.mem_map.mp hc
  rw [isAsciiDigit_ofNatPadded width n d hd, if_pos rfl]

theorem le_cons_self (c : Char) (x y : Text) : le (c :: x) (c :: y) = le x y := by
  rw [le, if_pos rfl]

end Text

namespace Moment

variable {m m' u v : Moment} {rest : Text} {n width : Nat}

/-! ### The UTC form -/

/-- A time of day on a date of the calendar, in UTC. -/
structure IsUtc (u : Moment) : Prop where
  date : u.date.valid = true
  hour : u.hour < 24
  minute : u.minute < 60
  second : u.second < 60
  microsecond : u.microsecond < 1000000
  offset : u.offset = some 0

theorem IsUtc.timeOfDay_lt (h : u.IsUtc) : u.timeOfDay < microsecondsPerDay := by
  obtain ⟨-, hhour, hminute, hsecond, hmicrosecond, -⟩ := h
  unfold timeOfDay microsecondsPerDay
  omega

theorem IsUtc.instant_eq (h : u.IsUtc) :
    u.instant = (u.date.dayNumber * microsecondsPerDay + u.timeOfDay : Nat) := by
  rw [instant, h.offset, Option.getD_some, Int.sub_zero]

/-- The UTC form with the given date and microseconds since midnight. -/
def atTime (date : Date) (time : Nat) : Moment where
  date := date
  hour := time / 1000000 / 3600
  minute := time / 1000000 / 60 % 60
  second := time / 1000000 % 60
  microsecond := time % 1000000
  offset := some 0

theorem IsUtc.atTime_eq (h : u.IsUtc) : atTime u.date u.timeOfDay = u := by
  obtain ⟨date, hour, minute, second, microsecond, offset⟩ := u
  obtain ⟨-, hhour, hminute, hsecond, hmicrosecond, hoffset⟩ := h
  dsimp only at *
  subst hoffset
  rw [atTime, timeOfDay, Moment.mk.injEq]
  dsimp only
  refine ⟨rfl, ?_, ?_, ?_, ?_, rfl⟩ <;> omega

theorem isUtc_atTime {date : Date} {time : Nat} (hdate : date.valid = true)
    (htime : time < microsecondsPerDay) : (atTime date time).IsUtc := by
  unfold microsecondsPerDay at htime
  constructor <;> unfold atTime <;> dsimp only
  · exact hdate
  all_goals omega

theorem timeOfDay_atTime {date : Date} (time : Nat) : (atTime date time).timeOfDay = time := by
  unfold timeOfDay atTime
  dsimp only
  omega

theorem ofInstant?_natCast (h : n < Date.calendarDays * microsecondsPerDay) :
    ofInstant? n =
      some (atTime (Date.ofDayNumber (n / microsecondsPerDay)) (n % microsecondsPerDay)) := by
  rw [ofInstant?, if_pos ⟨Int.natCast_nonneg n, Int.ofNat_lt.mpr h⟩]
  rfl

theorem ofInstant?_instant (h : u.IsUtc) : ofInstant? u.instant = some u := by
  have htime := h.timeOfDay_lt
  have hquotient : (u.date.dayNumber * microsecondsPerDay + u.timeOfDay) / microsecondsPerDay =
      u.date.dayNumber := by
    rw [Nat.add_comm, Nat.add_mul_div_right _ _ (by decide), Nat.div_eq_of_lt htime, Nat.zero_add]
  have hrange : u.date.dayNumber * microsecondsPerDay + u.timeOfDay <
      Date.calendarDays * microsecondsPerDay := by
    rw [← Nat.div_lt_iff_lt_mul (by decide), hquotient]
    exact Date.dayNumber_lt h.date
  rw [h.instant_eq, ofInstant?_natCast hrange, hquotient, Nat.mul_add_mod_of_lt htime,
    Date.ofDayNumber_dayNumber h.date, h.atTime_eq]

theorem ofInstant?_some {i : Int} (h : ofInstant? i = some u) : u.IsUtc ∧ u.instant = i := by
  obtain ⟨⟨hpos, hend⟩, -⟩ := Option.ite_none_right_eq_some.mp h
  obtain ⟨n, rfl⟩ := Int.eq_ofNat_of_zero_le hpos
  have hrange := Int.ofNat_lt.mp hend
  have hday : n / microsecondsPerDay < Date.calendarDays :=
    (Nat.div_lt_iff_lt_mul (by decide)).mpr hrange
  obtain ⟨hvalid, hnumber⟩ := Date.ofDayNumber_spec hday
  rw [ofInstant?_natCast hrange, Option.some.injEq] at h
  have hutc : u.IsUtc := h ▸ isUtc_atTime hvalid (Nat.mod_lt n (by decide))
  refine ⟨hutc, ?_⟩
  rw [hutc.instant_eq, ← h, timeOfDay_atTime]
  congr 1
  exact (congrArg (· * microsecondsPerDay + _) hnumber).trans (Nat.div_add_mod' n _)

/-- A moment in UTC that is the same instant as another one. -/
def IsUtcOf (u m : Moment) : Prop := u.IsUtc ∧ u.instant = m.instant

/-- A moment has at most one UTC form, which is what the conversion gives. -/
theorem toUtc?_eq_some_iff : m.toUtc? = some u ↔ u.IsUtcOf m :=
  ⟨ofInstant?_some, fun ⟨hutc, hinstant⟩ => by rw [toUtc?, ← hinstant, ofInstant?_instant hutc]⟩

/-- An instant is ordered by its date first. -/
theorem IsUtc.instant_le_iff (hu : u.IsUtc) (hv : v.IsUtc) :
    u.instant ≤ v.instant ↔
      Date.Before u.date v.date ∨ u.date = v.date ∧ u.timeOfDay ≤ v.timeOfDay := by
  have htime := hu.timeOfDay_lt
  have htime' := hv.timeOfDay_lt
  rw [hu.instant_eq, hv.instant_eq, Int.ofNat_le, ← Date.dayNumber_lt_iff hu.date hv.date]
  have hsame : u.date = v.date ↔ u.date.dayNumber = v.date.dayNumber :=
    ⟨congrArg _, Date.dayNumber_inj hu.date hv.date⟩
  rw [hsame]
  unfold microsecondsPerDay at *
  omega

/-! ### Reading -/

/-- Every field of a UTC form has room in its place. -/
theorem IsUtc.fields_lt (h : u.IsUtc) : u.date.year < 10 ^ 4 ∧ u.date.month < 10 ^ 2 ∧
    u.date.day < 10 ^ 2 ∧ u.hour < 10 ^ 2 ∧ u.minute < 10 ^ 2 ∧ u.second < 10 ^ 2 ∧
      u.microsecond < 10 ^ 6 := by
  obtain ⟨⟨-, hyear⟩, ⟨-, hmonth⟩, -, hday⟩ := Date.valid_iff.mp h.date
  have hshort := Date.daysInMonth_le u.date.year u.date.month
  obtain ⟨-, hhour, hminute, hsecond, hmicrosecond, -⟩ := h
  omega

/-- The timestamp of a UTC form, its year padded. -/
def stamp (u : Moment) : Text :=
  ofNatPadded 4 u.date.year ++ '-' :: (ofNatPadded 2 u.date.month ++ '-' ::
    (ofNatPadded 2 u.date.day ++ 'T' :: (ofNatPadded 2 u.hour ++ ':' ::
      (ofNatPadded 2 u.minute ++ ':' :: (ofNatPadded 2 u.second ++ '.' ::
        (ofNatPadded 6 u.microsecond ++ "Z"))))))

theorem timestamp?_eq (h : m.toUtc? = some u) (hyear : 1000 ≤ u.date.year) :
    m.timestamp? = some u.stamp := by
  have hpadded : ofNatPadded (3 + 1) u.date.year = ofNat u.date.year :=
    ofNatPadded_eq_ofNat (by decide) (by omega)
  rw [timestamp?, h, Option.map_some, stamp, clockText, ← hpadded]
  simp

theorem readDigits?_digits {digits : Text} (h : ∀ c ∈ digits, isAsciiDigit c = true)
    (value : Nat) (rest : Text) :
    readDigits?.go value digits.length (digits ++ rest) =
      some (Nat.ofDigitChars 10 digits value, rest) := by
  induction digits generalizing value with
  | nil => rfl
  | cons c digits ih =>
    obtain ⟨hc, hdigits⟩ := List.forall_mem_cons.mp h
    rw [List.length_cons, List.cons_append, readDigits?.go, if_pos hc, ih hdigits,
      Nat.ofDigitChars_cons, Nat.mul_comm]
    rfl

theorem readDigits?_ofNatPadded (hwidth : 0 < width) (h : n < 10 ^ width) (rest : Text) :
    readDigits? width (ofNatPadded width n ++ rest) = some (n, rest) := by
  have hread := readDigits?_digits (isAsciiDigit_ofNatPadded width n) 0 rest
  rwa [length_ofNatPadded hwidth h, ofDigitChars_ofNatPadded] at hread

theorem readFraction_ofNatPadded (h : n < 1000000) :
    readFraction ('.' :: (ofNatPadded 6 n ++ "Z")) = (n, ("Z" : Text)) := by
  have hdigits : (ofNatPadded 6 n ++ ("Z" : Text)).takeWhile isAsciiDigit = ofNatPadded 6 n :=
    takeWhile_stop (isAsciiDigit_ofNatPadded 6 n) (by rintro c ⟨⟩; rfl)
  have hlength : (ofNatPadded 6 n).length = 6 := length_ofNatPadded (by decide) h
  have hvalue : (ofNatPadded 6 n).foldl (fun value d => value * 10 + (d.toNat - 48)) 0 = n := by
    have hzero : '0'.toNat = 48 := rfl
    simpa only [Nat.ofDigitChars, Nat.mul_comm, hzero] using ofDigitChars_ofNatPadded 6 n
  rw [readFraction, if_pos (.inl rfl)]
  simp only [hdigits, List.take_left' hlength, List.drop_left, hvalue]

/-- A timestamp is read back as the UTC form that it was made of. -/
theorem ofText?_stamp (h : u.IsUtc) : ofText? u.stamp = some u := by
  obtain ⟨hyear, hmonth, hday, hhour, hminute, hsecond, -⟩ := h.fields_lt
  have hmicrosecond := readFraction_ofNatPadded h.microsecond
  obtain ⟨⟨year, month, day⟩, hour, minute, second, microsecond, offset⟩ := u
  have hoffset := h.offset
  dsimp only at *
  subst hoffset
  have hread {n : Nat} (hn : n < 10 ^ 2) (rest : Text) :
      readDigits? 2 (ofNatPadded 2 n ++ rest) = some (n, rest) :=
    readDigits?_ofNatPadded (by decide) hn rest
  have hreadYear (rest : Text) : readDigits? 4 (ofNatPadded 4 year ++ rest) = some (year, rest) :=
    readDigits?_ofNatPadded (by decide) hyear rest
  have hseparator (c : Char) (rest : Text) : readChar? c (c :: rest) = some rest := if_pos rfl
  have hclock : readClock? (ofNatPadded 2 hour ++ ':' :: (ofNatPadded 2 minute ++ ':' ::
      (ofNatPadded 2 second ++ '.' :: (ofNatPadded 6 microsecond ++ ("Z" : Text))))) =
        some (hour, minute, second, microsecond, ("Z" : Text)) := by
    simp only [readClock?, hread hhour, hread hminute, hread hsecond, hseparator, hmicrosecond,
      Option.bind_eq_bind, Option.bind_some]
  simp only [ofText?, stamp, hreadYear, hread hmonth, hread hday, hseparator, hclock,
    Option.bind_eq_bind, Option.bind_some]
  rfl

/-! ### Form and order -/

theorem digitPlaces_stamp (h : u.IsUtc) : digitPlaces u.stamp = "0000-00-00T00:00:00.000000Z" := by
  obtain ⟨hyear, hmonth, hday, hhour, hminute, hsecond, hmicrosecond⟩ := h.fields_lt
  have happend (a b : Text) : digitPlaces (a ++ b) = digitPlaces a ++ digitPlaces b :=
    List.map_append
  have hcons (c : Char) (t : Text) :
      digitPlaces (c :: t) = (if isAsciiDigit c then '0' else c) :: digitPlaces t := rfl
  simp only [stamp, happend, hcons, digitPlaces_ofNatPadded (by decide : 0 < 2) hmonth,
    digitPlaces_ofNatPadded (by decide : 0 < 2) hday,
    digitPlaces_ofNatPadded (by decide : 0 < 2) hhour,
    digitPlaces_ofNatPadded (by decide : 0 < 2) hminute,
    digitPlaces_ofNatPadded (by decide : 0 < 2) hsecond,
    digitPlaces_ofNatPadded (by decide : 0 < 4) hyear,
    digitPlaces_ofNatPadded (by decide : 0 < 6) hmicrosecond]
  decide

theorem IsUtc.timeOfDay_le_iff (hu : u.IsUtc) (hv : v.IsUtc) :
    u.timeOfDay ≤ v.timeOfDay ↔
      u.hour < v.hour ∨ u.hour = v.hour ∧ (u.minute < v.minute ∨ u.minute = v.minute ∧
        (u.second < v.second ∨ u.second = v.second ∧ u.microsecond ≤ v.microsecond)) := by
  obtain ⟨-, -, hminute, hsecond, hmicrosecond, -⟩ := hu
  obtain ⟨-, -, hminute', hsecond', hmicrosecond', -⟩ := hv
  unfold timeOfDay
  omega

/-- Timestamps are ordered as the instants are. -/
theorem le_stamp_iff (hu : u.IsUtc) (hv : v.IsUtc) :
    le u.stamp v.stamp = true ↔ u.instant ≤ v.instant := by
  obtain ⟨hyear, hmonth, hday, hhour, hminute, hsecond, hmicrosecond⟩ := hu.fields_lt
  obtain ⟨hyear', hmonth', hday', hhour', hminute', hsecond', hmicrosecond'⟩ := hv.fields_lt
  have hrest : le ("Z" : Text) "Z" = true := by decide
  have htwo : 0 < 2 := by decide
  rw [hu.instant_le_iff hv, hu.timeOfDay_le_iff hv, Date.Before, Date.eq_iff]
  simp only [stamp, le_cons_self, le_ofNatPadded_append (by decide : 0 < 4) hyear hyear',
    le_ofNatPadded_append htwo hmonth hmonth', le_ofNatPadded_append htwo hday hday',
    le_ofNatPadded_append htwo hhour hhour', le_ofNatPadded_append htwo hminute hminute',
    le_ofNatPadded_append htwo hsecond hsecond',
    le_ofNatPadded_append (by decide : 0 < 6) hmicrosecond hmicrosecond', hrest, and_true,
    ← Nat.le_iff_lt_or_eq, and_or_left, or_assoc, and_assoc]

/-- Every moment whose UTC form has a year of four digits has a timestamp. It has its digits in the
places of an ISO date and time, and it is read back as the UTC form. Two timestamps are the same, or
in order, exactly as their instants are. -/
theorem timestamp?_faithful (h : ∃ u : Moment, u.IsUtcOf m ∧ 1000 ≤ u.date.year)
    (h' : ∃ u : Moment, u.IsUtcOf m' ∧ 1000 ≤ u.date.year) :
    ∃ t t', m.timestamp? = some t ∧ m'.timestamp? = some t' ∧
      digitPlaces t = "0000-00-00T00:00:00.000000Z" ∧
      (∃ u, ofText? t = some u ∧ u.IsUtcOf m) ∧
      (t = t' ↔ m.instant = m'.instant) ∧
      (le t t' = true ↔ m.instant ≤ m'.instant) := by
  obtain ⟨u, hu, hyear⟩ := h
  obtain ⟨v, hv, hyear'⟩ := h'
  have hread := ofText?_stamp hu.1
  have hstamp := timestamp?_eq (toUtc?_eq_some_iff.mpr hu) hyear
  have hstamp' := timestamp?_eq (toUtc?_eq_some_iff.mpr hv) hyear'
  refine ⟨u.stamp, v.stamp, hstamp, hstamp', digitPlaces_stamp hu.1, ⟨u, hread, hu⟩, ?_, ?_⟩
  · rw [← hu.2, ← hv.2]
    constructor
    · intro hsame
      rw [hsame, ofText?_stamp hv.1, Option.some.injEq] at hread
      rw [hread]
    · intro hinstant
      have huv := ofInstant?_instant hu.1
      rw [hinstant, ofInstant?_instant hv.1, Option.some.injEq] at huv
      rw [huv]
  · rw [← hu.2, ← hv.2]
    exact le_stamp_iff hu.1 hv.1

end Moment

namespace Example

/-- Midnight on the first of March of a leap year, a microsecond ahead of UTC. -/
def endOfFebruary : Moment := ⟨⟨2024, 3, 1⟩, 0, 0, 0, 0, some 1⟩

/-- A microsecond of offset leads back to the leap day. -/
theorem endOfFebruary_timestamp :
    (∃ u : Moment, u.IsUtcOf endOfFebruary ∧ 1000 ≤ u.date.year) ∧
      (∃ u : Moment, u.IsUtcOf morningOfJanuary ∧ 1000 ≤ u.date.year) ∧
        endOfFebruary.timestamp? = some "2024-02-29T23:59:59.999999Z" ∧
          ∃ t t', endOfFebruary.timestamp? = some t ∧ morningOfJanuary.timestamp? = some t' ∧
            t ≠ t' ∧ le t t' = true := by
  have hfebruary : ∃ u : Moment, u.IsUtcOf endOfFebruary ∧ 1000 ≤ u.date.year :=
    ⟨⟨⟨2024, 2, 29⟩, 23, 59, 59, 999999, some 0⟩, Moment.toUtc?_eq_some_iff.mp (by decide),
      by decide⟩
  have hjanuary : ∃ u : Moment, u.IsUtcOf morningOfJanuary ∧ 1000 ≤ u.date.year :=
    ⟨⟨⟨2025, 1, 2⟩, 13, 4, 5, 678901, some 0⟩, Moment.toUtc?_eq_some_iff.mp (by decide), by decide⟩
  obtain ⟨t, t', ht, ht', -, -, hsame, horder⟩ := Moment.timestamp?_faithful hfebruary hjanuary
  refine ⟨hfebruary, hjanuary, by decide, t, t', ht, ht', ?_, horder.mpr (by decide)⟩
  rw [Ne, hsame]
  decide

end Example

end ApiScaffold
