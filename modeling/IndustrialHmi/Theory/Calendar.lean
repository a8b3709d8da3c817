import IndustrialHmi.Theory.Numerals

/-!
# Calendar times as text

Seconds since the epoch are split into a date of the Gregorian calendar and a time of day, and
printed with the year first.  A year is counted from March, so that its leap day is its last.

`text_lt_text` says that the texts of years with four digits are in the order of the seconds.
-/

namespace Calendar

/-- A broken-down time. -/
structure Tm where
  year : ℤ
  month : ℤ
  day : ℤ
  hour : ℤ
  minute : ℤ
  second : ℤ
  deriving DecidableEq

/-! ## Years -/

/-- The days from 1 March of the year 0 to 1 March of another. -/
def daysBefore (year : ℤ) : ℤ := 365 * year + year / 4 - year / 100 + year / 400

/-- The year of a day.  The mean length of a year leaves one of three to choose. -/
def yearOf (day : ℤ) : ℤ :=
  let year := 400 * day / 146097
  if day < daysBefore year then year - 1
  else if daysBefore (year + 1) ≤ day then year + 1
  else year

theorem daysBefore_yearOf (day : ℤ) :
    daysBefore (yearOf day) ≤ day ∧ day < daysBefore (yearOf day + 1) := by
  rw [yearOf]
  split
  next h =>
    rw [Int.sub_add_cancel]
    refine ⟨?_, h⟩
    rw [daysBefore]
    omega
  next h =>
    split
    next h' =>
      refine ⟨h', ?_⟩
      rw [daysBefore]
      omega
    next h' => exact ⟨Int.not_lt.mp h, Int.not_le.mp h'⟩

theorem daysBefore_le {year year' : ℤ} (h : year ≤ year') : daysBefore year ≤ daysBefore year' := by
  rw [daysBefore, daysBefore]
  omega

theorem yearOf_le {day day' : ℤ} (h : day ≤ day') : yearOf day ≤ yearOf day' := by
  refine Int.not_lt.mp fun hlt => ?_
  have hle := daysBefore_le (Int.add_one_le_of_lt hlt)
  have hbefore := (daysBefore_yearOf day).1
  have hafter := (daysBefore_yearOf day').2
  omega

/-- The day of its year. -/
def dayOfYear (day : ℤ) : ℤ := day - daysBefore (yearOf day)

theorem dayOfYear_bounds (day : ℤ) : 0 ≤ dayOfYear day ∧ dayOfYear day ≤ 365 := by
  obtain ⟨hle, hlt⟩ := daysBefore_yearOf day
  rw [dayOfYear]
  generalize yearOf day = year at hle hlt ⊢
  simp only [daysBefore] at hle hlt ⊢
  omega

/-! ## Months -/

/-- The month of a day of the year, from March. -/
def monthOf (dayOfYear : ℤ) : ℤ := (5 * dayOfYear + 2) / 153

/-- The months from January of the year 0 to that of the day. -/
def months (day : ℤ) : ℤ := 12 * yearOf day + monthOf (dayOfYear day) + 2

def dayOfMonth (day : ℤ) : ℤ := dayOfYear day - (153 * monthOf (dayOfYear day) + 2) / 5 + 1

theorem dayOfMonth_bounds (day : ℤ) : 1 ≤ dayOfMonth day ∧ dayOfMonth day ≤ 31 := by
  obtain ⟨hle, hlt⟩ := dayOfYear_bounds day
  rw [dayOfMonth, monthOf]
  omega

/-- A later day is in a later month, or it is a later day of the same month. -/
theorem months_lt_or {day day' : ℤ} (h : day < day') :
    months day < months day' ∨ months day = months day' ∧ dayOfMonth day < dayOfMonth day' := by
  have hyears := yearOf_le (Int.le_of_lt h)
  have hbounds := dayOfYear_bounds day
  have hbounds' := dayOfYear_bounds day'
  rcases Int.lt_or_eq_of_le hyears with hlt | heq
  · left
    rw [months, months, monthOf, monthOf]
    omega
  · have hday : dayOfYear day < dayOfYear day' := by
      rw [dayOfYear, dayOfYear, heq]
      omega
    rw [months, months, dayOfMonth, dayOfMonth, monthOf, monthOf, heq]
    omega

/-! ## Times -/

/-- The days from 1 March of the year 0 to the epoch. -/
def epoch : ℤ := 719468

/-- `gmtime`: the seconds since the epoch, broken down. -/
def gmtime (t : ℤ) : Tm :=
  let day := t / 86400 + epoch
  let clock := t % 86400
  { year := months day / 12
    month := months day % 12 + 1
    day := dayOfMonth day
    hour := clock / 3600
    minute := clock / 60 % 60
    second := clock % 60 }

def digit (n : ℤ) : UInt8 := UInt8.ofNat (48 + n.toNat)

/-- Two digits. -/
def two (n : ℤ) : Text := [digit (n / 10), digit (n % 10)]

/-- The format `%Y-%m-%dT%H:%M:%SZ`. -/
def Tm.text (tm : Tm) : Text :=
  ascii (toString tm.year) ++ (ascii "-" ++ (two tm.month ++ (ascii "-" ++ (two tm.day ++
    (ascii "T" ++ (two tm.hour ++ (ascii ":" ++ (two tm.minute ++ (ascii ":" ++
      (two tm.second ++ ascii "Z"))))))))))

example : (gmtime 1709209845).text = ascii "2024-02-29T12:30:45Z" := by decide +kernel

/-- The fields of two times, compared from the year on. -/
def Tm.Before (a b : Tm) : Prop :=
  a.year < b.year ∨ a.year = b.year ∧
    (a.month < b.month ∨ a.month = b.month ∧
      (a.day < b.day ∨ a.day = b.day ∧
        (a.hour < b.hour ∨ a.hour = b.hour ∧
          (a.minute < b.minute ∨ a.minute = b.minute ∧ a.second < b.second))))

theorem gmtime_before {t t' : ℤ} (h : t < t') : (gmtime t).Before (gmtime t') := by
  have hdays : t / 86400 + epoch < t' / 86400 + epoch ∨
      t / 86400 + epoch = t' / 86400 + epoch ∧ t % 86400 < t' % 86400 := by
    omega
  rw [Tm.Before]
  simp only [gmtime]
  rcases hdays with hday | ⟨hday, hclock⟩
  · have hmonths := months_lt_or hday
    omega
  · rw [hday]
    omega

/-! ## Text -/

/-- Texts of the same length in front decide, unless they are the same. -/
theorem append_lt_append {a b : Text} (hlength : a.length = b.length) (h : a < b) (s t : Text) :
    a ++ s < b ++ t := by
  induction a generalizing b with
  | nil =>
      cases b with
      | nil => exact absurd h (List.not_lt_nil [])
      | cons y b => cases hlength
  | cons x a ih =>
      cases b with
      | nil => cases hlength
      | cons y b =>
          rw [List.cons_append, List.cons_append, List.cons_lt_cons_iff]
          exact (List.cons_lt_cons_iff.mp h).imp_right fun hrest =>
            ⟨hrest.1, ih (Nat.succ.inj hlength) hrest.2⟩

theorem digit_lt {m n : ℤ} (hm : 0 ≤ m) (h : m < n) (hn : n < 10) : digit m < digit n := by
  rw [UInt8.lt_iff_toNat_lt, digit, digit, UInt8.toNat_ofNat', UInt8.toNat_ofNat']
  omega

theorem two_lt {m n : ℤ} (hm : 0 ≤ m) (h : m < n) (hn : n < 100) : two m < two n := by
  rw [two, two, List.cons_lt_cons_iff]
  by_cases htens : m / 10 = n / 10
  · refine Or.inr ⟨by rw [htens], ?_⟩
    rw [List.cons_lt_cons_iff]
    exact Or.inl (digit_lt (by omega) (by omega) (by omega))
  · exact Or.inl (digit_lt (by omega) (by omega) (by omega))

/-- A number of four digits is printed as two and two. -/
theorem ascii_four {n : Nat} (hlow : 1000 ≤ n) (hhigh : n < 10000) :
    ascii (toString n) = two (n / 100 : ℤ) ++ two (n % 100 : ℤ) := by
  have hdigit : ∀ d < 10, UInt8.ofNat (Nat.digitChar d).toNat = UInt8.ofNat (48 + d) := by decide
  rw [Numeral.ascii_nat, Nat.toDigits_of_base_le (by decide) (by omega),
    Nat.toDigits_of_base_le (by decide) (by omega), Nat.toDigits_of_base_le (by decide) (by omega),
    Nat.toDigits_of_lt_base (by omega)]
  simp only [List.map_cons, List.map_nil, List.cons_append, List.nil_append, two, digit]
  rw [hdigit _ (by omega), hdigit _ (by omega), hdigit _ (by omega), hdigit _ (by omega),
    show (n / 100 / 10 : ℤ).toNat = n / 10 / 10 / 10 by omega,
    show (n / 100 % 10 : ℤ).toNat = n / 10 / 10 % 10 by omega,
    show (n % 100 / 10 : ℤ).toNat = n / 10 % 10 by omega,
    show (n % 100 % 10 : ℤ).toNat = n % 10 by omega]

/-- The year has four digits. -/
def FourDigits (t : ℤ) : Prop := 1000 ≤ (gmtime t).year ∧ (gmtime t).year < 10000

instance (t : ℤ) : Decidable (FourDigits t) := inferInstanceAs (Decidable (_ ∧ _))

theorem year_lt {m n : ℤ} (hlow : 1000 ≤ m) (h : m < n) (hhigh : n < 10000) :
    ascii (toString m) < ascii (toString n) := by
  obtain ⟨m, rfl⟩ := Int.eq_ofNat_of_zero_le (by omega : 0 ≤ m)
  obtain ⟨n, rfl⟩ := Int.eq_ofNat_of_zero_le (by omega : 0 ≤ n)
  rw [show toString (m : ℤ) = toString m from rfl, show toString (n : ℤ) = toString n from rfl,
    ascii_four (by omega) (by omega), ascii_four (by omega) (by omega)]
  by_cases hhundreds : m / 100 = n / 100
  · rw [show (m / 100 : ℤ) = n / 100 by omega]
    exact List.append_left_lt (two_lt (by omega) (by omega) (by omega))
  · have hless : (m / 100 : ℤ) < n / 100 := by omega
    exact append_lt_append (by rfl) (two_lt (by omega) hless (by omega)) _ _

theorem length_year {m : ℤ} (hlow : 1000 ≤ m) (hhigh : m < 10000) :
    (ascii (toString m)).length = 4 := by
  obtain ⟨m, rfl⟩ := Int.eq_ofNat_of_zero_le (by omega : 0 ≤ m)
  rw [show toString (m : ℤ) = toString m from rfl, ascii_four (by omega) (by omega)]
  rfl

/-- A field that is smaller decides, whatever is behind it; fields that are the same leave it to
what is behind them. -/
theorem field_lt {m n : ℤ} {s t : Text} (hm : 0 ≤ m) (hn : n < 100)
    (h : m < n ∨ m = n ∧ s < t) : two m ++ s < two n ++ t := by
  rcases h with hlt | ⟨heq, hrest⟩
  · exact append_lt_append (by rfl) (two_lt hm hlt hn) _ _
  · rw [heq]
    exact List.append_left_lt hrest

theorem text_lt_of_before {a b : Tm} (hlow : 1000 ≤ a.year) (hhigh : b.year < 10000)
    (ha : 0 ≤ a.month ∧ 0 ≤ a.day ∧ 0 ≤ a.hour ∧ 0 ≤ a.minute ∧ 0 ≤ a.second)
    (hb : b.month < 100 ∧ b.day < 100 ∧ b.hour < 100 ∧ b.minute < 100 ∧ b.second < 100)
    (h : a.Before b) : a.text < b.text := by
  obtain ⟨hmonth, hday, hhour, hminute, hsecond⟩ := ha
  obtain ⟨hmonth', hday', hhour', hminute', hsecond'⟩ := hb
  rw [Tm.text, Tm.text]
  rcases h with hyear | ⟨hyear, h⟩
  · refine append_lt_append ?_ (year_lt hlow hyear hhigh) _ _
    rw [length_year hlow (by omega), length_year (by omega) hhigh]
  rw [hyear]
  refine List.append_left_lt (List.append_left_lt (field_lt hmonth hmonth' ?_))
  refine h.imp_right (And.imp_right fun h => List.append_left_lt (field_lt hday hday' ?_))
  refine h.imp_right (And.imp_right fun h => List.append_left_lt (field_lt hhour hhour' ?_))
  refine h.imp_right (And.imp_right fun h => List.append_left_lt (field_lt hminute hminute' ?_))
  refine h.imp_right (And.imp_right fun h => List.append_left_lt (field_lt hsecond hsecond' ?_))
  exact Or.inl h

theorem gmtime_bounds (t : ℤ) :
    (0 ≤ (gmtime t).month ∧ 0 ≤ (gmtime t).day ∧ 0 ≤ (gmtime t).hour ∧ 0 ≤ (gmtime t).minute ∧
      0 ≤ (gmtime t).second) ∧
      (gmtime t).month < 100 ∧ (gmtime t).day < 100 ∧ (gmtime t).hour < 100 ∧
        (gmtime t).minute < 100 ∧ (gmtime t).second < 100 := by
  have hday := dayOfMonth_bounds (t / 86400 + epoch)
  simp only [gmtime]
  omega

/-- No byte of the text is zero. -/
theorem text_noNul (t : ℤ) : (gmtime t).text.All (· ≠ 0) := by
  have hdigit : ∀ b, CType.isDigit b = true → b ≠ 0 := fun b hb => by
    rintro rfl
    cases hb
  have hyear : (ascii (toString (gmtime t).year)).All (· ≠ 0) := by
    intro b hb
    rw [Numeral.ascii_int] at hb
    split at hb
    · rcases List.mem_cons.mp hb with rfl | hb
      · decide
      · exact hdigit b (Numeral.nat_digits _ b hb)
    · exact hdigit b (Numeral.nat_digits _ b hb)
  have htwo : ∀ {n : ℤ}, 0 ≤ n → n < 100 → (two n).All (· ≠ 0) := by
    intro n hlow hhigh b hb
    have hne : ∀ d : ℤ, d < 10 → digit d ≠ 0 := fun d hd h => by
      have hbyte := congrArg UInt8.toNat h
      rw [digit, UInt8.toNat_ofNat'] at hbyte
      simp only [UInt8.toNat_zero] at hbyte
      omega
    simp only [two, List.mem_cons, List.not_mem_nil, or_false] at hb
    rcases hb with rfl | rfl
    · exact hne _ (by omega)
    · exact hne _ (by omega)
  obtain ⟨⟨hmonth, hday, hhour, hminute, hsecond⟩, hmonth', hday', hhour', hminute', hsecond'⟩ :=
    gmtime_bounds t
  have hdash : (ascii "-").All (· ≠ 0) := by decide
  have hT : (ascii "T").All (· ≠ 0) := by decide
  have hcolon : (ascii ":").All (· ≠ 0) := by decide
  have hZ : (ascii "Z").All (· ≠ 0) := by decide
  simp only [Tm.text, Text.All, List.forall_mem_append]
  exact ⟨hyear, hdash, htwo hmonth hmonth', hdash, htwo hday hday', hT, htwo hhour hhour', hcolon,
    htwo hminute hminute', hcolon, htwo hsecond hsecond', hZ⟩

/-- With four digits to the year, a later second has the greater text. -/
theorem text_lt_text {t t' : ℤ} (ht : FourDigits t) (ht' : FourDigits t') :
    (gmtime t).text < (gmtime t').text ↔ t < t' := by
  have hlt : ∀ {a b : ℤ}, FourDigits a → FourDigits b → a < b →
      (gmtime a).text < (gmtime b).text := fun ha hb h =>
    text_lt_of_before ha.1 hb.2 (gmtime_bounds _).1 (gmtime_bounds _).2 (gmtime_before h)
  constructor
  · intro h
    rcases Int.lt_trichotomy t t' with hless | rfl | hmore
    · exact hless
    · exact absurd h (List.lt_irrefl _)
    · exact absurd h (List.lt_asymm (hlt ht' ht hmore))
  · exact hlt ht ht'

end Calendar
