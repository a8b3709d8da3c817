import IndustrialHmi.Theory.Binary32
import IndustrialHmi.Theory.JsonWriter
import Mathlib.Data.List.TakeWhile
import Mathlib.Data.Nat.Cast.Field
import Mathlib.Data.Nat.Cast.Order.Field
import Mathlib.Data.Rat.Cast.Order

/-!
# Numbers as text

What the libraries of C and C++ read from a text.  Every reader takes as much of the text as it
can and says what follows.  `from_chars` takes digits, and a minus for a signed number.  `stoi`,
`strtof` and `stof` skip white space first and take either sign.

`strtof` knows four spellings of a number: decimal and hexadecimal with an exponent, the word for
an infinity, and the word for what is not a number, with or without a sequence in parentheses.
A number is rounded once, from its exact value.  The decimal point is that of the locale, the
`Lconv` in force, and nothing else depends on it.

A whole number that was printed is read back (`fromChars_nat`, `fromChars_int`).  A number that
was printed with one decimal is read back where the decimal point is a point, and up to its point
elsewhere (`strtof_oneDecimal`).
-/

/-! ## Characters -/

namespace CType

def isSpace (b : UInt8) : Bool := b = 0x20 ∨ 0x09 ≤ b ∧ b ≤ 0x0D
def isDigit (b : UInt8) : Bool := 0x30 ≤ b ∧ b ≤ 0x39
def isAlpha (b : UInt8) : Bool := 0x41 ≤ b ∧ b ≤ 0x5A ∨ 0x61 ≤ b ∧ b ≤ 0x7A
def isXDigit (b : UInt8) : Bool := isDigit b ∨ 0x41 ≤ b ∧ b ≤ 0x46 ∨ 0x61 ≤ b ∧ b ≤ 0x66
def toLower (b : UInt8) : UInt8 := if 0x41 ≤ b ∧ b ≤ 0x5A then b + 0x20 else b

/-- White space is removed from both ends. -/
def trim (t : Text) : Text := ((t.dropWhile isSpace).reverse.dropWhile isSpace).reverse

/-- A property of every byte is checked byte by byte. -/
theorem forall_byte {P : UInt8 → Prop} (h : ∀ n : Fin 256, P (UInt8.ofFin n)) (b : UInt8) : P b :=
  h b.toFin

theorem isSpace_toLower (b : UInt8) : isSpace (toLower b) = isSpace b := by
  refine forall_byte (P := fun b => isSpace (toLower b) = isSpace b) ?_ b
  decide +kernel

theorem head_dropWhile (p : UInt8 → Bool) (t : Text) :
    ∀ b ∈ (t.dropWhile p).head?, p b = false := by
  intro b hb
  induction t with
  | nil => cases hb
  | cons a t ih =>
      rw [List.dropWhile_cons] at hb
      split at hb
      · exact ih hb
      · next ha =>
          cases hb
          exact Bool.not_eq_true _ ▸ ha

theorem dropWhile_eq_self {p : UInt8 → Bool} {t : Text} (h : ∀ b ∈ t.head?, p b = false) :
    t.dropWhile p = t := by
  cases t with
  | nil => rfl
  | cons b t => rw [List.dropWhile_cons, h b rfl]; rfl

/-- A run of bytes of a kind ends where another kind begins. -/
theorem takeWhile_run {p : UInt8 → Bool} {run rest : Text} (hrun : run.All fun b => p b = true)
    (hrest : ∀ b ∈ rest.head?, p b = false) :
    (run ++ rest).takeWhile p = run ∧ (run ++ rest).dropWhile p = rest := by
  constructor
  · rw [List.takeWhile_append_of_pos hrun]
    cases rest with
    | nil => exact List.append_nil run
    | cons b rest => rw [List.takeWhile_cons, hrest b rfl]; exact List.append_nil run
  · rw [List.dropWhile_append_of_pos hrun, dropWhile_eq_self hrest]

theorem trim_eq_self {t : Text} (hfirst : ∀ b ∈ t.head?, isSpace b = false)
    (hlast : ∀ b ∈ t.getLast?, isSpace b = false) : trim t = t := by
  rw [trim, dropWhile_eq_self hfirst, dropWhile_eq_self (by rwa [List.head?_reverse]),
    List.reverse_reverse]

/-- What is left of a text has no white space at either end. -/
theorem trim_ends (t : Text) :
    (∀ b ∈ (trim t).head?, isSpace b = false) ∧ ∀ b ∈ (trim t).getLast?, isSpace b = false := by
  constructor
  · intro b hb
    obtain ⟨pre, hpre⟩ := List.dropWhile_suffix isSpace (l := (t.dropWhile isSpace).reverse)
    have hfront : t.dropWhile isSpace = trim t ++ pre.reverse := by
      rw [trim, ← List.reverse_append, hpre, List.reverse_reverse]
    refine head_dropWhile isSpace t b ?_
    rw [hfront, List.head?_append]
    exact Option.mem_def.mpr (by rw [Option.mem_def.mp hb]; rfl)
  · intro b hb
    rw [trim, List.getLast?_reverse] at hb
    exact head_dropWhile isSpace _ b hb

end CType

namespace Numeral

open CType

def minus : UInt8 := 0x2D
def plus : UInt8 := 0x2B
def point : UInt8 := 0x2E

/-- What `localeconv` says of the locale that numbers are read in.  The decimal point is one
character, and the byte of a point begins no other. -/
class Lconv where
  decimalPoint : Text
  ne_nil : decimalPoint ≠ []
  alone : decimalPoint.head? = some point → decimalPoint = [point]

/-- The locale that a program starts in. -/
@[reducible] def Lconv.c : Lconv := ⟨[point], by decide, fun _ => rfl⟩

/-- A locale with a comma, such as the German one. -/
@[reducible] def Lconv.comma : Lconv := ⟨[0x2C], by decide, by decide⟩

/-- The decimal point is a point. -/
def Lconv.Pointed [Lconv] : Prop := Lconv.decimalPoint = [point]

instance [Lconv] : Decidable Lconv.Pointed := inferInstanceAs (Decidable (_ = _))

/-! ## Digits -/

/-- The value of a digit, in a base up to sixteen. -/
def digitValue (b : UInt8) : Nat :=
  if isDigit b then b.toNat - 0x30 else (toLower b).toNat - 0x61 + 10

def ofDigits (base : Nat) (t : Text) : Nat := t.foldl (fun n b => base * n + digitValue b) 0

/-- `std::from_chars` for an unsigned number below a bound: the number and what follows it. -/
def fromCharsUnsigned (bound : Nat) (t : Text) : Option (Nat × Text) :=
  let digits := t.takeWhile isDigit
  if digits = [] then none
  else if ofDigits 10 digits < bound then some (ofDigits 10 digits, t.dropWhile isDigit)
  else none

/-- A minus, and what follows it. -/
def takeMinus : Text → Bool × Text
  | [] => (false, [])
  | b :: t => if b = minus then (true, t) else (false, b :: t)

/-- A minus or a plus, and what follows it. -/
def takeSign : Text → Bool × Text
  | [] => (false, [])
  | b :: t =>
      if b = minus then (true, t) else if b = plus then (false, t) else (false, b :: t)

def signed (negative : Bool) (n : Nat) : ℤ := if negative then -n else n

def inInt (i : ℤ) : Bool := -2147483648 ≤ i ∧ i ≤ 2147483647

/-- `std::from_chars` for an `int`. -/
def fromCharsInt (t : Text) : Option (ℤ × Text) :=
  let (negative, body) := takeMinus t
  let digits := body.takeWhile isDigit
  if digits = [] then none
  else
    let i := signed negative (ofDigits 10 digits)
    if inInt i then some (i, body.dropWhile isDigit) else none

/-- `std::stoi`; what it throws is not told apart. -/
def stoi (t : Text) : Option ℤ :=
  let (negative, body) := takeSign (t.dropWhile isSpace)
  let digits := body.takeWhile isDigit
  if digits = [] then none
  else
    let i := signed negative (ofDigits 10 digits)
    if inInt i then some i else none

/-! ## Whole numbers that were printed -/

theorem ascii_nat (n : Nat) :
    ascii (toString n) = (Nat.toDigits 10 n).map fun c => UInt8.ofNat c.toNat := by
  have hprint : toString n = String.ofList (Nat.toDigits 10 n) := Nat.repr_eq_ofList_toDigits
  have hdigits : ∀ c ∈ Nat.toDigits 10 n, c.isDigit = true :=
    fun c hc => Nat.isDigit_of_mem_toDigits (by decide) (by decide) hc
  rw [hprint, JsonText.ascii_ofList]
  generalize Nat.toDigits 10 n = cs at hdigits
  induction cs with
  | nil => rfl
  | cons c cs ih =>
      have hdigit := hdigits c List.mem_cons_self
      have hsmall : c.val.toNat ≤ 57 := by
        simp only [Char.isDigit, Bool.and_eq_true, decide_eq_true_eq] at hdigit
        exact hdigit.2
      rw [List.flatMap_cons, List.map_cons,
        ih fun c' hc' => hdigits c' (List.mem_cons_of_mem c hc'), String.utf8EncodeChar,
        if_pos (by omega)]
      rfl

theorem nat_ne_nil (n : Nat) : ascii (toString n) ≠ [] := by
  rw [ascii_nat]
  exact fun h => Nat.toDigits_ne_nil (List.map_eq_nil_iff.mp h)

/-- The byte of a digit. -/
theorem digit_byte {c : Char} (h : c.isDigit = true) :
    isDigit (UInt8.ofNat c.toNat) = true ∧ digitValue (UInt8.ofNat c.toNat) = c.toNat - 48 := by
  have hbounds : 48 ≤ c.toNat ∧ c.toNat ≤ 57 := by
    simp only [Char.isDigit, Bool.and_eq_true, decide_eq_true_eq] at h
    exact h
  have hbyte : (UInt8.ofNat c.toNat).toNat = c.toNat := Nat.mod_eq_of_lt (by omega)
  have hdigit : isDigit (UInt8.ofNat c.toNat) = true := by
    rw [isDigit, decide_eq_true_eq, UInt8.le_iff_toNat_le, UInt8.le_iff_toNat_le, hbyte]
    exact hbounds
  refine ⟨hdigit, ?_⟩
  rw [digitValue, if_pos hdigit, hbyte]

theorem nat_digits (n : Nat) : (ascii (toString n)).All fun b => isDigit b = true := by
  intro b hb
  rw [ascii_nat, List.mem_map] at hb
  obtain ⟨c, hc, rfl⟩ := hb
  exact (digit_byte (Nat.isDigit_of_mem_toDigits (by decide) (by decide) hc)).1

theorem ofDigits_nat (n : Nat) : ofDigits 10 (ascii (toString n)) = n := by
  have hfold : ∀ (cs : List Char) (m : Nat), (∀ c ∈ cs, c.isDigit = true) →
      (cs.map fun c => UInt8.ofNat c.toNat).foldl (fun n b => 10 * n + digitValue b) m =
        Nat.ofDigitChars 10 cs m := by
    intro cs
    induction cs with
    | nil => exact fun _ _ => rfl
    | cons c cs ih =>
        intro m h
        rw [List.map_cons, List.foldl_cons, Nat.ofDigitChars_cons,
          (digit_byte (h c List.mem_cons_self)).2]
        exact ih _ fun c' hc' => h c' (List.mem_cons_of_mem c hc')
  rw [ofDigits, ascii_nat, hfold _ _ fun c hc =>
    Nat.isDigit_of_mem_toDigits (by decide) (by decide) hc]
  exact Nat.ofDigitChars_ten_toDigits

/-- Different numbers are printed differently. -/
theorem nat_injective {m n : Nat} (h : ascii (toString m) = ascii (toString n)) : m = n := by
  rw [← ofDigits_nat m, h, ofDigits_nat]

theorem toString_injective {m n : Nat} (h : toString m = toString n) : m = n :=
  nat_injective (congrArg ascii h)

/-- The digits of a printed number are its longest run. -/
theorem nat_run (n : Nat) {rest : Text} (h : ∀ b ∈ rest.head?, isDigit b = false) :
    (ascii (toString n) ++ rest).takeWhile isDigit = ascii (toString n) ∧
      (ascii (toString n) ++ rest).dropWhile isDigit = rest :=
  takeWhile_run (nat_digits n) h

theorem fromChars_nat {n bound : Nat} (hn : n < bound) {rest : Text}
    (h : ∀ b ∈ rest.head?, isDigit b = false) :
    fromCharsUnsigned bound (ascii (toString n) ++ rest) = some (n, rest) := by
  obtain ⟨htake, hdrop⟩ := nat_run n h
  simp only [fromCharsUnsigned, htake, hdrop, ofDigits_nat, if_neg (nat_ne_nil n), if_pos hn]

theorem ascii_append (a b : String) : ascii (a ++ b) = ascii a ++ ascii b := by
  rw [ascii, String.toByteArray_append, ByteArray.data_append, Array.toList_append]
  rfl

/-- A negative number is printed as a minus and its magnitude. -/
theorem ascii_int (i : ℤ) :
    ascii (toString i) =
      if i < 0 then minus :: ascii (toString i.natAbs) else ascii (toString i.natAbs) := by
  cases i with
  | ofNat n => exact (if_neg (Int.not_lt.mpr (Int.natCast_nonneg n))).symm
  | negSucc n =>
      rw [if_pos (Int.negSucc_lt_zero n)]
      exact ascii_append "-" (toString (n + 1))

theorem signed_natAbs (i : ℤ) : signed (decide (i < 0)) i.natAbs = i := by
  by_cases h : i < 0
  · rw [signed, if_pos (decide_eq_true h)]
    omega
  · rw [signed, if_neg (by rwa [decide_eq_true_eq])]
    omega

theorem nat_head (n : Nat) (rest : Text) :
    ∀ b ∈ (ascii (toString n) ++ rest).head?, isDigit b = true := by
  have hdigits := nat_digits n
  have hne := nat_ne_nil n
  cases hwhole : ascii (toString n) with
  | nil => exact absurd hwhole hne
  | cons c whole =>
      rw [hwhole] at hdigits
      intro b hb
      cases hb
      exact hdigits c List.mem_cons_self

theorem takeMinus_int (i : ℤ) (rest : Text) :
    takeMinus (ascii (toString i) ++ rest) =
      (decide (i < 0), ascii (toString i.natAbs) ++ rest) := by
  rw [ascii_int]
  by_cases h : i < 0
  · rw [if_pos h, decide_eq_true h]
    rfl
  · rw [if_neg h, decide_eq_false h]
    have hhead := nat_head i.natAbs rest
    generalize ascii (toString i.natAbs) ++ rest = t at hhead ⊢
    cases t with
    | nil => rfl
    | cons b t =>
        refine if_neg ?_
        rintro rfl
        exact absurd (hhead minus rfl) (by decide)

theorem fromChars_int {i : ℤ} (hi : inInt i = true) {rest : Text}
    (h : ∀ b ∈ rest.head?, isDigit b = false) :
    fromCharsInt (ascii (toString i) ++ rest) = some (i, rest) := by
  obtain ⟨htake, hdrop⟩ := nat_run i.natAbs h
  simp only [fromCharsInt, takeMinus_int, htake, hdrop, ofDigits_nat, if_neg (nat_ne_nil _),
    signed_natAbs, if_pos hi]

/-! ## Floating-point numbers -/

/-- What a text without its sign stands for. -/
inductive Magnitude where
  | infinity
  | nan
  | rational (q : ℚ)

/-- What `strtof` reads. -/
structure Reading where
  value : Binary32
  /-- `errno` is `ERANGE`: the number overflows, or is subnormal and not exact. -/
  outOfRange : Bool
  rest : Text

def Magnitude.reading (negative : Bool) (rest : Text) : Magnitude → Reading
  | .infinity => { value := .inf negative, outOfRange := false, rest }
  | .nan => { value := .nan, outOfRange := false, rest }
  | .rational q =>
      let exact := if negative then -q else q
      let value := Binary32.round exact
      let outOfRange :=
        match value with
        | .fin r => decide (|r| < 1 / 2 ^ 126 ∧ r ≠ exact)
        | _ => true
      { value, outOfRange, rest }

/-- What follows a word in any case. -/
def keyword (word t : Text) : Option Text :=
  if (t.take word.length).map toLower = word then some (t.drop word.length) else none

def isNameChar (b : UInt8) : Bool := isDigit b || isAlpha b || b = 0x5F

/-- What follows the sequence in parentheses, if there is one. -/
def nanSequence : Text → Text
  | [] => []
  | b :: t =>
      if b = 0x28 ∧ (t.dropWhile isNameChar).head? = some 0x29 then (t.dropWhile isNameChar).tail
      else b :: t

/-- What follows a decimal point. -/
def afterPoint [Lconv] (t : Text) : Option Text :=
  if Lconv.decimalPoint <+: t then some (t.drop Lconv.decimalPoint.length) else none

theorem afterPoint_pointed [Lconv] (h : Lconv.Pointed) (t : Text) :
    afterPoint (point :: t) = some t := by
  have hpoint : Lconv.decimalPoint = [point] := h
  rw [afterPoint, hpoint, if_pos ⟨t, rfl⟩]
  rfl

theorem afterPoint_not_pointed [Lconv] (h : ¬Lconv.Pointed) (t : Text) :
    afterPoint (point :: t) = none := by
  rw [afterPoint, if_neg]
  rintro ⟨rest, hrest⟩
  refine h (Lconv.alone ?_)
  have hhead := congrArg List.head? hrest
  rw [List.head?_append_of_ne_nil _ Lconv.ne_nil] at hhead
  exact hhead

/-- Digits with at most one point: those before it, those behind it, and what follows. -/
def significand [Lconv] (isDig : UInt8 → Bool) (t : Text) : Option (Text × Text × Text) :=
  let whole := t.takeWhile isDig
  let rest := t.dropWhile isDig
  let fraction := ((afterPoint rest).map (List.takeWhile isDig)).getD []
  if whole = [] ∧ fraction = [] then none
  else
    let rest := ((afterPoint rest).map (List.dropWhile isDig)).getD rest
    some (whole, fraction, rest)

/-- An exponent behind its letter, zero if there is none. -/
def exponentPart (letter : UInt8) : Text → ℤ × Text
  | [] => (0, [])
  | b :: t =>
      let (negative, body) := takeSign t
      let digits := body.takeWhile isDigit
      if toLower b = letter ∧ digits ≠ [] then
        (signed negative (ofDigits 10 digits), body.dropWhile isDigit)
      else (0, b :: t)

def decimalNumber [Lconv] (t : Text) : Option (Magnitude × Text) :=
  (significand isDigit t).map fun (whole, fraction, rest) =>
    let (e, rest) := exponentPart 0x65 rest
    (.rational (ofDigits 10 (whole ++ fraction) * (10 : ℚ) ^ (e - fraction.length)), rest)

def hexNumber [Lconv] : Text → Option (Magnitude × Text)
  | zero :: x :: t =>
      if zero = 0x30 ∧ toLower x = 0x78 then
        (significand isXDigit t).map fun (whole, fraction, rest) =>
          let (e, rest) := exponentPart 0x70 rest
          (.rational (ofDigits 16 (whole ++ fraction) * (2 : ℚ) ^ (e - 4 * fraction.length)), rest)
      else none
  | _ => none

/-- The longest spelling at the front of a text without a sign. -/
def magnitude [Lconv] (t : Text) : Option (Magnitude × Text) :=
  ((keyword (ascii "infinity") t).map fun rest => (.infinity, rest)) <|>
  ((keyword (ascii "inf") t).map fun rest => (.infinity, rest)) <|>
  ((keyword (ascii "nan") t).map fun rest => (.nan, nanSequence rest)) <|>
  hexNumber t <|>
  decimalNumber t

/-- `strtof`; nothing if there is no conversion. -/
def strtof [Lconv] (t : Text) : Option Reading :=
  let (negative, body) := takeSign (t.dropWhile isSpace)
  (magnitude body).map fun (m, rest) => m.reading negative rest

/-- `std::stof`; what it throws is not told apart. -/
def stof [Lconv] (t : Text) : Option Binary32 :=
  (strtof t).bind fun r => if r.outOfRange then none else some r.value

theorem afterPoint_nil [Lconv] : afterPoint [] = none := by
  simp [afterPoint, Lconv.ne_nil]

theorem magnitude_nil [Lconv] : magnitude [] = none := by
  have hdigits : decimalNumber [] = none := by
    simp [decimalNumber, significand, afterPoint_nil]
  rw [magnitude, hdigits]
  rfl

theorem strtof_nil [Lconv] : strtof [] = none := by
  rw [strtof, show takeSign (([] : Text).dropWhile isSpace) = (false, []) from rfl]
  simp only [magnitude_nil, Option.map_none]

/-- A sign alone is no number. -/
theorem stof_minus [Lconv] : stof [minus] = none := by
  rw [stof, strtof, show takeSign ([minus].dropWhile isSpace) = (true, []) from rfl]
  simp only [magnitude_nil, Option.map_none, Option.bind_none]

/-! ## What is not a number -/

theorem keyword_eq_some {word t rest : Text} :
    keyword word t = some rest ↔ ∃ w, t = w ++ rest ∧ w.map toLower = word := by
  constructor
  · intro h
    rw [keyword] at h
    split at h
    · next hword =>
        cases h
        exact ⟨t.take word.length, (List.take_append_drop _ _).symm, hword⟩
    · cases h
  · rintro ⟨w, rfl, rfl⟩
    rw [keyword, List.length_map, List.take_left, if_pos rfl, List.drop_left]

/-- A text that begins otherwise than a word does not hold it. -/
theorem keyword_of_head {b c : UInt8} {word t : Text} (h : toLower b ≠ c) :
    keyword (c :: word) (b :: t) = none := by
  rw [keyword, if_neg]
  intro heq
  rw [List.length_cons, List.take_succ_cons, List.map_cons] at heq
  exact h (List.cons.inj heq).1

theorem reading_eq_nan {m : Magnitude} {negative : Bool} {rest : Text} :
    (m.reading negative rest).value = .nan ↔ m = .nan := by
  cases m with
  | infinity =>
      refine iff_of_false ?_ fun h => by cases h
      cases negative <;> exact fun h => by cases h
  | nan => exact ⟨fun _ => rfl, fun _ => rfl⟩
  | rational q => exact iff_of_false (Binary32.round_ne_nan _) fun h => by cases h

theorem reading_rest (m : Magnitude) (negative : Bool) (rest : Text) :
    (m.reading negative rest).rest = rest := by
  cases m <;> rfl

theorem decimalNumber_ne_nan [Lconv] {t rest : Text} : decimalNumber t ≠ some (.nan, rest) := by
  intro h
  rw [decimalNumber, Option.map_eq_some_iff] at h
  obtain ⟨_, _, h⟩ := h
  cases h

theorem hexNumber_ne_nan [Lconv] {t rest : Text} : hexNumber t ≠ some (.nan, rest) := by
  intro h
  match t, h with
  | zero :: x :: t, h =>
      rw [hexNumber] at h
      split at h
      · rw [Option.map_eq_some_iff] at h
        obtain ⟨_, _, h⟩ := h
        cases h
      · cases h

/-- Only the word gives what is not a number. -/
theorem magnitude_eq_nan [Lconv] {t rest : Text} :
    magnitude t = some (.nan, rest) ↔
      ∃ tail, keyword (ascii "nan") t = some tail ∧ rest = nanSequence tail := by
  simp only [magnitude, Option.orElse_eq_orElse, Option.orElse_eq_or, Option.or_eq_some_iff,
    Option.map_eq_some_iff, Option.map_eq_none_iff]
  constructor
  · rintro (⟨_, _, h⟩ | ⟨-, ⟨_, _, h⟩ | ⟨-, ⟨tail, htail, h⟩ | ⟨-, h | ⟨-, h⟩⟩⟩⟩)
    · cases h
    · cases h
    · cases h
      exact ⟨tail, htail, rfl⟩
    · exact absurd h hexNumber_ne_nan
    · exact absurd h decimalNumber_ne_nan
  · rintro ⟨tail, htail, rfl⟩
    have hother : ∀ word : Text, keyword (0x69 :: word) t = none := by
      intro word
      obtain ⟨w, rfl, hw⟩ := keyword_eq_some.mp htail
      cases w with
      | nil => cases hw
      | cons b w =>
          refine keyword_of_head ?_
          rw [List.map_cons] at hw
          rw [(List.cons.inj hw).1]
          decide
    exact Or.inr ⟨hother _, Or.inr ⟨hother _, Or.inl ⟨tail, htail, rfl⟩⟩⟩

theorem nanSequence_eq_nil {t : Text} :
    nanSequence t = [] ↔
      t = [] ∨ ∃ chars : Text, (chars.All fun b => isNameChar b = true) ∧
        t = 0x28 :: (chars ++ [0x29]) := by
  cases t with
  | nil => exact ⟨fun _ => Or.inl rfl, fun _ => rfl⟩
  | cons b t =>
      rw [nanSequence]
      constructor
      · intro h
        split at h
        · next hseq =>
            obtain ⟨rfl, hhead⟩ := hseq
            refine Or.inr ⟨t.takeWhile isNameChar, fun c hc => List.mem_takeWhile_imp hc, ?_⟩
            have hrest : t.dropWhile isNameChar = [0x29] := by
              rw [← List.cons_head?_tail hhead, h]
            rw [← hrest, List.takeWhile_append_dropWhile]
        · cases h
      · rintro (h | ⟨chars, hchars, h⟩)
        · cases h
        · cases h
          obtain ⟨-, hdrop⟩ := @takeWhile_run isNameChar chars [0x29] hchars
            (Text.forall_head (by decide) _)
          rw [hdrop, if_pos ⟨rfl, rfl⟩]
          rfl

/-- What spells something that is not a number: a sign, the word in any case, and a sequence in
parentheses. -/
def SpellsNan (t : Text) : Prop :=
  ∃ sign word tail, t = sign ++ (word ++ tail) ∧ sign ∈ [[], [minus], [plus]] ∧
    word.map toLower = ascii "nan" ∧
    (tail = [] ∨ ∃ chars : Text, (chars.All fun b => isNameChar b = true) ∧
      tail = 0x28 :: (chars ++ [0x29]))

/-- A text is a sign and what follows it. -/
theorem takeSign_append (t : Text) :
    ∃ sign, sign ∈ [[], [minus], [plus]] ∧ t = sign ++ (takeSign t).2 := by
  cases t with
  | nil => exact ⟨[], List.mem_cons_self, rfl⟩
  | cons b t =>
      rw [takeSign]
      split
      · next h => exact ⟨[minus], by decide, by rw [h]; rfl⟩
      · split
        · next h => exact ⟨[plus], by decide, by rw [h]; rfl⟩
        · exact ⟨[], List.mem_cons_self, rfl⟩

theorem takeSign_sign {sign t : Text} (hsign : sign ∈ [[], [minus], [plus]])
    (ht : ∀ b ∈ t.head?, b ≠ minus ∧ b ≠ plus) :
    takeSign (sign ++ t) = (decide (sign = [minus]), t) := by
  simp only [List.mem_cons, List.not_mem_nil, or_false] at hsign
  rcases hsign with rfl | rfl | rfl
  · cases t with
    | nil => rfl
    | cons b t =>
        obtain ⟨hminus, hplus⟩ := ht b rfl
        rw [List.nil_append, takeSign, if_neg hminus, if_neg hplus]
        rfl
  · rfl
  · rfl

/-- `strtof` takes all of a text for something that is not a number if the text spells it. -/
theorem strtof_eq_nan [Lconv] {t : Text} :
    (∃ r, strtof t = some r ∧ r.rest = [] ∧ r.value = .nan) ↔ SpellsNan (t.dropWhile isSpace) := by
  simp only [strtof]
  generalize t.dropWhile isSpace = t
  constructor
  · rintro ⟨r, hr, hrest, hvalue⟩
    rw [Option.map_eq_some_iff] at hr
    obtain ⟨⟨m, rest⟩, hm, rfl⟩ := hr
    rw [reading_rest] at hrest
    rw [reading_eq_nan] at hvalue
    obtain rfl : rest = [] := hrest
    obtain rfl : m = .nan := hvalue
    obtain ⟨tail, htail, hseq⟩ := magnitude_eq_nan.mp hm
    obtain ⟨word, hbody, hword⟩ := keyword_eq_some.mp htail
    obtain ⟨sign, hsign, ht⟩ := takeSign_append t
    exact ⟨sign, word, tail, by rw [← hbody]; exact ht, hsign, hword,
      nanSequence_eq_nil.mp hseq.symm⟩
  · rintro ⟨sign, word, tail, rfl, hsign, hword, htail⟩
    have hhead : ∀ b ∈ (word ++ tail).head?, b ≠ minus ∧ b ≠ plus := by
      cases word with
      | nil => cases hword
      | cons b word =>
          intro b' hb'
          cases hb'
          rw [List.map_cons] at hword
          have hb := (List.cons.inj hword).1
          refine ⟨?_, ?_⟩
          · rintro rfl
            exact absurd hb (by decide)
          · rintro rfl
            exact absurd hb (by decide)
    have hmagnitude : magnitude (word ++ tail) = some (.nan, []) :=
      magnitude_eq_nan.mpr ⟨tail, keyword_eq_some.mpr ⟨word, rfl, hword⟩,
        (nanSequence_eq_nil.mpr htail).symm⟩
    rw [takeSign_sign hsign hhead]
    exact ⟨_, congrArg (Option.map _) hmagnitude, rfl, rfl⟩

/-! ## One decimal -/

/-- The tenths of a magnitude, ties to even. -/
def tenths (q : ℚ) : Nat := (Binary32.roundEven (|q| * 10)).toNat

/-- `{:.1f}` of a finite value and its sign bit. -/
def oneDecimal (negative : Bool) (q : ℚ) : Text :=
  (if negative then [minus] else []) ++
    (ascii (toString (tenths q / 10)) ++ point :: ascii (toString (tenths q % 10)))

/-- The number that is printed. -/
def printed (negative : Bool) (q : ℚ) : ℚ :=
  if negative then -(tenths q / 10 : ℚ) else tenths q / 10

theorem tenths_le {q : ℚ} {n : ℕ} (h : |q| ≤ n) : tenths q ≤ 10 * n := by
  have hle : |q| * 10 ≤ ((10 * n : ℕ) : ℤ) := by
    push_cast
    linarith
  have hround := Binary32.roundEven_mono hle
  rw [Binary32.roundEven_intCast] at hround
  rw [tenths]
  omega

theorem abs_printed (negative : Bool) (q : ℚ) : |printed negative q| = tenths q / 10 := by
  have hpos : |(tenths q : ℚ) / 10| = tenths q / 10 := abs_of_nonneg (by positivity)
  cases negative with
  | false => exact hpos
  | true => exact (abs_neg _).trans hpos

theorem abs_printed_le (negative : Bool) {q : ℚ} (h : |q| ≤ Binary32.maxFinite) :
    |printed negative q| ≤ Binary32.maxFinite := by
  have hmax : Binary32.maxFinite = ((2 ^ 24 - 1) * 2 ^ 104 : ℕ) := by norm_num [Binary32.maxFinite]
  have hle : (tenths q : ℚ) ≤ 10 * ((2 ^ 24 - 1) * 2 ^ 104 : ℕ) := by
    exact_mod_cast tenths_le (h.trans hmax.le)
  rw [abs_printed, hmax, div_le_iff₀ (by norm_num), mul_comm]
  exact hle

/-- The sign of a value is printed with it. -/
def Signed (negative : Bool) (q : ℚ) : Prop := if negative then q ≤ 0 else 0 ≤ q

/-- What is printed is next to the value. -/
theorem abs_printed_sub_le {negative : Bool} {q : ℚ} (h : Signed negative q) :
    |printed negative q - q| ≤ 1 / 20 := by
  have htenths : (tenths q : ℚ) = Binary32.roundEven (|q| * 10) := by
    have hmono := Binary32.roundEven_mono (show ((0 : ℤ) : ℚ) ≤ |q| * 10 by push_cast; positivity)
    rw [Binary32.roundEven_intCast] at hmono
    rw [tenths]
    exact_mod_cast Int.toNat_of_nonneg hmono
  have hhalf := abs_le.mp (Binary32.abs_roundEven_sub_le (|q| * 10))
  rw [← htenths] at hhalf
  rw [abs_le, printed]
  cases negative with
  | false =>
      rw [abs_of_nonneg (show 0 ≤ q from h)] at hhalf
      simp only [Bool.false_eq_true, if_false]
      constructor <;> linarith [hhalf.1, hhalf.2]
  | true =>
      rw [abs_of_nonpos (show q ≤ 0 from h)] at hhalf
      simp only [if_true]
      constructor <;> linarith [hhalf.1, hhalf.2]

/-- What is printed in front of the point. -/
def wholePart (negative : Bool) (q : ℚ) : ℚ :=
  if negative then -((tenths q / 10 : ℕ) : ℚ) else ((tenths q / 10 : ℕ) : ℚ)

/-- The number that is read of what was printed. -/
def readBack [Lconv] (negative : Bool) (q : ℚ) : ℚ :=
  if Lconv.Pointed then printed negative q else wholePart negative q

theorem abs_wholePart (negative : Bool) (q : ℚ) :
    |wholePart negative q| = ((tenths q / 10 : ℕ) : ℚ) := by
  cases negative with
  | false => exact Nat.abs_cast _
  | true => exact (abs_neg _).trans (Nat.abs_cast _)

theorem abs_wholePart_le (negative : Bool) {q : ℚ} (h : |q| ≤ Binary32.maxFinite) :
    |wholePart negative q| ≤ Binary32.maxFinite := by
  have hprinted := abs_printed_le negative h
  rw [abs_printed] at hprinted
  rw [abs_wholePart]
  exact Nat.cast_div_le.trans hprinted

theorem abs_readBack_le [Lconv] (negative : Bool) {q : ℚ} (h : |q| ≤ Binary32.maxFinite) :
    |readBack negative q| ≤ Binary32.maxFinite := by
  rw [readBack]
  split
  next => exact abs_printed_le negative h
  next => exact abs_wholePart_le negative h

/-- What is read is zero or well above the subnormal numbers. -/
theorem readBack_normal [Lconv] (negative : Bool) (q : ℚ) :
    readBack negative q = 0 ∨ 1 / 2 ^ 126 ≤ |readBack negative q| := by
  rw [readBack]
  split
  next =>
    rcases Nat.eq_zero_or_pos (tenths q) with h | h
    · refine Or.inl (abs_eq_zero.mp ?_)
      rw [abs_printed, h]
      norm_num
    · refine Or.inr ?_
      have hone : (1 : ℚ) ≤ tenths q := by exact_mod_cast h
      rw [abs_printed]
      refine le_trans ?_ (div_le_div_of_nonneg_right hone (by norm_num))
      norm_num
  next =>
    rcases Nat.eq_zero_or_pos (tenths q / 10) with h | h
    · refine Or.inl (abs_eq_zero.mp ?_)
      rw [abs_wholePart, h, Nat.cast_zero]
    · refine Or.inr ?_
      have hone : (1 : ℚ) ≤ (tenths q / 10 : ℕ) := by exact_mod_cast h
      rw [abs_wholePart]
      refine le_trans ?_ hone
      norm_num

/-- Next to a whole number a zero is printed behind the point. -/
theorem tenths_of_near_whole {negative : Bool} {q : ℚ} {n : ℤ}
    (hnear : |(n : ℚ) - printed negative q| ≤ 1 / 20) : tenths q % 10 = 0 := by
  have hhalf := abs_le.mp hnear
  -- the tenths and ten times a whole number are not as much as one apart
  rw [printed] at hhalf
  cases negative with
  | false =>
      simp only [Bool.false_eq_true, if_false] at hhalf
      have hlow : ((10 * n - tenths q : ℤ) : ℚ) < 1 := by push_cast; linarith [hhalf.2]
      have hhigh : (-1 : ℚ) < ((10 * n - tenths q : ℤ) : ℚ) := by push_cast; linarith [hhalf.1]
      have hlow' : 10 * n - tenths q < 1 := by exact_mod_cast hlow
      have hhigh' : -1 < 10 * n - (tenths q : ℤ) := by exact_mod_cast hhigh
      omega
  | true =>
      simp only [if_true] at hhalf
      have hlow : ((10 * n + tenths q : ℤ) : ℚ) < 1 := by push_cast; linarith [hhalf.2]
      have hhigh : (-1 : ℚ) < ((10 * n + tenths q : ℤ) : ℚ) := by push_cast; linarith [hhalf.1]
      have hlow' : 10 * n + tenths q < 1 := by exact_mod_cast hlow
      have hhigh' : -1 < 10 * n + (tenths q : ℤ) := by exact_mod_cast hhigh
      omega

/-- The whole part rounds to a whole number. -/
theorem exists_rounded_wholePart (negative : Bool) (q : ℚ) :
    ∃ n : ℤ, Binary32.rounded (wholePart negative q) = n := by
  cases negative with
  | false => exact_mod_cast Binary32.exists_rounded_intCast ((tenths q / 10 : ℕ) : ℤ)
  | true => exact_mod_cast Binary32.exists_rounded_intCast (-((tenths q / 10 : ℕ) : ℤ))

/-- Both round to one value exactly where a zero is printed behind the point: the value itself is
a number of 24 bits, and next to what is printed. -/
theorem round_wholePart_eq_iff {negative : Bool} {q : ℚ} (hsign : Signed negative q)
    (hmax : |q| ≤ Binary32.maxFinite) {m k : ℤ} (hm : |m| ≤ 2 ^ 24) (hk : -149 ≤ k)
    (hq : q = m * 2 ^ k) :
    Binary32.round (wholePart negative q) = Binary32.round (printed negative q) ↔
      tenths q % 10 = 0 := by
  constructor
  · intro hround
    rw [Binary32.round_of_le (abs_wholePart_le negative hmax),
      Binary32.round_of_le (abs_printed_le negative hmax), Binary32.fin.injEq] at hround
    obtain ⟨n, hn⟩ := exists_rounded_wholePart negative q
    have hnear : |Binary32.rounded (printed negative q) - printed negative q| ≤ 1 / 20 := by
      have hnearest := Binary32.abs_rounded_sub_le_abs (x := printed negative q) hm hk
      rw [← hq, abs_sub_comm q] at hnearest
      exact hnearest.trans (abs_printed_sub_le hsign)
    rw [← hround, hn] at hnear
    exact tenths_of_near_whole hnear
  · intro hzero
    have hexact : ((tenths q / 10 : ℕ) : ℚ) = tenths q / 10 := by
      have hdvd : 10 ∣ tenths q := Nat.dvd_of_mod_eq_zero hzero
      exact Nat.cast_div hdvd (by norm_num)
    rw [wholePart, printed, hexact]

/-- One digit is the number it spells. -/
theorem nat_digit {n : Nat} (h : n < 10) :
    ∃ b, ascii (toString n) = [b] ∧ digitValue b = n ∧ isDigit b = true := by
  have hone := ascii_nat n
  rw [Nat.toDigits_of_lt_base h] at hone
  have hdigit : n.digitChar.isDigit = true :=
    Nat.isDigit_of_mem_toDigits (b := 10) (n := n) (by decide) (by decide)
      (by rw [Nat.toDigits_of_lt_base h]; exact List.mem_singleton_self _)
  obtain ⟨hbyte, hvalue⟩ := digit_byte hdigit
  refine ⟨_, hone, ?_, hbyte⟩
  rw [hvalue, Nat.toNat_digitChar_sub_48_of_lt_ten h]

theorem ofDigits_append_digit (base : Nat) (t : Text) (b : UInt8) :
    ofDigits base (t ++ [b]) = base * ofDigits base t + digitValue b := List.foldl_append

theorem toLower_digit {b : UInt8} (h : isDigit b = true) : toLower b = b := by
  revert h
  refine forall_byte (P := fun b => isDigit b = true → toLower b = b) ?_ b
  decide +kernel

/-- Digits, a point and a digit are read to their end, or to the point. -/
theorem decimalNumber_point [Lconv] (n m : Nat) (hm : m < 10) :
    decimalNumber (ascii (toString n) ++ point :: ascii (toString m)) =
      if Lconv.Pointed then some (.rational ((10 * n + m : ℕ) * (10 : ℚ) ^ (-1 : ℤ)), [])
      else some (.rational n, point :: ascii (toString m)) := by
  obtain ⟨b, hb, hvalue, hdigit⟩ := nat_digit hm
  obtain ⟨htake, hdrop⟩ := @nat_run n (point :: ascii (toString m)) (Text.forall_head (by decide) _)
  have hne := nat_ne_nil n
  have hof := ofDigits_nat n
  rw [hb] at htake hdrop ⊢
  generalize ascii (toString n) = whole at *
  have htail : [b].takeWhile isDigit = [b] ∧ [b].dropWhile isDigit = [] := by
    simp [hdigit]
  split
  next hpointed =>
    have hsignificand : significand isDigit (whole ++ point :: [b]) = some (whole, [b], []) := by
      simp only [significand, htake, hdrop, afterPoint_pointed hpointed, Option.map_some,
        Option.getD_some, htail, if_neg fun h : whole = [] ∧ [b] = [] => hne h.1]
    rw [decimalNumber, hsignificand, Option.map_some]
    simp only [exponentPart, ofDigits_append_digit, hof, hvalue]
    rfl
  next hpointed =>
    have hsignificand : significand isDigit (whole ++ point :: [b]) =
        some (whole, [], point :: [b]) := by
      simp [significand, htake, hdrop, afterPoint_not_pointed hpointed, hne]
    have hexponent : exponentPart 0x65 (point :: [b]) = (0, point :: [b]) := by
      simp only [exponentPart]
      exact if_neg fun h => absurd h.1 (by decide)
    rw [decimalNumber, hsignificand, Option.map_some]
    simp [hexponent, hof]

/-- A text that begins with a digit, and goes on without a letter, is no word and no hexadecimal
number. -/
theorem magnitude_of_digit [Lconv] {c : UInt8} {t : Text} (hc : isDigit c = true)
    (ht : ∀ x ∈ t.head?, isDigit x = true ∨ x = point) :
    magnitude (c :: t) = decimalNumber (c :: t) := by
  have hword : ∀ d (word : Text), isDigit d = false → keyword (d :: word) (c :: t) = none := by
    intro d word hd
    refine keyword_of_head ?_
    rw [toLower_digit hc]
    rintro rfl
    exact absurd (hd.symm.trans hc) (by decide)
  have hhex : hexNumber (c :: t) = none := by
    cases t with
    | nil => rfl
    | cons x t =>
        refine if_neg fun h => ?_
        rcases ht x rfl with hx | rfl
        · rw [toLower_digit hx] at h
          exact absurd (h.2 ▸ hx) (by decide)
        · exact absurd h.2 (by decide)
  have h₁ := hword 0x69 (ascii "nfinity") (by decide)
  have h₂ := hword 0x69 (ascii "nf") (by decide)
  have h₃ := hword 0x6E (ascii "an") (by decide)
  rw [magnitude, show ascii "infinity" = 0x69 :: ascii "nfinity" from rfl, h₁,
    show ascii "inf" = 0x69 :: ascii "nf" from rfl, h₂,
    show ascii "nan" = 0x6E :: ascii "an" from rfl, h₃, hhex]
  rfl

/-- Digits, a point and a digit are a decimal number. -/
theorem magnitude_decimal [Lconv] (n m : Nat) :
    magnitude (ascii (toString n) ++ point :: ascii (toString m)) =
      decimalNumber (ascii (toString n) ++ point :: ascii (toString m)) := by
  have hdigits := nat_digits n
  have hne := nat_ne_nil n
  generalize ascii (toString n) = whole at hdigits hne ⊢
  cases whole with
  | nil => exact absurd rfl hne
  | cons c whole =>
      refine magnitude_of_digit (hdigits c List.mem_cons_self) ?_
      cases whole with
      | nil => exact Text.forall_head (Or.inr rfl) _
      | cons x whole =>
          exact Text.forall_head
            (Or.inl (hdigits x (List.mem_cons_of_mem c List.mem_cons_self))) _

/-- The sign is taken off, and nothing else. -/
theorem takeSign_oneDecimal (negative : Bool) (q : ℚ) :
    takeSign ((oneDecimal negative q).dropWhile isSpace) =
      (negative, ascii (toString (tenths q / 10)) ++
        point :: ascii (toString (tenths q % 10))) := by
  have hhead := nat_head (tenths q / 10) (point :: ascii (toString (tenths q % 10)))
  rw [oneDecimal]
  generalize ascii (toString (tenths q / 10)) ++
    point :: ascii (toString (tenths q % 10)) = body at hhead
  have hother : ∀ b, isDigit b = true → isSpace b = false ∧ b ≠ minus ∧ b ≠ plus := by
    intro b
    refine forall_byte
      (P := fun b => isDigit b = true → isSpace b = false ∧ b ≠ minus ∧ b ≠ plus) ?_ b
    decide +kernel
  have hbody : ∀ b ∈ body.head?, b ≠ minus ∧ b ≠ plus := fun b hb => (hother b (hhead b hb)).2
  cases negative with
  | false =>
      exact (congrArg takeSign (dropWhile_eq_self fun b hb => (hother b (hhead b hb)).1)).trans
        (@takeSign_sign [] body (by decide) hbody)
  | true =>
      exact (congrArg takeSign (dropWhile_eq_self (Text.forall_head (by decide) _))).trans
        (@takeSign_sign [minus] body (by decide) hbody)

/-- What is read is not out of the range of the numbers. -/
theorem readBack_in_range [Lconv] (negative : Bool) (q : ℚ) :
    ¬(|Binary32.rounded (readBack negative q)| < 1 / 2 ^ 126 ∧
      Binary32.rounded (readBack negative q) ≠ readBack negative q) := by
  rintro ⟨hsmall, hinexact⟩
  rcases readBack_normal negative q with hzero | hnormal
  · rw [hzero] at hinexact
    exact hinexact (by decide +kernel)
  · exact absurd (Binary32.le_abs_rounded hnormal) (not_le.mpr hsmall)

/-- A number that was printed with one decimal is read to its end where the decimal point is a
point, and else to its point; and it is rounded to the nearest value. -/
theorem strtof_oneDecimal [Lconv] (negative : Bool) {q : ℚ} (h : |q| ≤ Binary32.maxFinite) :
    strtof (oneDecimal negative q) =
      some
        { value := .round (readBack negative q)
          outOfRange := false
          rest := if Lconv.Pointed then [] else point :: ascii (toString (tenths q % 10)) } := by
  have hmagnitude := magnitude_decimal (tenths q / 10) (tenths q % 10)
  rw [decimalNumber_point _ _ (Nat.mod_lt _ (by decide)), Nat.div_add_mod] at hmagnitude
  have hvalue : (tenths q : ℚ) * 10 ^ (-1 : ℤ) = tenths q / 10 := by
    rw [zpow_neg_one, div_eq_mul_inv]
  have hround := Binary32.round_of_le (abs_readBack_le negative h)
  have hrange := decide_eq_false (readBack_in_range negative q)
  rw [strtof, takeSign_oneDecimal]
  dsimp only
  rw [hmagnitude]
  by_cases hpointed : Lconv.Pointed
  · have hexact : (if negative then -(tenths q / 10 : ℚ) else tenths q / 10) =
        readBack negative q := by rw [readBack, if_pos hpointed, printed]
    simp only [if_pos hpointed, Option.map_some, Magnitude.reading, hvalue, hexact, hround, hrange]
  · have hexact : (if negative then -((tenths q / 10 : ℕ) : ℚ) else ((tenths q / 10 : ℕ) : ℚ)) =
        readBack negative q := by rw [readBack, if_neg hpointed, wholePart]
    simp only [if_neg hpointed, Option.map_some, Magnitude.reading, hexact, hround, hrange]

theorem stof_oneDecimal [Lconv] (negative : Bool) {q : ℚ} (h : |q| ≤ Binary32.maxFinite) :
    stof (oneDecimal negative q) = some (Binary32.round (readBack negative q)) := by
  rw [stof, strtof_oneDecimal negative h]
  rfl

end Numeral
