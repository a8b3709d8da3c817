import IndustrialHmi.Theory.Numerals

/-!
# Exported products

The fields of a product that the exports write.  A product to be written has the bits of its
quality rate, and one that was read has the value: the sign of a zero is printed, and it is no
part of the value.

A rate is printed with a point in every locale, and read with the decimal point of the program's
locale.  The program takes its locale from the environment.  So the rate that is read is the one
that was printed if the decimal point is a point or there is a zero behind it
(`readRate_eq_printedRate_iff`), and else a whole number.
-/

namespace Export

open CType Numeral

/-- A product; `ρ` is what is known of its quality rate. -/
structure Product (ρ : Type) where
  productCode : Text := []
  name : Text := []
  status : Text := []
  stock : Int32 := 0
  qualityRate : ρ
  deriving DecidableEq

/-- `{:.1f}` of a value of type `float`. -/
def fmtRate (rate : BitVec 32) : Text :=
  match Binary32.ofBits rate with
  | .fin q => oneDecimal rate.msb q
  | .nan => (if rate.msb then [minus] else []) ++ ascii "nan"
  | _ => (if rate.msb then [minus] else []) ++ ascii "inf"

def Finite (rate : BitVec 32) : Prop := rate.extractLsb' 23 8 ≠ 255

instance (rate : BitVec 32) : Decidable (Finite rate) :=
  inferInstanceAs (Decidable (rate.extractLsb' 23 8 ≠ 255))

/-- The value that is printed for a rate. -/
def printedRate (rate : BitVec 32) : Binary32 :=
  match Binary32.ofBits rate with
  | .fin q => .round (printed rate.msb q)
  | other => other

/-- The value that is read of what was printed. -/
def readRate [Lconv] (rate : BitVec 32) : Binary32 :=
  match Binary32.ofBits rate with
  | .fin q => .round (readBack rate.msb q)
  | other => other

/-- There is a zero behind the point of the printed rate. -/
def EndsInZero (rate : BitVec 32) : Prop := (fmtRate rate).getLast? = some 0x30

instance (rate : BitVec 32) : Decidable (EndsInZero rate) := inferInstanceAs (Decidable (_ = _))

/-- The product with the rate that was printed. -/
def Product.asPrinted (p : Product (BitVec 32)) : Product Binary32 :=
  { p with qualityRate := printedRate p.qualityRate }

/-- The product that is read back. -/
def Product.asRead [Lconv] (p : Product (BitVec 32)) : Product Binary32 :=
  { p with qualityRate := readRate p.qualityRate }

/-! ## What is printed -/

/-- The number of a finite rate: its sign is that of the rate, it has 24 bits, and it is not too
large. -/
structure ValueOf (rate : BitVec 32) (q : ℚ) : Prop where
  ofBits : Binary32.ofBits rate = .fin q
  signed : Signed rate.msb q
  bits : ∃ m k : ℤ, |m| ≤ 2 ^ 24 ∧ -149 ≤ k ∧ q = m * 2 ^ k
  le_max : |q| ≤ Binary32.maxFinite

/-- A number of 24 bits below the largest exponent, with the sign of a rate. -/
theorem ValueOf.of_bits {rate : BitVec 32} {n : ℕ} {k : ℤ} (hn : n < 2 ^ 24) (hlow : -149 ≤ k)
    (hhigh : k ≤ 104)
    (h : Binary32.ofBits rate = .fin ((if rate.msb then -1 else 1) * n * 2 ^ k)) :
    ∃ q, ValueOf rate q := by
  have hmax : (n : ℚ) * 2 ^ k ≤ Binary32.maxFinite := by
    have hle : (n : ℚ) + 1 ≤ 2 ^ 24 := by exact_mod_cast hn
    have hpow : (2 : ℚ) ^ k ≤ 2 ^ (104 : ℤ) := zpow_le_zpow_right₀ one_le_two hhigh
    refine (mul_le_mul (by linarith : (n : ℚ) ≤ 2 ^ 24 - 1) hpow (by positivity)
      (by norm_num)).trans ?_
    norm_num [Binary32.maxFinite]
  have hpos : (0 : ℚ) ≤ n * 2 ^ k := by positivity
  refine ⟨_, h, ?_, ?_, ?_⟩
  · cases rate.msb with
    | false => simpa [Signed] using hpos
    | true => simpa [Signed] using hpos
  · cases rate.msb with
    | false => exact ⟨n, k, by rw [Nat.abs_cast]; exact_mod_cast hn.le, hlow, by simp⟩
    | true => exact ⟨-n, k, by rw [abs_neg, Nat.abs_cast]; exact_mod_cast hn.le, hlow, by simp⟩
  · have habs : |(if rate.msb then (-1 : ℚ) else 1) * n * 2 ^ k| = n * 2 ^ k := by
      rw [mul_assoc, abs_mul, abs_of_nonneg hpos]
      cases rate.msb with
      | false => simp
      | true => simp
    exact habs.le.trans hmax

/-- A finite rate is a number. -/
theorem exists_valueOf {rate : BitVec 32} (h : Finite rate) : ∃ q, ValueOf rate q := by
  have hexp : (rate.extractLsb' 23 8).toNat < 255 := by
    have hlt := (rate.extractLsb' 23 8).isLt
    have hne : (rate.extractLsb' 23 8).toNat ≠ 255 := fun he => h (BitVec.eq_of_toNat_eq he)
    omega
  have hfrac := (rate.extractLsb' 0 23).isLt
  by_cases hzero : (rate.extractLsb' 23 8).toNat = 0
  · refine ValueOf.of_bits (n := (rate.extractLsb' 0 23).toNat) (k := -149) (by omega) (by simp)
      (by simp) ?_
    simp only [Binary32.ofBits, if_neg hexp.ne, if_pos hzero]
  · refine ValueOf.of_bits (n := 2 ^ 23 + (rate.extractLsb' 0 23).toNat)
      (k := (rate.extractLsb' 23 8).toNat - 150) (by omega) (by omega) (by omega) ?_
    simp only [Binary32.ofBits, if_neg hexp.ne, if_neg hzero]
    push_cast
    rfl

/-- The printed rate is read, to its end or to its point. -/
theorem stof_fmtRate [Lconv] {rate : BitVec 32} (h : Finite rate) :
    stof (fmtRate rate) = some (readRate rate) := by
  obtain ⟨q, hq⟩ := exists_valueOf h
  rw [fmtRate, readRate, hq.ofBits]
  exact stof_oneDecimal _ hq.le_max

/-- The last digit that is printed is that of the tenths. -/
theorem endsInZero_iff {rate : BitVec 32} {q : ℚ} (h : Binary32.ofBits rate = .fin q) :
    EndsInZero rate ↔ tenths q % 10 = 0 := by
  obtain ⟨b, hb, hvalue, hdigit⟩ := nat_digit (Nat.mod_lt (tenths q) (by decide : 0 < 10))
  have hzero : b = 0x30 ↔ digitValue b = 0 :=
    forall_byte (P := fun b => isDigit b = true → (b = 0x30 ↔ digitValue b = 0))
      (by decide +kernel) b hdigit
  have hlast : (fmtRate rate).getLast? = some b := by
    rw [fmtRate, h]
    simp only [oneDecimal, hb]
    simp
  rw [EndsInZero, hlast, Option.some.injEq, hzero, hvalue]

/-- The rate that is read is the one that was printed if the point is read, or what is behind it
adds nothing. -/
theorem readRate_eq_printedRate_iff [Lconv] {rate : BitVec 32} (h : Finite rate) :
    readRate rate = printedRate rate ↔ Lconv.Pointed ∨ EndsInZero rate := by
  obtain ⟨q, hq⟩ := exists_valueOf h
  obtain ⟨m, k, hm, hk, hbits⟩ := hq.bits
  have hwhole := round_wholePart_eq_iff hq.signed hq.le_max hm hk hbits
  rw [readRate, printedRate, hq.ofBits, endsInZero_iff hq.ofBits]
  by_cases hpointed : Lconv.Pointed
  · simp [readBack, hpointed]
  · simpa [readBack, hpointed] using hwhole

/-- What is read of a list of products is what was printed of it. -/
theorem map_asRead_eq_iff [Lconv] {products : List (Product (BitVec 32))}
    (h : ∀ p ∈ products, Finite p.qualityRate) :
    products.map Product.asRead = products.map Product.asPrinted ↔
      Lconv.Pointed ∨ ∀ p ∈ products, EndsInZero p.qualityRate := by
  have hproduct : ∀ p ∈ products, p.asRead = p.asPrinted ↔
      Lconv.Pointed ∨ EndsInZero p.qualityRate := by
    intro p hp
    simp [Product.asRead, Product.asPrinted, readRate_eq_printedRate_iff (h p hp)]
  rw [List.map_inj_left, ← forall_or_left]
  refine forall_congr' fun p => ?_
  rw [← forall_or_left]
  exact forall_congr' fun hp => hproduct p hp

/-- Printed numbers are made of digits, a point and a minus. -/
def IsNumeric (t : Text) : Prop := t.All fun b => isDigit b = true ∨ b = minus ∨ b = point

/-- What holds of these bytes holds of all that is printed. -/
theorem IsNumeric.all {P : UInt8 → Prop} {t : Text} (h : IsNumeric t)
    (hbytes : ∀ n : Fin 256, isDigit (UInt8.ofFin n) = true ∨ UInt8.ofFin n = minus ∨
      UInt8.ofFin n = point → P (UInt8.ofFin n)) : t.All P :=
  fun b hb =>
    forall_byte (P := fun b => isDigit b = true ∨ b = minus ∨ b = point → P b) hbytes b (h b hb)

theorem isNumeric_append {a b : Text} (ha : IsNumeric a) (hb : IsNumeric b) :
    IsNumeric (a ++ b) := fun c hc => (List.mem_append.mp hc).elim (ha c) (hb c)

theorem isNumeric_nat (n : Nat) : IsNumeric (ascii (toString n)) :=
  fun b hb => .inl (nat_digits n b hb)

theorem isNumeric_int (i : ℤ) : IsNumeric (ascii (toString i)) := by
  rw [ascii_int]
  split
  · exact isNumeric_append (a := [minus]) (by unfold IsNumeric; decide) (isNumeric_nat _)
  · exact isNumeric_nat _

theorem isNumeric_fmtRate {rate : BitVec 32} (h : Finite rate) : IsNumeric (fmtRate rate) := by
  obtain ⟨q, hq⟩ := exists_valueOf h
  rw [fmtRate, hq.ofBits]
  refine isNumeric_append ?_ (isNumeric_append (isNumeric_nat _)
    (isNumeric_append (a := [point]) (by unfold IsNumeric; decide) (isNumeric_nat _)))
  cases rate.msb with
  | false => exact fun b hb => by cases hb
  | true => unfold IsNumeric; decide

theorem fmtRate_ne_nil {rate : BitVec 32} (h : Finite rate) : fmtRate rate ≠ [] := by
  obtain ⟨q, hq⟩ := exists_valueOf h
  rw [fmtRate, hq.ofBits]
  exact List.append_ne_nil_of_right_ne_nil _
    (List.append_ne_nil_of_left_ne_nil (nat_ne_nil _) _)

/-- What is not finite is printed as a word. -/
theorem fmtRate_not_finite {rate : BitVec 32} (h : ¬Finite rate) :
    fmtRate rate ∈ [ascii "nan", ascii "-nan", ascii "inf", ascii "-inf"] := by
  have hexp : (rate.extractLsb' 23 8).toNat = 255 := congrArg BitVec.toNat (not_not.mp h)
  rw [fmtRate, Binary32.ofBits, hexp, if_pos rfl]
  cases rate.msb with
  | false =>
      by_cases hfraction : (rate.extractLsb' 0 23).toNat = 0
      · rw [if_pos hfraction]
        decide
      · rw [if_neg hfraction]
        decide
  | true =>
      by_cases hfraction : (rate.extractLsb' 0 23).toNat = 0
      · rw [if_pos hfraction]
        decide
      · rw [if_neg hfraction]
        decide

theorem int_ne_nil (i : ℤ) : ascii (toString i) ≠ [] := by
  rw [ascii_int]
  split
  · exact List.cons_ne_nil _ _
  · exact nat_ne_nil _

theorem inInt_toInt (i : Int32) : inInt i.toInt = true := by
  have hle := i.le_toInt
  have hlt := i.toInt_lt
  rw [inInt, decide_eq_true_eq]
  omega

end Export
