import Mathlib.Algebra.Order.Field.Power
import Mathlib.Data.Rat.Floor
import Mathlib.Tactic.Linarith
import Mathlib.Tactic.NormNum.Pow
import Mathlib.Tactic.Positivity
import Mathlib.Tactic.Ring

/-!
# Single-precision numbers

A value is not a number, one of the two infinities, or a rational; the two zeros are
one value.  A comparison with something that is not a number fails.  Arithmetic
computes the exact result and rounds it to 24 significant bits, ties to even, with
the smallest exponent kept below the normal range.
-/

inductive Binary32 where
  | nan
  | negInf
  | posInf
  | fin (value : ℚ)
  deriving DecidableEq

namespace Binary32

/-- The infinity with a sign. -/
def inf (negative : Bool) : Binary32 := if negative then .negInf else .posInf

/-! ## Rounding -/

/-- The exponent of the leading bit of a non-zero rational. -/
def exponent (q : ℚ) : ℤ :=
  let e : ℤ := (q.num.natAbs.log2 : ℤ) - q.den.log2
  if (2 : ℚ) ^ e ≤ |q| then e else e - 1

/-- The nearest integer, ties to even. -/
def roundEven (q : ℚ) : ℤ :=
  let k := ⌊q⌋
  if q - k < 1 / 2 then k else if 1 / 2 < q - k then k + 1 else k + k % 2

/-- The value nearest to a rational; from half a unit above the largest one on, infinite. -/
def round (q : ℚ) : Binary32 :=
  let unit : ℚ := 2 ^ max (exponent q - 23) (-149)
  let r := roundEven (q / unit) * unit
  if 2 ^ 128 ≤ |r| then inf (r < 0) else .fin r

/-- The value encoded by 32 bits. -/
def ofBits (bits : BitVec 32) : Binary32 :=
  let negative := bits.msb
  let exponent := (bits.extractLsb' 23 8).toNat
  let fraction := (bits.extractLsb' 0 23).toNat
  let sign : ℚ := if negative then -1 else 1
  if exponent = 255 then
    if fraction = 0 then inf negative else .nan
  else if exponent = 0 then
    .fin (sign * fraction * 2 ^ (-149 : ℤ))
  else
    .fin (sign * (2 ^ 23 + fraction) * 2 ^ ((exponent : ℤ) - 150))

/-- The bits of a value.  A value that is not a number has more than one encoding, of which this is
the quiet one with no payload. -/
def toBits : Binary32 → BitVec 32
  | .nan => 0x7fc00000
  | .negInf => 0xff800000
  | .posInf => 0x7f800000
  | .fin q =>
      if q = 0 then 0
      else
        let e := max (exponent q) (-126)
        let significand := ⌊|q| / 2 ^ (e - 23)⌋
        BitVec.ofInt 32 ((if q < 0 then 2 ^ 31 else 0) + (e + 126) * 2 ^ 23 + significand)

def ofInt (n : ℤ) : Binary32 := round n

/-- The largest finite value. -/
def maxFinite : ℚ := (2 ^ 24 - 1) * 2 ^ 104

theorem roundEven_intCast (n : ℤ) : roundEven n = n := by
  have hhalf : ((n : ℚ) - (⌊(n : ℚ)⌋ : ℤ)) < 1 / 2 := by
    rw [Int.floor_intCast, sub_self]
    norm_num
  rw [roundEven, if_pos hhalf, Int.floor_intCast]

/-- What is rounded to is next to the value. -/
theorem roundEven_bounds (q : ℚ) : ⌊q⌋ ≤ roundEven q ∧ roundEven q ≤ ⌊q⌋ + 1 := by
  have hmod := Int.emod_nonneg ⌊q⌋ (by decide : (2 : ℤ) ≠ 0)
  have hlt := Int.emod_lt_of_pos ⌊q⌋ (by decide : (0 : ℤ) < 2)
  simp only [roundEven]
  split_ifs <;> omega

/-- A value is rounded by no more than a half. -/
theorem abs_roundEven_sub_le (q : ℚ) : |(roundEven q : ℚ) - q| ≤ 1 / 2 := by
  have hfloor := Int.floor_le q
  have hlt := Int.lt_floor_add_one q
  have hmod : ⌊q⌋ % 2 = 0 ∨ ⌊q⌋ % 2 = 1 := Int.emod_two_eq_zero_or_one _
  rw [abs_le]
  simp only [roundEven]
  split_ifs
  · constructor <;> linarith
  · push_cast
    constructor <;> linarith
  · rcases hmod with h | h <;> rw [h] <;> push_cast <;> constructor <;> linarith

theorem roundEven_mono {a b : ℚ} (h : a ≤ b) : roundEven a ≤ roundEven b := by
  rcases (Int.floor_mono h).lt_or_eq with hlt | heq
  · have hupper := (roundEven_bounds a).2
    have hlower := (roundEven_bounds b).1
    omega
  · have hmod := Int.emod_nonneg ⌊b⌋ (by decide : (2 : ℤ) ≠ 0)
    have hlt := Int.emod_lt_of_pos ⌊b⌋ (by decide : (0 : ℤ) < 2)
    simp only [roundEven, heq]
    -- the fractions stand in the order of the values
    split_ifs
    all_goals first | omega | (exfalso; linarith)

theorem log2_bounds {n : ℕ} (hn : n ≠ 0) :
    (2 : ℚ) ^ (n.log2 : ℤ) ≤ n ∧ (n : ℚ) < 2 ^ ((n.log2 : ℤ) + 1) := by
  constructor
  · exact_mod_cast Nat.log2_self_le hn
  · exact_mod_cast Nat.lt_log2_self

theorem abs_eq_natAbs_div (q : ℚ) : |q| = q.num.natAbs / q.den := by
  rw [Rat.abs_def, Rat.divInt_eq_div, Nat.cast_natAbs]
  push_cast
  rw [Nat.cast_natAbs]
  push_cast
  rfl

theorem exponent_spec {q : ℚ} (hq : q ≠ 0) :
    (2 : ℚ) ^ exponent q ≤ |q| ∧ |q| < (2 : ℚ) ^ (exponent q + 1) := by
  have hdenpos : (0 : ℚ) < q.den := by exact_mod_cast Nat.pos_of_ne_zero q.den_nz
  have habs := abs_eq_natAbs_div q
  obtain ⟨hn₁, hn₂⟩ := log2_bounds (Int.natAbs_ne_zero.mpr (Rat.num_ne_zero.mpr hq))
  obtain ⟨hd₁, hd₂⟩ := log2_bounds q.den_nz
  have htwo : (2 : ℚ) ≠ 0 := two_ne_zero
  have hlower : (2 : ℚ) ^ ((q.num.natAbs.log2 : ℤ) - q.den.log2 - 1) ≤ |q| := by
    rw [habs, le_div_iff₀ hdenpos]
    calc (2 : ℚ) ^ ((q.num.natAbs.log2 : ℤ) - q.den.log2 - 1) * q.den
        ≤ 2 ^ ((q.num.natAbs.log2 : ℤ) - q.den.log2 - 1) * 2 ^ ((q.den.log2 : ℤ) + 1) :=
          mul_le_mul_of_nonneg_left hd₂.le (by positivity)
      _ = 2 ^ (q.num.natAbs.log2 : ℤ) := by rw [← zpow_add₀ htwo]; congr 1; ring
      _ ≤ q.num.natAbs := hn₁
  have hupper : |q| < (2 : ℚ) ^ ((q.num.natAbs.log2 : ℤ) - q.den.log2 + 1) := by
    rw [habs, div_lt_iff₀ hdenpos]
    calc (q.num.natAbs : ℚ) < 2 ^ ((q.num.natAbs.log2 : ℤ) + 1) := hn₂
      _ = 2 ^ ((q.num.natAbs.log2 : ℤ) - q.den.log2 + 1) * 2 ^ (q.den.log2 : ℤ) := by
          rw [← zpow_add₀ htwo]; congr 1; ring
      _ ≤ 2 ^ ((q.num.natAbs.log2 : ℤ) - q.den.log2 + 1) * q.den :=
          mul_le_mul_of_nonneg_left hd₁ (by positivity)
  simp only [exponent]
  split
  · next hle => exact ⟨hle, hupper⟩
  · next hlt =>
      refine ⟨hlower, ?_⟩
      rw [sub_add_cancel]
      exact not_le.mp hlt

/-- A value between two multiples of a unit is rounded to one between them. -/
theorem abs_roundEven_mul_le {q unit : ℚ} (hunit : 0 < unit) {n : ℕ} (h : |q| ≤ n * unit) :
    |(roundEven (q / unit) : ℚ) * unit| ≤ n * unit := by
  obtain ⟨hlow, hhigh⟩ := abs_le.mp h
  have h₁ : ((-n : ℤ) : ℚ) ≤ q / unit := by
    rw [le_div_iff₀ hunit]
    push_cast
    linarith
  have h₂ : q / unit ≤ ((n : ℤ) : ℚ) := by
    rw [div_le_iff₀ hunit]
    push_cast
    exact hhigh
  have h₃ := roundEven_mono h₁
  have h₄ := roundEven_mono h₂
  rw [roundEven_intCast] at h₃ h₄
  rw [abs_mul, abs_of_pos hunit]
  refine mul_le_mul_of_nonneg_right (abs_le.mpr ⟨?_, ?_⟩) hunit.le
  · exact_mod_cast h₃
  · exact_mod_cast h₄

theorem le_abs_roundEven_mul {q unit : ℚ} (hunit : 0 < unit) {n : ℕ} (h : n * unit ≤ |q|) :
    n * unit ≤ |(roundEven (q / unit) : ℚ) * unit| := by
  rw [abs_mul, abs_of_pos hunit]
  refine mul_le_mul_of_nonneg_right ?_ hunit.le
  rcases le_abs.mp h with hpos | hneg
  · have h₁ : ((n : ℤ) : ℚ) ≤ q / unit := by
      rw [le_div_iff₀ hunit]
      push_cast
      exact hpos
    have h₂ := roundEven_mono h₁
    rw [roundEven_intCast] at h₂
    exact le_trans (by exact_mod_cast h₂) (le_abs_self _)
  · have h₁ : q / unit ≤ ((-n : ℤ) : ℚ) := by
      rw [div_le_iff₀ hunit]
      push_cast
      linarith
    have h₂ := roundEven_mono h₁
    rw [roundEven_intCast] at h₂
    have h₃ : (roundEven (q / unit) : ℚ) ≤ -(n : ℚ) := by exact_mod_cast h₂
    exact le_trans (by linarith) (neg_le_abs _)

/-- The multiple of the unit that a value is rounded to. -/
def rounded (q : ℚ) : ℚ :=
  roundEven (q / 2 ^ max (exponent q - 23) (-149)) * 2 ^ max (exponent q - 23) (-149)

theorem round_eq (q : ℚ) :
    round q = if 2 ^ 128 ≤ |rounded q| then inf (rounded q < 0) else .fin (rounded q) := rfl

theorem two_pow_mul (k : ℕ) (x : ℤ) : ((2 ^ k : ℕ) : ℚ) * 2 ^ x = 2 ^ (k + x) := by
  rw [zpow_add₀ two_ne_zero, zpow_natCast]
  push_cast
  rfl

/-- A value below a power of two is rounded by no more than half a unit in its last place. -/
theorem abs_rounded_sub_le {q : ℚ} {e : ℤ} (h : |q| < 2 ^ (e + 1)) (he : -126 ≤ e) :
    |rounded q - q| ≤ 2 ^ (e - 24) := by
  by_cases hq : q = 0
  · rw [hq, show rounded 0 = 0 by decide +kernel, sub_zero, abs_zero]
    positivity
  have hexponent : exponent q ≤ e := by
    have hlow := (exponent_spec hq).1.trans_lt h
    have hlt := (zpow_lt_zpow_iff_right₀ (one_lt_two : (1 : ℚ) < 2)).mp hlow
    omega
  rw [rounded]
  generalize exponent q = d at hexponent
  have hunit : (0 : ℚ) < 2 ^ max (d - 23) (-149) := by positivity
  have hscale : (roundEven (q / 2 ^ max (d - 23) (-149)) : ℚ) * 2 ^ max (d - 23) (-149) - q =
      (roundEven (q / 2 ^ max (d - 23) (-149)) - q / 2 ^ max (d - 23) (-149)) *
        2 ^ max (d - 23) (-149) := by
    rw [sub_mul, div_mul_cancel₀ q hunit.ne']
  rw [hscale, abs_mul, abs_of_pos hunit]
  calc |(roundEven (q / 2 ^ max (d - 23) (-149)) : ℚ) - q / 2 ^ max (d - 23) (-149)| *
        2 ^ max (d - 23) (-149)
      ≤ 1 / 2 * 2 ^ (e - 23) := by
        refine mul_le_mul (abs_roundEven_sub_le _) ?_ hunit.le (by norm_num)
        exact zpow_le_zpow_right₀ one_le_two (max_le (by omega) (by omega))
    _ = 2 ^ (e - 24) := by
        rw [show e - 23 = (e - 24) + 1 by ring, zpow_add_one₀ two_ne_zero]
        ring

/-- Up to the largest finite value nothing overflows. -/
theorem abs_rounded_lt {q : ℚ} (h : |q| ≤ maxFinite) : |rounded q| < 2 ^ 128 := by
  by_cases hq : q = 0
  · rw [hq, show rounded 0 = 0 by decide +kernel, abs_zero]
    norm_num
  obtain ⟨hlow, hhigh⟩ := exponent_spec hq
  rw [rounded]
  generalize exponent q = e at hlow hhigh
  have htwo : (1 : ℚ) < 2 := one_lt_two
  have hunit : (0 : ℚ) < 2 ^ max (e - 23) (-149) := by positivity
  have he : e < 128 := by
    rw [← zpow_lt_zpow_iff_right₀ htwo]
    refine lt_of_le_of_lt (hlow.trans h) ?_
    norm_num [maxFinite]
  by_cases htop : e = 127
  · subst htop
    have hle : |q| ≤ (2 ^ 24 - 1 : ℕ) * (2 : ℚ) ^ max ((127 : ℤ) - 23) (-149) := by
      refine h.trans (le_of_eq ?_)
      norm_num [maxFinite]
    refine lt_of_le_of_lt (abs_roundEven_mul_le hunit hle) ?_
    norm_num
  · have hle : |q| ≤ (2 ^ 24 : ℕ) * (2 : ℚ) ^ max (e - 23) (-149) := by
      rw [two_pow_mul]
      refine hhigh.le.trans (zpow_le_zpow_right₀ htwo.le ?_)
      have hmax := le_max_left (e - 23) (-149)
      omega
    refine lt_of_le_of_lt (abs_roundEven_mul_le hunit hle) ?_
    have hpow : (2 : ℚ) ^ 128 = 2 ^ (128 : ℤ) := by norm_num
    have hmax : max (e - 23) (-149) ≤ 103 := max_le (by omega) (by decide)
    rw [two_pow_mul, hpow, zpow_lt_zpow_iff_right₀ htwo]
    omega

/-- A value that is not below the smallest normal one is rounded to such a value. -/
theorem le_abs_rounded {q : ℚ} (h : 1 / 2 ^ 126 ≤ |q|) : 1 / 2 ^ 126 ≤ |rounded q| := by
  have hsmall : (1 : ℚ) / 2 ^ 126 = 2 ^ (-126 : ℤ) := by norm_num
  have hq : q ≠ 0 := by
    rintro rfl
    norm_num at h
  rw [hsmall] at h ⊢
  obtain ⟨hlow, hhigh⟩ := exponent_spec hq
  rw [rounded]
  generalize exponent q = e at hlow hhigh
  have htwo : (1 : ℚ) < 2 := one_lt_two
  have he : -126 ≤ e := by
    have hlt := (zpow_lt_zpow_iff_right₀ htwo).mp (lt_of_le_of_lt h hhigh)
    omega
  have hmax : max (e - 23) (-149) = e - 23 := max_eq_left (by omega)
  have hle : ((2 ^ 23 : ℕ) : ℚ) * 2 ^ max (e - 23) (-149) ≤ |q| := by
    rw [two_pow_mul, hmax]
    refine le_trans (zpow_le_zpow_right₀ htwo.le ?_) hlow
    omega
  refine le_trans ?_ (le_abs_roundEven_mul (by positivity) hle)
  rw [two_pow_mul, hmax]
  exact zpow_le_zpow_right₀ htwo.le (by omega)

theorem round_of_le {q : ℚ} (h : |q| ≤ maxFinite) : round q = .fin (rounded q) := by
  rw [round_eq, if_neg (not_le.mpr (abs_rounded_lt h))]

/-- A whole number that fits the significand is a multiple of the unit of what is below it. -/
theorem exists_multiple {q : ℚ} (hq : q ≠ 0) {b : ℕ} (hb : b ≤ 2 ^ 24) (h : |q| ≤ b) :
    ∃ n : ℕ, (b : ℚ) = n * 2 ^ max (exponent q - 23) (-149) := by
  have hlow := (exponent_spec hq).1.trans h
  generalize exponent q = e at hlow
  have htwo : (1 : ℚ) < 2 := one_lt_two
  have hbound : (b : ℚ) ≤ 2 ^ (24 : ℤ) := by exact_mod_cast hb
  have he : e ≤ 24 := (zpow_le_zpow_iff_right₀ htwo).mp (hlow.trans hbound)
  by_cases htop : e = 24
  · refine ⟨2 ^ 23, ?_⟩
    have heq : (b : ℚ) = 2 ^ (24 : ℤ) := le_antisymm hbound (htop ▸ hlow)
    rw [heq, two_pow_mul, htop]
    norm_num
  · obtain ⟨k, hk⟩ : ∃ k : ℕ, max (e - 23) (-149) = -(k : ℤ) :=
      ⟨(-max (e - 23) (-149)).toNat, by omega⟩
    refine ⟨b * 2 ^ k, ?_⟩
    rw [hk, zpow_neg, zpow_natCast]
    push_cast
    rw [mul_assoc, mul_inv_cancel₀ (by positivity), mul_one]

theorem abs_rounded_le {q : ℚ} {b : ℕ} (hb : b ≤ 2 ^ 24) (h : |q| ≤ b) : |rounded q| ≤ b := by
  by_cases hq : q = 0
  · rw [hq, show rounded 0 = 0 by decide +kernel, abs_zero]
    positivity
  · obtain ⟨n, hn⟩ := exists_multiple hq hb h
    rw [hn] at h ⊢
    exact abs_roundEven_mul_le (by positivity) h

theorem rounded_nonneg {q : ℚ} (h : 0 ≤ q) : 0 ≤ rounded q := by
  have hquotient : ((0 : ℤ) : ℚ) ≤ q / 2 ^ max (exponent q - 23) (-149) := by
    rw [Int.cast_zero]
    positivity
  have hround := roundEven_mono hquotient
  rw [roundEven_intCast] at hround
  rw [rounded]
  have hcast : (0 : ℚ) ≤ roundEven (q / 2 ^ max (exponent q - 23) (-149)) := by
    exact_mod_cast hround
  positivity

/-- A whole number that fits the significand is not rounded. -/
theorem rounded_natCast {b : ℕ} (hb : b ≤ 2 ^ 24) : rounded b = b := by
  by_cases hzero : (b : ℚ) = 0
  · rw [hzero]
    decide +kernel
  · obtain ⟨n, hn⟩ := exists_multiple hzero hb (by rw [Nat.abs_cast])
    have hunit : (0 : ℚ) < 2 ^ max (exponent b - 23) (-149) := by positivity
    rw [rounded, (div_eq_iff hunit.ne').mpr hn]
    have hint : roundEven ((n : ℕ) : ℚ) = n := roundEven_intCast n
    rw [hint, Int.cast_natCast, ← hn]

/-- No whole number is nearer. -/
theorem abs_roundEven_sub_le_abs (q : ℚ) (n : ℤ) : |(roundEven q : ℚ) - q| ≤ |n - q| := by
  by_cases hsame : n = roundEven q
  · rw [hsame]
  · -- another one is at least a half away
    have hapart : (1 : ℚ) ≤ |(n : ℚ) - roundEven q| := by
      exact_mod_cast Int.one_le_abs (sub_ne_zero.mpr hsame)
    have htriangle := abs_sub_le (n : ℚ) q (roundEven q)
    rw [abs_sub_comm q] at htriangle
    have hle := abs_roundEven_sub_le q
    linarith

/-- No number of 24 bits is nearer. -/
theorem abs_rounded_sub_le_abs {x : ℚ} {m k : ℤ} (hm : |m| ≤ 2 ^ 24) (hk : -149 ≤ k) :
    |rounded x - x| ≤ |m * 2 ^ k - x| := by
  by_cases hx : x = 0
  · rw [hx, show rounded 0 = 0 by decide +kernel, sub_zero, abs_zero]
    positivity
  obtain ⟨hlow, hhigh⟩ := exponent_spec hx
  rw [rounded]
  generalize exponent x = e at hlow hhigh
  have hunit : (0 : ℚ) < 2 ^ max (e - 23) (-149) := by positivity
  -- no multiple of the unit is nearer
  have hmultiple (n : ℤ) : |(roundEven (x / 2 ^ max (e - 23) (-149)) : ℚ) *
      2 ^ max (e - 23) (-149) - x| ≤ |n * 2 ^ max (e - 23) (-149) - x| := by
    have hscale (a : ℚ) : a * 2 ^ max (e - 23) (-149) - x =
        (a - x / 2 ^ max (e - 23) (-149)) * 2 ^ max (e - 23) (-149) := by
      rw [sub_mul, div_mul_cancel₀ x hunit.ne']
    rw [hscale, hscale, abs_mul, abs_mul]
    exact mul_le_mul_of_nonneg_right (abs_roundEven_sub_le_abs _ n) (abs_nonneg _)
  by_cases hfine : max (e - 23) (-149) ≤ k
  · obtain ⟨d, hd⟩ : ∃ d : ℕ, k = d + max (e - 23) (-149) :=
      ⟨(k - max (e - 23) (-149)).toNat, by omega⟩
    have hsame : (m : ℚ) * 2 ^ k = (m * 2 ^ d : ℤ) * 2 ^ max (e - 23) (-149) := by
      rw [hd, zpow_add₀ two_ne_zero, zpow_natCast]
      push_cast
      ring
    rw [hsame]
    exact hmultiple _
  · -- the number is below the power of two that the value is not below
    have hmax : max (e - 23) (-149) = e - 23 := by omega
    have hsmall : |(m : ℚ) * 2 ^ k| ≤ 2 ^ e := by
      have hm' : |(m : ℚ)| ≤ 2 ^ (24 : ℤ) := by exact_mod_cast hm
      rw [abs_mul, abs_of_pos (show (0 : ℚ) < 2 ^ k by positivity)]
      calc |(m : ℚ)| * 2 ^ k ≤ 2 ^ (24 : ℤ) * 2 ^ k :=
            mul_le_mul_of_nonneg_right hm' (by positivity)
        _ = 2 ^ (24 + k) := (zpow_add₀ two_ne_zero _ _).symm
        _ ≤ 2 ^ e := zpow_le_zpow_right₀ one_le_two (by omega)
    have hpower : (2 : ℚ) ^ (23 : ℤ) * 2 ^ (e - 23) = 2 ^ e := by
      rw [← zpow_add₀ two_ne_zero]
      congr 1
      ring
    rcases lt_or_gt_of_ne hx with hneg | hpos
    · have hnear := hmultiple (-2 ^ 23)
      rw [abs_of_neg hneg] at hlow
      have hedge : ((-2 ^ 23 : ℤ) : ℚ) * 2 ^ max (e - 23) (-149) = -2 ^ e := by
        rw [hmax, ← hpower]
        push_cast
        norm_num
      rw [hedge, abs_of_nonneg (by linarith : (0 : ℚ) ≤ -2 ^ e - x)] at hnear
      refine hnear.trans (le_trans ?_ (le_abs_self _))
      linarith [(abs_le.mp hsmall).1]
    · have hnear := hmultiple (2 ^ 23)
      rw [abs_of_pos hpos] at hlow
      have hedge : ((2 ^ 23 : ℤ) : ℚ) * 2 ^ max (e - 23) (-149) = 2 ^ e := by
        rw [hmax, ← hpower]
        push_cast
        norm_num
      rw [hedge, abs_of_nonpos (by linarith : (2 : ℚ) ^ e - x ≤ 0)] at hnear
      refine hnear.trans (le_trans ?_ (neg_le_abs _))
      linarith [(abs_le.mp hsmall).2]

/-- A whole number is rounded to a whole number. -/
theorem exists_rounded_intCast (n : ℤ) : ∃ n' : ℤ, rounded n = n' := by
  by_cases hfits : |n| ≤ 2 ^ 24
  · have hself := abs_rounded_sub_le_abs (x := n) hfits (by decide : (-149 : ℤ) ≤ 0)
    rw [zpow_zero, mul_one, sub_self, abs_zero] at hself
    exact ⟨n, sub_eq_zero.mp (abs_nonpos_iff.mp hself)⟩
  · have hne : (n : ℚ) ≠ 0 := by
      rintro h
      rw [Int.cast_eq_zero.mp h] at hfits
      exact hfits (by decide)
    have hlarge : (2 : ℚ) ^ (24 : ℤ) < |(n : ℚ)| := by exact_mod_cast not_le.mp hfits
    have hhigh := hlarge.trans (exponent_spec hne).2
    have he := (zpow_lt_zpow_iff_right₀ (one_lt_two : (1 : ℚ) < 2)).mp hhigh
    rw [rounded]
    generalize exponent (n : ℚ) = e at he
    obtain ⟨d, hd⟩ : ∃ d : ℕ, max (e - 23) (-149) = d := ⟨(e - 23).toNat, by omega⟩
    refine ⟨roundEven (n / 2 ^ max (e - 23) (-149)) * 2 ^ d, ?_⟩
    rw [hd, zpow_natCast]
    push_cast
    rfl

/-- Rounding gives a number or an infinity. -/
theorem round_ne_nan (q : ℚ) : round q ≠ .nan := by
  rw [round_eq]
  split
  · rw [inf]
    split <;> exact fun h => by cases h
  · exact fun h => by cases h

/-! ## Comparison -/

/-- `a < b`. -/
def lt : Binary32 → Binary32 → Bool
  | .fin a, .fin b => a < b
  | .negInf, .fin _ => true
  | .negInf, .posInf => true
  | .fin _, .posInf => true
  | _, _ => false

/-- `a <= b`. -/
def le (a b : Binary32) : Bool := a ≠ .nan ∧ b ≠ .nan ∧ b.lt a = false

/-- `a == b`. -/
def eq : Binary32 → Binary32 → Bool
  | .nan, _ => false
  | a, b => decide (a = b)

/-- `std::clamp`. -/
def clamp (v lo hi : Binary32) : Binary32 :=
  if v.lt lo then lo else if hi.lt v then hi else v

/-- Not being smaller is transitive through a number. -/
theorem not_lt_trans {a b c : Binary32} (hb : b ≠ nan) (hab : a.lt b = false)
    (hbc : b.lt c = false) : a.lt c = false := by
  cases b with
  | nan => exact absurd rfl hb
  | negInf => cases c <;> simp_all [lt]
  | posInf => cases a <;> simp_all [lt]
  | fin y =>
      cases a with
      | fin x =>
          cases c with
          | fin z =>
              have hyx : y ≤ x := by simpa [lt] using hab
              have hzy : z ≤ y := by simpa [lt] using hbc
              simpa [lt] using hzy.trans hyx
          | _ => simp_all [lt]
      | _ => simp_all [lt]

/-- A value clamped to a range stays put when clamped to a wider one. -/
theorem clamp_clamp_of_wider {lo hi lo' hi' : Binary32} (hlo : lo ≠ nan) (hhi : hi ≠ nan)
    (h₁ : lo.lt lo' = false) (h₂ : hi.lt lo' = false) (h₃ : hi'.lt lo = false)
    (h₄ : hi'.lt hi = false) (v : Binary32) :
    (v.clamp lo hi).clamp lo' hi' = v.clamp lo hi := by
  by_cases hv : v.lt lo = true
  · simp [clamp, hv, h₁, h₃]
  · by_cases hv' : hi.lt v = true
    · simp [clamp, hv, hv', h₂, h₄]
    · rw [Bool.not_eq_true] at hv hv'
      have hv₁ : v.lt lo' = false := not_lt_trans hlo hv h₁
      have hv₂ : hi'.lt v = false := not_lt_trans hhi h₄ hv'
      simp [clamp, hv, hv', hv₁, hv₂]

/-! ## Arithmetic -/

/-- `a + b`. -/
def add : Binary32 → Binary32 → Binary32
  | .fin a, .fin b => round (a + b)
  | .nan, _ | _, .nan => .nan
  | .negInf, .posInf | .posInf, .negInf => .nan
  | .negInf, _ | _, .negInf => .negInf
  | .posInf, _ | _, .posInf => .posInf

/-- The sign bit, that of a zero left out. -/
def isNegative : Binary32 → Bool
  | .fin a => a < 0
  | .negInf => true
  | _ => false

/-- `a * b`; an infinity times zero is not a number. -/
def mul : Binary32 → Binary32 → Binary32
  | .fin a, .fin b => round (a * b)
  | a, b =>
      if a = .nan ∨ b = .nan ∨ a = .fin 0 ∨ b = .fin 0 then .nan
      else inf (a.isNegative != b.isNegative)

/-- `a / b`.  A zero has no sign of its own here, so that what is divided by it keeps its sign. -/
def div : Binary32 → Binary32 → Binary32
  | .fin a, .fin b =>
      if b = 0 then if a = 0 then .nan else inf (a < 0) else round (a / b)
  | .nan, _ | _, .nan => .nan
  | .fin _, _ => .fin 0
  | a, .fin b => inf (a.isNegative != decide (b < 0))
  | _, _ => .nan

/-- Conversion to a 32-bit integer: towards zero, and the smallest integer for a value
out of range, which is what the conversion instruction of the target gives. -/
def toInt : Binary32 → ℤ
  | .fin a =>
      let n := a.num.tdiv a.den
      if -(2 ^ 31) ≤ n ∧ n < 2 ^ 31 then n else -(2 ^ 31)
  | _ => -(2 ^ 31)

/-! ### Numbers up to a bound -/

/-- A number from 0 to a bound. -/
def UpTo (b : ℕ) (x : Binary32) : Prop := ∃ q, x = .fin q ∧ 0 ≤ q ∧ q ≤ b

/-- Rounding does not leave a range that ends in a whole number that fits the significand. -/
theorem upTo_round {b : ℕ} (hb : b ≤ 2 ^ 24) {q : ℚ} (hpos : 0 ≤ q) (hle : q ≤ b) :
    UpTo b (round q) := by
  have habs : |q| ≤ b := by rwa [abs_of_nonneg hpos]
  have hfinite : |q| ≤ maxFinite := by
    refine habs.trans ?_
    have hbound : (b : ℚ) ≤ 2 ^ 24 := by exact_mod_cast hb
    exact hbound.trans (by norm_num [maxFinite])
  exact ⟨rounded q, round_of_le hfinite, rounded_nonneg hpos,
    (le_abs_self _).trans (abs_rounded_le hb habs)⟩

theorem UpTo.mono {a b : ℕ} {x : Binary32} (h : UpTo a x) (hab : a ≤ b) : UpTo b x := by
  obtain ⟨q, rfl, hpos, hle⟩ := h
  exact ⟨q, rfl, hpos, hle.trans (by exact_mod_cast hab)⟩

theorem UpTo.add {a b : ℕ} {x y : Binary32} (hx : UpTo a x) (hy : UpTo b y)
    (hab : a + b ≤ 2 ^ 24) : UpTo (a + b) (x.add y) := by
  obtain ⟨p, rfl, hp, hpa⟩ := hx
  obtain ⟨q, rfl, hq, hqb⟩ := hy
  refine upTo_round hab (add_nonneg hp hq) ?_
  push_cast
  exact add_le_add hpa hqb

theorem UpTo.mul {a b : ℕ} {x y : Binary32} (hx : UpTo a x) (hy : UpTo b y)
    (hab : a * b ≤ 2 ^ 24) : UpTo (a * b) (x.mul y) := by
  obtain ⟨p, rfl, hp, hpa⟩ := hx
  obtain ⟨q, rfl, hq, hqb⟩ := hy
  refine upTo_round hab (mul_nonneg hp hq) ?_
  push_cast
  exact mul_le_mul hpa hqb hq (by positivity)

theorem ofInt_natCast {n : ℕ} (hn : n ≤ 2 ^ 24) : ofInt n = .fin n := by
  have hfinite : |((n : ℕ) : ℚ)| ≤ maxFinite := by
    have hbound : (n : ℚ) ≤ 2 ^ 24 := by exact_mod_cast hn
    rw [Nat.abs_cast]
    exact hbound.trans (by norm_num [maxFinite])
  rw [ofInt, Int.cast_natCast, round_of_le hfinite, rounded_natCast hn]

/-- A number that is at most so many times a bound, divided by that many. -/
theorem UpTo.div {b n : ℕ} {x : Binary32} (hx : UpTo (b * n) x) (hn : 0 < n) (hfits : n ≤ 2 ^ 24)
    (hb : b ≤ 2 ^ 24) : UpTo b (x.div (ofInt n)) := by
  obtain ⟨q, rfl, hpos, hle⟩ := hx
  have hne : ((n : ℕ) : ℚ) ≠ 0 := by exact_mod_cast hn.ne'
  rw [ofInt_natCast hfits, Binary32.div, if_neg hne]
  refine upTo_round hb (by positivity) ?_
  rw [div_le_iff₀ (by exact_mod_cast hn)]
  exact_mod_cast hle

/-- A sum, added up from the left, of numbers up to a bound. -/
theorem upTo_foldl_add {b : ℕ} {xs : List Binary32} (h : ∀ x ∈ xs, UpTo b x)
    (hfits : b * xs.length ≤ 2 ^ 24) : UpTo (b * xs.length) (xs.foldl add (.fin 0)) := by
  induction xs using List.reverseRecOn with
  | nil => exact ⟨0, rfl, le_rfl, by positivity⟩
  | append_singleton xs x ih =>
      obtain ⟨hxs, hx⟩ := List.forall_mem_append.mp h
      rw [List.length_append, List.length_singleton, Nat.mul_add, Nat.mul_one] at hfits ⊢
      rw [List.foldl_concat]
      exact (ih hxs (by omega)).add (hx x List.mem_cons_self) hfits

/-! ### What is not a number -/

@[simp] theorem add_nan (x : Binary32) : x.add .nan = .nan := by cases x <;> rfl
@[simp] theorem nan_add (x : Binary32) : Binary32.nan.add x = .nan := by cases x <;> rfl
@[simp] theorem nan_div (x : Binary32) : Binary32.nan.div x = .nan := by cases x <;> rfl
@[simp] theorem mul_nan (x : Binary32) : x.mul .nan = .nan := by cases x <;> simp [mul]
@[simp] theorem nan_mul (x : Binary32) : Binary32.nan.mul x = .nan := by cases x <;> simp [mul]

/-- A sum is not a number if a summand is not. -/
theorem foldl_add_of_nan {xs : List Binary32} (h : .nan ∈ xs) (x : Binary32) :
    xs.foldl add x = .nan := by
  have hnan : ∀ ys : List Binary32, ys.foldl add .nan = .nan := by
    intro ys
    induction ys with
    | nil => rfl
    | cons y ys ih => rw [List.foldl_cons, nan_add, ih]
  induction xs generalizing x with
  | nil => cases h
  | cons y ys ih =>
      rw [List.foldl_cons]
      rcases List.mem_cons.mp h with rfl | hmem
      · rw [add_nan, hnan]
      · exact ih hmem _

example : ofBits 0x3dcccccd = round (1 / 10) := by decide +kernel

example : toBits (round (1 / 10)) = 0x3dcccccd := by decide +kernel

example : (ofInt 950).mul (ofBits 0x3dcccccd) = .fin 95 := by decide +kernel

end Binary32
