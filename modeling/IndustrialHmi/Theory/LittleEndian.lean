import Mathlib.Data.Nat.Bitwise

/-!
# Little-endian numbers

The bytes of a natural number, low byte first, and the number that a run of
bytes spells.  A fixed width makes the two inverse to each other: `leNat_leBytes`
below the width, `leBytes_leNat` always.

Code builds such numbers with shifts, masks and a bitwise or.
`or_shiftLeft_eq_add` turns one such step into a sum.
-/

namespace LittleEndian

/-- The `w` low bytes of `n`, low byte first. -/
def leBytes : Nat → Nat → List UInt8
  | 0, _ => []
  | w + 1, n => UInt8.ofNat n :: leBytes w (n / 256)

/-- The number spelled by bytes, low byte first. -/
def leNat : List UInt8 → Nat
  | [] => 0
  | b :: bs => b.toNat + 256 * leNat bs

@[simp] theorem leBytes_length (w n : Nat) : (leBytes w n).length = w := by
  induction w generalizing n with
  | zero => rfl
  | succ w ih => rw [leBytes, List.length_cons, ih]

theorem leNat_leBytes {w n : Nat} (h : n < 256 ^ w) : leNat (leBytes w n) = n := by
  induction w generalizing n with
  | zero =>
      rw [Nat.pow_zero] at h
      rw [leBytes, leNat]
      omega
  | succ w ih =>
      have hdiv : n / 256 < 256 ^ w := by
        rw [Nat.pow_succ] at h
        exact Nat.div_lt_of_lt_mul (by omega)
      rw [leBytes, leNat, ih hdiv, UInt8.toNat_ofNat']
      omega

theorem leBytes_leNat (bs : List UInt8) : leBytes bs.length (leNat bs) = bs := by
  induction bs with
  | nil => rfl
  | cons b bs ih =>
      have hb := b.toNat_lt
      have hlow : UInt8.ofNat (b.toNat + 256 * leNat bs) = b := by
        apply UInt8.toNat_inj.mp
        rw [UInt8.toNat_ofNat']
        omega
      have hdiv : (b.toNat + 256 * leNat bs) / 256 = leNat bs := by omega
      rw [List.length_cons, leNat, leBytes, hlow, hdiv, ih]

/-- Or-ing a shifted number over a small one adds them. -/
theorem or_shiftLeft_eq_add {a k : Nat} (b : Nat) (h : a < 2 ^ k) :
    a ||| b <<< k = a + 2 ^ k * b := by
  rw [Nat.or_comm, ← Nat.shiftLeft_add_eq_or_of_lt h b, Nat.shiftLeft_eq, Nat.mul_comm]
  exact Nat.add_comm _ _

/-- Masking with `0xFF` keeps the low byte. -/
theorem and_255 (n : Nat) : n &&& 255 = n % 256 := Nat.and_two_pow_sub_one_eq_mod n 8

end LittleEndian
