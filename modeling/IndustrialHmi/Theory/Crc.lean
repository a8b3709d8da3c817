import Mathlib.Logic.Function.Iterate
import Mathlib.Data.List.Basic

/-!
# Cyclic redundancy checks

The register of a CRC of width `w` is shifted left, and the generator is added when a bit falls
out.  Addition is exclusive or, and a shift is linear in it.  So a message with some bits flipped
has the register of the message, and what the flipped bits alone leave in a register that began
at zero.

A bit that was flipped `n` shifts before the end leaves `pow g n`.  Different bits leave different
words, as long as no `pow g d` with `0 < d` is 1 within the length of the message; and with a
generator of even weight, as a polynomial, every such word has odd weight.  That is why one, two
or three flipped bits always leave something (`xorAll_pow_ne_zero`).
-/

namespace Crc

variable {w : Nat}

/-- The generator has the bits of `g` and the one above them. -/
def shift (g r : BitVec w) : BitVec w := (r <<< 1) ^^^ (if r.msb then g else 0#w)

/-- What a bit leaves that went into the lowest place `n` shifts ago. -/
def pow (g : BitVec w) (n : Nat) : BitVec w := (shift g)^[n] 1#w

/-- A byte goes into the highest places. -/
def feed (g r : BitVec w) (b : BitVec 8) : BitVec w :=
  (shift g)^[8] (r ^^^ (b.setWidth w <<< (w - 8)))

def run (g r : BitVec w) (bytes : List (BitVec 8)) : BitVec w := bytes.foldl (feed g) r

/-- The sum of some words. -/
def xorAll (words : List (BitVec w)) : BitVec w := words.foldr (· ^^^ ·) 0#w

/-! ## Shifts are linear -/

theorem shift_xor (g a b : BitVec w) : shift g (a ^^^ b) = shift g a ^^^ shift g b := by
  have hadded : (if (a ^^^ b).msb then g else 0#w) =
      (if a.msb then g else 0#w) ^^^ (if b.msb then g else 0#w) := by
    rw [BitVec.msb_xor]
    cases a.msb <;> cases b.msb <;> simp
  rw [shift, shift, shift, hadded, BitVec.shiftLeft_xor_distrib]
  ac_rfl

theorem shift_zero (g : BitVec w) : shift g 0#w = 0#w := by
  have hself := shift_xor g 0#w 0#w
  rwa [BitVec.xor_self, BitVec.xor_self] at hself

theorem iterate_xor (g : BitVec w) (n : Nat) (a b : BitVec w) :
    (shift g)^[n] (a ^^^ b) = (shift g)^[n] a ^^^ (shift g)^[n] b := by
  induction n generalizing a b with
  | zero => rfl
  | succ n ih => rw [Function.iterate_succ_apply, shift_xor, ih]; rfl

theorem iterate_zero (g : BitVec w) (n : Nat) : (shift g)^[n] 0#w = 0#w :=
  Function.iterate_fixed (shift_zero g) n

theorem pow_add (g : BitVec w) (m n : Nat) : pow g (m + n) = (shift g)^[m] (pow g n) :=
  Function.iterate_add_apply _ m n 1#w

/-- As long as no bit falls out a power is a single bit. -/
theorem pow_eq_twoPow (g : BitVec w) {n : Nat} (h : n < w) : pow g n = BitVec.twoPow w n := by
  induction n with
  | zero => exact (BitVec.twoPow_zero).symm
  | succ n ih =>
      have hn : n < w := Nat.lt_of_succ_lt h
      have hmsb : (BitVec.twoPow w n).msb = false := by
        rw [BitVec.msb_eq_getLsbD_last, BitVec.getLsbD_twoPow]
        simp only [Bool.and_eq_false_iff, decide_eq_false_iff_not]
        right
        omega
      rw [Nat.add_comm, pow_add, ih hn, Function.iterate_one, shift, hmsb]
      simp [BitVec.twoPow_eq, Nat.add_comm 1, BitVec.shiftLeft_add]

/-! ## Messages -/

/-- What was in the register stays beside the message. -/
theorem run_xor (g r s : BitVec w) (bytes : List (BitVec 8)) :
    run g (r ^^^ s) bytes = run g r bytes ^^^ (shift g)^[8 * bytes.length] s := by
  induction bytes generalizing r s with
  | nil => rfl
  | cons b bytes ih =>
      have hfeed : feed g (r ^^^ s) b = feed g r b ^^^ (shift g)^[8] s := by
        rw [feed, feed, ← iterate_xor]
        congr 1
        ac_rfl
      show run g (feed g (r ^^^ s) b) bytes = run g (feed g r b) bytes ^^^ _
      rw [hfeed, ih, List.length_cons, Nat.mul_succ, Function.iterate_add_apply]

/-- A byte to which something is added. -/
theorem run_modify (g r : BitVec w) (d : BitVec 8) {bytes : List (BitVec 8)} {i : Nat}
    (h : i < bytes.length) :
    run g r (bytes.modify i (· ^^^ d)) =
      run g r bytes ^^^ (shift g)^[8 * (bytes.length - i)] (d.setWidth w <<< (w - 8)) := by
  induction bytes generalizing i r with
  | nil => exact absurd h (Nat.not_lt_zero i)
  | cons b bytes ih =>
      cases i with
      | zero =>
          have hfeed : feed g r (b ^^^ d) =
              feed g r b ^^^ (shift g)^[8] (d.setWidth w <<< (w - 8)) := by
            rw [feed, feed, ← iterate_xor, BitVec.setWidth_xor, BitVec.shiftLeft_xor_distrib]
            congr 1
            ac_rfl
          show run g (feed g r (b ^^^ d)) bytes = run g (feed g r b) bytes ^^^ _
          rw [hfeed, run_xor, List.length_cons, Nat.sub_zero, Nat.mul_succ,
            Function.iterate_add_apply]
      | succ i =>
          rw [List.modify_succ_cons, List.length_cons, Nat.add_sub_add_right]
          exact ih (feed g r b) (Nat.lt_of_succ_lt_succ h)

/-- A bit of a message that is flipped leaves a power. -/
theorem run_flip (g r : BitVec w) (hw : 8 ≤ w) {bytes : List (BitVec 8)} {i k : Nat}
    (hi : i < bytes.length) (hk : k < 8) :
    run g r (bytes.modify i (· ^^^ BitVec.twoPow 8 k)) =
      run g r bytes ^^^ pow g (8 * (bytes.length - i) + (w - 8 + k)) := by
  have hbit : (BitVec.twoPow 8 k).setWidth w <<< (w - 8) = pow g (w - 8 + k) := by
    rw [pow_eq_twoPow g (by omega)]
    apply BitVec.eq_of_getLsbD_eq
    intro j hj
    rw [BitVec.getLsbD_shiftLeft, BitVec.getLsbD_setWidth, BitVec.getLsbD_twoPow,
      BitVec.getLsbD_twoPow, Bool.eq_iff_iff]
    simp only [Bool.and_eq_true, Bool.not_eq_true', decide_eq_true_eq, decide_eq_false_iff_not]
    omega
  rw [run_modify g r _ hi, hbit, pow_add g (8 * (bytes.length - i))]

/-! ## Powers that differ -/

/-- With the lowest bit in the generator a shift loses nothing. -/
theorem shift_eq_zero {g r : BitVec w} (hg : g.getLsbD 0 = true) (h : shift g r = 0#w) :
    r = 0#w := by
  have hlow : (r <<< 1).getLsbD 0 = false := by
    rw [BitVec.getLsbD_shiftLeft]
    simp
  have hmsb : r.msb = false := by
    by_contra hmsb
    rw [Bool.not_eq_false] at hmsb
    have hbit := congrArg (BitVec.getLsbD · 0) h
    rw [shift, hmsb, if_pos rfl] at hbit
    simp [hlow, hg] at hbit
  rw [shift, hmsb, if_neg Bool.false_ne_true, BitVec.xor_zero] at h
  apply BitVec.eq_of_getLsbD_eq
  intro j hj
  rw [BitVec.getLsbD_zero]
  by_cases hlast : j + 1 < w
  · have hbit := congrArg (BitVec.getLsbD · (j + 1)) h
    simp only [BitVec.getLsbD_shiftLeft, BitVec.getLsbD_zero, hlast, decide_true, Bool.true_and,
      Nat.add_sub_cancel] at hbit
    simpa using hbit
  · rw [BitVec.msb_eq_getLsbD_last] at hmsb
    have hj : j = w - 1 := by omega
    rw [hj]
    exact hmsb

theorem iterate_injective {g : BitVec w} (hg : g.getLsbD 0 = true) (n : Nat) :
    Function.Injective ((shift g)^[n]) := by
  refine Function.Injective.iterate (fun a b hab => ?_) n
  have hzero : shift g (a ^^^ b) = 0#w := by rw [shift_xor, hab, BitVec.xor_self]
  exact BitVec.xor_eq_zero_iff.mp (shift_eq_zero hg hzero)

theorem pow_ne_zero {g : BitVec w} (hg : g.getLsbD 0 = true) (hw : 0 < w) (n : Nat) :
    pow g n ≠ 0#w := by
  intro h
  have hone : 1#w = 0#w :=
    iterate_injective hg n (h.trans (iterate_zero g n).symm)
  have hbit := congrArg (BitVec.getLsbD · 0) hone
  simp [hw] at hbit

/-- Powers are different as long as none between them is 1. -/
theorem pow_injOn {g : BitVec w} (hg : g.getLsbD 0 = true) {bound : Nat}
    (horder : ∀ d, 0 < d → d < bound → pow g d ≠ 1#w) {m n : Nat} (hm : m < bound) (hn : n < bound)
    (h : pow g m = pow g n) : m = n := by
  -- The smaller one is taken off both.
  have hle : ∀ {m n : Nat}, n < bound → m ≤ n → pow g m = pow g n → m = n := by
    intro m n hn hmn h
    obtain ⟨d, rfl⟩ := Nat.exists_eq_add_of_le hmn
    rw [pow_add] at h
    have hone : pow g d = 1#w := (iterate_injective hg m h).symm
    by_contra hne
    exact horder d (by omega) (by omega) hone
  rcases Nat.le_total m n with hmn | hnm
  · exact hle hn hmn h
  · exact (hle hm hnm h.symm).symm

/-! ## The weight of a word -/

/-- Whether the number of bits below a place is odd. -/
def oddBelow (r : BitVec w) : Nat → Bool
  | 0 => false
  | n + 1 => oddBelow r n ^^ r.getLsbD n

/-- Whether the weight of a word is odd. -/
def odd (r : BitVec w) : Bool := oddBelow r w

theorem oddBelow_xor (a b : BitVec w) (n : Nat) :
    oddBelow (a ^^^ b) n = (oddBelow a n ^^ oddBelow b n) := by
  induction n with
  | zero => rfl
  | succ n ih =>
      rw [oddBelow, oddBelow, oddBelow, ih, BitVec.getLsbD_xor, Bool.xor_assoc, Bool.xor_assoc,
        Bool.xor_left_comm (a.getLsbD n)]

theorem odd_xor (a b : BitVec w) : odd (a ^^^ b) = (odd a ^^ odd b) := oddBelow_xor a b w

theorem oddBelow_zero (n : Nat) : oddBelow 0#w n = false := by
  induction n with
  | zero => rfl
  | succ n ih =>
      rw [oddBelow, ih, BitVec.getLsbD_zero]
      rfl

theorem oddBelow_shiftLeft (r : BitVec w) {n : Nat} (h : n < w) :
    oddBelow (r <<< 1) (n + 1) = oddBelow r n := by
  induction n with
  | zero =>
      show (false ^^ (r <<< 1).getLsbD 0) = false
      rw [BitVec.getLsbD_shiftLeft]
      simp
  | succ n ih =>
      rw [oddBelow, ih (Nat.lt_of_succ_lt h), oddBelow, BitVec.getLsbD_shiftLeft]
      simp [h]

/-- A generator of odd weight keeps the parity, together with the bit above it. -/
theorem odd_shift {g : BitVec w} (hg : odd g = true) (r : BitVec w) : odd (shift g r) = odd r := by
  have hadded : odd (if r.msb then g else 0#w) = r.msb := by
    cases r.msb with
    | true => exact hg
    | false => exact oddBelow_zero w
  rw [shift, odd_xor, hadded]
  cases w with
  | zero => simp [odd, oddBelow, BitVec.eq_nil r]
  | succ w =>
      rw [odd, oddBelow_shiftLeft r (Nat.lt_succ_self w), BitVec.msb_eq_getLsbD_last]
      rfl

theorem odd_pow {g : BitVec w} (hg : odd g = true) (hw : 0 < w) (n : Nat) :
    odd (pow g n) = true := by
  induction n with
  | zero =>
      obtain ⟨w, rfl⟩ := Nat.exists_eq_succ_of_ne_zero (Nat.ne_of_gt hw)
      have hone : ∀ n, oddBelow 1#(w + 1) (n + 1) = true := by
        intro n
        induction n with
        | zero => simp [oddBelow]
        | succ n ih =>
            rw [oddBelow, ih]
            simp
      exact hone w
  | succ n ih => rw [Nat.add_comm, pow_add, Function.iterate_one, odd_shift hg, ih]

/-! ## A few flipped bits -/

/-- The sum of one, two or three different powers is not zero. -/
theorem xorAll_pow_ne_zero {g : BitVec w} (hlow : g.getLsbD 0 = true) (hodd : odd g = true)
    (hw : 0 < w) {bound : Nat} (horder : ∀ d, 0 < d → d < bound → pow g d ≠ 1#w) {es : List Nat}
    (hne : es ≠ []) (hle : es.length ≤ 3) (hnodup : es.Nodup) (hbound : ∀ e ∈ es, e < bound) :
    xorAll (es.map (pow g)) ≠ 0#w := by
  rcases es with _ | ⟨a, _ | ⟨b, _ | ⟨c, _ | ⟨d, es⟩⟩⟩⟩
  · exact absurd rfl hne
  · show pow g a ^^^ 0#w ≠ 0#w
    rw [BitVec.xor_zero]
    exact pow_ne_zero hlow hw a
  · show pow g a ^^^ (pow g b ^^^ 0#w) ≠ 0#w
    rw [BitVec.xor_zero]
    intro h
    have heq : a = b := pow_injOn hlow horder (hbound a List.mem_cons_self)
      (hbound b (List.mem_cons_of_mem a List.mem_cons_self)) (BitVec.xor_eq_zero_iff.mp h)
    rw [heq] at hnodup
    exact (List.nodup_cons.mp hnodup).1 List.mem_cons_self
  · intro h
    have hparity := congrArg odd h
    rw [List.map_cons, List.map_cons, List.map_cons, List.map_nil, xorAll, List.foldr_cons,
      List.foldr_cons, List.foldr_cons, List.foldr_nil, odd_xor, odd_xor, odd_xor,
      odd_pow hodd hw, odd_pow hodd hw, odd_pow hodd hw, odd, oddBelow_zero] at hparity
    cases hparity
  · simp only [List.length_cons] at hle
    omega

/-! ## The order of a generator -/

/-- None of the next `n` powers is 1. -/
def noneIsOne (g : BitVec w) : Nat → BitVec w → Bool
  | 0, _ => true
  | n + 1, r => decide (r ≠ 1#w) && noneIsOne g n (shift g r)

theorem pow_ne_one {g : BitVec w} {n : Nat} (h : noneIsOne g n (pow g 1) = true) {d : Nat}
    (hpos : 0 < d) (hle : d ≤ n) : pow g d ≠ 1#w := by
  have hfrom : ∀ {n m : Nat}, noneIsOne g n (pow g m) = true → ∀ i < n, pow g (m + i) ≠ 1#w := by
    intro n
    induction n with
    | zero => exact fun _ i hi => absurd hi (Nat.not_lt_zero i)
    | succ n ih =>
        intro m h i hi
        rw [noneIsOne, Bool.and_eq_true, decide_eq_true_eq] at h
        cases i with
        | zero => exact h.1
        | succ i =>
            have hnext : shift g (pow g m) = pow g (m + 1) := by
              rw [Nat.add_comm, pow_add, Function.iterate_one]
            rw [hnext] at h
            rw [← Nat.add_assoc, Nat.add_right_comm]
            exact ih h.2 i (Nat.lt_of_succ_lt_succ hi)
  have hlast := hfrom h (d - 1) (by omega)
  rwa [Nat.add_sub_cancel' hpos] at hlast

end Crc
