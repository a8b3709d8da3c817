import Mathlib.Data.List.GetD

/-!
# Big-endian words

The two bytes of a 16-bit word, high byte first, and the word at an offset of a buffer.
Words written one after the other are read back at every second byte.
-/

namespace BigEndian

def bytes (value : BitVec 16) : List (BitVec 8) :=
  [(value >>> 8).setWidth 8, value.setWidth 8]

/-- The word at an offset; bytes beyond the buffer count as zero. -/
def word (buf : List (BitVec 8)) (offset : Nat) : BitVec 16 :=
  (buf.getD offset 0).setWidth 16 <<< 8 ||| (buf.getD (offset + 1) 0).setWidth 16

@[simp] theorem length_bytes (value : BitVec 16) : (bytes value).length = 2 := rfl

theorem length_flatMap_bytes (values : List (BitVec 16)) :
    (values.flatMap bytes).length = values.length * 2 := by
  induction values with
  | nil => rfl
  | cons value values ih =>
      rw [List.flatMap_cons, List.length_append, ih, length_bytes, List.length_cons]
      omega

/-- High and low byte make up the word. -/
theorem or_halves (value : BitVec 16) :
    ((value >>> 8).setWidth 8).setWidth 16 <<< 8 ||| (value.setWidth 8).setWidth 16 = value := by
  ext i hi
  by_cases hlow : i < 8
  · simp [hlow, BitVec.getLsbD_eq_getElem hi]
  · have hhigh : i - 8 < 8 := by omega
    have hback : 8 + (i - 8) = i := by omega
    simp [hlow, hhigh, hback, hi]

theorem word_append (before after : List (BitVec 8)) (value : BitVec 16) :
    word (before ++ bytes value ++ after) before.length = value := by
  have hhigh : (before ++ bytes value ++ after).getD before.length 0 =
      (value >>> 8).setWidth 8 := by
    simp [bytes]
  have hlow : (before ++ bytes value ++ after).getD (before.length + 1) 0 =
      value.setWidth 8 := by
    simp [bytes]
  rw [word, hhigh, hlow, or_halves]

/-- Words written one after the other are read back. -/
theorem words_flatMap (before : List (BitVec 8)) (values : List (BitVec 16)) :
    (List.range values.length).map
      (fun i => word (before ++ values.flatMap bytes) (before.length + i * 2)) = values := by
  induction values generalizing before with
  | nil => rfl
  | cons value values ih =>
      have hfirst := word_append before (values.flatMap bytes) value
      have hrest := ih (before ++ bytes value)
      rw [List.length_append, length_bytes, List.append_assoc] at hrest
      rw [List.append_assoc] at hfirst
      rw [List.length_cons, List.range_succ_eq_map, List.map_cons, List.map_map,
        List.flatMap_cons, Nat.zero_mul, Nat.add_zero, hfirst]
      congr 1
      refine Eq.trans (List.map_congr_left fun i _ => ?_) hrest
      rw [Function.comp_apply]
      congr 1
      omega

/-- The word that is read has the bytes from which it was read. -/
theorem bytes_word (buf : List (BitVec 8)) (offset : Nat) :
    bytes (word buf offset) = [buf.getD offset 0, buf.getD (offset + 1) 0] := by
  generalize hhigh : buf.getD offset 0 = high
  generalize hlow : buf.getD (offset + 1) 0 = low
  rw [word, hhigh, hlow, bytes]
  congr 1
  · ext i hi
    have hword : i < 16 := Nat.lt_trans hi (by decide)
    have hshifted : 8 + i < 16 := Nat.add_lt_add_left hi 8
    simp [hi, hword, hshifted]
  · congr 1
    ext i hi
    simp

/-- Words read to the end of a buffer have the bytes that are there. -/
theorem flatMap_bytes_words {buf : List (BitVec 8)} {offset n : Nat}
    (h : buf.length = offset + 2 * n) :
    ((List.range n).map fun i => word buf (offset + i * 2)).flatMap bytes = buf.drop offset := by
  induction n generalizing offset with
  | zero => exact (List.drop_eq_nil_of_le (Nat.le_of_eq h)).symm
  | succ n ih =>
      have hlength : buf.length = offset + 2 + 2 * n := by omega
      have hrest := ih hlength
      rw [List.range_succ_eq_map, List.map_cons, List.map_map, List.flatMap_cons, Nat.zero_mul,
        Nat.add_zero, bytes_word, List.getD_eq_getElem _ _ (by omega),
        List.getD_eq_getElem _ _ (by omega), List.drop_eq_getElem_cons (by omega),
        List.drop_eq_getElem_cons (by omega), ← hrest]
      refine congrArg _ (congrArg (List.flatMap bytes) (List.map_congr_left fun i _ => ?_))
      rw [Function.comp_apply]
      congr 1
      omega

end BigEndian
