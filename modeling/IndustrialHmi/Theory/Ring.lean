import Mathlib.Data.BitVec
import Mathlib.Data.Nat.ModEq
import Mathlib.Logic.Function.Basic

/-!
# Rings with free-running indices

A ring has a power of two of slots and indices of `w` bits that only count up and
wrap.  An index names a slot by its low bits.

`index start n` is the index after `n` steps from `start`.  Indices less than a
ring apart name different slots (`slot_ne`), and the difference of two indices is
the number of steps between them (`index_sub`), wrapped or not.

`Window` is the invariant of a bounded queue in a ring: of the values pushed so
far, those that have not been popped stand in the slots between the two indices.
It does not say what a slot is: `f` turns a value into what its slot holds.  Its
rules follow the life of a value: written, published, taken, freed.
-/

namespace Ring

variable {w : Nat}

/-! ## Slots -/

/-- A number of slots: a power of two that is at least 2 and is itself an index. -/
structure Capacity (w : Nat) where
  bits : Nat
  pos : 0 < bits
  lt : bits < w

/-- How many slots there are. -/
def Capacity.slots (c : Capacity w) : Nat := 2 ^ c.bits

/-- The low bits. -/
def Capacity.mask (c : Capacity w) : BitVec w := BitVec.ofNat w c.slots - 1

theorem Capacity.two_le (c : Capacity w) : 2 ≤ c.slots :=
  Nat.le_self_pow (Nat.ne_of_gt c.pos) 2

theorem Capacity.slots_lt (c : Capacity w) : c.slots < 2 ^ w :=
  Nat.pow_lt_pow_right (by decide) c.lt

theorem Capacity.mask_toNat (c : Capacity w) : c.mask.toNat = c.slots - 1 := by
  have hpos := c.two_le
  have hmask : c.mask = BitVec.ofNat w (c.slots - 1) := by
    have hsucc : c.slots = c.slots - 1 + 1 := by omega
    rw [Capacity.mask, hsucc, BitVec.ofNat_add, Nat.add_sub_cancel]
    exact add_sub_cancel_right _ _
  rw [hmask, BitVec.toNat_ofNat]
  exact Nat.mod_eq_of_lt (Nat.lt_of_le_of_lt (Nat.sub_le _ _) c.slots_lt)

theorem Capacity.and_mask (c : Capacity w) (i : BitVec w) :
    (i &&& c.mask).toNat = i.toNat % c.slots := by
  rw [BitVec.toNat_and, c.mask_toNat, Capacity.slots, Nat.and_two_pow_sub_one_eq_mod]

/-- The slot that an index names. -/
def Capacity.slot (c : Capacity w) (i : BitVec w) : Fin c.slots :=
  ⟨(i &&& c.mask).toNat, by
    rw [c.and_mask]
    exact Nat.mod_lt _ (Nat.two_pow_pos _)⟩

/-! ## Indices -/

/-- The index after `n` steps. -/
def index (start : BitVec w) (n : Nat) : BitVec w := start + BitVec.ofNat w n

theorem index_zero (start : BitVec w) : index start 0 = start := BitVec.add_zero start

theorem index_succ (start : BitVec w) (n : Nat) : index start (n + 1) = index start n + 1 := by
  rw [index, BitVec.ofNat_add, index]
  exact (add_assoc _ _ _).symm

theorem index_add (start : BitVec w) (m n : Nat) :
    index start (m + n) = index start m + BitVec.ofNat w n := by
  rw [index, BitVec.ofNat_add, index]
  exact (add_assoc _ _ _).symm

/-- The difference of two indices is the number of steps between them. -/
theorem index_sub (start : BitVec w) {m n : Nat} (hle : m ≤ n) (hlt : n - m < 2 ^ w) :
    (index start n - index start m).toNat = n - m := by
  obtain ⟨d, rfl⟩ := Nat.exists_eq_add_of_le hle
  rw [Nat.add_sub_cancel_left] at hlt ⊢
  rw [index_add]
  have hcancel : index start m + BitVec.ofNat w d - index start m = BitVec.ofNat w d :=
    add_sub_cancel_left _ _
  rw [hcancel, BitVec.toNat_ofNat, Nat.mod_eq_of_lt hlt]

theorem index_inj (start : BitVec w) {m n : Nat} (hle : m ≤ n) (hlt : n - m < 2 ^ w)
    (h : index start m = index start n) : m = n := by
  have hsub := index_sub start hle hlt
  rw [h, BitVec.sub_self] at hsub
  have hzero : (0#w).toNat = 0 := BitVec.toNat_zero
  omega

theorem Capacity.slot_index (c : Capacity w) (start : BitVec w) (n : Nat) :
    (c.slot (index start n)).val = (start.toNat + n) % c.slots := by
  have hdvd : c.slots ∣ 2 ^ w := Nat.pow_dvd_pow 2 (Nat.le_of_lt c.lt)
  change (index start n &&& c.mask).toNat = _
  rw [c.and_mask, index, BitVec.toNat_add, BitVec.toNat_ofNat, Nat.mod_mod_of_dvd _ hdvd,
    Nat.add_mod, Nat.mod_mod_of_dvd _ hdvd, ← Nat.add_mod]

/-- Indices less than a ring apart name different slots. -/
theorem Capacity.slot_ne (c : Capacity w) (start : BitVec w) {m n : Nat} (hlt : m < n)
    (hring : n < m + c.slots) : c.slot (index start m) ≠ c.slot (index start n) := by
  intro h
  have hval := congrArg Fin.val h
  rw [c.slot_index, c.slot_index] at hval
  have hmod : m ≡ n [MOD c.slots] := Nat.ModEq.add_left_cancel' start.toNat hval
  have hdvd := (Nat.modEq_iff_dvd' (Nat.le_of_lt hlt)).mp hmod
  have hle := Nat.le_of_dvd (by omega) hdvd
  omega

/-! ## The window of a bounded queue -/

section

variable {α κ : Type} {c : Capacity w} {f : α → κ} {start : BitVec w} {pushed popped : List α}
  {first : Nat} {head tail : BitVec w} {buffer : Fin c.slots → κ}

/-- The values pushed and not popped stand between the two indices.  The slots from
number `first` on hold theirs; the ones before it may have been emptied. -/
structure Window (c : Capacity w) (f : α → κ) (start : BitVec w) (pushed popped : List α)
    (first : Nat) (head tail : BitVec w) (buffer : Fin c.slots → κ) : Prop where
  taken : popped <+: pushed
  bound : pushed.length ≤ popped.length + (c.slots - 1)
  head_eq : head = index start popped.length
  tail_eq : tail = index start pushed.length
  content : ∀ n v, first ≤ n → pushed[n]? = some v → buffer (c.slot (index start n)) = f v

/-- An empty ring. -/
theorem Window.empty (buffer : Fin c.slots → κ) : Window c f start [] [] 0 start start buffer where
  taken := List.prefix_rfl
  bound := Nat.zero_le _
  head_eq := (index_zero start).symm
  tail_eq := (index_zero start).symm
  content := fun _ _ _ h => nomatch h

theorem Window.length_le (h : Window c f start pushed popped first head tail buffer) :
    popped.length ≤ pushed.length := h.taken.length_le

/-- Fewer values wait than there are slots. -/
theorem Window.waiting_lt (h : Window c f start pushed popped first head tail buffer) :
    pushed.length - popped.length < c.slots := by
  have hbound := h.bound
  have htwo := c.two_le
  omega

/-- The difference of the indices is the number of values that wait. -/
theorem Window.occupancy (h : Window c f start pushed popped first head tail buffer) :
    (tail - head).toNat = pushed.length - popped.length := by
  rw [h.head_eq, h.tail_eq]
  exact index_sub start h.length_le (Nat.lt_trans h.waiting_lt c.slots_lt)

/-- What stands in the slots between the two indices. -/
theorem Window.contents (h : Window c f start pushed popped popped.length head tail buffer) :
    (List.range (tail - head).toNat).map (fun n => buffer (c.slot (head + BitVec.ofNat w n))) =
      (pushed.drop popped.length).map f := by
  apply List.ext_getElem?
  intro n
  rw [h.occupancy, List.getElem?_map, List.getElem?_map, List.getElem?_drop]
  by_cases hn : n < pushed.length - popped.length
  · have hitem := List.getElem?_eq_getElem (show popped.length + n < pushed.length by omega)
    rw [List.getElem?_range hn, hitem, Option.map_some, Option.map_some, h.head_eq, ← index_add]
    exact congrArg some (h.content _ _ (Nat.le_add_right _ _) hitem)
  · have hrange : (List.range (pushed.length - popped.length))[n]? = none :=
      List.getElem?_eq_none (by rw [List.length_range]; omega)
    rw [hrange, List.getElem?_eq_none (show pushed.length ≤ popped.length + n by omega)]
    rfl

/-- The test for a full ring. -/
theorem Window.full_iff (h : Window c f start pushed popped first head tail buffer) :
    tail + 1 - head > c.mask ↔ pushed.length = popped.length + (c.slots - 1) := by
  have hlength := h.length_le
  have hbound := h.bound
  have htwo := c.two_le
  have hslots := c.slots_lt
  have hsub : (tail + 1 - head).toNat = pushed.length + 1 - popped.length := by
    rw [h.head_eq, h.tail_eq, ← index_succ]
    exact index_sub start (by omega) (by omega)
  rw [gt_iff_lt, BitVec.lt_def, hsub, c.mask_toNat]
  omega

/-- A ring that is not full has room. -/
theorem Window.room (h : Window c f start pushed popped first head tail buffer)
    (hroom : ¬ tail + 1 - head > c.mask) : pushed.length < popped.length + (c.slots - 1) :=
  Nat.lt_of_le_of_ne h.bound fun he => hroom (h.full_iff.mpr he)

/-- The test for an empty ring. -/
theorem Window.empty_iff (h : Window c f start pushed popped first head tail buffer) :
    head = tail ↔ pushed.length = popped.length := by
  rw [h.head_eq, h.tail_eq]
  refine ⟨fun he => ?_, fun he => by rw [he]⟩
  exact (index_inj start h.length_le (Nat.lt_trans h.waiting_lt c.slots_lt) he).symm

/-- In a ring that is not empty, a value waits. -/
theorem Window.waits (h : Window c f start pushed popped first head tail buffer)
    (hne : head ≠ tail) : popped.length < pushed.length :=
  Nat.lt_of_le_of_ne h.length_le fun he => hne (h.empty_iff.mpr he.symm)

/-- A slot behind the published values may be written. -/
theorem Window.write (h : Window c f start pushed popped first head tail buffer)
    (hroom : pushed.length < popped.length + (c.slots - 1)) (hfirst : popped.length ≤ first)
    (x : κ) :
    Window c f start pushed popped first head tail (Function.update buffer (c.slot tail) x) :=
  { h with
    content := by
      intro n v hn hv
      have hlt : n < pushed.length := (List.getElem?_eq_some_iff.mp hv).1
      have hne : c.slot (index start n) ≠ c.slot tail := by
        rw [h.tail_eq]
        exact c.slot_ne start hlt (by omega)
      rw [Function.update_of_ne hne]
      exact h.content n v hn hv }

/-- A written value may be published. -/
theorem Window.publish (h : Window c f start pushed popped first head tail buffer) {item : α}
    (hroom : pushed.length < popped.length + (c.slots - 1))
    (hitem : buffer (c.slot tail) = f item) :
    Window c f start (pushed ++ [item]) popped first head (tail + 1) buffer where
  taken := h.taken.trans (List.prefix_append _ _)
  bound := by
    rw [List.length_append, List.length_singleton]
    omega
  head_eq := h.head_eq
  tail_eq := by rw [List.length_append, List.length_singleton, index_succ, h.tail_eq]
  content := by
    intro n v hn hv
    by_cases hlt : n < pushed.length
    · rw [List.getElem?_append_left hlt] at hv
      exact h.content n v hn hv
    · obtain ⟨hlast, hval⟩ := List.getElem?_eq_some_iff.mp hv
      rw [List.length_append, List.length_singleton] at hlast
      have hn : n = pushed.length := by omega
      subst hn
      rw [List.getElem_concat_length] at hval
      · rw [← h.tail_eq, hitem, hval]
      · rfl

/-- The first waiting value may be taken out of its slot. -/
theorem Window.take (h : Window c f start pushed popped first head tail buffer)
    (hfirst : first ≤ popped.length + 1) (x : κ) :
    Window c f start pushed popped (popped.length + 1) head tail
      (Function.update buffer (c.slot head) x) :=
  { h with
    content := by
      intro n v hn hv
      have hlt : n < pushed.length := (List.getElem?_eq_some_iff.mp hv).1
      have hbound := h.bound
      have hne : c.slot (index start n) ≠ c.slot head := by
        rw [h.head_eq]
        exact (c.slot_ne start hn (by omega)).symm
      rw [Function.update_of_ne hne]
      exact h.content n v (Nat.le_trans hfirst hn) hv }

/-- The slot of the first waiting value may be freed. -/
theorem Window.free (h : Window c f start pushed popped first head tail buffer) {v : α}
    (hfirst : first ≤ popped.length + 1) (hv : pushed[popped.length]? = some v) :
    Window c f start pushed (popped ++ [v]) (popped.length + 1) (head + 1) tail buffer where
  taken := by
    obtain ⟨hlt, hval⟩ := List.getElem?_eq_some_iff.mp hv
    rw [List.prefix_iff_eq_take, List.length_append, List.length_singleton]
    rw [List.take_add_one, hv, ← List.prefix_iff_eq_take.mp h.taken]
    rfl
  bound := by
    have hbound := h.bound
    rw [List.length_append, List.length_singleton]
    omega
  head_eq := by rw [List.length_append, List.length_singleton, index_succ, h.head_eq]
  tail_eq := h.tail_eq
  content := fun n u hn hu => h.content n u (Nat.le_trans hfirst hn) hu

end

end Ring
