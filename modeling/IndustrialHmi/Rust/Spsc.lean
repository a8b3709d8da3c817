import IndustrialHmi.Theory.BoundedFifo

/-!
# The queue in Rust

The port of the lock-free queue.  Its slots are `MaybeUninit`: a slot is
uninitialised, holds a live value, or held one that has been moved out.  Reading or
dropping a slot that is not live is undefined behaviour, which the model reports as
a `Fault` or as a slot that the drop of the shared state should not have met.

`Channel` is the shared state with its two ends.  An end is dropped between two
calls; the second drop also drops the shared state, which walks the indices from
`head` to `tail`.
-/

namespace Spsc

open Ring

variable {w : Nat} {α : Type}

/-! ## The shared state -/

/-- A slot of the buffer. -/
inductive Slot (α : Type) where
  | uninit
  | live (value : α)
  | taken

/-- Undefined behaviour. -/
inductive Fault where
  | readUninit

/-- Index-to-slot mask. -/
def MASK (c : Capacity w) : BitVec w := BitVec.ofNat w c.slots - 1

structure Shared (α : Type) {w : Nat} (c : Capacity w) where
  buffer : Fin c.slots → Slot α
  /-- Consumer-owned read index. -/
  head : BitVec w
  /-- Producer-owned write index. -/
  tail : BitVec w

variable {c : Capacity w}

/-- Move the value out of a slot. -/
def assumeInitRead : Slot α → Except Fault α
  | .live value => .ok value
  | _ => .error .readUninit

/-- Enqueue an item, or hand it back. -/
def Shared.push (sh : Shared α c) (item : α) : Except α Unit × Shared α c :=
  let tail := sh.tail
  let next := tail + 1
  if next - sh.head > MASK c then (.error item, sh)
  else
    (.ok (), { sh with
      buffer := Function.update sh.buffer (c.slot tail) (.live item)
      tail := next })

/-- Dequeue the next item. -/
def Shared.pop (sh : Shared α c) : Except Fault (Option α) × Shared α c :=
  let head := sh.head
  if head = sh.tail then (.ok none, sh)
  else
    match assumeInitRead (sh.buffer (c.slot head)) with
    | .ok value =>
        (.ok (some value), { sh with
          buffer := Function.update sh.buffer (c.slot head) .taken
          head := head + 1 })
    | .error fault => (.error fault, sh)

theorem sub_succ_lt {head tail : BitVec w} (h : head ≠ tail) :
    (tail - (head + 1)).toNat < (tail - head).toNat := by
  have hne : (tail - head).toNat ≠ 0 := by
    intro hzero
    have hsub : tail - head = 0#w := BitVec.eq_of_toNat_eq (by rw [hzero, BitVec.toNat_zero])
    exact h (sub_eq_zero.mp hsub).symm
  have hlt := (tail - head).isLt
  have hstep : tail - (head + 1) = tail - head - 1 := sub_add_eq_sub_sub _ _ _
  have hone : (1#w).toNat ≤ 1 := by
    rw [BitVec.toNat_ofNat]
    exact Nat.mod_le _ _
  have hw : 1 < 2 ^ w := by omega
  have hle : (1#w).toNat ≤ (tail - head).toNat := by omega
  have hval : (1#w).toNat = 1 := by
    rw [BitVec.toNat_ofNat]
    exact Nat.mod_eq_of_lt hw
  rw [hstep]
  change (tail - head - 1#w).toNat < _
  rw [BitVec.toNat_sub_of_le (BitVec.le_def.mpr hle), hval]
  omega

/-- The loop of `Shared::drop`: the slots it drops, in order. -/
def dropLoop (buffer : Fin c.slots → Slot α) (head tail : BitVec w) : List (Slot α) :=
  if head ≠ tail then
    buffer (c.slot head) ::
      dropLoop (Function.update buffer (c.slot head) .taken) (head + 1) tail
  else []
termination_by (tail - head).toNat
decreasing_by exact sub_succ_lt (by assumption)

/-- The slots that dropping the shared state drops. -/
def Shared.drop (sh : Shared α c) : List (Slot α) := dropLoop sh.buffer sh.head sh.tail

/-- A new shared state whose indices start at `start`. -/
def Shared.fresh (start : BitVec w) : Shared α c :=
  { buffer := fun _ => .uninit, head := start, tail := start }

/-! ## Whole calls -/

/-- One whole call: its success flag and the value it gives. -/
def Shared.call (sh : Shared α c) :
    BoundedFifo.Op α → Except Fault (Bool × Option α) × Shared α c
  | .push item => (.ok ((sh.push item).1.isOk, none), (sh.push item).2)
  | .pop => (sh.pop.1.map fun value => (value.isSome, value), sh.pop.2)

/-- The values that wait in the shared state, live in their slots. -/
def Shared.Holds (sh : Shared α c) (waiting : List α) : Prop :=
  BoundedFifo.Holds c .live waiting sh.head sh.tail sh.buffer

/-- A whole call is one of the bounded queue of all slots but one, and is defined. -/
theorem Shared.call_spec {sh : Shared α c} {waiting : List α} (h : sh.Holds waiting)
    (op : BoundedFifo.Op α) :
    (sh.call op).1 = .ok (BoundedFifo.step (c.slots - 1) waiting op).1 ∧
      (sh.call op).2.Holds (BoundedFifo.step (c.slots - 1) waiting op).2 := by
  cases op with
  | push item =>
      by_cases hroom : waiting.length < c.slots - 1
      · have hpush : sh.push item = (.ok (), { sh with
            buffer := Function.update sh.buffer (c.slot sh.tail) (.live item)
            tail := sh.tail + 1 }) := if_neg (not_imp_not.mpr h.full_iff.mp (not_not.mpr hroom))
        rw [Shared.call, hpush, BoundedFifo.step, if_pos hroom]
        exact ⟨rfl, BoundedFifo.Holds.push h hroom item⟩
      · have hpush : sh.push item = (.error item, sh) := if_pos (h.full_iff.mpr hroom)
        rw [Shared.call, hpush, BoundedFifo.step, if_neg hroom]
        exact ⟨rfl, h⟩
  | pop =>
      cases waiting with
      | nil =>
          have hpop : sh.pop = (.ok none, sh) := if_pos (h.empty_iff.mpr rfl)
          rw [Shared.call, hpop]
          exact ⟨rfl, h⟩
      | cons v rest =>
          have hne : sh.head ≠ sh.tail := fun he => List.cons_ne_nil _ _ (h.empty_iff.mp he)
          have hfront : sh.buffer (c.slot sh.head) = .live v := BoundedFifo.Holds.front h
          have hpop : sh.pop = (.ok (some v), { sh with
              buffer := Function.update sh.buffer (c.slot sh.head) .taken
              head := sh.head + 1 }) := by
            simp only [Shared.pop, if_neg hne, hfront, assumeInitRead]
          rw [Shared.call, hpop]
          exact ⟨rfl, BoundedFifo.Holds.pop h (.inr ⟨.taken, rfl⟩)⟩

/-! ## The drop of the shared state -/

/-- The drop loop meets exactly the values that wait, each in its slot. -/
theorem dropLoop_eq (waiting : List α) :
    ∀ {head tail : BitVec w} {buffer : Fin c.slots → Slot α},
      BoundedFifo.Holds c Slot.live waiting head tail buffer →
        dropLoop buffer head tail = waiting.map Slot.live := by
  induction waiting with
  | nil =>
      intro head tail buffer h
      rw [dropLoop, if_neg (not_not.mpr (h.empty_iff.mpr rfl))]
      rfl
  | cons v rest ih =>
      intro head tail buffer h
      have hne : head ≠ tail := fun he => List.cons_ne_nil _ _ (h.empty_iff.mp he)
      rw [dropLoop, if_pos hne, h.front, ih (h.pop (.inr ⟨.taken, rfl⟩))]
      rfl

end Spsc
