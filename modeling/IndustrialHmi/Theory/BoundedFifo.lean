import IndustrialHmi.Theory.Ring
import IndustrialHmi.Theory.Transducer

/-!
# Bounded queues

The abstract queue of at most `depth` values: `push` refuses when it is full, and
`pop` gives the oldest value.

The values that wait in a ring's window are such a queue: `Holds.push` and
`Holds.pop` put the rules of `Window` together for whole calls.
-/

namespace BoundedFifo

open Ring

/-- A call on a queue. -/
inductive Op (α : Type) where
  | push (item : α)
  | pop

/-- One call: its success flag, the value it gives, and the values that wait after it. -/
def step {α : Type} (depth : Nat) (waiting : List α) : Op α → (Bool × Option α) × List α
  | .push item =>
      if waiting.length < depth then ((true, none), waiting ++ [item]) else ((false, none), waiting)
  | .pop =>
      match waiting with
      | [] => ((false, none), [])
      | v :: rest => ((true, some v), rest)

variable {w : Nat} {α κ : Type} {c : Capacity w} {f : α → κ} {start : BitVec w}
  {pushed popped : List α} {first : Nat} {head tail : BitVec w} {buffer : Fin c.slots → κ}

/-- Some window of the ring holds these values. -/
def Holds (c : Capacity w) (f : α → κ) (waiting : List α) (head tail : BitVec w)
    (buffer : Fin c.slots → κ) : Prop :=
  ∃ start pushed popped, Window c f start pushed popped popped.length head tail buffer ∧
    waiting = pushed.drop popped.length

theorem Holds.empty (start : BitVec w) (buffer : Fin c.slots → κ) :
    Holds c f [] start start buffer :=
  ⟨start, [], [], Window.empty buffer, rfl⟩

variable {waiting : List α}

/-- The test for a full ring, in terms of what waits. -/
theorem Holds.full_iff (h : Holds c f waiting head tail buffer) :
    tail + 1 - head > c.mask ↔ ¬ waiting.length < c.slots - 1 := by
  obtain ⟨start, pushed, popped, hwindow, rfl⟩ := h
  have hlength := hwindow.length_le
  have hbound := hwindow.bound
  rw [hwindow.full_iff, List.length_drop]
  omega

/-- The test for an empty ring, in terms of what waits. -/
theorem Holds.empty_iff (h : Holds c f waiting head tail buffer) : head = tail ↔ waiting = [] := by
  obtain ⟨start, pushed, popped, hwindow, rfl⟩ := h
  have hlength := hwindow.length_le
  rw [hwindow.empty_iff, List.drop_eq_nil_iff]
  omega

/-- A whole `push` into a ring with room. -/
theorem Holds.push (h : Holds c f waiting head tail buffer)
    (hroom : waiting.length < c.slots - 1) (item : α) :
    Holds c f (waiting ++ [item]) head (tail + 1)
      (Function.update buffer (c.slot tail) (f item)) := by
  obtain ⟨start, pushed, popped, hwindow, rfl⟩ := h
  have hlength := hwindow.length_le
  have hfree : pushed.length < popped.length + (c.slots - 1) := by
    rw [List.length_drop] at hroom
    omega
  refine ⟨start, pushed ++ [item], popped, ?_, ?_⟩
  · exact (hwindow.write hfree (Nat.le_refl _) (f item)).publish hfree (Function.update_self ..)
  · rw [List.drop_append_of_le_length hlength]

/-- The oldest value stands in the slot of the head. -/
theorem Holds.front {v : α} {rest : List α} (h : Holds c f (v :: rest) head tail buffer) :
    buffer (c.slot head) = f v := by
  obtain ⟨start, pushed, popped, hwindow, hwaiting⟩ := h
  have hv : pushed[popped.length]? = some v := by
    rw [← List.head?_drop, ← hwaiting]
    rfl
  rw [hwindow.head_eq]
  exact hwindow.content _ v (Nat.le_refl _) hv

/-- A whole `pop`, which may empty the slot it reads. -/
theorem Holds.pop {v : α} {rest : List α} (h : Holds c f (v :: rest) head tail buffer)
    {buffer' : Fin c.slots → κ}
    (hbuffer : buffer' = buffer ∨ ∃ x, buffer' = Function.update buffer (c.slot head) x) :
    Holds c f rest (head + 1) tail buffer' := by
  obtain ⟨start, pushed, popped, hwindow, hwaiting⟩ := h
  have hv : pushed[popped.length]? = some v := by
    rw [← List.head?_drop, ← hwaiting]
    rfl
  have hwindow' : Window c f start pushed (popped ++ [v]) (popped.length + 1) (head + 1) tail
      buffer' := by
    rcases hbuffer with rfl | ⟨x, rfl⟩
    · exact hwindow.free (Nat.le_succ _) hv
    · exact (hwindow.take (Nat.le_succ _) x).free (Nat.le_refl _) hv
  refine ⟨start, pushed, popped ++ [v], ?_, ?_⟩
  · rw [List.length_append, List.length_singleton]
    exact hwindow'
  · rw [List.length_append, List.length_singleton, ← List.drop_drop, ← hwaiting]
    rfl

end BoundedFifo
