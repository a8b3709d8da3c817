import Mathlib.Data.List.Basic

/-!
# Reading from a buffer

A computation that reads from a buffer returns a value or throws, and it keeps the parts of the
buffer that it has formed: one byte for an index, and what is between two iterators for a range.
`InBounds` says that all of them lie in a buffer of some size.  What a computation reads depends on
what it has read before, so the bounds of a sequence are those of its first part, and of the second
part for what the first returns (`inBounds_bind`).
-/

/-- A part of a buffer, from its first place to the one behind its last. -/
structure Extent where
  first : Nat
  past : Nat
  deriving DecidableEq

/-- Such a part lies in a buffer of `size` places. -/
def Extent.Within (e : Extent) (size : Nat) : Prop := e.first ≤ e.past ∧ e.past ≤ size

structure Access (ε α : Type) where
  extents : List Extent
  result : Except ε α

namespace Access

variable {ε α β ι : Type}

/-- Every part that is formed lies in the buffer. -/
def InBounds (m : Access ε α) (size : Nat) : Prop := ∀ e ∈ m.extents, e.Within size

def fail (e : ε) : Access ε α := ⟨[], .error e⟩

instance : Monad (Access ε) where
  pure a := ⟨[], .ok a⟩
  bind m f :=
    match m.result with
    | .error e => ⟨m.extents, .error e⟩
    | .ok a => ⟨m.extents ++ (f a).extents, (f a).result⟩

/-- The element at an index; behind the buffer it may be anything. -/
def get (buffer : List α) (default : α) (i : Nat) : Access ε α :=
  ⟨[⟨i, i + 1⟩], .ok (buffer.getD i default)⟩

/-- The elements between two iterators. -/
def range (buffer : List α) (first past : Nat) : Access ε (List α) :=
  ⟨[⟨first, past⟩], .ok ((buffer.take past).drop first)⟩

/-- A loop that collects what it reads in its turns. -/
def collect (f : ι → Access ε α) : List ι → Access ε (List α)
  | [] => pure []
  | i :: is => do
      let a ← f i
      let as ← collect f is
      pure (a :: as)

/-! ## What is returned -/

/-- What throws if a check fails has returned only if it did not. -/
theorem guard_eq_ok {c : Prop} [Decidable c] {e : ε} {x : Except ε α} {a : α} :
    (if c then .error e else x) = .ok a ↔ ¬c ∧ x = .ok a := by
  by_cases hc : c
  · rw [if_pos hc]
    exact iff_of_false (by rintro ⟨⟩) fun h => h.1 hc
  · rw [if_neg hc, and_iff_right hc]

@[simp] theorem result_pure (a : α) : (pure a : Access ε α).result = .ok a := rfl

@[simp] theorem result_fail (e : ε) : (fail e : Access ε α).result = .error e := rfl

@[simp] theorem result_get (buffer : List α) (default : α) (i : Nat) :
    (get buffer default i : Access ε α).result = .ok (buffer.getD i default) := rfl

@[simp] theorem result_range (buffer : List α) (first past : Nat) :
    (range buffer first past : Access ε (List α)).result = .ok ((buffer.take past).drop first) :=
  rfl

theorem result_bind_ok {m : Access ε α} {a : α} (h : m.result = .ok a) (f : α → Access ε β) :
    (m >>= f).result = (f a).result := by
  show (match m.result with
    | .error e => (⟨m.extents, .error e⟩ : Access ε β)
    | .ok a => ⟨m.extents ++ (f a).extents, (f a).result⟩).result = _
  rw [h]

theorem result_bind_error {m : Access ε α} {e : ε} (h : m.result = .error e)
    (f : α → Access ε β) : (m >>= f).result = .error e := by
  show (match m.result with
    | .error e => (⟨m.extents, .error e⟩ : Access ε β)
    | .ok a => ⟨m.extents ++ (f a).extents, (f a).result⟩).result = _
  rw [h]

theorem result_ite (c : Prop) [Decidable c] (m n : Access ε α) :
    (if c then m else n).result = if c then m.result else n.result := apply_ite _ _ _ _

/-- A loop whose turns all return collects what they return. -/
theorem result_collect {f : ι → Access ε α} {g : ι → α} (h : ∀ i, (f i).result = .ok (g i))
    (is : List ι) : (collect f is).result = .ok (is.map g) := by
  induction is with
  | nil => rfl
  | cons i is ih =>
      rw [collect, result_bind_ok (h i), result_bind_ok ih]
      rfl

/-! ## What is formed -/

@[simp] theorem inBounds_pure (a : α) (size : Nat) : (pure a : Access ε α).InBounds size :=
  nofun

@[simp] theorem inBounds_fail (e : ε) (size : Nat) : (fail e : Access ε α).InBounds size :=
  nofun

@[simp] theorem inBounds_get {buffer : List α} {default : α} {i size : Nat} :
    (get buffer default i : Access ε α).InBounds size ↔ i < size := by
  constructor
  · intro h
    exact (h _ List.mem_cons_self).2
  · intro h e he
    rw [List.mem_singleton.mp he]
    exact ⟨Nat.le_succ i, h⟩

@[simp] theorem inBounds_range {buffer : List α} {first past size : Nat} :
    (range buffer first past : Access ε (List α)).InBounds size ↔
      first ≤ past ∧ past ≤ size := by
  constructor
  · intro h
    exact h _ List.mem_cons_self
  · intro h e he
    rw [List.mem_singleton.mp he]
    exact h

theorem inBounds_bind_ok {m : Access ε α} {a : α} (h : m.result = .ok a) {f : α → Access ε β}
    {size : Nat} : (m >>= f).InBounds size ↔ m.InBounds size ∧ (f a).InBounds size := by
  show (match m.result with
    | .error e => (⟨m.extents, .error e⟩ : Access ε β)
    | .ok a => ⟨m.extents ++ (f a).extents, (f a).result⟩).InBounds size ↔ _
  rw [h]
  exact List.forall_mem_append

theorem inBounds_bind_error {m : Access ε α} {e : ε} (h : m.result = .error e)
    {f : α → Access ε β} {size : Nat} : (m >>= f).InBounds size ↔ m.InBounds size := by
  show (match m.result with
    | .error e => (⟨m.extents, .error e⟩ : Access ε β)
    | .ok a => ⟨m.extents ++ (f a).extents, (f a).result⟩).InBounds size ↔ _
  rw [h]
  exact Iff.rfl

theorem inBounds_bind {m : Access ε α} {f : α → Access ε β} {size : Nat} (hm : m.InBounds size)
    (hf : ∀ a, m.result = .ok a → (f a).InBounds size) : (m >>= f).InBounds size := by
  cases h : m.result with
  | error e => exact (inBounds_bind_error h).mpr hm
  | ok a => exact (inBounds_bind_ok h).mpr ⟨hm, hf a h⟩

/-- What a check lets through is all that has to stay inside. -/
theorem inBounds_guard {c : Prop} [Decidable c] {e : ε} {m : Access ε α} {size : Nat}
    (h : ¬c → m.InBounds size) : (if c then fail e else m).InBounds size := by
  split
  next => exact inBounds_fail _ _
  next hc => exact h hc

theorem inBounds_collect {f : ι → Access ε α} {g : ι → α} (h : ∀ i, (f i).result = .ok (g i))
    {is : List ι} {size : Nat} :
    (collect f is).InBounds size ↔ ∀ i ∈ is, (f i).InBounds size := by
  induction is with
  | nil => exact iff_of_true (inBounds_pure _ _) nofun
  | cons i is ih =>
      rw [collect, inBounds_bind_ok (h i), inBounds_bind_ok (result_collect h is), ih,
        and_iff_left (inBounds_pure _ _)]
      exact (List.forall_mem_cons (p := fun i => (f i).InBounds size)).symm

end Access
