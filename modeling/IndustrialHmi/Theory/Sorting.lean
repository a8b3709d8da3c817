import Mathlib.Data.List.Sort

/-!
# Sorting

`Sorting` is a sort that promises an ordered rearrangement and nothing about ties.
A stable sort says more: it keeps any sublist that is already in order, so it
leaves the elements of one class in the order they came in (`filter_mergeSort`).

Where a list is cut behind its first `k` elements, every sort agrees on what is left exactly if
none of them is tied with another element behind it (`take_run_eq_iff`).
-/

section

variable {α : Type} {le : α → α → Bool}

/-- A sort by `le`: the result is a rearrangement in order. -/
structure Sorting (le : α → α → Bool) where
  run : List α → List α
  perm : ∀ l, (run l).Perm l
  sorted : ∀ l, (run l).Pairwise fun a b => le a b = true

/-- Merge sort is such a sort. -/
def Sorting.merge (trans : ∀ a b c, le a b = true → le b c = true → le a c = true)
    (total : ∀ a b, (le a b || le b a) = true) : Sorting le where
  run l := l.mergeSort le
  perm l := List.mergeSort_perm l le
  sorted l := List.pairwise_mergeSort trans total l

/-- A stable sort does not move the elements of one class against each other. -/
theorem filter_mergeSort (trans : ∀ a b c, le a b = true → le b c = true → le a c = true)
    (total : ∀ a b, (le a b || le b a) = true) {p : α → Bool}
    (tie : ∀ a b, p a = true → p b = true → le a b = true) (l : List α) :
    (l.mergeSort le).filter p = l.filter p := by
  have hclass : (l.filter p).Pairwise fun a b => le a b = true :=
    List.pairwise_of_forall_mem_list fun a ha b hb =>
      tie a b (List.mem_filter.mp ha).2 (List.mem_filter.mp hb).2
  have hkept : (l.filter p).Sublist (l.mergeSort le) :=
    List.sublist_mergeSort trans total hclass List.filter_sublist
  have hsub : (l.filter p).Sublist ((l.mergeSort le).filter p) := by
    have hfilter := hkept.filter p
    rwa [List.filter_filter, show (fun a => p a && p a) = p from by funext a; simp] at hfilter
  have hlength : (l.filter p).length = ((l.mergeSort le).filter p).length :=
    ((List.mergeSort_perm l le).filter p).length_eq.symm
  exact (hsub.eq_of_length hlength).symm

/-! ## Ties -/

/-- None behind one of the first `k` elements may stand before it, its equals apart. -/
def Settled (le : α → α → Bool) (k : Nat) (l : List α) : Prop :=
  ∀ before x after, l = before ++ x :: after → before.length < k →
    ∀ y ∈ after, le y x = false ∨ y = x

theorem settled_zero (l : List α) : Settled le 0 l :=
  fun _ _ _ _ hk => absurd hk (Nat.not_lt_zero _)

theorem settled_nil (k : Nat) : Settled le k [] :=
  fun _ _ _ h => absurd h.symm (List.append_ne_nil_of_right_ne_nil _ (List.cons_ne_nil _ _))

theorem settled_cons {k : Nat} {x : α} {l : List α} :
    Settled le (k + 1) (x :: l) ↔ (∀ y ∈ l, le y x = false ∨ y = x) ∧ Settled le k l := by
  constructor
  · intro h
    refine ⟨h [] x l rfl (Nat.succ_pos k), fun before y after hl hk => ?_⟩
    exact h (x :: before) y after (congrArg (x :: ·) hl) (Nat.succ_lt_succ hk)
  · rintro ⟨hx, hl⟩ before y after heq hk
    cases before with
    | nil =>
        obtain ⟨rfl, rfl⟩ := List.cons.inj heq
        exact hx
    | cons b before =>
        obtain ⟨rfl, rfl⟩ := List.cons.inj heq
        exact hl before y after rfl (Nat.lt_of_succ_lt_succ hk)

/-- A list in strict order is settled. -/
theorem settled_of_pairwise {l : List α} (h : l.Pairwise fun x y => le y x = false) (k : Nat) :
    Settled le k l := by
  rintro before x after rfl - y hy
  exact Or.inl ((List.pairwise_cons.mp (List.pairwise_append.mp h).2.1).1 y hy)

/-- An ordered rearrangement of a settled list has the same first elements. -/
theorem take_eq_of_settled {k : Nat} {l s : List α} (h : Settled le k l) (hperm : s.Perm l)
    (hsorted : s.Pairwise fun a b => le a b = true) : s.take k = l.take k := by
  induction k generalizing l s with
  | zero => rfl
  | succ k ih =>
      cases l with
      | nil => rw [hperm.eq_nil]
      | cons x l =>
          cases s with
          | nil => exact absurd hperm.symm.eq_nil (List.cons_ne_nil x l)
          | cons y s =>
              obtain ⟨hx, hl⟩ := settled_cons.mp h
              obtain ⟨hy, hs⟩ := List.pairwise_cons.mp hsorted
              have hyx : y = x := by
                rcases List.mem_cons.mp (hperm.subset List.mem_cons_self) with heq | hmem
                · exact heq
                rcases hx y hmem with hle | heq
                · rcases List.mem_cons.mp (hperm.symm.subset List.mem_cons_self) with heq | hbehind
                  · exact heq.symm
                  · exact absurd (hy x hbehind) (Bool.eq_false_iff.mp hle)
                · exact heq
              subst hyx
              rw [List.take_succ_cons, List.take_succ_cons, ih hl hperm.cons_inv hs]

/-- What always stands first may stand before everything. -/
theorem Sorting.le_of_first (order : Sorting le) {x : α} {l : List α}
    (h : ∀ y s, (y :: s).Perm (x :: l) → (y :: s).Pairwise (fun a b => le a b = true) → y = x) :
    ∀ y ∈ l, le x y = true := by
  have hperm := order.perm (x :: l)
  have hsorted := order.sorted (x :: l)
  cases hrun : order.run (x :: l) with
  | nil => exact absurd (hrun ▸ hperm).symm.eq_nil (List.cons_ne_nil x l)
  | cons y s =>
      rw [hrun] at hperm hsorted
      obtain rfl := h y s hperm hsorted
      exact fun z hz => (List.pairwise_cons.mp hsorted).1 z (hperm.cons_inv.symm.subset hz)

variable [DecidableEq α]

/-- The sort that orders one list in a given way. -/
def Sorting.override (order : Sorting le) (l : List α) {s : List α} (hperm : s.Perm l)
    (hsorted : s.Pairwise fun a b => le a b = true) : Sorting le where
  run x := if x = l then s else order.run x
  perm x := by
    split
    next heq => exact heq ▸ hperm
    next => exact order.perm x
  sorted x := by
    split
    next => exact hsorted
    next => exact order.sorted x

theorem Sorting.run_override (order : Sorting le) (l : List α) {s : List α} (hperm : s.Perm l)
    (hsorted : s.Pairwise fun a b => le a b = true) :
    (order.override l hperm hsorted).run l = s :=
  if_pos rfl

/-- What may stand before the first element can be brought before it. -/
theorem Sorting.exists_first (order : Sorting le)
    (trans : ∀ a b c, le a b = true → le b c = true → le a c = true) {x y : α} {l : List α}
    (hy : y ∈ l) (hyx : le y x = true) (hfirst : ∀ z ∈ l, le x z = true) :
    ∃ s, (y :: s).Perm (x :: l) ∧ (y :: s).Pairwise fun a b => le a b = true := by
  have hbehind : ∀ z ∈ order.run (l.erase y), le x z = true := fun z hz =>
    hfirst z (List.mem_of_mem_erase ((order.perm _).subset hz))
  refine ⟨x :: order.run (l.erase y), ?_, ?_⟩
  · exact (((order.perm _).cons x).cons y).trans
      ((List.Perm.swap x y _).trans ((List.perm_cons_erase hy).symm.cons x))
  · refine List.pairwise_cons.mpr ⟨fun z hz => ?_,
      List.pairwise_cons.mpr ⟨hbehind, order.sorted _⟩⟩
    rcases List.mem_cons.mp hz with rfl | hz
    · exact hyx
    · exact trans y x z hyx (hbehind z hz)

/-- If all ordered rearrangements have the same first elements, these are settled. -/
theorem settled_of_take_eq (order : Sorting le)
    (trans : ∀ a b c, le a b = true → le b c = true → le a c = true) {k : Nat} {l : List α}
    (h : ∀ s : List α, s.Perm l → s.Pairwise (fun a b => le a b = true) → s.take k = l.take k) :
    Settled le k l := by
  induction k generalizing l with
  | zero => exact settled_zero l
  | succ k ih =>
      cases l with
      | nil => exact settled_nil _
      | cons x l =>
          have hhead : ∀ y s, (y :: s).Perm (x :: l) →
              (y :: s).Pairwise (fun a b => le a b = true) → y = x := fun y s hperm hsorted =>
            (List.cons.inj (h (y :: s) hperm hsorted)).1
          have hfirst := order.le_of_first hhead
          refine settled_cons.mpr ⟨fun y hy => ?_, ih fun s hperm hsorted => ?_⟩
          · cases hyx : le y x with
            | false => exact Or.inl rfl
            | true =>
                obtain ⟨s, hperm, hsorted⟩ := order.exists_first trans hy hyx hfirst
                exact Or.inr (hhead y s hperm hsorted)
          · have hcons := h (x :: s) (hperm.cons x)
              (List.pairwise_cons.mpr ⟨fun z hz => hfirst z (hperm.subset hz), hsorted⟩)
            exact (List.cons.inj hcons).2

/-- The sorts agree on the first elements of a rearrangement exactly if these are settled. -/
theorem take_run_eq_iff (order : Sorting le)
    (trans : ∀ a b c, le a b = true → le b c = true → le a c = true) (k : Nat) {l rows : List α}
    (hrows : l.Perm rows) :
    (∀ order : Sorting le, (order.run rows).take k = l.take k) ↔ Settled le k l := by
  constructor
  · intro h
    refine settled_of_take_eq order trans fun s hperm hsorted => ?_
    have hrun := h (order.override rows (hperm.trans hrows) hsorted)
    rwa [Sorting.run_override] at hrun
  · intro h order
    exact take_eq_of_settled h ((order.perm rows).trans hrows.symm) (order.sorted rows)

end
