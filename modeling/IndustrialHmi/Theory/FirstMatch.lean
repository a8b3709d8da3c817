import Mathlib.Data.List.Lookmap
import Mathlib.Data.List.Nodup

/-!
# Lists searched by key

A list whose elements carry a key serves as a store: a search stops at the first
element with the key, and so do an update and a removal.  Reading such a store at
one key after each of its operations needs no order of the elements, and only the
removal needs the keys to be distinct.
-/

namespace FirstMatch

variable {α κ : Type} [DecidableEq κ] (key : α → κ)

/-- The first element with the key. -/
def find (l : List α) (k : κ) : Option α := l.find? (key · == k)

/-- Changes the first element with the key. -/
def assign (l : List α) (k : κ) (f : α → α) : List α :=
  l.lookmap fun a => if key a = k then some (f a) else none

/-- Takes the place of the first element with its key, or stands at the end. -/
def put (l : List α) (a : α) : List α :=
  if (find key l (key a)).isSome then assign key l (key a) fun _ => a else l ++ [a]

/-- Removes the first element with the key. -/
def erase (l : List α) (k : κ) : List α := l.eraseP (key · == k)

variable {key}

/-! ## Membership -/

theorem key_of_find {l : List α} {k : κ} {a : α} (h : find key l k = some a) : key a = k := by
  simpa using List.find?_some h

theorem mem_of_find {l : List α} {k : κ} {a : α} (h : find key l k = some a) : a ∈ l :=
  List.mem_of_find?_eq_some h

theorem find_eq_none {l : List α} {k : κ} : find key l k = none ↔ k ∉ l.map key := by
  simp [find, List.find?_eq_none]

theorem find_isSome {l : List α} {k : κ} : (find key l k).isSome ↔ k ∈ l.map key := by
  simp [find]

/-- With distinct keys, every element is the one found under its key. -/
theorem find_of_mem {l : List α} (hnd : (l.map key).Nodup) {a : α} (ha : a ∈ l) :
    find key l (key a) = some a := by
  cases hf : find key l (key a) with
  | none => exact absurd (List.mem_map_of_mem ha) (find_eq_none.mp hf)
  | some b =>
      have hkey : key b = key a := key_of_find hf
      rw [List.inj_on_of_nodup_map hnd (mem_of_find hf) ha hkey]

/-- With distinct keys, at most one element has a given key. -/
theorem filter_key {l : List α} (hnd : (l.map key).Nodup) (k : κ) :
    l.filter (key · == k) = (find key l k).toList := by
  induction l with
  | nil => rfl
  | cons a l ih =>
      rw [List.map_cons, List.nodup_cons] at hnd
      by_cases hk : key a = k
      · have hgone : l.filter (key · == k) = [] := by
          rw [ih hnd.2, find_eq_none.mpr (hk ▸ hnd.1), Option.toList_none]
        simp [find, hk, hgone]
      · have hskip : (key a == k) = false := beq_eq_false_iff_ne.mpr hk
        rw [List.filter_cons, hskip, ih hnd.2]
        simp [find, hk]

/-! ## What an operation leaves under a key -/

theorem find_append (l l' : List α) (k : κ) :
    find key (l ++ l') k = (find key l k).or (find key l' k) := List.find?_append

theorem find_singleton (a : α) (k : κ) :
    find key [a] k = if key a = k then some a else none := by
  by_cases h : key a = k <;> simp [find, h]

theorem find_map {f : α → α} (hf : ∀ a, key (f a) = key a) (l : List α) (k : κ) :
    find key (l.map f) k = (find key l k).map f := by
  have hcomp : (fun a => key a == k) ∘ f = fun a => key a == k := by
    funext a
    simp [hf]
  rw [find, List.find?_map, hcomp, find]

theorem find_assign {f : α → α} {k : κ} (hf : ∀ a, key a = k → key (f a) = k) (l : List α)
    (k' : κ) :
    find key (assign key l k f) k' =
      if k = k' then (find key l k').map f else find key l k' := by
  induction l with
  | nil => simp [find, assign]
  | cons a l ih =>
      simp only [find, assign] at ih
      simp only [find, assign, List.lookmap_cons]
      by_cases hk : key a = k
      · have hfa : key (f a) = k := hf a hk
        by_cases hk' : k = k'
        · subst hk'
          simp [hk, hfa]
        · simp [hk, hk', hfa]
      · rw [if_neg hk]
        by_cases hak' : key a = k'
        · have hkk' : ¬k = k' := fun h => hk (hak'.trans h.symm)
          simp [hak', hkk']
        · simpa [List.find?_cons, hak'] using ih

theorem find_erase_of_ne {l : List α} {k k' : κ} (h : k ≠ k') :
    find key (erase key l k) k' = find key l k' := by
  induction l with
  | nil => rfl
  | cons a l ih =>
      simp only [find, erase] at ih
      simp only [find, erase, List.eraseP_cons]
      by_cases hk : key a = k
      · simp [hk, h]
      · have hkeep : (key a == k) = false := beq_eq_false_iff_ne.mpr hk
        rw [hkeep, cond_false, List.find?_cons, List.find?_cons, ih]

theorem map_key_assign {f : α → α} {k : κ} (hf : ∀ a, key a = k → key (f a) = k) (l : List α) :
    (assign key l k f).map key = l.map key := by
  refine List.lookmap_map_eq _ _ (fun a b hb => ?_) l
  by_cases hk : key a = k
  · have hba : f a = b := by simpa [hk] using hb
    rw [← hba, hf a hk, hk]
  · simp [hk] at hb

theorem find_put (l : List α) (a : α) (k : κ) :
    find key (put key l a) k = if key a = k then some a else find key l k := by
  rw [put]
  split
  next hfound =>
    rw [find_assign fun _ _ => rfl]
    by_cases hk : key a = k
    · subst hk
      obtain ⟨b, hb⟩ := Option.isSome_iff_exists.mp hfound
      simp [hb]
    · simp [hk]
  next hnone =>
    rw [find_append, find_singleton]
    by_cases hk : key a = k
    · subst hk
      have hnot : find key l (key a) = none := Option.not_isSome_iff_eq_none.mp hnone
      simp [hnot]
    · simp [hk]

/-- An element that has a place keeps the keys in their order. -/
theorem map_key_put {l : List α} {a : α} (h : key a ∈ l.map key) :
    (put key l a).map key = l.map key := by
  rw [put, if_pos (find_isSome.mpr h), map_key_assign fun _ _ => rfl]

/-- Lists with the same keys in the same order are equal if they agree under each key. -/
theorem eq_of_find {l l' : List α} (hnd : (l.map key).Nodup) (hkeys : l.map key = l'.map key)
    (h : ∀ k, find key l k = find key l' k) : l = l' := by
  induction l generalizing l' with
  | nil => exact (List.map_eq_nil_iff.mp hkeys.symm).symm
  | cons a l ih =>
      cases l' with
      | nil => cases hkeys
      | cons b l' =>
          rw [List.map_cons, List.map_cons, List.cons.injEq] at hkeys
          obtain ⟨hkey, hrest⟩ := hkeys
          rw [List.map_cons, List.nodup_cons] at hnd
          have hab : a = b := by simpa [find, hkey] using h (key a)
          have htail : ∀ k, find key l k = find key l' k := by
            intro k
            by_cases hk : key a = k
            · subst hk
              rw [find_eq_none.mpr hnd.1, find_eq_none.mpr (hrest ▸ hnd.1)]
            · simpa [find, hk, hab, ← hkey] using h k
          rw [hab, ih hnd.2 hrest htail]

theorem erase_sublist (l : List α) (k : κ) : (erase key l k).Sublist l := List.eraseP_sublist

/-- With distinct keys, a removed key is gone. -/
theorem find_erase_self {l : List α} (hnd : (l.map key).Nodup) (k : κ) :
    find key (erase key l k) k = none := by
  induction l with
  | nil => rfl
  | cons a l ih =>
      rw [List.map_cons, List.nodup_cons] at hnd
      simp only [find, erase] at ih
      simp only [find, erase, List.eraseP_cons]
      by_cases hk : key a = k
      · have hgone : find key l k = none := find_eq_none.mpr (hk ▸ hnd.1)
        simpa [hk, find] using hgone
      · have hkeep : (key a == k) = false := beq_eq_false_iff_ne.mpr hk
        rw [hkeep, cond_false, List.find?_cons, hkeep]
        exact ih hnd.2

end FirstMatch
