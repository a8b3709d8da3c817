import Mathlib.Data.List.Dedup
import Mathlib.Data.List.Perm.Basic

/-!
# Groups of a list

The elements of a list by their key, one group for each key that occurs.  The order of
the groups is not specified beyond that.
-/

namespace Grouping

variable {α β κ : Type} [DecidableEq κ] (key : α → κ)

/-- The elements with a key. -/
def group (l : List α) (k : κ) : List α := l.filter (key · = k)

/-- One result for each key that occurs, made of the key and its group. -/
def aggregate (make : κ → List α → β) (l : List α) : List β :=
  (l.map key).dedup.map fun k => make k (group key l k)

variable {key}

@[simp] theorem mem_group {l : List α} {k : κ} {a : α} :
    a ∈ group key l k ↔ a ∈ l ∧ key a = k := by
  simp [group]

@[simp] theorem group_append (l l' : List α) (k : κ) :
    group key (l ++ l') k = group key l k ++ group key l' k := List.filter_append ..

theorem mem_aggregate {make : κ → List α → β} {l : List α} {b : β} :
    b ∈ aggregate key make l ↔ ∃ a ∈ l, b = make (key a) (group key l (key a)) := by
  simp only [aggregate, List.mem_map, List.mem_dedup]
  constructor
  · rintro ⟨_, ⟨a, ha, rfl⟩, rfl⟩
    exact ⟨a, ha, rfl⟩
  · rintro ⟨a, ha, rfl⟩
    exact ⟨key a, ⟨a, ha, rfl⟩, rfl⟩

/-- The results carry distinct keys, if each carries the key it was made of. -/
theorem map_aggregate {make : κ → List α → β} {keyOf : β → κ} {l : List α}
    (hmake : ∀ a ∈ l, ∀ g, keyOf (make (key a) g) = key a) :
    (aggregate key make l).map keyOf = (l.map key).dedup := by
  rw [aggregate, List.map_map]
  refine (List.map_congr_left fun k hk => ?_).trans (List.map_id _)
  obtain ⟨a, ha, rfl⟩ := List.mem_map.mp (List.mem_dedup.mp hk)
  exact hmake a ha _

/-- The groups of some keys together are the elements with one of them. -/
theorem flatMap_group_filter (l : List α) {ks : List κ} (hks : ks.Nodup) :
    (ks.flatMap (group key l)).Perm (l.filter (key · ∈ ks)) := by
  induction ks with
  | nil => simp
  | cons k ks ih =>
      rw [List.nodup_cons] at hks
      rw [List.flatMap_cons]
      have hhead : (l.filter (key · ∈ k :: ks)).filter (key · = k) = group key l k := by
        rw [List.filter_filter, group]
        refine List.filter_congr fun a _ => ?_
        by_cases ha : key a = k <;> simp [ha]
      have htail : (l.filter (key · ∈ k :: ks)).filter (fun a => !decide (key a = k)) =
          l.filter (key · ∈ ks) := by
        rw [List.filter_filter]
        refine List.filter_congr fun a _ => ?_
        by_cases ha : key a = k
        · simp [ha, hks.1]
        · simp [ha]
      have hsplit := List.filter_append_perm (key · = k) (l.filter (key · ∈ k :: ks))
      rw [hhead, htail] at hsplit
      exact ((ih hks.2).append_left _).trans hsplit

/-- The groups together are the list. -/
theorem flatMap_group_perm (l : List α) : ((l.map key).dedup.flatMap (group key l)).Perm l := by
  have hall : l.filter (key · ∈ (l.map key).dedup) = l := by
    rw [List.filter_eq_self]
    intro a ha
    simpa using List.mem_map_of_mem ha
  exact (flatMap_group_filter l (List.nodup_dedup _)).trans (by rw [hall])

/-! ## Mapped lists -/

theorem group_map {γ : Type} {key' : γ → κ} {f : α → γ} (hf : ∀ a, key' (f a) = key a)
    (l : List α) (k : κ) : group key' (l.map f) k = (group key l k).map f := by
  rw [group, List.filter_map, group]
  congr 1
  refine List.filter_congr fun a _ => ?_
  simp [hf]

theorem aggregate_map {γ : Type} {key' : γ → κ} {f : α → γ} (hf : ∀ a, key' (f a) = key a)
    (make : κ → List γ → β) (l : List α) :
    aggregate key' make (l.map f) = aggregate key (fun k g => make k (g.map f)) l := by
  have hkeys : (l.map f).map key' = l.map key := by simp [hf]
  rw [aggregate, aggregate, hkeys]
  exact List.map_congr_left fun k _ => by rw [group_map hf]

theorem map_aggregate_make {γ : Type} (make : κ → List α → β) (f : β → γ) (l : List α) :
    (aggregate key make l).map f = aggregate key (fun k g => f (make k g)) l := by
  simp [aggregate]

/-- What is taken from the results, when each takes it from its group. -/
theorem flatMap_aggregate_perm {γ : Type} {make : κ → List α → β} {f : β → List γ}
    {g : α → List γ} (hmake : ∀ k l, f (make k l) = l.flatMap g) (l : List α) :
    ((aggregate key make l).flatMap f).Perm (l.flatMap g) := by
  have hgroups : (aggregate key make l).flatMap f =
      ((l.map key).dedup.flatMap (group key l)).flatMap g := by
    simp [aggregate, List.flatMap_map, List.flatMap_assoc, hmake]
  rw [hgroups]
  exact (flatMap_group_perm l).flatMap_right g

end Grouping
