import IndustrialHmi.Theory.FirstMatch
import IndustrialHmi.Theory.Since

/-!
# Reporting

A store holds a value under each key, and what becomes of it is reported value by value.  A value
carries its key, so who keeps of each key what was reported last has a store of his own.  It is the
same one as long as every change is reported, reports are of what is stored, and the values stored
carry the keys that they are stored under (`Known.append`); and when it is the same, they do
(`Known.keyed`).
-/

namespace Reporting

variable {α κ ν : Type} [DecidableEq κ]

/-- Every value carries the key it is stored under. -/
def Keyed (keyOf : ν → κ) (store : κ → Option ν) : Prop := ∀ k v, store k = some v → keyOf v = k

/-- What a report says about a key. -/
def about (value? : α → Option ν) (keyOf : ν → κ) (k : κ) (report : α) : Option ν :=
  (value? report).filter fun v => keyOf v = k

/-- What was reported last of each key is what is stored. -/
def Known (value? : α → Option ν) (keyOf : ν → κ) (store : κ → Option ν) (reports : List α) :
    Prop :=
  ∀ k, lastSaid (about value? keyOf k) reports = store k

/-- How a step may change the store, and what it then reports. -/
inductive Step (store store' : κ → Option ν) (reported : ν → Prop) : Prop
  /-- Nothing changes. -/
  | nothing (hsame : store' = store) (hreported : ∀ v, ¬ reported v)
  /-- One entry is written. -/
  | one (k : κ) (v : ν) (hwritten : store' k = some v) (hsame : ∀ k', k' ≠ k → store' k' = store k')
      (hreported : ∀ v', reported v' ↔ v' = v)
  /-- All that is stored is reported. -/
  | all (hkept : ∀ k, store' k = none → store k = none)
      (hreported : ∀ v, reported v ↔ ∃ k, store' k = some v)

variable {value? : α → Option ν} {keyOf : ν → κ} {store store' : κ → Option ν}
variable {reports : List α}

theorem about_eq_some {k : κ} {report : α} {v : ν} :
    about value? keyOf k report = some v ↔ value? report = some v ∧ keyOf v = k := by
  rw [about, Option.filter_eq_some_iff, decide_eq_true_eq]

theorem about_of_some {k : κ} {report : α} {v : ν} (h : value? report = some v) :
    about value? keyOf k report = if keyOf v = k then some v else none := by
  rw [about, h]
  split
  next hk => exact Option.filter_eq_some_iff.mpr ⟨rfl, decide_eq_true hk⟩
  next hk => exact Option.filter_eq_none_iff.mpr (by simpa using hk)

theorem about_of_none {k : κ} {report : α} (h : value? report = none) :
    about value? keyOf k report = none := by
  rw [about, h, Option.filter_none]

/-- Who knows the store knows each value under its own key. -/
theorem Known.keyed (h : Known value? keyOf store reports) : Keyed keyOf store := by
  intro k v hv
  obtain ⟨report, -, hreport⟩ := exists_of_lastSaid ((h k).trans hv)
  exact (about_eq_some.mp hreport).2

omit [DecidableEq κ] in
/-- Only what is stored is reported. -/
theorem Step.stored {reported : ν → Prop} (h : Step store store' reported) {v : ν}
    (hv : reported v) : ∃ k, store' k = some v := by
  cases h with
  | nothing hsame hreported => exact absurd hv (hreported v)
  | one k written hwritten hsame hreported =>
      obtain rfl := (hreported v).mp hv
      exact ⟨k, hwritten⟩
  | all hkept hreported => exact (hreported v).mp hv

/-- An entry is as it was, or is reported. -/
theorem Step.changed {reported : ν → Prop} (h : Step store store' reported) (k : κ) :
    store' k = store k ∨ ∃ v, reported v ∧ store' k = some v := by
  cases h with
  | nothing hsame hreported => exact .inl (congrFun hsame k)
  | one k' written hwritten hsame hreported =>
      by_cases hk : k = k'
      · subst hk
        exact .inr ⟨written, (hreported written).mpr rfl, hwritten⟩
      · exact .inl (hsame k hk)
  | all hkept hreported =>
      cases hstored : store' k with
      | none => exact .inl (hkept k hstored).symm
      | some v => exact .inr ⟨v, (hreported v).mpr ⟨k, hstored⟩, rfl⟩

/-- Who knows the store knows it after a step, if the values carry their keys. -/
theorem Known.append {more : List α} (h : Known value? keyOf store reports)
    (hkeyed : Keyed keyOf store')
    (hstep : Step store store' fun v => ∃ report ∈ more, value? report = some v) :
    Known value? keyOf store' (reports ++ more) := by
  intro k
  rw [lastSaid_append]
  cases hlast : lastSaid (about value? keyOf k) more with
  | some v =>
      obtain ⟨report, hmem, hreport⟩ := exists_of_lastSaid hlast
      obtain ⟨hvalue, hkey⟩ := about_eq_some.mp hreport
      obtain ⟨k', hk'⟩ := hstep.stored ⟨report, hmem, hvalue⟩
      obtain rfl : k' = k := (hkeyed k' v hk').symm.trans hkey
      exact hk'.symm
  | none =>
      rw [Option.none_or, h k]
      rcases hstep.changed k with hsame | ⟨v, ⟨report, hmem, hvalue⟩, hstored⟩
      · exact hsame.symm
      · obtain ⟨v', hv'⟩ := exists_lastSaid hmem (about_eq_some.mpr ⟨hvalue, hkeyed k v hstored⟩)
        exact absurd (hlast.symm.trans hv') (by simp)

/-- Who was told of what became of an empty store knows the store. -/
theorem known_of_step (hempty : ∀ k, store k = none) (hkeyed : Keyed keyOf store')
    (hstep : Step store store' fun v => ∃ report ∈ reports, value? report = some v) :
    Known value? keyOf store' reports := by
  have hnothing : Known value? keyOf store ([] : List α) := fun k => (hempty k).symm
  exact hnothing.append hkeyed hstep

/-- Who is told all that is stored knows the store. -/
theorem known_of_all (hkeyed : Keyed keyOf store)
    (hall : ∀ v, (∃ report ∈ reports, value? report = some v) ↔ ∃ k, store k = some v) :
    Known value? keyOf store reports := by
  have hempty : ∀ k : κ, (fun _ : κ => (none : Option ν)) k = none := fun _ => rfl
  exact known_of_step hempty hkeyed (.all (fun _ _ => rfl) hall)

/-! ## Caches -/

/-- A list of the newest value under each key, in the order in which the keys came up. -/
def cache (value? : α → Option ν) (keyOf : ν → κ) (reports : List α) : List ν :=
  (reports.filterMap value?).foldl (FirstMatch.put keyOf) []

theorem cache_append (value? : α → Option ν) (keyOf : ν → κ) (reports more : List α) :
    cache value? keyOf (reports ++ more) =
      (more.filterMap value?).foldl (FirstMatch.put keyOf) (cache value? keyOf reports) := by
  rw [cache, cache, List.filterMap_append, List.foldl_append]

/-- A cache holds what was reported last of each key. -/
theorem find_cache (value? : α → Option ν) (keyOf : ν → κ) (reports : List α) (k : κ) :
    FirstMatch.find keyOf (cache value? keyOf reports) k =
      lastSaid (about value? keyOf k) reports := by
  induction reports using List.reverseRecOn with
  | nil => rfl
  | append_singleton reports report ih =>
      rw [cache_append, lastSaid_concat, ← ih]
      cases hvalue : value? report with
      | none => rw [about_of_none hvalue, List.filterMap_cons_none hvalue]; rfl
      | some v =>
          rw [about_of_some hvalue, List.filterMap_cons_some hvalue, List.filterMap_nil,
            List.foldl_cons, List.foldl_nil, FirstMatch.find_put]
          split <;> rfl

/-- Who shows something of each value, under its key, shows it of what is stored. -/
theorem Known.find_cache {ν' : Type} (h : Known value? keyOf store reports) {image : ν → ν'}
    {keyOf' : ν' → κ} (hkey : ∀ v, keyOf' (image v) = keyOf v) (k : κ) :
    FirstMatch.find keyOf' (cache (fun report => (value? report).map image) keyOf' reports) k =
      (store k).map image := by
  rw [Reporting.find_cache, ← h k, ← lastSaid_map]
  refine congrArg (lastSaid · reports) (funext fun report => ?_)
  cases hvalue : value? report with
  | none =>
      rw [about_of_none hvalue]
      exact about_of_none (by rw [hvalue]; rfl)
  | some v =>
      have hshown : about (fun report => (value? report).map image) keyOf' k report =
          if keyOf' (image v) = k then some (image v) else none :=
        about_of_some (by rw [hvalue]; rfl)
      rw [hshown, about_of_some hvalue, hkey]
      split <;> rfl

/-- Values of keys that have come up before leave the keys in their order. -/
theorem map_key_foldl_put {l : List ν} {vs : List ν} (h : ∀ v ∈ vs, keyOf v ∈ l.map keyOf) :
    (vs.foldl (FirstMatch.put keyOf) l).map keyOf = l.map keyOf := by
  induction vs generalizing l with
  | nil => rfl
  | cons v vs ih =>
      obtain ⟨hv, hvs⟩ := List.forall_mem_cons.mp h
      have hput := FirstMatch.map_key_put hv
      rw [List.foldl_cons, ih (by rwa [hput]), hput]

/-! ## One value -/

/-- A single value that is known is known after a step. -/
theorem lastSaid_of_step {v v' : ν} {more : List α} (h : lastSaid value? reports = some v)
    (hstep : Step (fun _ : Unit => some v) (fun _ => some v')
      fun w => ∃ report ∈ more, value? report = some w) :
    lastSaid value? (reports ++ more) = some v' := by
  have hvalue : about value? (fun _ => ()) () = value? := by
    funext report
    cases hreport : value? report <;> simp [about, hreport]
  have hknown : Known value? (fun _ => ()) (fun _ => some v) reports := by
    intro k
    rw [hvalue]
    exact h
  have happend := hknown.append (fun _ _ _ => rfl) hstep ()
  rwa [hvalue] at happend

end Reporting
