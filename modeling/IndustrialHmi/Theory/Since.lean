import Mathlib.Data.List.Induction

/-!
# Since

What some steps of a run bring about and others end: it holds when a step has brought it
about and none after that has ended it.  Whether a step does either may depend on the run
before it.

`Each` says that every step of a run meets a condition on the run before it.  Of a run that is
started afresh again and again only the steps since the last fresh start matter, and of what is
said again and again only what is said last.
-/

variable {α : Type}

/-- Where a step of a run stands that is grown at its end: it is the last one, or in the run
before. -/
theorem concat_eq_split {run before later : List α} {last step : α}
    (h : run ++ [last] = before ++ step :: later) :
    run = before ∧ last = step ∧ later = [] ∨
      ∃ middle, later = middle ++ [last] ∧ run = before ++ step :: middle := by
  rcases List.eq_nil_or_concat later with rfl | ⟨middle, last', rfl⟩
  · obtain ⟨hrun, hlast⟩ := List.append_singleton_inj.mp h
    exact .inl ⟨hrun, hlast, rfl⟩
  · rw [List.concat_eq_append] at h ⊢
    have hsplit : run ++ [last] = (before ++ step :: middle) ++ [last'] := by simpa using h
    obtain ⟨hrun, rfl⟩ := List.append_singleton_inj.mp hsplit
    exact .inr ⟨middle, rfl, hrun⟩

/-- Every step of a run meets a condition on the run before it. -/
def Each (P : List α → α → Prop) (run : List α) : Prop :=
  ∀ before step later, run = before ++ step :: later → P before step

theorem each_nil {P : List α → α → Prop} : Each P [] := fun _ _ _ h => absurd h (by simp)

theorem Each.concat {P : List α → α → Prop} {run : List α} {last : α} (h : Each P run)
    (hlast : P run last) : Each P (run ++ [last]) := by
  intro before step later hrun
  obtain ⟨rfl, rfl, -⟩ | ⟨middle, -, hrun⟩ := concat_eq_split hrun
  · exact hlast
  · exact h before step middle hrun

/-- A step has started it and no later one has ended it. -/
def Since (starts ends : List α → α → Prop) (run : List α) : Prop :=
  ∃ before step later, run = before ++ step :: later ∧ starts before step ∧
    ∀ middle last, middle ++ [last] <+: later → ¬ ends (before ++ step :: middle) last

namespace Since

variable {starts ends : List α → α → Prop}

theorem not_nil : ¬ Since starts ends [] := by
  rintro ⟨before, step, later, hrun, -⟩
  exact absurd hrun.symm (by simp)

theorem of_starts {run : List α} {last : α} (h : starts run last) :
    Since starts ends (run ++ [last]) :=
  ⟨run, last, [], rfl, h, fun middle _ hinitial => absurd (List.prefix_nil.mp hinitial) (by simp)⟩

theorem concat {run : List α} {last : α} (h : Since starts ends run) (hends : ¬ ends run last) :
    Since starts ends (run ++ [last]) := by
  obtain ⟨before, step, later, rfl, hstarts, hnot⟩ := h
  refine ⟨before, step, later ++ [last], by simp, hstarts, fun middle last' hinitial => ?_⟩
  rcases List.prefix_concat_iff.mp hinitial with hall | hearlier
  · obtain ⟨rfl, rfl⟩ := List.append_singleton_inj.mp hall
    exact hends
  · exact hnot middle last' hearlier

/-- The last step starts it, or it held before and the last step does not end it. -/
theorem concat_iff {run : List α} {last : α} :
    Since starts ends (run ++ [last]) ↔
      starts run last ∨ Since starts ends run ∧ ¬ ends run last := by
  constructor
  · rintro ⟨before, step, later, hrun, hstarts, hnot⟩
    obtain ⟨rfl, rfl, rfl⟩ | ⟨later, rfl, rfl⟩ := concat_eq_split hrun
    · exact .inl hstarts
    · refine .inr ⟨⟨before, step, later, rfl, hstarts, fun middle last' hinitial => ?_⟩, ?_⟩
      · exact hnot middle last' (hinitial.trans (List.prefix_append _ _))
      · exact hnot later last List.prefix_rfl
  · rintro (hstarts | ⟨hsince, hends⟩)
    · exact of_starts hstarts
    · exact hsince.concat hends

/-- A property of runs with this one-step law is that it has been started since. -/
theorem iff_of_step {P : List α → Prop} (hnil : ¬ P [])
    (hstep : ∀ run last, P (run ++ [last]) ↔ starts run last ∨ P run ∧ ¬ ends run last)
    (run : List α) : P run ↔ Since starts ends run := by
  induction run using List.reverseRecOn with
  | nil => exact iff_of_false hnil not_nil
  | append_singleton run last ih => rw [hstep, concat_iff, ih]

end Since

/-! ## The steps since the last fresh start -/

section SinceLast

variable {fresh : α → Bool}

/-- The steps after the last one that starts afresh. -/
def sinceLast (fresh : α → Bool) (run : List α) : List α :=
  (run.reverse.takeWhile fun step => !fresh step).reverse

theorem sinceLast_concat (run : List α) (last : α) :
    sinceLast fresh (run ++ [last]) =
      if fresh last then [] else sinceLast fresh run ++ [last] := by
  rw [sinceLast, List.reverse_append, List.reverse_singleton, List.singleton_append,
    List.takeWhile_cons]
  cases fresh last with
  | true => rfl
  | false => exact List.reverse_cons

/-- Steps of which none starts afresh are added to those there are. -/
theorem sinceLast_append_of_not (run : List α) {more : List α}
    (hmore : ∀ step ∈ more, fresh step = false) :
    sinceLast fresh (run ++ more) = sinceLast fresh run ++ more := by
  induction more using List.reverseRecOn with
  | nil => rw [List.append_nil, List.append_nil]
  | append_singleton more last ih =>
      obtain ⟨hearlier, hlast⟩ := List.forall_mem_append.mp hmore
      rw [← List.append_assoc, sinceLast_concat, hlast last List.mem_cons_self, ih hearlier,
        List.append_assoc]
      rfl

end SinceLast

/-! ## What is said last -/

/-- What the last step that says something says. -/
def lastSaid {β : Type} (said : α → Option β) (run : List α) : Option β :=
  (run.filterMap said).getLast?

theorem lastSaid_concat {β : Type} (said : α → Option β) (run : List α) (last : α) :
    lastSaid said (run ++ [last]) = (said last).or (lastSaid said run) := by
  rw [lastSaid, List.filterMap_append, List.getLast?_append]
  cases h : said last with
  | none => rw [List.filterMap_cons_none h, List.filterMap_nil, List.getLast?_nil, lastSaid]
  | some b => rw [List.filterMap_cons_some h, List.filterMap_nil, List.getLast?_singleton]; rfl

theorem lastSaid_append {β : Type} (said : α → Option β) (run more : List α) :
    lastSaid said (run ++ more) = (lastSaid said more).or (lastSaid said run) := by
  rw [lastSaid, List.filterMap_append, List.getLast?_append]
  rfl

theorem lastSaid_map {β γ : Type} (f : β → γ) (said : α → Option β) (run : List α) :
    lastSaid (fun step => (said step).map f) run = (lastSaid said run).map f := by
  rw [lastSaid, lastSaid, ← List.getLast?_map, List.map_filterMap]

theorem lastSaid_singleton {β : Type} (said : α → Option β) (step : α) :
    lastSaid said [step] = said step := (lastSaid_concat said [] step).trans Option.or_none

theorem lastSaid_congr {β : Type} {said said' : α → Option β} {run : List α}
    (h : ∀ step ∈ run, said step = said' step) : lastSaid said run = lastSaid said' run := by
  induction run using List.reverseRecOn with
  | nil => rfl
  | append_singleton run last ih =>
      obtain ⟨hrun, hlast⟩ := List.forall_mem_append.mp h
      rw [lastSaid_concat, lastSaid_concat, ih hrun, hlast last List.mem_cons_self]

/-- What is said last is said by a step. -/
theorem exists_of_lastSaid {β : Type} {said : α → Option β} {run : List α} {b : β}
    (h : lastSaid said run = some b) : ∃ step ∈ run, said step = some b :=
  List.mem_filterMap.mp (List.mem_of_getLast? h)

/-- Where a step says something, something is said last. -/
theorem exists_lastSaid {β : Type} {said : α → Option β} {run : List α} {step : α} {b : β}
    (hmem : step ∈ run) (h : said step = some b) : ∃ b', lastSaid said run = some b' := by
  have hsaid : run.filterMap said ≠ [] :=
    List.ne_nil_of_mem (List.mem_filterMap.mpr ⟨step, hmem, h⟩)
  exact ⟨_, List.getLast?_eq_some_getLast hsaid⟩

/-- Steps that say nothing do not matter. -/
theorem lastSaid_filter {β : Type} {said : α → Option β} {speaks : α → Bool}
    (hspeaks : ∀ step, speaks step = false → said step = none) (run : List α) :
    lastSaid said (run.filter speaks) = lastSaid said run := by
  induction run using List.reverseRecOn with
  | nil => rfl
  | append_singleton run last ih =>
      rw [List.filter_append, lastSaid_append, lastSaid_concat, ih]
      cases hlast : speaks last with
      | true => simp [hlast, lastSaid]
      | false => simp [hlast, lastSaid, hspeaks last hlast]

/-- What is said last is passed on, where each step is passed on as steps that say no more. -/
theorem lastSaid_flatMap {β β' γ : Type} {said : α → Option β} {said' : γ → Option β'}
    {passed : α → List γ} {run : List α} {b : β} {b' : β'} (h : lastSaid said run = some b)
    (hgive : ∀ step, said step = some b → lastSaid said' (passed step) = some b')
    (hquiet : ∀ step, said step = none → lastSaid said' (passed step) = none) :
    lastSaid said' (run.flatMap passed) = some b' := by
  induction run using List.reverseRecOn with
  | nil => exact absurd h (by simp [lastSaid])
  | append_singleton run last ih =>
      rw [lastSaid_concat] at h
      rw [List.flatMap_append, lastSaid_append, List.flatMap_singleton]
      cases hlast : said last with
      | some c =>
          rw [hlast, Option.some_or] at h
          rw [hgive last (hlast.trans h), Option.some_or]
      | none =>
          rw [hlast, Option.none_or] at h
          rw [hquiet last hlast, Option.none_or, ih h]
