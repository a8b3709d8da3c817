import IndustrialHmi.Config.PersistStringField

/-!
# Stopping inside a call

A call puts the setting into memory first, and keeps it there whatever becomes of the file:
the setting holds for the session.  The file is old or new at every point but one.  The old
file is removed before the temporary one takes its name, and a call stopped in between, or
whose rename fails, leaves no file.
-/

namespace Config

/-- A call that may be stopped anywhere leaves the file old or new, and a failed one leaves
everything as it was. -/
structure Atomic (s : Setting) (a : Answers) (value : Text) (memory : FlatMap) (content : Text)
    (tmp : Option Text) : Prop where
  stopped : ∀ stop ∈ (setSetting s a value memory ⟨some content, tmp⟩).2.stops,
    stop.2.config = some content ∨
      ∃ new, s.edit value content = some new ∧ stop.2.config = some new
  failed : (setSetting s a value memory ⟨some content, tmp⟩).2.result = false →
    (setSetting s a value memory ⟨some content, tmp⟩).2.final.config = some content ∧
      (setSetting s a value memory ⟨some content, tmp⟩).1 = memory

/-- The old file has not been removed by the call. -/
def Spared (a : Answers) (call : Persisted) : Prop :=
  a.removes = true → ∀ stop ∈ call.stops, stop.1 ≠ .removed

/-- The last disk is one of those the call may be stopped at. -/
theorem final_mem_stops (s : Setting) (a : Answers) (value : Text) (memory : FlatMap)
    (content : Text) (tmp : Option Text) :
    ∃ stop ∈ (setSetting s a value memory ⟨some content, tmp⟩).2.stops,
      stop.2 = (setSetting s a value memory ⟨some content, tmp⟩).2.final ∧
        ((setSetting s a value memory ⟨some content, tmp⟩).2.result = false →
          stop.1 ≠ .renamed) := by
  have hedit' : Config.edit s.fieldName value (s.insertion value) content =
      s.edit value content := rfl
  simp only [setSetting, persistStringField, hedit']
  cases hconfig : a.opensConfig with
  | false => exact ⟨_, List.mem_cons_self, rfl, by simp⟩
  | true =>
      cases hedit : s.edit value content with
      | none => exact ⟨_, List.mem_cons_self, rfl, by simp⟩
      | some new =>
          cases htmp : a.opensTmp with
          | false => exact ⟨_, List.mem_cons_self, rfl, by simp⟩
          | true =>
              cases hgood : a.good with
              | false =>
                  refine ⟨_, List.mem_cons_of_mem _ (List.mem_map_of_mem
                    (List.mem_range.mpr (Nat.lt_succ_self a.written))), rfl, by simp⟩
              | true =>
                  cases hrename : a.renames with
                  | true => exact ⟨_, List.mem_append_right _ List.mem_cons_self, rfl, by simp⟩
                  | false =>
                      exact ⟨_, List.mem_append_right _ List.mem_cons_self, rfl, by simp⟩

/-- At every point but the one between the removal and the rename the file is old or new,
if what is put into the temporary file is there when it is closed.  A failed call that has
not removed the old file leaves it.  Memory has the new value in any case. -/
theorem old_or_new_unless_removed (s : Setting) (a : Answers) (value : Text) (memory : FlatMap)
    (content : Text) (tmp : Option Text)
    (hwritten : ∀ new, s.edit value content = some new → a.good = true →
      new.length ≤ a.written) :
    (∀ stop ∈ (setSetting s a value memory ⟨some content, tmp⟩).2.stops,
      ¬ (stop.1 = .removed ∧ a.removes = true) →
        stop.2.config = some content ∨
          ∃ new, s.edit value content = some new ∧ stop.2.config = some new) ∧
      ((setSetting s a value memory ⟨some content, tmp⟩).2.result = false →
        Spared a (setSetting s a value memory ⟨some content, tmp⟩).2 →
          (setSetting s a value memory ⟨some content, tmp⟩).2.final.config = some content) ∧
      (setSetting s a value memory ⟨some content, tmp⟩).1 =
        Function.update memory s.path (some value) := by
  refine ⟨fun stop hstop hspared => ?_, fun hresult hspared => ?_, rfl⟩
  · rcases config_of_stop hstop hspared with hold | ⟨new, hedit, -, hgood, hnew⟩
    · exact .inl hold
    · rw [List.take_of_length_le (hwritten new hedit hgood)] at hnew
      exact .inr ⟨new, hedit, hnew⟩
  · obtain ⟨stop, hstop, hfinal, hrenamed⟩ := final_mem_stops s a value memory content tmp
    have hkept : ¬ (stop.1 = .removed ∧ a.removes = true) :=
      fun h => hspared h.2 stop hstop h.1
    rw [← hfinal]
    rcases config_of_stop hstop hkept with hold | ⟨-, -, hnew, -⟩
    · exact hold
    · exact absurd hnew (hrenamed hresult)

theorem old_or_new_unless_removed_english :
    (setSetting language ⟨true, true, true, 26, false, false⟩ (ascii "de") (fun _ => none)
      ⟨some (languageFile "en"), none⟩).2.final.config =
        some (languageFile "en") := by
  refine (old_or_new_unless_removed language ⟨true, true, true, 26, false, false⟩ (ascii "de")
    (fun _ => none) (languageFile "en") none
    fun new hnew _ => ?_).2.1 rfl fun hremoves => absurd hremoves (by decide)
  obtain rfl : languageFile "de" = new := Option.some.inj hnew
  decide

/-- A call stopped after the removal leaves no file, and one that cannot open the temporary file
returns false with the new value in memory.  One whose temporary file takes no more than ten bytes
when it is closed leaves these. -/
theorem stopped_after_removal_and_kept_in_memory :
    ¬ Atomic language ⟨true, true, true, 26, true, true⟩ (ascii "de") (fun _ => none)
        (languageFile "en") none ∧
      ¬ Atomic language ⟨true, false, true, 26, true, true⟩ (ascii "de") (fun _ => none)
        (languageFile "en") none ∧
      ¬ Atomic language ⟨true, true, true, 10, true, true⟩ (ascii "de") (fun _ => none)
        (languageFile "en") none := by
  refine ⟨fun h => ?_, fun h => ?_, fun h => ?_⟩
  · have hremoved : (Point.removed,
        Disk.mk none (some (languageFile "de"))) ∈
          (setSetting language ⟨true, true, true, 26, true, true⟩ (ascii "de") (fun _ => none)
            ⟨some (languageFile "en"), none⟩).2.stops :=
      List.mem_append_left _ (List.mem_append_right _ List.mem_cons_self)
    rcases h.stopped _ hremoved with hold | ⟨new, -, hnew⟩
    · cases hold
    · cases hnew
  · have hmemory : Function.update (fun _ => none) language.path (some (ascii "de"))
        language.path = none := congrFun (h.failed rfl).2 language.path
    rw [Function.update_self] at hmemory
    cases hmemory
  · obtain ⟨stop, hstop, hfinal, -⟩ := final_mem_stops language ⟨true, true, true, 10, true, true⟩
      (ascii "de") (fun _ => none) (languageFile "en") none
    have hedit : language.edit (ascii "de") (languageFile "en") = some (languageFile "de") := rfl
    obtain ⟨new, hnew, hconfig⟩ := @final_of_result language ⟨true, true, true, 10, true, true⟩
      (ascii "de") (languageFile "en") (fun _ => none) none rfl
    obtain rfl := Option.some.inj (hedit.symm.trans hnew)
    have hkept := h.stopped stop hstop
    rw [hfinal, hconfig] at hkept
    rcases hkept with hold | ⟨new, hsame, hshort⟩
    · exact absurd hold (by decide)
    · obtain rfl := Option.some.inj (hedit.symm.trans hsame)
      exact absurd hshort (by decide)

end Config
