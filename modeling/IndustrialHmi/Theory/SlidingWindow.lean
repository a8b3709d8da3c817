import Mathlib.Order.Lattice
import IndustrialHmi.Theory.Since

/-!
# Sliding windows

A window holds the moments that were noted.  A look drops from its front what has grown too old
at the moment of the look, and clearing drops everything.  Nothing is ever sorted or searched:
when the moments of the calls never go back, what is held is what was noted since the last
clearing and is recent at the last look.
-/

namespace SlidingWindow

variable {α : Type}

inductive Call (α : Type) where
  | note (moment : α)
  | look (moment : α)
  | clear
  deriving DecidableEq

def Call.moment? : Call α → Option α
  | .note moment | .look moment => some moment
  | .clear => none

def Call.noted? : Call α → Option α
  | .note moment => some moment
  | _ => none

def Call.look? : Call α → Option α
  | .look moment => some moment
  | _ => none

def Call.isClear : Call α → Bool
  | .clear => true
  | _ => false

/-- What was noted since the last clearing. -/
def noted (calls : List (Call α)) : List α :=
  (sinceLast Call.isClear calls).filterMap Call.noted?

def lastLook (calls : List (Call α)) : Option α :=
  lastSaid Call.look? (sinceLast Call.isClear calls)

/-! ## What was noted -/

theorem noted_concat_clear (calls : List (Call α)) : noted (calls ++ [.clear]) = [] := by
  rw [noted, sinceLast_concat]
  rfl

theorem noted_concat_note (calls : List (Call α)) (moment : α) :
    noted (calls ++ [.note moment]) = noted calls ++ [moment] := by
  rw [noted, sinceLast_concat, if_neg (by simp [Call.isClear]), List.filterMap_append]
  rfl

theorem noted_concat_look (calls : List (Call α)) (moment : α) :
    noted (calls ++ [.look moment]) = noted calls := by
  rw [noted, sinceLast_concat, if_neg (by simp [Call.isClear]), List.filterMap_append]
  exact List.append_nil _

theorem lastLook_concat_note (calls : List (Call α)) (moment : α) :
    lastLook (calls ++ [.note moment]) = lastLook calls := by
  rw [lastLook, sinceLast_concat, if_neg (by simp [Call.isClear]), lastSaid_concat]
  rfl

theorem lastLook_concat_look (calls : List (Call α)) (moment : α) :
    lastLook (calls ++ [.look moment]) = some moment := by
  rw [lastLook, sinceLast_concat, if_neg (by simp [Call.isClear]), lastSaid_concat]
  rfl

theorem sinceLast_subset {β : Type} {fresh : β → Bool} (run : List β) :
    sinceLast fresh run ⊆ run := fun _ hstep =>
  List.mem_reverse.mp (List.takeWhile_subset _ (List.mem_reverse.mp hstep))

/-- A look since the last clearing is one of the calls. -/
theorem mem_of_lastLook {calls : List (Call α)} {l : α} (h : lastLook calls = some l) :
    l ∈ calls.filterMap Call.moment? := by
  obtain ⟨call, hcall, hlook⟩ := List.mem_filterMap.mp (List.mem_of_getLast? h)
  refine List.mem_filterMap.mpr ⟨call, sinceLast_subset calls hcall, ?_⟩
  cases call with
  | look moment => exact hlook
  | note moment => cases hlook
  | clear => cases hlook

theorem noted_sublist (calls : List (Call α)) :
    (noted calls).Sublist (calls.filterMap Call.moment?) := by
  induction calls using List.reverseRecOn with
  | nil => exact List.Sublist.slnil
  | append_singleton calls last ih =>
      rw [List.filterMap_append]
      cases last with
      | note moment => rw [noted_concat_note]; exact ih.append (List.Sublist.refl _)
      | look moment => rw [noted_concat_look]; exact ih.trans (List.sublist_append_left _ _)
      | clear => rw [noted_concat_clear]; exact List.nil_sublist _

/-! ## What is held -/

variable [LinearOrder α]

/-- One call on what is held; at a moment everything before its cutoff is too old. -/
def Call.apply (cutoff : α → α) (held : List α) : Call α → List α
  | .note moment => held ++ [moment]
  | .look moment => held.dropWhile (· < cutoff moment)
  | .clear => []

def held (cutoff : α → α) (calls : List (Call α)) : List α :=
  calls.foldl (Call.apply cutoff) []

/-- The moments of the calls never go back. -/
def Forward (calls : List (Call α)) : Prop :=
  (calls.filterMap Call.moment?).Pairwise (· ≤ ·)

/-- The moment was not too old at the look, if there was one. -/
def recent (cutoff : α → α) (look : Option α) (moment : α) : Bool :=
  look.all fun l => cutoff l ≤ moment

/-- Of moments in order, dropping the old ones from the front drops all the old ones. -/
theorem dropWhile_lt_eq_filter {moments : List α} (hsorted : moments.Pairwise (· ≤ ·))
    (bound : α) : moments.dropWhile (· < bound) = moments.filter (bound ≤ ·) := by
  induction moments with
  | nil => rfl
  | cons moment moments ih =>
      obtain ⟨hfirst, hrest⟩ := List.pairwise_cons.mp hsorted
      rcases lt_or_ge moment bound with hold | hnew
      · rw [List.dropWhile_cons_of_pos (by simpa using hold),
          List.filter_cons_of_neg (by simpa using hold), ih hrest]
      · rw [List.dropWhile_cons_of_neg (by simpa using hnew)]
        refine (List.filter_eq_self.mpr fun later hlater => ?_).symm
        rcases List.mem_cons.mp hlater with rfl | hmem
        · simpa using hnew
        · simpa using hnew.trans (hfirst later hmem)

theorem held_concat (cutoff : α → α) (calls : List (Call α)) (last : Call α) :
    held cutoff (calls ++ [last]) = last.apply cutoff (held cutoff calls) := by
  rw [held, List.foldl_append]
  rfl

theorem Forward.of_concat {calls : List (Call α)} {last : Call α}
    (h : Forward (calls ++ [last])) : Forward calls := by
  rw [Forward, List.filterMap_append] at h
  exact (List.pairwise_append.mp h).1

theorem Forward.le_last {calls : List (Call α)} {last : Call α} (h : Forward (calls ++ [last]))
    {earlier moment : α} (hearlier : earlier ∈ calls.filterMap Call.moment?)
    (hmoment : last.moment? = some moment) : earlier ≤ moment := by
  rw [Forward, List.filterMap_append] at h
  refine (List.pairwise_append.mp h).2.2 earlier hearlier moment ?_
  rw [List.filterMap_cons_some hmoment]
  exact List.mem_cons_self

/-- What is held is what was noted since the last clearing and is recent at the last look. -/
theorem held_eq_filter {cutoff : α → α} (hmono : Monotone cutoff) (hle : ∀ t, cutoff t ≤ t)
    {calls : List (Call α)} (hforward : Forward calls) :
    held cutoff calls = (noted calls).filter (recent cutoff (lastLook calls)) := by
  induction calls using List.reverseRecOn with
  | nil => rfl
  | append_singleton calls last ih =>
      have hearlier := ih hforward.of_concat
      rw [held_concat, hearlier]
      cases last with
      | clear => rw [noted_concat_clear]; rfl
      | note moment =>
          -- A moment that is noted now is recent at every look before.
          have hrecent : recent cutoff (lastLook calls) moment := by
            cases hlook : lastLook calls with
            | none => rfl
            | some l =>
                have hl := hforward.le_last (mem_of_lastLook hlook) rfl
                simpa [recent] using (hle l).trans hl
          rw [noted_concat_note, lastLook_concat_note, List.filter_append,
            List.filter_cons_of_pos hrecent]
          rfl
      | look moment =>
          have hsorted := (List.Pairwise.sublist (noted_sublist calls) hforward.of_concat).filter
            (recent cutoff (lastLook calls))
          rw [noted_concat_look, lastLook_concat_look]
          refine (dropWhile_lt_eq_filter hsorted (cutoff moment)).trans ?_
          rw [List.filter_filter]
          refine List.filter_congr fun noted _ => ?_
          cases hlook : lastLook calls with
          | none => simp [recent]
          | some l =>
              have hl := hmono (hforward.le_last (mem_of_lastLook hlook) rfl : l ≤ moment)
              simpa [recent] using hl.trans

end SlidingWindow
