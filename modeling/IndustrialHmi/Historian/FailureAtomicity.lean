import IndustrialHmi.Theory.Averages
import IndustrialHmi.Historian.HistoryStore

/-!
# Statements that fail

A call that stops early rolls its transaction back.  Two failures are not met so: a
deletion that fails is committed together with the averages of the rows it left, and a
commit that fails leaves the transaction open, with the number of its rows returned.
-/

namespace Historian

variable {ν : Type} (avg : List ν → ν)

namespace Database

/-- The tables on disk.  A transaction that is open has changed nothing there. -/
def durable (db : Database ν) : Tables ν := db.saved.getD db.tables

/-- No transaction is left open, and the number returned is that of the samples of the
batch that the call has put into the raw table for good. -/
def WritesAtomically (db : Database ν) (records : List (HistoryRecord ν))
    (fails : Statement → Bool) : Prop :=
  (db.write records fails).1.saved = none ∧
    ∃ rows : List (Row ν), rows.Sublist (records.map HistoryRecord.row) ∧
      (db.write records fails).2 = rows.length ∧
      (db.write records fails).1.durable =
        Function.update db.durable .Raw (db.durable .Raw ++ rows)

/-- The tables with the old rows of one moved to another. -/
def moved (db : Database ν) (src dst : Tier) (olderThanMs bucketMs : ℤ) : Tables ν :=
  Function.update
    (Function.update db.tables dst
      (db.tables dst ++ averages avg bucketMs (db.old src olderThanMs)))
    src (db.recent src olderThanMs)

/-- No transaction is left open, and either all old rows are moved and counted or nothing
is changed. -/
def DemotesAtomically (db : Database ν) (src dst : Tier) (olderThanMs bucketMs : ℤ)
    (fails : Statement → Bool) : Prop :=
  (db.demoteOlderThan avg src dst olderThanMs bucketMs fails).1.saved = none ∧
    ((db.demoteOlderThan avg src dst olderThanMs bucketMs fails).2 =
          (db.old src olderThanMs).length ∧
        (db.demoteOlderThan avg src dst olderThanMs bucketMs fails).1.durable =
          db.moved avg src dst olderThanMs bucketMs ∨
      (db.demoteOlderThan avg src dst olderThanMs bucketMs fails).2 = 0 ∧
        (db.demoteOlderThan avg src dst olderThanMs bucketMs fails).1.durable = db.durable)

/-! ## The conditions -/

/-- No transaction is open, and the commit succeeds if the batch comes to it. -/
def WriteCommits (db : Database ν) (records : List (HistoryRecord ν))
    (fails : Statement → Bool) : Prop :=
  db.saved = none ∧
    (records ≠ [] → fails .beginImmediate = false → fails .prepareInsert = false →
      fails .commit = false)

/-- No transaction is open, and if the insertion takes effect the commit succeeds, and so
does the deletion unless there is nothing to delete. -/
def DemotionCommits (db : Database ν) (src dst : Tier) (olderThanMs bucketMs : ℤ)
    (fails : Statement → Bool) : Prop :=
  db.saved = none ∧
    (0 < bucketMs → src ≠ dst → db.Inserts fails →
      fails .commit = false ∧ (fails .stepDelete = false ∨ db.old src olderThanMs = []))

/-! ## Writes -/

theorem durable_of_closed {db : Database ν} (h : db.saved = none) : db.durable = db.tables := by
  rw [durable, h]
  rfl

/-- A batch whose transaction does not begin leaves everything as it was. -/
theorem write_of_not_begin {db : Database ν} {fails : Statement → Bool}
    (h : db.beginImmediate fails = none) (records : List (HistoryRecord ν)) :
    db.write records fails = (db, 0) := by
  rw [write, h]
  split <;> rfl

theorem accepted_sublist (records : List (HistoryRecord ν)) (fails : Statement → Bool) :
    ((records.zipIdx.filter fun r => !fails (.stepInsert r.2)).map fun r => r.1.row).Sublist
      (records.map HistoryRecord.row) := by
  have hmap : (records.zipIdx.map fun r => r.1.row) = records.map HistoryRecord.row := by
    rw [← List.zipIdx_map_fst 0 records, List.map_map]
    simp [Function.comp_def]
  rw [← hmap]
  exact List.filter_sublist.map _

/-- Nothing written and nothing left open. -/
theorem writesAtomically_of_unchanged {db : Database ν} (h : db.saved = none)
    {records : List (HistoryRecord ν)} {fails : Statement → Bool}
    (hwrite : db.write records fails = (db, 0)) : db.WritesAtomically records fails := by
  rw [WritesAtomically, hwrite]
  exact ⟨h, [], List.nil_sublist _, rfl, by simp⟩

theorem writesAtomically_iff (db : Database ν) (records : List (HistoryRecord ν))
    (fails : Statement → Bool) :
    db.WritesAtomically records fails ↔ db.WriteCommits records fails := by
  cases hsaved : db.saved with
  | some tables =>
      have hbegin : db.beginImmediate fails = none := by simp [beginImmediate, hsaved]
      simp [WritesAtomically, WriteCommits, write_of_not_begin hbegin, hsaved]
  | none =>
      by_cases hnil : records = []
      · subst hnil
        exact iff_of_true (writesAtomically_of_unchanged hsaved rfl)
          ⟨hsaved, fun h => absurd rfl h⟩
      cases hfails : fails .beginImmediate with
      | true =>
          have hbegin : db.beginImmediate fails = none := by simp [beginImmediate, hfails]
          exact iff_of_true
            (writesAtomically_of_unchanged hsaved (write_of_not_begin hbegin records))
            ⟨hsaved, fun _ h => absurd (hfails.symm.trans h) (by simp)⟩
      | false =>
          have hbegin : db.beginImmediate fails = some { db with saved := some db.tables } := by
            simp [beginImmediate, hfails, hsaved]
          have hempty : records.isEmpty = false := by simp [hnil]
          cases hprepare : fails .prepareInsert with
          | true =>
              have hwrite : db.write records fails = (db, 0) := by
                simp [write, hempty, hbegin, hprepare, rollback, ← hsaved]
              exact iff_of_true (writesAtomically_of_unchanged hsaved hwrite)
                ⟨hsaved, fun _ _ h => absurd (hprepare.symm.trans h) (by simp)⟩
          | false =>
              cases hcommit : fails .commit with
              | true =>
                  simp [WritesAtomically, WriteCommits, write, hempty, hbegin, hprepare, commit,
                    hcommit, hnil, hfails]
              | false =>
                  refine iff_of_true ?_ ⟨hsaved, fun _ _ _ => hcommit⟩
                  refine ⟨by simp [write, hempty, hbegin, hprepare, commit, hcommit],
                    _, accepted_sublist records fails, ?_, ?_⟩ <;>
                  simp [write, hempty, hbegin, hprepare, commit, hcommit, durable, hsaved]

/-! ## Demotions -/

/-- Rows have averages. -/
theorem averages_ne_nil (bucketMs : ℤ) {rows : List (Row ν)} (h : rows ≠ []) :
    averages avg bucketMs rows ≠ [] := by
  obtain ⟨r, hr⟩ := List.exists_mem_of_ne_nil rows h
  exact List.ne_nil_of_mem (Grouping.mem_aggregate.mpr ⟨r, hr, rfl⟩)

/-- Without its insertion a demotion counts nothing and opens nothing. -/
theorem demoteOlderThan_of_not_inserts {db : Database ν} (hsaved : db.saved = none)
    {fails : Statement → Bool} {src dst : Tier} {bucketMs : ℤ}
    (h : ¬ (0 < bucketMs ∧ src ≠ dst ∧ db.Inserts fails)) (olderThanMs : ℤ) :
    db.demoteOlderThan avg src dst olderThanMs bucketMs fails = (db, 0) := by
  rw [demoteOlderThan]
  by_cases hbucket : bucketMs ≤ 0
  · rw [if_pos hbucket]
  by_cases hsame : src = dst
  · rw [if_neg hbucket, if_pos hsame]
  rw [if_neg hbucket, if_neg hsame]
  have hinserts : ¬ db.Inserts fails := fun hi => h ⟨by omega, hsame, hi⟩
  cases hfails : fails .beginImmediate with
  | true => simp [beginImmediate, hfails]
  | false =>
      have hbegin : db.beginImmediate fails = some { db with saved := some db.tables } := by
        simp [beginImmediate, hfails, hsaved]
      have hundo : ∀ tables, ({ tables, saved := some db.tables } : Database ν).rollback = db := by
        simp [rollback, ← hsaved]
      simp only [hbegin]
      cases hprepare : fails .prepareInsert with
      | true => rw [if_pos rfl, hundo]
      | false =>
          cases hstep : fails (.stepInsert 0) with
          | true => rw [if_neg Bool.false_ne_true, if_pos rfl, hundo]
          | false =>
              cases hdelete : fails .prepareDelete with
              | true =>
                  rw [if_neg Bool.false_ne_true, if_neg Bool.false_ne_true, if_pos rfl, hundo]
              | false => exact absurd ⟨hsaved, hfails, hprepare, hstep, hdelete⟩ hinserts

/-- With its insertion a demotion ends in a commit, of the moved tables or, when the
deletion fails, of the averages alone. -/
theorem demoteOlderThan_of_inserts {db : Database ν} {fails : Statement → Bool} {src dst : Tier}
    {bucketMs : ℤ} (hbucket : 0 < bucketMs) (hne : src ≠ dst) (h : db.Inserts fails)
    (olderThanMs : ℤ) :
    db.demoteOlderThan avg src dst olderThanMs bucketMs fails =
      if fails .stepDelete then
        (commit ⟨Function.update db.tables dst
          (db.tables dst ++ averages avg bucketMs (db.old src olderThanMs)),
            some db.tables⟩ fails, 0)
      else
        (commit ⟨db.moved avg src dst olderThanMs bucketMs, some db.tables⟩ fails,
          (db.old src olderThanMs).length) := by
  obtain ⟨hsaved, hfails, hprepare, hstep, hdelete⟩ := h
  have hpositive : ¬ bucketMs ≤ 0 := by omega
  have hbegin : db.beginImmediate fails = some { db with saved := some db.tables } := by
    simp [beginImmediate, hfails, hsaved]
  simp only [demoteOlderThan, hpositive, if_false, hne, hbegin, hprepare, hstep, hdelete,
    Bool.false_eq_true, Function.update_of_ne hne]
  rfl

/-- The averages alone change the destination, unless there are none. -/
theorem update_averages_eq_iff (db : Database ν) (src dst : Tier) (olderThanMs bucketMs : ℤ) :
    Function.update db.tables dst
        (db.tables dst ++ averages avg bucketMs (db.old src olderThanMs)) = db.tables ↔
      db.old src olderThanMs = [] := by
  constructor
  · intro htables
    by_contra hold
    have hdst := congrFun htables dst
    rw [Function.update_self, List.append_right_eq_self] at hdst
    exact averages_ne_nil avg bucketMs hold hdst
  · intro hold
    have hnone : averages avg bucketMs (db.old src olderThanMs) = [] := by
      rw [hold]
      rfl
    rw [hnone, List.append_nil, Function.update_eq_self]

theorem demotesAtomically_iff (db : Database ν) (src dst : Tier) (olderThanMs bucketMs : ℤ)
    (fails : Statement → Bool) :
    db.DemotesAtomically avg src dst olderThanMs bucketMs fails ↔
      db.DemotionCommits src dst olderThanMs bucketMs fails := by
  cases hsaved : db.saved with
  | some tables =>
      have hbegin : db.beginImmediate fails = none := by simp [beginImmediate, hsaved]
      have hunchanged : db.demoteOlderThan avg src dst olderThanMs bucketMs fails = (db, 0) := by
        rw [demoteOlderThan, hbegin]
        split
        · rfl
        · split <;> rfl
      simp [DemotesAtomically, DemotionCommits, hunchanged, hsaved]
  | none =>
      by_cases hinserts : 0 < bucketMs ∧ src ≠ dst ∧ db.Inserts fails
      · obtain ⟨hbucket, hne, hi⟩ := hinserts
        have hcond : db.DemotionCommits src dst olderThanMs bucketMs fails ↔
            fails .commit = false ∧
              (fails .stepDelete = false ∨ db.old src olderThanMs = []) :=
          ⟨fun h => h.2 hbucket hne hi, fun h => ⟨hsaved, fun _ _ _ => h⟩⟩
        rw [hcond, DemotesAtomically, demoteOlderThan_of_inserts avg hbucket hne hi,
          durable_of_closed hsaved]
        cases hcommit : fails .commit with
        | true => cases hstep : fails .stepDelete <;> simp [commit, hcommit]
        | false =>
            cases hstep : fails .stepDelete with
            | false => simp [commit, hcommit, durable]
            | true =>
                -- the averages alone are committed: harmless only if there are none
                simp only [if_true, commit, hcommit, Bool.false_eq_true, if_false, durable,
                  Option.getD_none, true_and, Bool.true_eq_false, false_or,
                  db.update_averages_eq_iff avg]
                constructor
                · rintro (⟨hlength, -⟩ | hold)
                  · exact List.length_eq_zero_iff.mp hlength.symm
                  · exact hold
                · exact Or.inr
      · have hunchanged := demoteOlderThan_of_not_inserts avg hsaved hinserts olderThanMs
        rw [DemotesAtomically, hunchanged]
        exact iff_of_true ⟨hsaved, .inr ⟨rfl, rfl⟩⟩
          ⟨hsaved, fun hbucket hne hi => absurd ⟨hbucket, hne, hi⟩ hinserts⟩

/-- Whatever fails, a write and a demotion are atomic exactly when no transaction is open
before and their last statements, where they come to them, succeed. -/
theorem atomic_iff (db : Database ν) (fails : Statement → Bool) :
    (∀ records, db.WritesAtomically records fails ↔ db.WriteCommits records fails) ∧
      ∀ src dst olderThanMs bucketMs,
        db.DemotesAtomically avg src dst olderThanMs bucketMs fails ↔
          db.DemotionCommits src dst olderThanMs bucketMs fails :=
  ⟨fun records => db.writesAtomically_iff records fails,
    fun src dst olderThanMs bucketMs =>
      db.demotesAtomically_iff avg src dst olderThanMs bucketMs fails⟩

/-- Only the commit fails. -/
def commitFails : Statement → Bool
  | .commit => true
  | _ => false

/-- Only the deletion fails. -/
def deletionFails : Statement → Bool
  | .stepDelete => true
  | _ => false

/-- One raw sample. -/
def oneSample : Database ℚ where
  tables
    | .Raw => [⟨0, "Q", 0, 90⟩]
    | _ => []

theorem failures_not_atomic :
    ¬ (({} : Database ℚ).WritesAtomically [⟨0, .QualityPassRate, 0, 90⟩] commitFails) ∧
      ¬ oneSample.DemotesAtomically Averages.mean .Raw .Minute 3600000 60000 deletionFails := by
  refine ⟨fun h => ?_, fun h => ?_⟩
  · exact absurd h.1 (by simp [write, beginImmediate, commit, commitFails])
  · rcases h.2 with ⟨hcount, -⟩ | ⟨-, htables⟩
    · exact absurd hcount (by decide +kernel)
    · exact absurd (congrFun htables .Minute) (by decide +kernel)

end Database

end Historian
