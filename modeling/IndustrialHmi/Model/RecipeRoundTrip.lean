import IndustrialHmi.Model.ProductSearch
import IndustrialHmi.Model.RecipeUpsert

/-!
# A recipe that is saved and read back

`upsertRecipe` stops at the first statement that fails, and then it rolls back instead of
committing.  What it does not look at is whether this last statement succeeds.  A commit that fails
is told as success, and it leaves the transaction open as a rollback that fails does.

The names of the checkpoints are bound up to their first zero, so a name with a zero in it does not
come back as it was.  Nothing else stands in the way of a round trip (`upsertRoundTrips_iff`).
-/

namespace Products

/-! ## The order of the names -/

/-- The order of texts by their bytes, in which a text stands before its extensions. -/
def binaryLe : Text → Text → Bool
  | [], _ => true
  | _ :: _, [] => false
  | a :: as, b :: bs => a.toNat < b.toNat || (a.toNat = b.toNat && binaryLe as bs)

theorem binaryLe_trans : ∀ s t u : Text,
    binaryLe s t = true → binaryLe t u = true → binaryLe s u = true := by
  intro s
  induction s with
  | nil => intro t u _ _; rfl
  | cons a as ih =>
      intro t u hst htu
      cases t with
      | nil => cases hst
      | cons b bs =>
          cases u with
          | nil => cases htu
          | cons c cs =>
              simp only [binaryLe, Bool.or_eq_true, Bool.and_eq_true, decide_eq_true_eq] at *
              rcases hst with hab | ⟨hab, has⟩
              · rcases htu with hbc | ⟨hbc, -⟩ <;> exact Or.inl (by omega)
              · rcases htu with hbc | ⟨hbc, hbs⟩
                · exact Or.inl (by omega)
                · exact Or.inr ⟨hab.trans hbc, ih bs cs has hbs⟩

theorem binaryLe_total : ∀ s t : Text, (binaryLe s t || binaryLe t s) = true := by
  intro s
  induction s with
  | nil => intro t; rfl
  | cons a as ih =>
      intro t
      cases t with
      | nil => rfl
      | cons b bs =>
          have hrest := ih bs
          simp only [binaryLe, Bool.or_eq_true, Bool.and_eq_true, decide_eq_true_eq] at hrest ⊢
          rcases Nat.lt_trichotomy a.toNat b.toNat with hlt | heq | hgt
          · exact Or.inl (Or.inl hlt)
          · rcases hrest with hrest | hrest
            · exact Or.inl (Or.inr ⟨heq, hrest⟩)
            · exact Or.inr (Or.inr ⟨heq.symm, hrest⟩)
          · exact Or.inr (Or.inl hgt)

/-- The order of targets by their names. -/
def CheckpointTarget.byName (a b : CheckpointTarget) : Bool :=
  binaryLe a.checkpointName b.checkpointName

/-! ## Reading -/

/-- A row as it is read. -/
def TargetRow.extract (r : TargetRow) : CheckpointTarget :=
  ⟨cString r.checkpointName, r.passRateTarget⟩

namespace RecipeTables

/-- `SELECT checkpoint_name, pass_rate_target … ORDER BY checkpoint_name`. -/
def selectTargets (t : RecipeTables) (code : Text) : List TargetRow :=
  (t.targets.filter fun r => r.productCode = cString code).mergeSort fun r r' =>
    binaryLe r.checkpointName r'.checkpointName

def getRecipeByProductCode (t : RecipeTables) (productCode : Text) : Option Recipe :=
  match t.recipes.find? fun r => r.productCode = cString productCode with
  | none => none
  | some r => some {
      productCode := productCode
      totalOperations := columnInt r.totalOperations
      checkpointTargets := (t.selectTargets productCode).map TargetRow.extract }

end RecipeTables

/-! ## Saving -/

/-- The tables of the recipes, and what they were at the begin of the transaction if one is open. -/
structure RecipeDatabase where
  tables : RecipeTables
  saved : Option RecipeTables := none

/-- Which statements fail, when nothing in the tables refuses them. -/
structure Failures where
  beginTransaction : Bool := false
  statement : ℕ → Bool := fun _ => false
  /-- The commit or the rollback. -/
  ending : Bool := false

/-- The value returned, and the tables then. -/
def RecipeDatabase.upsertRecipe (db : RecipeDatabase) (recipe : Recipe) (fails : Failures) :
    Bool × RecipeDatabase :=
  if fails.beginTransaction ∨ db.saved.isSome then (false, db)
  else
    let (ok, tables) := SharedConnection.execAll recipe.statements fails.statement db.tables
    -- The result of the last statement is not looked at.
    if fails.ending then (ok, { tables := tables, saved := some db.tables })
    else (ok, { tables := if ok then tables else db.tables })

/-! ## Round trips -/

/-- The recipe that is read is the one that was saved, with its targets by name. -/
structure SortedCopy (recipe r : Recipe) : Prop where
  productCode : r.productCode = recipe.productCode
  totalOperations : r.totalOperations = recipe.totalOperations
  targets : r.checkpointTargets.Perm recipe.checkpointTargets
  sorted : r.checkpointTargets.Pairwise fun a b => a.byName b = true

/-- Some statement fails: nothing refuses it, or the tables do. -/
def Fails (tables : RecipeTables) (recipe : Recipe) (fails : Failures) : Prop :=
  fails.beginTransaction = true ∨ (∃ i < recipe.statements.length, fails.statement i = true) ∨
    SharedConnection.runAll recipe.statements tables = none ∨ fails.ending = true

/-- What a call on tables without an open transaction is to return, and to leave. -/
structure UpsertRoundTrips (tables : RecipeTables) (recipe : Recipe) (fails : Failures)
    (result : Bool × RecipeDatabase) : Prop where
  /-- A recipe that is told to be saved is read back. -/
  readBack : result.1 = true →
    ∃ r, result.2.tables.getRecipeByProductCode recipe.productCode = some r ∧ SortedCopy recipe r
  /-- The recipes for other codes are as they were. -/
  others : result.1 = true → ∀ code, cString code ≠ cString recipe.productCode →
    result.2.tables.getRecipeByProductCode code = tables.getRecipeByProductCode code
  /-- If a statement fails or two targets have one name, then nothing has happened. -/
  failed : Fails tables recipe fails ∨
      ¬(recipe.checkpointTargets.map CheckpointTarget.checkpointName).Nodup →
    result = (false, { tables })

/-! ## Texts without a zero -/

theorem zero_notMem_cString (t : Text) : 0 ∉ cString t := by
  intro hmem
  have hne := List.mem_takeWhile_imp hmem
  exact absurd rfl (of_decide_eq_true hne)

theorem cString_cString (t : Text) : cString (cString t) = cString t :=
  cString_of_not_mem (zero_notMem_cString t)

/-! ## What the tables refuse -/

/-- The inserts of targets are refused if a rate is no number or a name is there already. -/
theorem wellformed_of_runAll {recipe : Recipe} {targets : List CheckpointTarget}
    {t b : RecipeTables}
    (h : SharedConnection.runAll (targets.map recipe.insertTarget) t = some b) :
    (∀ target ∈ targets, target.passRateTarget ≠ .nan) ∧
      (targets.map fun target => cString target.checkpointName).Nodup ∧
      ∀ r ∈ t.targets, r.productCode = recipe.row.productCode →
        r.checkpointName ∉ targets.map fun target => cString target.checkpointName := by
  induction targets generalizing t with
  | nil =>
      refine ⟨?_, List.nodup_nil, fun _ _ _ => List.not_mem_nil⟩
      intro target htarget
      cases htarget
  | cons target targets ih =>
      rw [List.map_cons, SharedConnection.runAll, Option.bind_eq_some_iff] at h
      obtain ⟨t', hinsert, hrest⟩ := h
      rw [Recipe.insertTarget] at hinsert
      split at hinsert
      · cases hinsert
      · next hfits =>
          cases hinsert
          obtain ⟨hrate, hfree⟩ := not_or.mp hfits
          obtain ⟨hrates, hnames, hothers⟩ := ih hrest
          have hthis := hothers (recipe.targetRow target)
            (List.mem_append_right _ List.mem_cons_self) rfl
          refine ⟨?_, ?_, ?_⟩
          · intro target' htarget'
            rcases List.mem_cons.mp htarget' with rfl | htarget'
            · exact hrate
            · exact hrates target' htarget'
          · rw [List.map_cons]
            exact List.nodup_cons.mpr ⟨hthis, hnames⟩
          · intro r hr hcode hmem
            rcases List.mem_cons.mp hmem with hname | hmem
            · exact hfree ⟨r, hr, hcode, hname⟩
            · exact hothers r (List.mem_append_left _ hr) hcode hmem

theorem runAll_statements_eq_some {recipe : Recipe} {t b : RecipeTables} :
    SharedConnection.runAll recipe.statements t = some b ↔
      recipe.Wellformed ∧ b = recipe.saved t := by
  constructor
  · intro h
    have htargets : SharedConnection.runAll (recipe.checkpointTargets.map recipe.insertTarget) _ =
      some b := h
    obtain ⟨hrates, hnames, -⟩ := wellformed_of_runAll htargets
    rw [runAll_statements ⟨hrates, hnames⟩] at h
    exact ⟨⟨hrates, hnames⟩, (Option.some.inj h).symm⟩
  · rintro ⟨hwellformed, rfl⟩
    exact runAll_statements hwellformed t

/-! ## What is read back -/

/-- A target with its name as it is bound. -/
def CheckpointTarget.bound (target : CheckpointTarget) : CheckpointTarget :=
  ⟨cString target.checkpointName, target.passRateTarget⟩

section

variable {α κ : Type} [DecidableEq κ] {key : α → κ} {k : κ} {rows new : List α}

/-- Rows with one key are replaced: then they are those with the key. -/
theorem filter_replaced (hnew : ∀ r ∈ new, key r = k) :
    ((rows.filter fun r => key r ≠ k) ++ new).filter (fun r => key r = k) = new := by
  have hold : (rows.filter fun r => key r ≠ k).filter (fun r => key r = k) = [] := by
    refine List.filter_eq_nil_iff.mpr fun r hr hkey => ?_
    exact of_decide_eq_true (List.mem_filter.mp hr).2 (of_decide_eq_true hkey)
  rw [List.filter_append, hold, List.nil_append]
  exact List.filter_eq_self.mpr fun r hr => decide_eq_true (hnew r hr)

/-- Those with another key are as they were. -/
theorem filter_replaced_of_ne (hnew : ∀ r ∈ new, key r = k) {k' : κ} (hne : k' ≠ k) :
    ((rows.filter fun r => key r ≠ k) ++ new).filter (fun r => key r = k') =
      rows.filter fun r => key r = k' := by
  have hadded : new.filter (fun r => key r = k') = [] := by
    refine List.filter_eq_nil_iff.mpr fun r hr hkey => hne ?_
    exact (of_decide_eq_true hkey).symm.trans (hnew r hr)
  rw [List.filter_append, hadded, List.append_nil, List.filter_filter]
  refine List.filter_congr fun r _ => ?_
  by_cases hkey : key r = k'
  · simp only [hkey, hne, decide_true, ne_eq, not_false_eq_true, Bool.and_self]
  · simp only [hkey, decide_false, Bool.false_and]

end

variable {recipe : Recipe}

theorem row_productCode : ∀ r ∈ [recipe.row], r.productCode = recipe.row.productCode := by
  intro r hr
  rw [List.mem_singleton.mp hr]

theorem targetRow_productCode :
    ∀ r ∈ recipe.checkpointTargets.map recipe.targetRow,
      r.productCode = recipe.row.productCode := by
  intro r hr
  obtain ⟨target, -, rfl⟩ := List.mem_map.mp hr
  rfl

/-- The recipe comes back with its targets by name, and their names as they are bound. -/
theorem getRecipe_saved (recipe : Recipe) (t : RecipeTables) :
    (recipe.saved t).getRecipeByProductCode recipe.productCode =
      some { recipe with
        totalOperations := columnInt recipe.totalOperations
        checkpointTargets := (recipe.checkpointTargets.map CheckpointTarget.bound).mergeSort
          CheckpointTarget.byName } := by
  have hrow : (recipe.saved t).recipes.find? (fun r => r.productCode = cString recipe.productCode) =
      some recipe.row := by
    rw [← List.head?_filter]
    exact congrArg List.head? (filter_replaced row_productCode)
  have hrows : (recipe.saved t).targets.filter
      (fun r => r.productCode = cString recipe.productCode) =
        recipe.checkpointTargets.map recipe.targetRow := filter_replaced targetRow_productCode
  have htargets : ((recipe.saved t).selectTargets recipe.productCode).map TargetRow.extract =
      (recipe.checkpointTargets.map CheckpointTarget.bound).mergeSort CheckpointTarget.byName := by
    have hextract : recipe.checkpointTargets.map (TargetRow.extract ∘ recipe.targetRow) =
        recipe.checkpointTargets.map CheckpointTarget.bound := by
      refine List.map_congr_left fun target _ => ?_
      show CheckpointTarget.mk (cString (cString target.checkpointName)) _ = _
      rw [cString_cString]
      rfl
    rw [RecipeTables.selectTargets, hrows, ← hextract, ← List.map_map]
    refine List.map_mergeSort ?_
    intro r hr r' hr'
    obtain ⟨target, -, rfl⟩ := List.mem_map.mp hr
    obtain ⟨target', -, rfl⟩ := List.mem_map.mp hr'
    simp only [CheckpointTarget.byName, TargetRow.extract, Recipe.targetRow, cString_cString]
  rw [RecipeTables.getRecipeByProductCode, hrow, htargets]
  rfl

/-- The recipes for other codes are read as before. -/
theorem getRecipe_saved_of_ne {code : Text} (h : cString code ≠ cString recipe.productCode)
    (t : RecipeTables) :
    (recipe.saved t).getRecipeByProductCode code = t.getRecipeByProductCode code := by
  have hrow : (recipe.saved t).recipes.filter (fun r => r.productCode = cString code) =
      t.recipes.filter fun r => r.productCode = cString code :=
    filter_replaced_of_ne row_productCode h
  have hrows : (recipe.saved t).targets.filter (fun r => r.productCode = cString code) =
      t.targets.filter fun r => r.productCode = cString code :=
    filter_replaced_of_ne targetRow_productCode h
  rw [RecipeTables.getRecipeByProductCode, RecipeTables.getRecipeByProductCode,
    RecipeTables.selectTargets, RecipeTables.selectTargets, hrows, ← List.head?_filter, hrow,
    List.head?_filter]

/-- What is read is the recipe that was saved if no name has a zero in it. -/
theorem sortedCopy_iff (hcount : columnInt recipe.totalOperations = recipe.totalOperations)
    (t : RecipeTables) :
    (∃ r, (recipe.saved t).getRecipeByProductCode recipe.productCode = some r ∧
        SortedCopy recipe r) ↔
      ∀ target ∈ recipe.checkpointTargets, 0 ∉ target.checkpointName := by
  rw [getRecipe_saved]
  constructor
  · rintro ⟨r, hr, hcopy⟩ target htarget
    cases hr
    have hperm := (List.mergeSort_perm _ _).symm.trans hcopy.targets
    obtain ⟨target', -, rfl⟩ := List.mem_map.mp (hperm.mem_iff.mpr htarget)
    exact zero_notMem_cString target'.checkpointName
  · intro h
    have hbound :
        recipe.checkpointTargets.map CheckpointTarget.bound = recipe.checkpointTargets := by
      refine (List.map_congr_left fun target htarget => ?_).trans (List.map_id _)
      rw [CheckpointTarget.bound, cString_of_not_mem (h target htarget)]
      rfl
    rw [hbound]
    refine ⟨_, rfl, rfl, hcount, List.mergeSort_perm _ _, ?_⟩
    have htrans (a b c : CheckpointTarget) : a.byName b = true → b.byName c = true →
        a.byName c = true := binaryLe_trans _ _ _
    have htotal (a b : CheckpointTarget) : (a.byName b || b.byName a) = true := binaryLe_total _ _
    exact List.pairwise_mergeSort htrans htotal recipe.checkpointTargets

/-! ## The calls -/

/-- What a call returns and leaves, by the statements that fail. -/
inductive Upserted (tables : RecipeTables) (recipe : Recipe) (fails : Failures) :
    Bool × RecipeDatabase → Prop
  | notBegun (hbegin : fails.beginTransaction = true) :
      Upserted tables recipe fails (false, { tables })
  | leftOpen (hbegin : fails.beginTransaction = false) (hending : fails.ending = true)
      (ok : Bool) (t : RecipeTables) :
      Upserted tables recipe fails (ok, { tables := t, saved := some tables })
  | committed (hbegin : fails.beginTransaction = false) (hending : fails.ending = false)
      (hdone : ∀ i < recipe.statements.length, fails.statement i = false)
      (hwellformed : recipe.Wellformed) :
      Upserted tables recipe fails (true, { tables := recipe.saved tables })
  | rolledBack (hbegin : fails.beginTransaction = false) (hending : fails.ending = false)
      (hrefused : (∃ i < recipe.statements.length, fails.statement i = true) ∨ ¬recipe.Wellformed) :
      Upserted tables recipe fails (false, { tables })

theorem upsertRecipe_upserted (tables : RecipeTables) (recipe : Recipe) (fails : Failures) :
    Upserted tables recipe fails (RecipeDatabase.upsertRecipe { tables } recipe fails) := by
  cases hbegin : fails.beginTransaction with
  | true =>
      rw [RecipeDatabase.upsertRecipe, if_pos (Or.inl hbegin)]
      exact .notBegun hbegin
  | false =>
      have hbegun :
          ¬(fails.beginTransaction = true ∨ Option.isSome (none : Option RecipeTables)) := by
        rintro (h | h)
        · rw [hbegin] at h
          cases h
        · cases h
      rw [RecipeDatabase.upsertRecipe, if_neg hbegun]
      cases hexec : SharedConnection.execAll recipe.statements fails.statement tables with
      | mk ok t =>
          cases hending : fails.ending with
          | true => exact .leftOpen hbegin hending ok t
          | false =>
              cases ok with
              | true =>
                  obtain ⟨hdone, hrun⟩ := SharedConnection.execAll_eq_true.mp hexec
                  obtain ⟨hwellformed, rfl⟩ := runAll_statements_eq_some.mp hrun
                  exact .committed hbegin hending hdone hwellformed
              | false =>
                  refine .rolledBack hbegin hending ?_
                  by_contra hnot
                  obtain ⟨hdone, hwellformed⟩ := not_or.mp hnot
                  have hdone' : ∀ i < recipe.statements.length, fails.statement i = false :=
                    fun i hi => Bool.eq_false_iff.mpr fun h => hdone ⟨i, hi, h⟩
                  have htrue := SharedConnection.execAll_eq_true.mpr
                    ⟨hdone', runAll_statements (not_not.mp hwellformed) tables⟩
                  rw [hexec] at htrue
                  cases htrue

theorem Recipe.Wellformed.nodup_names (h : recipe.Wellformed) :
    (recipe.checkpointTargets.map CheckpointTarget.checkpointName).Nodup := by
  have hbound :
      ((recipe.checkpointTargets.map CheckpointTarget.checkpointName).map cString).Nodup := by
    rw [List.map_map]
    exact h.names
  exact hbound.of_map cString

section

variable {tables : RecipeTables} {fails : Failures}

/-- Nothing has happened, and nothing is told to have happened. -/
theorem upsertRoundTrips_unchanged : UpsertRoundTrips tables recipe fails (false, { tables }) where
  readBack := by rintro ⟨⟩
  others := by rintro ⟨⟩
  failed _ := rfl

theorem not_fails (hbegin : fails.beginTransaction = false) (hending : fails.ending = false)
    (hdone : ∀ i < recipe.statements.length, fails.statement i = false)
    (hwellformed : recipe.Wellformed) : ¬Fails tables recipe fails := by
  rintro (h | ⟨i, hi, h⟩ | h | h)
  · cases hbegin.symm.trans h
  · cases (hdone i hi).symm.trans h
  · cases (runAll_statements hwellformed tables).symm.trans h
  · cases hending.symm.trans h

end

/-- What saving does is right when it does not begin.  Otherwise its last statement must succeed,
and then all is well if another has failed, or if no name has a zero in it. -/
theorem upsertRoundTrips_iff (tables : RecipeTables) {recipe : Recipe}
    (hcount : columnInt recipe.totalOperations = recipe.totalOperations) (fails : Failures) :
    UpsertRoundTrips tables recipe fails (RecipeDatabase.upsertRecipe { tables } recipe fails) ↔
      fails.beginTransaction = true ∨ fails.ending = false ∧
        ((∃ i < recipe.statements.length, fails.statement i = true) ∨ ¬recipe.Wellformed ∨
          ∀ target ∈ recipe.checkpointTargets, 0 ∉ target.checkpointName) := by
  have hupserted := upsertRecipe_upserted tables recipe fails
  generalize RecipeDatabase.upsertRecipe { tables } recipe fails = result at hupserted
  cases hupserted with
  | notBegun hbegin => exact iff_of_true upsertRoundTrips_unchanged (Or.inl hbegin)
  | leftOpen hbegin hending ok t =>
      refine iff_of_false (fun h => ?_) ?_
      · cases h.failed (Or.inl (Or.inr (Or.inr (Or.inr hending))))
      · rw [hbegin, hending]
        rintro (h | ⟨h, -⟩) <;> cases h
  | rolledBack hbegin hending hrefused =>
      refine iff_of_true upsertRoundTrips_unchanged (Or.inr ⟨hending, ?_⟩)
      exact hrefused.imp_right Or.inl
  | committed hbegin hending hdone hwellformed =>
      constructor
      · intro h
        exact Or.inr ⟨hending, Or.inr (Or.inr ((sortedCopy_iff hcount tables).mp (h.readBack rfl)))⟩
      · rintro (h | ⟨-, ⟨i, hi, h⟩ | h | hzero⟩)
        · cases hbegin.symm.trans h
        · cases (hdone i hi).symm.trans h
        · exact absurd hwellformed h
        · exact {
            readBack := fun _ => (sortedCopy_iff hcount tables).mpr hzero
            others := fun _ code hcode => getRecipe_saved_of_ne hcode tables
            failed := by
              rintro (h | h)
              · exact absurd h (not_fails hbegin hending hdone hwellformed)
              · exact absurd hwellformed.nodup_names h }

theorem upsertRoundTrips_weighed :
    UpsertRoundTrips {} weighed {} (RecipeDatabase.upsertRecipe { tables := {} } weighed {}) :=
  (upsertRoundTrips_iff {} (by decide) {}).mpr (Or.inr ⟨rfl, Or.inr (Or.inr (by decide))⟩)

/-- The commit fails, and the recipe is told to be saved. -/
theorem not_upsertRoundTrips_commit :
    ¬UpsertRoundTrips {} weighed { ending := true }
      (RecipeDatabase.upsertRecipe { tables := {} } weighed { ending := true }) := by
  intro h
  have hfalse := h.failed (Or.inl (Or.inr (Or.inr (Or.inr rfl))))
  exact absurd (congrArg Prod.fst hfalse) (by decide)

end Products
