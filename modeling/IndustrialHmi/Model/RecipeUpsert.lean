import IndustrialHmi.Model.ProductStore
import IndustrialHmi.Theory.SharedConnection

/-!
# Saving recipes on the connection of the products

`upsertRecipe` runs in a transaction, on the thread of the caller.  The products are changed by
single statements on the I/O thread, on the same connection.  Of what returns true nothing is lost
if no product changes between the begin of a recipe that is rolled back and its rollback, if no
rollback fails that has something to take back, and if no failing statement makes SQLite end the
transaction with something in it that has returned true or is going to (`recipe_isolated`).
-/

namespace Products

structure CheckpointTarget where
  checkpointName : Text
  passRateTarget : Binary32 := .fin 0

structure Recipe where
  productCode : Text
  totalOperations : ℤ := 5
  checkpointTargets : List CheckpointTarget

/-- A row of `recipes`. -/
structure RecipeRow where
  productCode : Text
  totalOperations : ℤ
  deriving DecidableEq

/-- A row of `recipe_checkpoint_targets`. -/
structure TargetRow where
  productCode : Text
  checkpointName : Text
  passRateTarget : Binary32
  deriving DecidableEq

structure RecipeTables where
  recipes : List RecipeRow := []
  targets : List TargetRow := []
  deriving DecidableEq

namespace Recipe

def row (recipe : Recipe) : RecipeRow := ⟨cString recipe.productCode, recipe.totalOperations⟩

def targetRow (recipe : Recipe) (target : CheckpointTarget) : TargetRow :=
  ⟨cString recipe.productCode, cString target.checkpointName, target.passRateTarget⟩

/-- `INSERT OR REPLACE INTO recipes`. -/
def insertOrReplace (recipe : Recipe) (t : RecipeTables) : Option RecipeTables :=
  some { t with
    recipes := (t.recipes.filter fun r => r.productCode ≠ recipe.row.productCode) ++ [recipe.row] }

/-- `DELETE FROM recipe_checkpoint_targets`. -/
def deleteTargets (recipe : Recipe) (t : RecipeTables) : Option RecipeTables :=
  some { t with targets := t.targets.filter fun r => r.productCode ≠ recipe.row.productCode }

/-- `INSERT INTO recipe_checkpoint_targets`: the code and the name are the key, and the rate may
not be null. -/
def insertTarget (recipe : Recipe) (target : CheckpointTarget) (t : RecipeTables) :
    Option RecipeTables :=
  let r := recipe.targetRow target
  if r.passRateTarget = .nan ∨ ∃ r' ∈ t.targets, r'.productCode = r.productCode ∧
      r'.checkpointName = r.checkpointName then none
  else some { t with targets := t.targets ++ [r] }

/-- The statements of `upsertRecipe` between its begin and its end. -/
def statements (recipe : Recipe) : List (RecipeTables → Option RecipeTables) :=
  recipe.insertOrReplace :: recipe.deleteTargets :: recipe.checkpointTargets.map recipe.insertTarget

/-- The tables with the recipe in place of the one for its code. -/
def saved (recipe : Recipe) (t : RecipeTables) : RecipeTables where
  recipes := (t.recipes.filter fun r => r.productCode ≠ recipe.row.productCode) ++ [recipe.row]
  targets := (t.targets.filter fun r => r.productCode ≠ recipe.row.productCode) ++
    recipe.checkpointTargets.map recipe.targetRow

/-- Every target has a rate that is a number, and a name of its own. -/
structure Wellformed (recipe : Recipe) : Prop where
  rates : ∀ target ∈ recipe.checkpointTargets, target.passRateTarget ≠ .nan
  names : (recipe.checkpointTargets.map fun target => cString target.checkpointName).Nodup

end Recipe

/-- The operations on the products and the saving of recipes, on one connection. -/
def program : SharedConnection.Program ProductTable RecipeTables Op Recipe where
  perform := ProductTable.perform
  refused t op h := by
    cases t.effect op with
    | refused _ hperform => rw [hperform]
    | changed _ htold _ _ => rw [htold] at h; cases h
    | missed _ htold _ => rw [htold] at h; cases h
  statements := Recipe.statements

/-! ## What a recipe leaves that is saved -/

/-- The inserts of targets go on behind those of the targets before them. -/
theorem runAll_insertTarget {recipe : Recipe} (h : recipe.Wellformed)
    {done rest : List CheckpointTarget} (hsplit : recipe.checkpointTargets = done ++ rest)
    {t : RecipeTables} (hfree : ∀ r ∈ t.targets, r.productCode ≠ recipe.row.productCode) :
    SharedConnection.runAll (rest.map recipe.insertTarget)
        { t with targets := t.targets ++ done.map recipe.targetRow } =
      some { t with targets := t.targets ++ recipe.checkpointTargets.map recipe.targetRow } := by
  induction rest generalizing done with
  | nil =>
      rw [hsplit, List.append_nil]
      rfl
  | cons target rest ih =>
      have hfits : recipe.insertTarget target
          { t with targets := t.targets ++ done.map recipe.targetRow } =
            some { t with targets := t.targets ++ (done ++ [target]).map recipe.targetRow } := by
        have hrate : target.passRateTarget ≠ .nan :=
          h.rates target (hsplit ▸ List.mem_append_right _ List.mem_cons_self)
        rw [Recipe.insertTarget, if_neg]
        · rw [List.map_append, List.append_assoc]
          rfl
        · rintro (hnan | ⟨r, hr, hcode, hname⟩)
          · exact hrate hnan
          · rcases List.mem_append.mp hr with hr | hr
            · exact hfree r hr hcode
            · obtain ⟨target', htarget', rfl⟩ := List.mem_map.mp hr
              have hnames := h.names
              rw [hsplit, List.map_append, List.nodup_append] at hnames
              exact hnames.2.2 _ (List.mem_map_of_mem htarget') _
                (List.mem_map_of_mem List.mem_cons_self) hname
      show (recipe.insertTarget target _).bind _ = _
      rw [hfits]
      exact ih (by rw [hsplit, List.append_assoc, List.singleton_append])

/-- The statements of a recipe with numbers and names of their own put it in the tables. -/
theorem runAll_statements {recipe : Recipe} (h : recipe.Wellformed) (t : RecipeTables) :
    SharedConnection.runAll recipe.statements t = some (recipe.saved t) := by
  have hfree (r : TargetRow)
      (hr : r ∈ t.targets.filter fun r => r.productCode ≠ recipe.row.productCode) :
      r.productCode ≠ recipe.row.productCode := of_decide_eq_true (List.mem_filter.mp hr).2
  have htargets := runAll_insertTarget h (List.nil_append _).symm
    (t := { recipes := (t.recipes.filter fun r => r.productCode ≠ recipe.row.productCode) ++
              [recipe.row]
            targets := t.targets.filter fun r => r.productCode ≠ recipe.row.productCode }) hfree
  rw [List.map_nil, List.append_nil] at htargets
  exact htargets

/-! ## Isolation -/

abbrev Connection := SharedConnection.State ProductTable RecipeTables Op Recipe

/-- All calls have returned: then the products are what the operations that returned true made of
them, and the recipes what the recipes made of them that were saved. -/
def Isolated (products : ProductTable) (recipes : RecipeTables) (s : Connection) : Prop :=
  s.call = none → s.single = program.replaySingle products s.performed ∧
    s.grouped = program.replayGrouped recipes s.committed

theorem sound_iff_isolated (products : ProductTable) (recipes : RecipeTables) (s : Connection) :
    program.Sound products recipes s ↔ Isolated products recipes s :=
  ⟨fun h hidle => ⟨(h hidle).single, (h hidle).grouped⟩,
    fun h hidle => ⟨(h hidle).1, (h hidle).2⟩⟩

/-- In every interleaving nothing is lost and nothing is left over if every step meets the
condition; and if no statement ends a transaction, only then. -/
theorem recipe_isolated (products : ProductTable) (recipes : RecipeTables)
    (events : List (SharedConnection.Event Op Recipe)) :
    (Runs.Along program.step SharedConnection.Meets { single := products, grouped := recipes }
        events →
      Runs.Along program.step (fun s e => Isolated products recipes (program.step s e))
        { single := products, grouped := recipes } events) ∧
    (Runs.Along program.step
        (fun s e => e.KeepsTransaction ∧ Isolated products recipes (program.step s e))
        { single := products, grouped := recipes } events →
      Runs.Along program.step SharedConnection.Meets { single := products, grouped := recipes }
        events) := by
  constructor
  · intro h
    have hsound := SharedConnection.Program.isolated_of_meets h
    exact (Runs.along_congr fun s e => sound_iff_isolated products recipes _).mp hsound
  · intro h
    refine SharedConnection.Program.meets_of_isolated ?_
    exact (Runs.along_congr fun s e =>
      and_congr_right fun _ => sound_iff_isolated products recipes _).mpr h

/-- A recipe that names a checkpoint twice, which the key of the targets does not allow. -/
def doubled : Recipe where
  productCode := ascii "PROD-001"
  checkpointTargets := [⟨ascii "Weight Check", .fin 99⟩, ⟨ascii "Weight Check", .fin 98⟩]

def addSpare : Op := .add (ascii "PROD-007") (ascii "Spare") (ascii "Active") 1 (.fin 0) [] false

/-- The product is added between two statements of the recipe. -/
def interleaved : Connection :=
  [.call doubled, .statement .ok, .statement .ok, .single addSpare false, .statement .ok,
    .statement .ok, .statement .ok, .statement .ok].foldl program.step
    { single := .initialized [], grouped := {} }

/-- One checkpoint with a target. -/
def weighed : Recipe where
  productCode := ascii "PROD-001"
  checkpointTargets := [⟨ascii "Weight Check", .fin 99⟩]

/-- The statement that adds the product fails with an I/O error, and SQLite ends the transaction
of the recipe. -/
def ended : Connection :=
  [.call weighed, .statement .ok, .statement .ok, .single addSpare true, .statement .ok,
    .statement .ok, .statement .ok].foldl program.step
    { single := .initialized [], grouped := {} }

/-- The recipe is rolled back.  The product was told to be added, and it is not there.  Where
SQLite ends the transaction, the recipe is told to be saved without its row. -/
theorem add_lost_in_rollback :
    (interleaved.call = none ∧ interleaved.performed.length = 1 ∧ interleaved.committed = [] ∧
      interleaved.single.rows.length = 6 ∧
      (program.replaySingle (.initialized []) interleaved.performed).rows.length = 7 ∧
      ¬Isolated (.initialized []) {} interleaved) ∧
    (ended.call = none ∧ ended.committed.length = 1 ∧ ended.grouped.recipes = [] ∧
      (program.replayGrouped {} ended.committed).recipes = [weighed.row] ∧
      ¬Isolated (.initialized []) {} ended) := by
  have hrows : interleaved.single.rows.length = 6 := by decide +kernel
  have hreplayed :
      (program.replaySingle (.initialized []) interleaved.performed).rows.length = 7 := by
    decide +kernel
  have hnone : ended.grouped.recipes = [] := by decide +kernel
  have hsaved : (program.replayGrouped {} ended.committed).recipes = [weighed.row] := by
    decide +kernel
  refine ⟨⟨rfl, by decide +kernel, rfl, hrows, hreplayed, fun h => ?_⟩,
    rfl, by decide +kernel, hnone, hsaved, fun h => ?_⟩
  · rw [← (h rfl).1, hrows] at hreplayed
    cases hreplayed
  · rw [← (h rfl).2, hnone] at hsaved
    cases hsaved

end Products
