import IndustrialHmi.Presenter.RecipeWorkflow

/-!
# What is entered in the editor

The form of the editor goes through the checks of the presenter, two tables and their order, and
comes out at checkpoints of the line and at another form.  What was entered for a name is what the
checkpoint of that name gets, whatever happens before the product is loaded, except another save
for its code (`edit_taken_over`).
-/

open Auth Products ProductsPresenter
open Production (SimulatedModel)

namespace RecipeWorkflow

/-- What an operator enters: a count, and a rate for each name. -/
structure Edit where
  operations : ℤ
  rate : Text → Binary32
  operations_ok : OperationCount operations
  rate_ok : ∀ name, Percentage (rate name)

def Edit.apply (edit : Edit) (form : Recipe) : Recipe :=
  { form with
    totalOperations := edit.operations
    checkpointTargets := form.checkpointTargets.map fun target =>
      { target with passRateTarget := edit.rate target.checkpointName } }

namespace Hmi

def form (h : Hmi) (productId : ℤ) : Recipe :=
  h.presenter.getRecipeForEditing productId h.workshop

/-- What is entered is saved, and no statement fails. -/
def submit (h : Hmi) (productId : ℤ) (edit : Edit) : Event :=
  .saveRecipe productId (edit.apply (h.form productId)) {}

end Hmi

/-- The editor is wired to everything, and whoever is signed in may use it. -/
structure Editable (h : Hmi) (productId : ℤ) : Prop where
  recipes : h.presenter.recipes = true
  productionModel : h.presenter.productionModel = true
  recipesWriter : h.presenter.recipesWriter = true
  mayEdit : h.MayEdit
  product : (h.workshop.products.getProduct productId).isSome = true
  closed : h.workshop.recipes.saved = none
  /-- The checkpoints have names of their own, without a zero. -/
  names : ((h.form productId).checkpointTargets.map CheckpointTarget.checkpointName).Nodup
  zeros : ∀ target ∈ (h.form productId).checkpointTargets, 0 ∉ target.checkpointName

/-- What a form and an edit of it have made of the front end. -/
structure TakenOver (form : Recipe) (edit : Edit) (productId : ℤ) (h : Hmi) : Prop where
  operations : (h.step (.loadRecipe productId)).workshop.model.currentWorkUnit.totalOperations =
    edit.operations
  /-- A checkpoint that was not in the form keeps its target. -/
  targets : ∀ (id : Nat) (cp : Production.QualityCheckpoint),
    h.workshop.model.qualityCheckpoints[id]? = some cp →
    ((h.step (.loadRecipe productId)).workshop.model.qualityCheckpoints[id]?).map
        (·.passRateTarget) =
      some (if ascii cp.name ∈ form.checkpointTargets.map CheckpointTarget.checkpointName then
        edit.rate (ascii cp.name) else cp.passRateTarget)
  told : ∃ name, (h.step (.loadRecipe productId)).workshop.told = h.workshop.told ++
    [(true, ascii "Loaded recipe for " ++ name ++ ascii ".")]
  /-- The editor shows what was entered when it is opened again. -/
  reopened : h.workshop.model.qualityCheckpoints.values ≠ [] → h.form productId =
    { productCode := form.productCode
      totalOperations := edit.operations
      checkpointTargets := h.workshop.model.qualityCheckpoints.values.map fun cp =>
        { checkpointName := ascii cp.name
          passRateTarget :=
            if ascii cp.name ∈ form.checkpointTargets.map CheckpointTarget.checkpointName then
              edit.rate (ascii cp.name) else kDefaultPassRateTarget } }

/-! ## The save -/

theorem accepts_apply (edit : Edit) (form : Recipe) : accepts (edit.apply form) = true := by
  obtain ⟨hlow, hhigh⟩ := edit.operations_ok
  rw [accepts, Bool.and_eq_true, List.all_eq_true]
  refine ⟨by simp [Edit.apply, kMinOperations, kMaxOperations, not_lt.mpr hlow,
    not_lt.mpr hhigh], ?_⟩
  intro target htarget
  obtain ⟨target, -, rfl⟩ := List.mem_map.mp htarget
  obtain ⟨q, hq, hnonneg, hle⟩ := edit.rate_ok target.checkpointName
  simp [hq, kMinPassRate, kMaxPassRate, Binary32.lt, hnonneg, hle]

theorem Editable.wellformed {h : Hmi} {productId : ℤ} (heditable : Editable h productId)
    (edit : Edit) : (edit.apply (h.form productId)).Wellformed where
  rates := by
    intro target htarget
    obtain ⟨target, -, rfl⟩ := List.mem_map.mp htarget
    obtain ⟨q, hq, -⟩ := edit.rate_ok target.checkpointName
    rw [hq]
    nofun
  names := by
    have hbound : (edit.apply (h.form productId)).checkpointTargets.map
        (fun target => cString target.checkpointName) =
          (h.form productId).checkpointTargets.map CheckpointTarget.checkpointName := by
      rw [Edit.apply, List.map_map]
      exact List.map_congr_left fun target htarget =>
        cString_of_not_mem (heditable.zeros target htarget)
    exact hbound ▸ heditable.names

/-- A save that is permitted and accepted reaches the store. -/
theorem saveRecipe_fst {p : ProductsPresenter} (hwriter : p.recipesWriter = true)
    (hmay : p.session = none ∨
      ∃ user, p.session = some ⟨some user⟩ ∧ canEditProducts user.role = true)
    {recipe : Recipe} (haccepts : accepts recipe = true) (fails : Failures) (w : Workshop) :
    (p.saveRecipe recipe fails w).1 = (w.recipes.upsertRecipe recipe fails).1 := by
  have hgate (action details : Text) : p.checkEditPermission action details w = (true, w) := by
    obtain hnone | ⟨user, huser, hrole⟩ := hmay
    · simp [checkEditPermission, hnone]
    · simp [checkEditPermission, huser, hrole]
  simp [saveRecipe, hwriter, hgate, haccepts]

theorem upsertRecipe_fst {db : RecipeDatabase} (hclosed : db.saved = none) {recipe : Recipe}
    (hwellformed : recipe.Wellformed) : (db.upsertRecipe recipe {}).1 = true := by
  obtain ⟨tables, saved⟩ := db
  obtain rfl : saved = none := hclosed
  have hupserted := upsertRecipe_upserted tables recipe {}
  generalize RecipeDatabase.upsertRecipe { tables } recipe {} = result at hupserted
  cases hupserted with
  | notBegun hbegin => cases hbegin
  | leftOpen _ hending => cases hending
  | committed => rfl
  | rolledBack _ _ hrefused =>
      obtain ⟨i, -, hfails⟩ | hnot := hrefused
      · cases hfails
      · exact absurd hwellformed hnot

theorem Editable.saved? {h : Hmi} {productId : ℤ} (heditable : Editable h productId)
    (edit : Edit) :
    Hmi.saved? (h, h.submit productId edit) = some (edit.apply (h.form productId)) := by
  have htrue := saveRecipe_fst heditable.recipesWriter heditable.mayEdit
    (accepts_apply edit (h.form productId)) {} h.workshop
  rw [upsertRecipe_fst heditable.closed (heditable.wellformed edit)] at htrue
  rw [Hmi.submit, Hmi.saved?, if_pos htrue]

/-! ## What is read later -/

theorem lastSaid_eq_none {α β : Type} {said : α → Option β} {run : List α}
    (h : ∀ step ∈ run, said step = none) : lastSaid said run = none := by
  rw [lastSaid, List.filterMap_eq_nil_iff.mpr h]
  rfl

/-- The targets as they are read after the save. -/
def readTargets (edit : Edit) (form : Recipe) : List CheckpointTarget :=
  ((edit.apply form).checkpointTargets.map CheckpointTarget.bound).mergeSort
    CheckpointTarget.byName

theorem Editable.stored {h : Hmi} {productId : ℤ} (heditable : Editable h productId)
    (edit : Edit) {between : List Event} (hends : ∀ e ∈ between, e.Ends)
    (hothers : ∀ recipe ∈ (h.step (h.submit productId edit)).saves between,
      cString recipe.productCode ≠ cString (h.form productId).productCode) :
    ((h.step (h.submit productId edit)).after between).stored (h.form productId).productCode =
      some { productCode := (h.form productId).productCode
             totalOperations := edit.operations
             checkpointTargets := readTargets edit (h.form productId) } := by
  obtain ⟨hclosed, hread⟩ := stored_step heditable.closed (e := h.submit productId edit) rfl
  have hsilent : lastSaid (readAs? (h.form productId).productCode)
      ((h.step (h.submit productId edit)).saves between) = none :=
    lastSaid_eq_none fun recipe hrecipe => if_neg (hothers recipe hrecipe)
  rw [(stored_after hclosed hends).2, hsilent, Option.none_or, hread, heditable.saved?,
    Option.bind_some, readAs?, if_pos (by rfl)]
  rfl

theorem mem_readTargets {edit : Edit} {form : Recipe}
    (hzeros : ∀ target ∈ form.checkpointTargets, 0 ∉ target.checkpointName)
    {target : CheckpointTarget} : target ∈ readTargets edit form ↔
      target.checkpointName ∈ form.checkpointTargets.map CheckpointTarget.checkpointName ∧
        target.passRateTarget = edit.rate target.checkpointName := by
  rw [readTargets, List.mem_mergeSort, Edit.apply, List.map_map, List.mem_map]
  constructor
  · rintro ⟨entered, hentered, rfl⟩
    have hname : cString entered.checkpointName = entered.checkpointName :=
      cString_of_not_mem (hzeros entered hentered)
    refine ⟨?_, congrArg edit.rate hname.symm⟩
    show cString entered.checkpointName ∈ _
    exact hname.symm ▸ List.mem_map_of_mem hentered
  · rintro ⟨hname, hrate⟩
    obtain ⟨entered, hentered, hsame⟩ := List.mem_map.mp hname
    refine ⟨entered, hentered, ?_⟩
    obtain ⟨name, rate⟩ := target
    obtain rfl : entered.checkpointName = name := hsame
    obtain rfl : rate = edit.rate entered.checkpointName := hrate
    simp [CheckpointTarget.bound, cString_of_not_mem (hzeros entered hentered)]

/-- What is found under a name is what was entered for it. -/
theorem find?_readTargets {edit : Edit} {form : Recipe}
    (hzeros : ∀ target ∈ form.checkpointTargets, 0 ∉ target.checkpointName) (name : Text) :
    ((readTargets edit form).find? (·.checkpointName = name)).map (·.passRateTarget) =
      if name ∈ form.checkpointTargets.map CheckpointTarget.checkpointName then
        some (edit.rate name) else none := by
  cases hfind : (readTargets edit form).find? (·.checkpointName = name) with
  | none =>
      rw [Option.map_none, if_neg]
      intro hmem
      have hnone := List.find?_eq_none.mp hfind ⟨name, edit.rate name⟩
        ((mem_readTargets hzeros).mpr ⟨hmem, rfl⟩)
      exact hnone (decide_eq_true rfl)
  | some target =>
      obtain rfl : target.checkpointName = name := by simpa using List.find?_some hfind
      obtain ⟨hmem, hrate⟩ := (mem_readTargets hzeros).mp (List.mem_of_find?_eq_some hfind)
      rw [Option.map_some, if_pos hmem, hrate]

/-! ## On the line, and back in the editor -/

theorem getElem?_loadProduct (c : SimulatedModel) (product : Production.Product)
    (recipe : Production.Recipe) (id : Nat) :
    ((c.loadProduct product recipe).1.qualityCheckpoints[id]?).map (·.passRateTarget) =
      (c.qualityCheckpoints[id]?).map (SimulatedModel.recipeTarget recipe) := by
  simp only [SimulatedModel.loadProduct, SimulatedModel.andThen_fst,
    SimulatedModel.notifyQualityChanges_keys, Std.ExtTreeMap.getElem?_map, Option.map_map]
  rfl

theorem edit_taken_over {h : Hmi} {productId : ℤ} (heditable : Editable h productId)
    (edit : Edit) {between : List Event} (hends : ∀ e ∈ between, e.Ends)
    (hothers : ∀ recipe ∈ (h.step (h.submit productId edit)).saves between,
      cString recipe.productCode ≠ cString (h.form productId).productCode)
    (hstill : (((h.step (h.submit productId edit)).after between).workshop.products.getProduct
      productId).map (·.productCode) = some (h.form productId).productCode) :
    Hmi.saved? (h, h.submit productId edit) = some (edit.apply (h.form productId)) ∧
      TakenOver (h.form productId) edit productId
        ((h.step (h.submit productId edit)).after between) := by
  refine ⟨heditable.saved? edit, ?_⟩
  have hstored := heditable.stored edit hends hothers
  have hpresenter := ((h.step (h.submit productId edit)).presenter_after between).1
  generalize (h.step (h.submit productId edit)).after between = h' at *
  have hrecipes : h'.presenter.recipes = true := by
    rw [hpresenter]
    exact heditable.recipes
  have hmodel : h'.presenter.productionModel = true := by
    rw [hpresenter]
    exact heditable.productionModel
  obtain ⟨product, hproduct, hcode⟩ := Option.map_eq_some_iff.mp hstill
  rw [← hcode, Hmi.stored] at hstored
  have hload : h'.step (.loadRecipe productId) = { h' with
      workshop := onRecipeLoaded true (ascii "Loaded recipe for " ++ product.name ++ ascii ".")
        { h'.workshop with
          model := (h'.workshop.model.loadProduct product.toModel (Recipe.toModel
            { productCode := product.productCode
              totalOperations := edit.operations
              checkpointTargets := readTargets edit (h.form productId) })).1 } } := by
    simp [Hmi.step, loadRecipe, hrecipes, hmodel, hproduct, hstored]
  have hfound (name : Text) :
      ((readTargets edit (h.form productId)).find? (·.checkpointName = name)).map
          (·.passRateTarget) =
        if name ∈ (h.form productId).checkpointTargets.map CheckpointTarget.checkpointName then
          some (edit.rate name) else none :=
    find?_readTargets heditable.zeros name
  refine ⟨?_, fun id cp hcp => ?_, ⟨product.name, ?_⟩, fun hsome => ?_⟩
  · rw [hload]
    simp [onRecipeLoaded, SimulatedModel.loadProduct, Recipe.toModel]
  · rw [hload]
    show ((h'.workshop.model.loadProduct _ _).1.qualityCheckpoints[id]?).map _ = _
    rw [getElem?_loadProduct, hcp, Option.map_some, recipeTarget_toModel, hfound]
    split <;> rfl
  · rw [hload]
    rfl
  · have hlookUp : h'.presenter.lookUp productId h'.workshop = (product.productCode, some
        { productCode := product.productCode
          totalOperations := edit.operations
          checkpointTargets := readTargets edit (h.form productId) }) := by
      simp [lookUp, hproduct, hrecipes, hstored]
    rw [Hmi.form, getRecipeForEditing, hlookUp, hmodel, if_pos rfl]
    simp only [if_neg hsome, Option.map_some, Option.getD_some, Recipe.mk.injEq]
    refine ⟨hcode, trivial, List.map_congr_left fun cp _ => ?_⟩
    rw [formTarget, Option.bind_some, hfound]
    split <;> rfl

/-- The line with its demo checkpoints, and a database without recipes. -/
def bench : Hmi where
  presenter := { session := none }
  workshop :=
    { products := ProductTable.initialized []
      recipes := { tables := {} }
      model := (({} : SimulatedModel).step .initializeDemoData).1 }

def halfRate : Edit where
  operations := 7
  rate _ := .fin 50
  operations_ok := ⟨by decide, by decide⟩
  rate_ok _ := ⟨50, rfl, by norm_num, by norm_num⟩

theorem editable_bench : Editable bench 1 where
  recipes := rfl
  productionModel := rfl
  recipesWriter := rfl
  mayEdit := .inl rfl
  product := by decide +kernel
  closed := rfl
  names := by decide +kernel
  zeros := by decide +kernel

theorem edit_taken_over_bench :
    Hmi.saved? (bench, bench.submit 1 halfRate) = some (halfRate.apply (bench.form 1)) ∧
      TakenOver (bench.form 1) halfRate 1
        ((bench.step (bench.submit 1 halfRate)).after [.loadRecipe 1, .session none]) :=
  edit_taken_over editable_bench halfRate (by simp [Event.Ends]) (by simp [Hmi.saves, Runs.trace,
    Hmi.saved?]) (by decide +kernel)

end RecipeWorkflow
