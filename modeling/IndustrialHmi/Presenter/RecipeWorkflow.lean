import Mathlib.Data.List.Induction
import IndustrialHmi.Auth.User
import IndustrialHmi.Model.RecipeRoundTrip
import IndustrialHmi.Model.SimulatedModel
import IndustrialHmi.Theory.Runs
import IndustrialHmi.Theory.Since

/-!
# Recipes from the editor to the line

The editor shows one target for each checkpoint of the line, from the recipe that is stored for
the product where that has one.  What is saved is checked before it is stored, and loading puts
what is stored on the line, target by target to the checkpoint of that name.

The presenter, the store and the line run together with whatever else calls the store of products
and the model.  Nobody but the presenter loads a product.
-/

open Auth Products

namespace Auth

def canEditProducts (r : Role) : Bool := Role.Maintenance.level ≤ r.level

def Category.kProduct : Text := ascii "PRODUCT"

end Auth

/-! ## Names in the store and on the line -/

namespace Products

/-- The string a text encodes, if any. -/
def asString? (t : Text) : Option String := String.fromUTF8? ⟨t.toArray⟩

/-- Bytes that encode no string are shown one by one. -/
def asString (t : Text) : String :=
  (asString? t).getD (String.ofList (t.map fun b => Char.ofNat b.toNat))

/-- What the model reads of a recipe.  A name that encodes no string is that of no checkpoint. -/
def Recipe.toModel (recipe : Recipe) : Production.Recipe where
  totalOperations := recipe.totalOperations
  checkpointTargets := recipe.checkpointTargets.filterMap fun target =>
    (asString? target.checkpointName).map fun name => ⟨name, target.passRateTarget⟩

def Product.toModel (product : Product) : Production.Product where
  productCode := asString product.productCode
  name := asString product.name

end Products

/-! ## The presenter -/

structure ProductsPresenter where
  /-- Recipes can be read, a model can be loaded, recipes can be written. -/
  recipes : Bool := true
  productionModel : Bool := true
  recipesWriter : Bool := true
  /-- An audit logger has been set. -/
  audit : Bool := true
  session : Option Session

/-- What the presenter works on, and what it leaves behind. -/
structure Workshop where
  products : ProductTable
  recipes : RecipeDatabase
  model : Production.SimulatedModel
  audits : List AuditEvent := []
  /-- What the observers are told of recipes that were to be loaded. -/
  told : List (Bool × Text) := []

namespace ProductsPresenter

def emitAudit (p : ProductsPresenter) (action details outcome : Text) (w : Workshop) : Workshop :=
  match p.audit, p.session with
  | true, some session =>
      let user := session.current.getD {}
      { w with audits := w.audits ++
        [⟨user.username, user.role.name, Category.kProduct, action, details, outcome⟩] }
  | _, _ => w

def checkEditPermission (p : ProductsPresenter) (action details : Text) (w : Workshop) :
    Bool × Workshop :=
  match p.session with
  | none => (true, w)
  | some session =>
      match session.current with
      | none => (false, w)
      | some user =>
          if canEditProducts user.role then (true, w)
          else (false, p.emitAudit action details Outcome.kFailure w)

def kMinOperations : ℤ := 1
def kMaxOperations : ℤ := 100
def kMinPassRate : Binary32 := .fin 0
def kMaxPassRate : Binary32 := .fin 100
def kDefaultPassRateTarget : Binary32 := .fin 95

def onRecipeLoaded (success : Bool) (message : Text) (w : Workshop) : Workshop :=
  { w with told := w.told ++ [(success, message)] }

def loadRecipe (p : ProductsPresenter) (productId : ℤ) (w : Workshop) : Workshop :=
  if p.recipes = false ∨ p.productionModel = false then
    onRecipeLoaded false (ascii "Recipe loading is not available.") w
  else
    match w.products.getProduct productId with
    | none => onRecipeLoaded false (ascii "Product not found.") w
    | some product =>
        match w.recipes.tables.getRecipeByProductCode product.productCode with
        | none =>
            onRecipeLoaded false
              (ascii "No recipe defined for " ++ product.productCode ++ ascii ".") w
        | some recipe =>
            onRecipeLoaded true (ascii "Loaded recipe for " ++ product.name ++ ascii ".")
              { w with model := (w.model.loadProduct product.toModel recipe.toModel).1 }

/-- The row of a checkpoint in the editor. -/
def formTarget (stored : Option Recipe) (cp : Production.QualityCheckpoint) : CheckpointTarget :=
  let kept := stored.bind fun recipe =>
    recipe.checkpointTargets.find? (·.checkpointName = ascii cp.name)
  { checkpointName := ascii cp.name
    passRateTarget := (kept.map (·.passRateTarget)).getD kDefaultPassRateTarget }

/-- The code of the product, and what is stored for it. -/
def lookUp (p : ProductsPresenter) (productId : ℤ) (w : Workshop) : Text × Option Recipe :=
  let productCode := ((w.products.getProduct productId).map (·.productCode)).getD []
  (productCode,
    if p.recipes then w.recipes.tables.getRecipeByProductCode productCode else none)

def getRecipeForEditing (p : ProductsPresenter) (productId : ℤ) (w : Workshop) : Recipe :=
  let (productCode, stored) := p.lookUp productId w
  let checkpoints := if p.productionModel then w.model.qualityCheckpoints.values else []
  { productCode := productCode
    totalOperations := (stored.map (·.totalOperations)).getD 5
    checkpointTargets :=
      if checkpoints = [] then (stored.map (·.checkpointTargets)).getD []
      else checkpoints.map (formTarget stored) }

/-- The tests of `saveRecipe`.  A rate that is no number passes them. -/
def accepts (recipe : Recipe) : Bool :=
  !(recipe.totalOperations < kMinOperations || kMaxOperations < recipe.totalOperations) &&
    recipe.checkpointTargets.all fun target =>
      !(target.passRateTarget.lt kMinPassRate || kMaxPassRate.lt target.passRateTarget)

/-- The product is named by the recipe; its id is for the log. -/
def saveRecipe (p : ProductsPresenter) (recipe : Recipe) (fails : Failures) (w : Workshop) :
    Bool × Workshop :=
  let action := ascii "RECIPE_SAVE"
  let details := ascii "code=" ++ recipe.productCode
  if p.recipesWriter = false then (false, w)
  else
    let (permitted, w) := p.checkEditPermission action details w
    if permitted = false ∨ accepts recipe = false then (false, w)
    else
      let (success, recipes) := w.recipes.upsertRecipe recipe fails
      let outcome := if success then Outcome.kSuccess else Outcome.kFailure
      (success, p.emitAudit action details outcome { w with recipes := recipes })

end ProductsPresenter

open ProductsPresenter
open Production (SimulatedModel)

/-! ## Runs -/

namespace RecipeWorkflow

/-- A call of the model that is not the presenter's. -/
abbrev OtherCall :=
  { op : SimulatedModel.Op // ∀ product recipe, op ≠ .loadProduct product recipe }

inductive Event where
  | saveRecipe (productId : ℤ) (recipe : Recipe) (fails : Failures)
  | loadRecipe (productId : ℤ)
  /-- Somebody signs in, or out. -/
  | session (current : Option User)
  | products (op : Products.Op)
  | model (call : OtherCall)

/-- The transaction of a save is ended as it is to be. -/
def Event.Ends : Event → Prop
  | saveRecipe _ _ fails => fails.ending = false
  | _ => True

structure Hmi where
  presenter : ProductsPresenter
  workshop : Workshop

namespace Hmi

def step (h : Hmi) : Event → Hmi
  | .saveRecipe _ recipe fails =>
      { h with workshop := (h.presenter.saveRecipe recipe fails h.workshop).2 }
  | .loadRecipe productId => { h with workshop := h.presenter.loadRecipe productId h.workshop }
  | .session current =>
      { h with presenter :=
        { h.presenter with session := h.presenter.session.map fun _ => ⟨current⟩ } }
  | .products op =>
      { h with workshop := { h.workshop with products := h.workshop.products.step op } }
  | .model call =>
      { h with workshop := { h.workshop with model := (h.workshop.model.step call.1).1 } }

def after (h : Hmi) (run : List Event) : Hmi := run.foldl step h

/-- What is read for a code. -/
def stored (h : Hmi) (code : Text) : Option Recipe :=
  h.workshop.recipes.tables.getRecipeByProductCode code

/-- What an event tells to be saved. -/
def saved? : Hmi × Event → Option Recipe
  | (h, .saveRecipe _ recipe fails) =>
      if (h.presenter.saveRecipe recipe fails h.workshop).1 then some recipe else none
  | _ => none

/-- The recipes a run has told to be saved. -/
def saves (h : Hmi) (run : List Event) : List Recipe := (Runs.trace step h run).filterMap saved?

/-- Who was signed in, with what was saved. -/
def savedBy? (entry : Hmi × Event) : Option (User × Recipe) :=
  (saved? entry).bind fun recipe =>
    (entry.1.presenter.session.bind Session.current).map (·, recipe)

def savers (h : Hmi) (run : List Event) : List (User × Recipe) :=
  (Runs.trace step h run).filterMap savedBy?

/-- The user may edit products, or there are no users. -/
def MayEdit (h : Hmi) : Prop :=
  h.presenter.session = none ∨
    ∃ user, h.presenter.session = some ⟨some user⟩ ∧ canEditProducts user.role = true

end Hmi

/-! ## The law -/

/-- A number from 0 to 100. -/
def Percentage (rate : Binary32) : Prop := ∃ q : ℚ, rate = .fin q ∧ 0 ≤ q ∧ q ≤ 100

def OperationCount (n : ℤ) : Prop := 1 ≤ n ∧ n ≤ 100

/-- What the tables may hold. -/
structure WithinBounds (t : RecipeTables) : Prop where
  operations : ∀ r ∈ t.recipes, OperationCount r.totalOperations
  rates : ∀ r ∈ t.targets, Percentage r.passRateTarget
  codes : (t.recipes.map RecipeRow.productCode).Nodup
  names : (t.targets.map fun r => (r.productCode, r.checkpointName)).Nodup

/-- What the line may be set to. -/
structure LineWithinBounds (c : SimulatedModel) : Prop where
  operations : OperationCount c.currentWorkUnit.totalOperations
  targets : ∀ (id : Nat) (cp : Production.QualityCheckpoint),
    c.qualityCheckpoints[id]? = some cp → Percentage cp.passRateTarget

/-- A recipe as it is read for a code, if it is for that code. -/
def readAs? (code : Text) (recipe : Recipe) : Option Recipe :=
  if cString recipe.productCode = cString code then
    some { recipe with
      productCode := code
      checkpointTargets := (recipe.checkpointTargets.map CheckpointTarget.bound).mergeSort
        CheckpointTarget.byName }
  else none

def isSuccess (e : AuditEvent) : Bool := e.result = Outcome.kSuccess

/-- The row of a save in the trail. -/
def saveRow (user : User) (recipe : Recipe) : AuditEvent where
  username := user.username
  role := user.role.name
  category := Category.kProduct
  action := ascii "RECIPE_SAVE"
  details := ascii "code=" ++ recipe.productCode
  result := Outcome.kSuccess

structure RecipeLaw (h : Hmi) (run : List Event) : Prop where
  tables : WithinBounds (h.after run).workshop.recipes.tables
  line : LineWithinBounds (h.after run).workshop.model
  /-- Of the saves for a code the last is read, whoever else has saved what. -/
  lastSave : (∀ e ∈ run, e.Ends) → ∀ code, (h.after run).stored code =
    (lastSaid (readAs? code) (h.saves run)).or (h.stored code)
  /-- Nothing is saved for whoever may not edit. -/
  permitted : ∀ entry ∈ Runs.trace Hmi.step h run, Hmi.saved? entry ≠ none → entry.1.MayEdit
  /-- The trail tells each save, and who saved. -/
  audited : h.presenter.audit = true → h.presenter.session ≠ none →
    (h.after run).workshop.audits.filter isSuccess = h.workshop.audits.filter isSuccess ++
      (h.savers run).map fun saver => saveRow saver.1 saver.2

end RecipeWorkflow

/-! ## Names and codes -/

namespace Products

/-- A text is the encoding of the string it encodes. -/
theorem asString?_eq_some {t : Text} {s : String} : asString? t = some s ↔ t = ascii s := by
  constructor
  · intro h
    rw [asString?, String.fromUTF8?] at h
    split at h
    next hvalid =>
      cases h
      rfl
    next => cases h
  · rintro rfl
    have hbytes : ByteArray.mk (ascii s).toArray = s.toByteArray := by simp [ascii]
    rw [asString?, hbytes, String.fromUTF8?, dif_pos s.isValidUTF8]
    rfl

/-- The target a checkpoint is given is the first that is stored under its name. -/
theorem recipeTarget_toModel (recipe : Recipe) (cp : Production.QualityCheckpoint) :
    SimulatedModel.recipeTarget recipe.toModel cp =
      ((recipe.checkpointTargets.find? (·.checkpointName = ascii cp.name)).map
        (·.passRateTarget)).getD cp.passRateTarget := by
  rw [SimulatedModel.recipeTarget, Recipe.toModel, List.find?_filterMap]
  have hname (target : CheckpointTarget) :
      ((asString? target.checkpointName).map fun name =>
        (⟨name, target.passRateTarget⟩ : Production.CheckpointTarget)).any
          (·.checkpointName = cp.name) = decide (target.checkpointName = ascii cp.name) := by
    rw [Bool.eq_iff_iff, Option.any_eq_true, decide_eq_true_iff, ← asString?_eq_some]
    simp
  simp only [hname]
  cases hfind : recipe.checkpointTargets.find? (·.checkpointName = ascii cp.name) with
  | none => rfl
  | some target =>
      have htarget := List.find?_some hfind
      rw [Option.bind_some, asString?_eq_some.mpr (of_decide_eq_true htarget)]
      rfl

/-- Codes that are bound alike are read alike. -/
theorem getRecipe_of_bound {code code' : Text} (h : cString code = cString code')
    (t : RecipeTables) : t.getRecipeByProductCode code =
      (t.getRecipeByProductCode code').map fun recipe => { recipe with productCode := code } := by
  rw [RecipeTables.getRecipeByProductCode, RecipeTables.getRecipeByProductCode,
    RecipeTables.selectTargets, RecipeTables.selectTargets, h]
  cases t.recipes.find? fun r => r.productCode = cString code' <;> rfl

end Products

/-! ## A save -/

namespace ProductsPresenter

/-- The rows that an emission leaves. -/
def auditRows (p : ProductsPresenter) (action details outcome : Text) : List AuditEvent :=
  match p.audit, p.session with
  | true, some session =>
      let user := session.current.getD {}
      [⟨user.username, user.role.name, Category.kProduct, action, details, outcome⟩]
  | _, _ => []

theorem emitAudit_eq (p : ProductsPresenter) (action details outcome : Text) (w : Workshop) :
    p.emitAudit action details outcome w =
      { w with audits := w.audits ++ p.auditRows action details outcome } := by
  rw [emitAudit, auditRows]
  cases p.audit with
  | false => simp
  | true => cases p.session <;> simp

/-- What a save does. -/
inductive Saved (p : ProductsPresenter) (recipe : Recipe) (fails : Failures) (w : Workshop) :
    Bool × Workshop → Prop
  | refused (rows : List AuditEvent) (hrows : ∀ r ∈ rows, r.result = Outcome.kFailure) :
      Saved p recipe fails w (false, { w with audits := w.audits ++ rows })
  | asked (hsession : p.session = none ∨
        ∃ user, p.session = some ⟨some user⟩ ∧ canEditProducts user.role = true)
      (haccepts : accepts recipe = true) :
      Saved p recipe fails w ((w.recipes.upsertRecipe recipe fails).1,
        { w with
          recipes := (w.recipes.upsertRecipe recipe fails).2
          audits := w.audits ++ p.auditRows (ascii "RECIPE_SAVE")
            (ascii "code=" ++ recipe.productCode)
            (if (w.recipes.upsertRecipe recipe fails).1 then Outcome.kSuccess
              else Outcome.kFailure) })

theorem auditRows_result {p : ProductsPresenter} {action details outcome : Text} {r : AuditEvent}
    (h : r ∈ p.auditRows action details outcome) : r.result = outcome := by
  rw [auditRows] at h
  split at h
  · rw [List.mem_singleton.mp h]
  · cases h

theorem saveRecipe_saved (p : ProductsPresenter) (recipe : Recipe) (fails : Failures)
    (w : Workshop) : Saved p recipe fails w (p.saveRecipe recipe fails w) := by
  have hquiet : Saved p recipe fails w (false, w) := by
    have hnone : Saved p recipe fails w (false, { w with audits := w.audits ++ [] }) :=
      .refused [] (by simp)
    rwa [List.append_nil] at hnone
  rw [saveRecipe]
  split
  next => exact hquiet
  next =>
    cases hsession : p.session with
    | none =>
        simp only [checkEditPermission, hsession]
        split
        next => exact hquiet
        next hgoes =>
          rw [emitAudit_eq]
          exact .asked (.inl hsession) (by simpa using hgoes)
    | some session =>
        cases hcurrent : session.current with
        | none => simpa [checkEditPermission, hsession, hcurrent] using hquiet
        | some user =>
            cases hrole : canEditProducts user.role with
            | false =>
                simp only [checkEditPermission, hsession, hcurrent, hrole, emitAudit_eq]
                exact .refused _ fun r hr => auditRows_result hr
            | true =>
                simp only [checkEditPermission, hsession, hcurrent, hrole, if_true]
                split
                next => exact hquiet
                next hgoes =>
                  rw [emitAudit_eq]
                  refine .asked (.inr ⟨user, ?_, hrole⟩) (by simpa using hgoes)
                  rw [hsession, ← hcurrent]

end ProductsPresenter

namespace RecipeWorkflow

/-! ## What is stored -/

theorem percentage_of_accepts {rate : Binary32}
    (h : (rate.lt kMinPassRate || kMaxPassRate.lt rate) = false) (hnan : rate ≠ .nan) :
    Percentage rate := by
  rw [kMinPassRate, kMaxPassRate] at h
  cases rate with
  | nan => exact absurd rfl hnan
  | negInf => cases h
  | posInf => cases h
  | fin q =>
      simp only [Binary32.lt, Bool.or_eq_false_iff, decide_eq_false_iff_not, not_lt] at h
      exact ⟨q, rfl, h⟩

theorem operationCount_of_accepts {recipe : Recipe} (h : accepts recipe = true) :
    OperationCount recipe.totalOperations := by
  simp only [accepts, Bool.and_eq_true, Bool.not_eq_true', Bool.or_eq_false_iff,
    decide_eq_false_iff_not, not_lt] at h
  exact h.1

theorem WithinBounds.insertOrReplace {t : RecipeTables} (h : WithinBounds t) {recipe : Recipe}
    (haccepts : accepts recipe = true) {t' : RecipeTables}
    (hstatement : recipe.insertOrReplace t = some t') : WithinBounds t' := by
  cases hstatement
  refine ⟨fun r hr => ?_, h.rates, ?_, h.names⟩
  · rcases List.mem_append.mp hr with hold | hnew
    · exact h.operations r (List.mem_filter.mp hold).1
    · rw [List.mem_singleton.mp hnew]
      exact operationCount_of_accepts haccepts
  · rw [List.map_append, List.map_singleton]
    refine List.nodup_append.mpr ⟨h.codes.sublist (List.filter_sublist.map _),
      List.nodup_singleton _, fun code hcode code' hcode' => ?_⟩
    obtain ⟨r, hr, rfl⟩ := List.mem_map.mp hcode
    rw [List.mem_singleton.mp hcode']
    exact of_decide_eq_true (List.mem_filter.mp hr).2

theorem WithinBounds.deleteTargets {t : RecipeTables} (h : WithinBounds t) {recipe : Recipe}
    {t' : RecipeTables} (hstatement : recipe.deleteTargets t = some t') : WithinBounds t' := by
  cases hstatement
  exact ⟨h.operations, fun r hr => h.rates r (List.mem_filter.mp hr).1, h.codes,
    h.names.sublist (List.filter_sublist.map _)⟩

theorem WithinBounds.insertTarget {t : RecipeTables} (h : WithinBounds t) {recipe : Recipe}
    (haccepts : accepts recipe = true) {target : CheckpointTarget}
    (htarget : target ∈ recipe.checkpointTargets) {t' : RecipeTables}
    (hstatement : recipe.insertTarget target t = some t') : WithinBounds t' := by
  rw [Recipe.insertTarget] at hstatement
  split at hstatement
  next => cases hstatement
  next hfits =>
    cases hstatement
    obtain ⟨hrate, hfree⟩ := not_or.mp hfits
    refine ⟨h.operations, fun r hr => ?_, h.codes, ?_⟩
    · rcases List.mem_append.mp hr with hold | hnew
      · exact h.rates r hold
      · rw [List.mem_singleton.mp hnew]
        rw [accepts, Bool.and_eq_true, List.all_eq_true] at haccepts
        have htests := haccepts.2 target htarget
        exact percentage_of_accepts (by simpa [Recipe.targetRow] using htests) hrate
    · rw [List.map_append, List.map_singleton]
      refine List.nodup_append.mpr ⟨h.names, List.nodup_singleton _, fun key hkey key' hkey' => ?_⟩
      obtain ⟨r, hr, rfl⟩ := List.mem_map.mp hkey
      rw [List.mem_singleton.mp hkey']
      exact fun heq => hfree ⟨r, hr, (Prod.mk.inj heq).1, (Prod.mk.inj heq).2⟩

/-- A save that was accepted leaves the tables in bounds, wherever its transaction ends. -/
theorem WithinBounds.upsertRecipe {db : RecipeDatabase} (h : WithinBounds db.tables)
    {recipe : Recipe} (haccepts : accepts recipe = true) (fails : Failures) :
    WithinBounds (db.upsertRecipe recipe fails).2.tables := by
  have hexec : WithinBounds
      (SharedConnection.execAll recipe.statements fails.statement db.tables).2 := by
    refine SharedConnection.execAll_keeps (fun statement hmem t t' ht hstatement => ?_) _ h
    rcases List.mem_cons.mp hmem with rfl | hmem
    · exact ht.insertOrReplace haccepts hstatement
    · rcases List.mem_cons.mp hmem with rfl | hmem
      · exact ht.deleteTargets hstatement
      · obtain ⟨target, htarget, rfl⟩ := List.mem_map.mp hmem
        exact ht.insertTarget haccepts htarget hstatement
  rw [RecipeDatabase.upsertRecipe]
  split
  next => exact h
  next =>
    generalize SharedConnection.execAll recipe.statements fails.statement db.tables = result
      at hexec
    obtain ⟨ok, t⟩ := result
    cases fails.ending with
    | true => exact hexec
    | false => cases ok with
      | true => exact hexec
      | false => exact h

/-- What is told to be saved is read, and nothing else has changed. -/
theorem upsertRecipe_read {db : RecipeDatabase} (hopen : db.saved = none) {recipe : Recipe}
    (haccepts : accepts recipe = true) {fails : Failures} (hends : fails.ending = false) :
    (db.upsertRecipe recipe fails).2.saved = none ∧
      ∀ code, (db.upsertRecipe recipe fails).2.tables.getRecipeByProductCode code =
        (if (db.upsertRecipe recipe fails).1 then readAs? code recipe else none).or
          (db.tables.getRecipeByProductCode code) := by
  obtain ⟨tables, saved⟩ := db
  obtain rfl : saved = none := hopen
  have hupserted := upsertRecipe_upserted tables recipe fails
  generalize RecipeDatabase.upsertRecipe { tables } recipe fails = result at hupserted
  cases hupserted with
  | notBegun => exact ⟨rfl, fun code => rfl⟩
  | leftOpen _ hending => rw [hends] at hending; cases hending
  | rolledBack => exact ⟨rfl, fun code => rfl⟩
  | committed =>
      refine ⟨rfl, fun code => ?_⟩
      rw [if_pos rfl, readAs?]
      split
      next hcode =>
        obtain ⟨hlow, hhigh⟩ := operationCount_of_accepts haccepts
        have hcount : columnInt recipe.totalOperations = recipe.totalOperations :=
          Int.bmod_eq_of_le (by omega) (by omega)
        rw [getRecipe_of_bound hcode.symm, getRecipe_saved, hcount]
        rfl
      next hcode => exact getRecipe_saved_of_ne (Ne.symm hcode) tables

/-! ## What the line is set to -/

section Everywhere

variable {ν : Type} {P : ν → Prop} {m : Production.IdMap ν}

theorem everywhere_insert (h : ∀ (id : Nat) (v : ν), m[id]? = some v → P v) (id : Nat) {v : ν}
    (hv : P v) : ∀ (k : Nat) (v' : ν), (m.insert id v)[k]? = some v' → P v' := by
  intro k v' hk
  rw [Std.ExtTreeMap.getElem?_insert] at hk
  split at hk
  · cases hk
    exact hv
  · exact h k v' hk

theorem everywhere_subscript [Inhabited ν] (h : ∀ (id : Nat) (v : ν), m[id]? = some v → P v)
    (hdefault : P default) (id : Nat) {f : ν → ν} (hf : ∀ v, P v → P (f v)) :
    ∀ (k : Nat) (v' : ν), (m.subscript id f)[k]? = some v' → P v' := by
  refine everywhere_insert h id (hf _ ?_)
  cases hid : m[id]? with
  | none => exact hdefault
  | some v => exact h id v hid

theorem everywhere_map (h : ∀ (id : Nat) (v : ν), m[id]? = some v → P v) {f : Nat → ν → ν}
    (hf : ∀ id v, P v → P (f id v)) :
    ∀ (k : Nat) (v' : ν), (m.map f)[k]? = some v' → P v' := by
  intro k v' hk
  rw [Std.ExtTreeMap.getElem?_map, Option.map_eq_some_iff] at hk
  obtain ⟨v, hv, rfl⟩ := hk
  exact hf k v (h k v hv)

end Everywhere

theorem percentage_default : Percentage kDefaultPassRateTarget :=
  ⟨95, rfl, by norm_num, by norm_num⟩

theorem operationCount_default : OperationCount 5 := ⟨by decide, by decide⟩

theorem LineWithinBounds.step {c : SimulatedModel} (h : LineWithinBounds c) (call : OtherCall) :
    LineWithinBounds (c.step call.1).1 := by
  obtain ⟨op, hop⟩ := call
  obtain ⟨hoperations, htargets⟩ := h
  cases op with
  | startProduction =>
      refine ⟨?_, ?_⟩
      · simp only [SimulatedModel.step, SimulatedModel.startProduction,
          SimulatedModel.simulateProductionCycle, SimulatedModel.andThen_fst,
          SimulatedModel.dispatch_fst]
        by_cases hleft : c.currentWorkUnit.completedOperations < c.currentWorkUnit.totalOperations
        · simpa [hleft] using hoperations
        · simpa [hleft] using hoperations
      · rw [SimulatedModel.step, SimulatedModel.startProduction_keeps]
        exact htargets
  | resetSystem => exact ⟨hoperations, htargets⟩
  | setEquipmentEnabled id enabled =>
      rw [SimulatedModel.step, SimulatedModel.setEquipmentEnabled,
        SimulatedModel.changeEquipment_keeps]
      exact ⟨hoperations, htargets⟩
  | setEquipmentSupplyLevel id level =>
      rw [SimulatedModel.step, SimulatedModel.setEquipmentSupplyLevel,
        SimulatedModel.changeEquipment_keeps]
      exact ⟨hoperations, htargets⟩
  | setQualityPassRate id rate =>
      rw [SimulatedModel.step, SimulatedModel.setQualityPassRate]
      split
      next => exact ⟨hoperations, htargets⟩
      next =>
        refine ⟨hoperations, ?_⟩
        refine everywhere_subscript (everywhere_subscript htargets percentage_default id ?_)
          percentage_default id fun _ h => h
        exact fun _ h => h
  | notifyQualityChange id =>
      exact ⟨hoperations, everywhere_subscript htargets percentage_default id fun _ h => h⟩
  | loadProduct product recipe => exact absurd rfl (hop product recipe)
  | tickSimulation draws now =>
      refine ⟨?_, ?_⟩
      · simp only [SimulatedModel.step, SimulatedModel.tickSimulation, SimulatedModel.andThen_fst,
          SimulatedModel.notifyQualityChanges_keys]
        split <;> exact hoperations
      · rw [SimulatedModel.step, SimulatedModel.tickSimulation_keeps]
        exact everywhere_map htargets fun _ _ h => h
  | republishAll =>
      rw [SimulatedModel.step, SimulatedModel.republishAll_keeps]
      exact ⟨hoperations, htargets⟩
  | initializeDemoData =>
      simp only [SimulatedModel.step, SimulatedModel.initializeDemoData,
        SimulatedModel.andThen_fst, SimulatedModel.notifyQualityChanges_keys,
        SimulatedModel.dispatch_fst]
      refine ⟨operationCount_default, ?_⟩
      exact everywhere_insert (everywhere_insert (everywhere_insert htargets 0 percentage_default) 1
        percentage_default) 2 percentage_default
  | _ => exact ⟨hoperations, htargets⟩

/-- A recipe that is in bounds sets the line in bounds. -/
theorem LineWithinBounds.loadProduct {c : SimulatedModel} (h : LineWithinBounds c)
    (product : Products.Product) {recipe : Products.Recipe}
    (hoperations : OperationCount recipe.totalOperations)
    (htargets : ∀ target ∈ recipe.checkpointTargets, Percentage target.passRateTarget) :
    LineWithinBounds (c.loadProduct product.toModel recipe.toModel).1 := by
  simp only [SimulatedModel.loadProduct, SimulatedModel.andThen_fst,
    SimulatedModel.notifyQualityChanges_keys]
  refine ⟨hoperations, everywhere_map h.targets fun id cp hcp => ?_⟩
  rw [recipeTarget_toModel]
  cases hfind : recipe.checkpointTargets.find? (·.checkpointName = ascii cp.name) with
  | none => exact hcp
  | some target => exact htargets target (List.mem_of_find?_eq_some hfind)

/-- What is read from tables in bounds is in bounds. -/
theorem WithinBounds.read {t : RecipeTables} (h : WithinBounds t) {code : Text}
    {recipe : Products.Recipe} (hread : t.getRecipeByProductCode code = some recipe) :
    OperationCount recipe.totalOperations ∧
      ∀ target ∈ recipe.checkpointTargets, Percentage target.passRateTarget := by
  rw [RecipeTables.getRecipeByProductCode] at hread
  split at hread
  next => cases hread
  next r hfind =>
    cases hread
    obtain ⟨hlow, hhigh⟩ := h.operations r (List.mem_of_find?_eq_some hfind)
    refine ⟨?_, fun target htarget => ?_⟩
    · have hcount : columnInt r.totalOperations = r.totalOperations :=
        Int.bmod_eq_of_le (by omega) (by omega)
      exact hcount.symm ▸ ⟨hlow, hhigh⟩
    · obtain ⟨row, hrow, rfl⟩ := List.mem_map.mp htarget
      rw [RecipeTables.selectTargets, List.mem_mergeSort] at hrow
      exact h.rates row (List.mem_filter.mp hrow).1

/-! ## One event -/

/-- The tables of the recipes and the trail change with saves alone. -/
inductive Stepped (h : Hmi) (e : Event) : Prop
  | still (hrecipes : (h.step e).workshop.recipes = h.workshop.recipes)
      (haudits : (h.step e).workshop.audits.filter isSuccess =
        h.workshop.audits.filter isSuccess) (hsaved : Hmi.saved? (h, e) = none)
  | asked (productId : ℤ) (recipe : Recipe) (fails : Failures)
      (hevent : e = .saveRecipe productId recipe fails) (hmay : h.MayEdit)
      (haccepts : accepts recipe = true)
      (hrecipes : (h.step e).workshop.recipes = (h.workshop.recipes.upsertRecipe recipe fails).2)
      (hsaved : Hmi.saved? (h, e) =
        if (h.workshop.recipes.upsertRecipe recipe fails).1 then some recipe else none)
      (haudits : (h.step e).workshop.audits = h.workshop.audits ++
        h.presenter.auditRows (ascii "RECIPE_SAVE") (ascii "code=" ++ recipe.productCode)
          (if (h.workshop.recipes.upsertRecipe recipe fails).1 then Outcome.kSuccess
            else Outcome.kFailure))

theorem filter_failures {rows : List AuditEvent} (h : ∀ r ∈ rows, r.result = Outcome.kFailure) :
    rows.filter isSuccess = [] := by
  refine List.filter_eq_nil_iff.mpr fun r hr => ?_
  rw [isSuccess, h r hr]
  decide

theorem loadRecipe_keeps (p : ProductsPresenter) (productId : ℤ) (w : Workshop) :
    (p.loadRecipe productId w).recipes = w.recipes ∧
      (p.loadRecipe productId w).audits = w.audits := by
  rw [loadRecipe]
  split
  next => exact ⟨rfl, rfl⟩
  next =>
    split
    next => exact ⟨rfl, rfl⟩
    next => split <;> exact ⟨rfl, rfl⟩

theorem stepped (h : Hmi) (e : Event) : Stepped h e := by
  cases e with
  | saveRecipe productId recipe fails =>
      have hsaved := saveRecipe_saved h.presenter recipe fails h.workshop
      generalize hresult : h.presenter.saveRecipe recipe fails h.workshop = result at hsaved
      cases hsaved with
      | refused rows hrows =>
          refine .still ?_ ?_ ?_ <;> simp [Hmi.step, Hmi.saved?, hresult, filter_failures hrows]
      | asked hsession haccepts =>
          refine .asked productId recipe fails rfl hsession haccepts ?_ ?_ ?_ <;>
            simp [Hmi.step, Hmi.saved?, hresult]
  | loadRecipe productId =>
      obtain ⟨hrecipes, haudits⟩ := loadRecipe_keeps h.presenter productId h.workshop
      exact .still hrecipes (congrArg (List.filter isSuccess) haudits) rfl
  | session current => exact .still rfl rfl rfl
  | products op => exact .still rfl rfl rfl
  | model call => exact .still rfl rfl rfl

theorem tables_step {h : Hmi} (htables : WithinBounds h.workshop.recipes.tables) (e : Event) :
    WithinBounds (h.step e).workshop.recipes.tables := by
  cases stepped h e with
  | still hrecipes => exact hrecipes ▸ htables
  | asked productId recipe fails hevent hmay haccepts hrecipes =>
      exact hrecipes ▸ htables.upsertRecipe haccepts fails

theorem line_step {h : Hmi} (htables : WithinBounds h.workshop.recipes.tables)
    (hline : LineWithinBounds h.workshop.model) (e : Event) :
    LineWithinBounds (h.step e).workshop.model := by
  cases e with
  | saveRecipe productId recipe fails =>
      have hsaved := saveRecipe_saved h.presenter recipe fails h.workshop
      rw [Hmi.step]
      generalize h.presenter.saveRecipe recipe fails h.workshop = result at hsaved
      cases hsaved <;> exact hline
  | loadRecipe productId =>
      rw [Hmi.step, loadRecipe]
      split
      next => exact hline
      next =>
        split
        next => exact hline
        next product _ =>
          split
          next => exact hline
          next recipe hread =>
            obtain ⟨hoperations, htargets⟩ := htables.read hread
            exact hline.loadProduct product hoperations htargets
  | session current => exact hline
  | products op => exact hline
  | model call => exact hline.step call

theorem stored_step {h : Hmi} (hopen : h.workshop.recipes.saved = none) {e : Event}
    (hends : e.Ends) : (h.step e).workshop.recipes.saved = none ∧
      ∀ code, (h.step e).stored code =
        ((Hmi.saved? (h, e)).bind (readAs? code)).or (h.stored code) := by
  cases stepped h e with
  | still hrecipes haudits hsaved =>
      rw [hrecipes, hsaved]
      refine ⟨hopen, fun code => ?_⟩
      rw [Hmi.stored, hrecipes]
      rfl
  | asked productId recipe fails hevent hmay haccepts hrecipes hsaved =>
      obtain rfl := hevent
      obtain ⟨hclosed, hread⟩ := upsertRecipe_read hopen haccepts hends
      rw [hrecipes, hsaved]
      refine ⟨hclosed, fun code => ?_⟩
      rw [Hmi.stored, hrecipes, hread]
      congr 1
      split <;> rfl

theorem mayEdit_of_saved {h : Hmi} {e : Event} (hsaved : Hmi.saved? (h, e) ≠ none) :
    h.MayEdit := by
  cases stepped h e with
  | still hrecipes haudits hnone => exact absurd hnone hsaved
  | asked productId recipe fails hevent hmay => exact hmay

theorem presenter_step (h : Hmi) (e : Event) :
    (h.step e).presenter = { h.presenter with session := (h.step e).presenter.session } ∧
      ((h.step e).presenter.session = none ↔ h.presenter.session = none) := by
  cases e with
  | session current => simp [Hmi.step]
  | _ => exact ⟨rfl, Iff.rfl⟩

theorem audits_step {h : Hmi} (haudit : h.presenter.audit = true)
    (hsession : h.presenter.session ≠ none) (e : Event) :
    (h.step e).workshop.audits.filter isSuccess = h.workshop.audits.filter isSuccess ++
      (Hmi.savedBy? (h, e)).toList.map fun saver => saveRow saver.1 saver.2 := by
  cases stepped h e with
  | still hrecipes haudits hsaved => simp [haudits, Hmi.savedBy?, hsaved]
  | asked productId recipe fails hevent hmay haccepts hrecipes hsaved haudits =>
      obtain hnone | ⟨user, huser, -⟩ := hmay
      · exact absurd hnone hsession
      · have hrows (outcome : Text) : h.presenter.auditRows (ascii "RECIPE_SAVE")
            (ascii "code=" ++ recipe.productCode) outcome =
              [{ saveRow user recipe with result := outcome }] := by
          simp only [auditRows, haudit, huser]
          rfl
        rw [haudits, List.filter_append, Hmi.savedBy?, hsaved, hrows, huser]
        congr 1
        cases (h.workshop.recipes.upsertRecipe recipe fails).1 with
        | true => rfl
        | false => exact filter_failures (by simp)

/-! ## Whole runs -/

namespace Hmi

theorem after_concat (h : Hmi) (run : List Event) (e : Event) :
    h.after (run ++ [e]) = (h.after run).step e := List.foldl_append

theorem saves_concat (h : Hmi) (run : List Event) (e : Event) :
    h.saves (run ++ [e]) = h.saves run ++ (saved? (h.after run, e)).toList := by
  rw [saves, Runs.trace_concat, List.filterMap_append]
  cases hsaved : saved? (run.foldl step h, e) <;> simp [saves, after, hsaved]

theorem savers_concat (h : Hmi) (run : List Event) (e : Event) :
    h.savers (run ++ [e]) = h.savers run ++ (savedBy? (h.after run, e)).toList := by
  rw [savers, Runs.trace_concat, List.filterMap_append]
  cases hsaved : savedBy? (run.foldl step h, e) <;> simp [savers, after, hsaved]

/-- A hookup that was set is still set. -/
theorem presenter_after (h : Hmi) (run : List Event) :
    (h.after run).presenter =
        { h.presenter with session := (h.after run).presenter.session } ∧
      ((h.after run).presenter.session = none ↔ h.presenter.session = none) := by
  induction run using List.reverseRecOn with
  | nil => exact ⟨rfl, Iff.rfl⟩
  | append_singleton run e ih =>
      rw [after_concat]
      obtain ⟨hpresenter, hsession⟩ := presenter_step (h.after run) e
      refine ⟨?_, hsession.trans ih.2⟩
      rw [hpresenter, ih.1]

end Hmi

/-- Of the saves for a code the last is read. -/
theorem stored_after {h : Hmi} (hopen : h.workshop.recipes.saved = none) {run : List Event}
    (hends : ∀ e ∈ run, e.Ends) : (h.after run).workshop.recipes.saved = none ∧
      ∀ code, (h.after run).stored code =
        (lastSaid (readAs? code) (h.saves run)).or (h.stored code) := by
  induction run using List.reverseRecOn with
  | nil => exact ⟨hopen, fun code => rfl⟩
  | append_singleton run e ih =>
      obtain ⟨hclosed, hread⟩ := ih fun e' he' => hends e' (List.mem_append_left _ he')
      obtain ⟨hclosed', hread'⟩ :=
        stored_step hclosed (hends e (List.mem_append_right _ List.mem_cons_self))
      rw [Hmi.after_concat]
      refine ⟨hclosed', fun code => ?_⟩
      rw [hread', hread, Hmi.saves_concat, lastSaid_append, Option.or_assoc]
      cases Hmi.saved? (h.after run, e) with
      | none => rfl
      | some recipe => cases hsaid : readAs? code recipe <;> simp [lastSaid, hsaid]

/-- Runs from tables and a line that are in bounds. -/
theorem recipeLaw_of_bounds {h : Hmi} (htables : WithinBounds h.workshop.recipes.tables)
    (hline : LineWithinBounds h.workshop.model) (hopen : h.workshop.recipes.saved = none)
    (run : List Event) : RecipeLaw h run := by
  have hbounds (run : List Event) : WithinBounds (h.after run).workshop.recipes.tables ∧
      LineWithinBounds (h.after run).workshop.model :=
    Runs.invariant (I := fun h : Hmi => WithinBounds h.workshop.recipes.tables ∧
      LineWithinBounds h.workshop.model) ⟨htables, hline⟩
      (fun h e hi => ⟨tables_step hi.1 e, line_step hi.1 hi.2 e⟩) run
  refine ⟨(hbounds run).1, (hbounds run).2, fun hends => (stored_after hopen hends).2, ?_, ?_⟩
  · rintro ⟨h', e⟩ - hsaved
    exact mayEdit_of_saved hsaved
  · intro haudit hsession
    induction run using List.reverseRecOn with
    | nil => exact (List.append_nil _).symm
    | append_singleton run e ih =>
        obtain ⟨hpresenter, hsame⟩ := h.presenter_after run
        have haudit' : (h.after run).presenter.audit = true := by
          rw [hpresenter]
          exact haudit
        rw [Hmi.after_concat, audits_step haudit' (hsession ∘ hsame.mp), ih, Hmi.savers_concat,
          List.map_append, List.append_assoc]

/-- The recipes a new database is given. -/
def populateRecipeDemoData : RecipeTables where
  recipes :=
    [⟨ascii "PROD-001", 5⟩, ⟨ascii "PROD-002", 4⟩, ⟨ascii "PROD-003", 6⟩, ⟨ascii "PROD-005", 5⟩,
      ⟨ascii "PROD-006", 7⟩]
  targets :=
    [⟨ascii "PROD-001", ascii "Weight Check", .fin 99⟩,
      ⟨ascii "PROD-001", ascii "Hardness Test", .fin 97⟩,
      ⟨ascii "PROD-001", ascii "Final Inspection", .fin 95⟩,
      ⟨ascii "PROD-002", ascii "Weight Check", .fin 98⟩,
      ⟨ascii "PROD-002", ascii "Hardness Test", .fin 96⟩,
      ⟨ascii "PROD-002", ascii "Final Inspection", .fin 94⟩,
      ⟨ascii "PROD-003", ascii "Weight Check", .fin (195 / 2)⟩,
      ⟨ascii "PROD-003", ascii "Hardness Test", .fin 95⟩,
      ⟨ascii "PROD-003", ascii "Final Inspection", .fin 92⟩,
      ⟨ascii "PROD-005", ascii "Weight Check", .fin (199 / 2)⟩,
      ⟨ascii "PROD-005", ascii "Hardness Test", .fin 98⟩,
      ⟨ascii "PROD-005", ascii "Final Inspection", .fin 97⟩,
      ⟨ascii "PROD-006", ascii "Weight Check", .fin (197 / 2)⟩,
      ⟨ascii "PROD-006", ascii "Hardness Test", .fin (193 / 2)⟩,
      ⟨ascii "PROD-006", ascii "Final Inspection", .fin (191 / 2)⟩]

theorem withinBounds_demo : WithinBounds populateRecipeDemoData where
  operations := by simp [populateRecipeDemoData, OperationCount]
  rates := by
    simp only [populateRecipeDemoData, List.forall_mem_cons, Percentage, Binary32.fin.injEq,
      exists_eq_left', List.not_mem_nil, false_imp_iff, implies_true, and_true]
    norm_num
  codes := by decide
  names := by decide

/-- The application with a new database, before the line is set up. -/
def opened (p : ProductsPresenter) (now : Text) : Hmi where
  presenter := p
  workshop :=
    { products := ProductTable.initialized now
      recipes := { tables := populateRecipeDemoData }
      model := {} }

/-- Every run obeys the law. -/
theorem recipe_law (p : ProductsPresenter) (now : Text) (run : List Event) :
    RecipeLaw (opened p now) run :=
  recipeLaw_of_bounds withinBounds_demo
    ⟨operationCount_default, fun id cp hcp => by simp [opened] at hcp⟩ rfl run

end RecipeWorkflow
