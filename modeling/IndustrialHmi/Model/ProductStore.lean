import IndustrialHmi.Model.ProductTable
import IndustrialHmi.Theory.Runs

/-!
# What the store of products tells its callers

An `INSERT` that is carried out adds one row.  An `UPDATE` is carried out also when no row has the
id, and that of `deleteProduct` has no clause for the rows that are deleted already.  So a call
with an id is told that it went well when it changed nothing, or when it changed a product that
was deleted.  With the id of a live product none of this happens (`tellsTruth_iff`).
-/

namespace Products

/-- A call of the store, with the time and with whether its statement fails for other reasons than
a constraint. -/
inductive Op where
  | add (productCode name status : Text) (stock : ℤ) (qualityRate : Binary32) (now : Text)
      (fails : Bool)
  | update (id : ℤ) (name status : Text) (stock : ℤ) (qualityRate : Binary32) (now : Text)
      (fails : Bool)
  | delete (id : ℤ) (now : Text) (fails : Bool)

namespace ProductTable

def perform (t : ProductTable) : Op → Bool × ProductTable
  | .add productCode name status stock qualityRate now fails =>
      t.addProduct productCode name status stock qualityRate now fails
  | .update id name status stock qualityRate now fails =>
      t.updateProduct id name status stock qualityRate now fails
  | .delete id now fails => t.deleteProduct id now fails

def step (t : ProductTable) (op : Op) : ProductTable := (t.perform op).2

def after (t : ProductTable) (ops : List Op) : ProductTable := ops.foldl step t

/-- Exactly one live product was inserted, was given the values of the call, or was marked as
deleted. -/
inductive Changes (t t' : ProductTable) : Op → Prop where
  | inserted {productCode name status : Text} {stock : ℤ} {qualityRate : Binary32} {now : Text}
      {fails : Bool} {r : ProductRow} (rows : t'.rows = t.rows ++ [r]) (live : r.live = true)
      (productCode_eq : r.productCode = cString productCode) (name_eq : r.name = cString name)
      (status_eq : r.status = cString status) (stock_eq : r.stock = stock)
      (rate_eq : r.qualityRate = bindDouble qualityRate) :
      Changes t t' (.add productCode name status stock qualityRate now fails)
  | updated {id : ℤ} {name status : Text} {stock : ℤ} {qualityRate : Binary32} {now : Text}
      {fails : Bool} {before behind : List ProductRow} {r : ProductRow}
      (rows : t.rows = before ++ r :: behind) (id_eq : r.id = id) (live : r.live = true)
      (rows' : t'.rows =
        before ++ r.withValues name status stock qualityRate now :: behind) :
      Changes t t' (.update id name status stock qualityRate now fails)
  | deleted {id : ℤ} {now : Text} {fails : Bool} {before behind : List ProductRow}
      {r : ProductRow} (rows : t.rows = before ++ r :: behind) (id_eq : r.id = id)
      (live : r.live = true) (rows' : t'.rows = before ++ r.withDeletion now :: behind) :
      Changes t t' (.delete id now fails)

/-- A call that returns true changed exactly one live product, and one that returns false changed
nothing.  A product that is given the values it has counts as changed. -/
structure Truthful (t : ProductTable) (op : Op) : Prop where
  accepted : (t.perform op).1 = true → Changes t (t.perform op).2 op
  refused : (t.perform op).1 = false → (t.perform op).2 = t

/-- The row is in the table, and no reader reads it. -/
structure Buried (t : ProductTable) (r : ProductRow) : Prop where
  mem : r ∈ t.rows
  not_all : r ∉ t.selectLive
  not_id (id : ℤ) : r ∉ t.selectId id
  not_like (query : Text) : r ∉ t.selectLike query

/-- Every call of a run is truthful, and a row that is deleted at any time of the run is there at
any later time, and not read. -/
structure TellsTruth (t : ProductTable) (ops : List Op) : Prop where
  truthful : Runs.Along step Truthful t ops
  buried : ∀ earlier later rest, ops = earlier ++ later ++ rest →
    ∀ r ∈ (t.after earlier).rows, r.live = false → ((t.after earlier).after later).Buried r

/-- An `UPDATE` that is carried out finds a live product. -/
def Meets (t : ProductTable) : Op → Prop
  | .add .. => True
  | .update id _ _ _ _ _ fails => fails = true ∨ t.Names id
  | .delete id _ fails => fails = true ∨ t.Names id

/-! ## What an edit changes -/

theorem edit_rows {t : ProductTable} {id : ℤ} {before behind : List ProductRow} {r : ProductRow}
    (hrows : t.rows = before ++ r :: behind) (hid : r.id = id) (e : ProductRow.Edit) :
    (t.edit id e).rows = before ++ e.apply r :: behind := by
  have hids := t.ids_ascending
  rw [hrows, List.map_append, List.map_cons, List.pairwise_append, List.pairwise_cons] at hids
  obtain ⟨_, ⟨hbehind, _⟩, hbefore⟩ := hids
  have hsame (l : List ProductRow) (hne : ∀ r' ∈ l, r'.id ≠ id) :
      (l.map fun r => if r.id = id then e.apply r else r) = l :=
    (List.map_congr_left fun r' hr' => if_neg (hne r' hr')).trans (List.map_id l)
  show (t.rows.map fun r => if r.id = id then e.apply r else r) = _
  rw [hrows, List.map_append, List.map_cons, if_pos hid, hsame before, hsame behind]
  · intro r' hr'
    exact hid ▸ Int.ne_of_gt (hbehind _ (List.mem_map_of_mem hr'))
  · intro r' hr'
    exact hid ▸ Int.ne_of_lt (hbefore _ (List.mem_map_of_mem hr') _ List.mem_cons_self)

/-- An edit of a live row leaves the rows that are not. -/
theorem mem_edit {t : ProductTable} {id : ℤ} (hnames : t.Names id) (e : ProductRow.Edit)
    {r : ProductRow} (hr : r ∈ t.rows) (hlive : r.live = false) : r ∈ (t.edit id e).rows := by
  obtain ⟨r', hr', hid, hlive'⟩ := hnames
  obtain ⟨before, behind, hrows⟩ := List.append_of_mem hr'
  rw [edit_rows hrows hid e]
  rw [hrows] at hr
  rcases List.mem_append.mp hr with hr | hr
  · exact List.mem_append_left _ hr
  · rcases List.mem_cons.mp hr with rfl | hr
    · rw [hlive] at hlive'
      cases hlive'
    · exact List.mem_append_right _ (List.mem_cons_of_mem _ hr)

/-! ## What a call does -/

/-- A call is refused; or it changes exactly one live product and is told so; or it is told so
without naming a live product. -/
inductive Effect (t : ProductTable) (op : Op) : Prop where
  | refused (meets : t.Meets op) (h : t.perform op = (false, t))
  | changed (meets : t.Meets op) (told : (t.perform op).1 = true)
      (changes : Changes t (t.perform op).2 op)
      (kept : ∀ r ∈ t.rows, r.live = false → r ∈ (t.perform op).2.rows)
  | missed (misses : ¬t.Meets op) (told : (t.perform op).1 = true)
      (not_changes : ¬Changes t (t.perform op).2 op)

theorem effect_add (t : ProductTable) (productCode name status : Text) (stock : ℤ)
    (qualityRate : Binary32) (now : Text) (fails : Bool) :
    Effect t (.add productCode name status stock qualityRate now fails) := by
  cases h : t.addProduct productCode name status stock qualityRate now fails with
  | mk told t' =>
      have hperform : t.perform (.add productCode name status stock qualityRate now fails) =
        (told, t') := h
      rw [addProduct] at h
      split at h
      · split at h
        · obtain ⟨rfl, rfl⟩ := Prod.mk.inj h
          exact .refused trivial hperform
        · obtain ⟨rfl, rfl⟩ := Prod.mk.inj h
          refine .changed trivial (by rw [hperform]) ?_ fun r hr _ => ?_
          · rw [hperform]
            exact .inserted rfl rfl rfl rfl rfl rfl rfl
          · rw [hperform]
            exact List.mem_append_left _ hr
      · obtain ⟨rfl, rfl⟩ := Prod.mk.inj h
        exact .refused trivial hperform

theorem effect_update (t : ProductTable) (id : ℤ) (name status : Text) (stock : ℤ)
    (qualityRate : Binary32) (now : Text) (fails : Bool) :
    Effect t (.update id name status stock qualityRate now fails) := by
  cases fails with
  | true => exact .refused (Or.inl rfl) rfl
  | false =>
      by_cases hnames : t.Names id
      · by_cases hstatus : cString status ∈ statuses
        · have hperform : t.perform (.update id name status stock qualityRate now false) =
              (true, t.edit id ⟨ProductRow.withValues name status stock qualityRate now,
                fun _ => rfl, fun _ => rfl, fun _ _ => hstatus⟩) := by
            rw [perform, updateProduct, if_neg Bool.false_ne_true, if_pos hnames, dif_pos hstatus]
          refine .changed (Or.inr hnames) (by rw [hperform]) ?_ fun r hr hlive => ?_
          · obtain ⟨r, hr, hid, hlive⟩ := hnames
            obtain ⟨before, behind, hrows⟩ := List.append_of_mem hr
            rw [hperform]
            exact .updated hrows hid hlive (edit_rows hrows hid _)
          · rw [hperform]
            exact mem_edit hnames _ hr hlive
        · refine .refused (Or.inr hnames) ?_
          rw [perform, updateProduct, if_neg Bool.false_ne_true, if_pos hnames, dif_neg hstatus]
      · have hperform : t.perform (.update id name status stock qualityRate now false) =
            (true, t) := by
          rw [perform, updateProduct, if_neg Bool.false_ne_true, if_neg hnames]
        refine .missed (fun h => hnames (h.resolve_left Bool.false_ne_true)) (by rw [hperform]) ?_
        intro hchanges
        cases hchanges with
        | updated hrows hid hlive _ =>
            exact hnames ⟨_, hrows ▸ List.mem_append_right _ List.mem_cons_self, hid, hlive⟩

theorem effect_delete (t : ProductTable) (id : ℤ) (now : Text) (fails : Bool) :
    Effect t (.delete id now fails) := by
  cases fails with
  | true => exact .refused (Or.inl rfl) rfl
  | false =>
      by_cases hnames : t.Names id
      · refine .changed (Or.inr hnames) rfl ?_ fun r hr hlive => mem_edit hnames _ hr hlive
        obtain ⟨r, hr, hid, hlive⟩ := hnames
        obtain ⟨before, behind, hrows⟩ := List.append_of_mem hr
        exact .deleted hrows hid hlive (edit_rows hrows hid _)
      · refine .missed (fun h => hnames (h.resolve_left Bool.false_ne_true)) rfl ?_
        intro hchanges
        cases hchanges with
        | deleted hrows hid hlive _ =>
            exact hnames ⟨_, hrows ▸ List.mem_append_right _ List.mem_cons_self, hid, hlive⟩

theorem effect (t : ProductTable) (op : Op) : Effect t op := by
  cases op with
  | add productCode name status stock qualityRate now fails =>
      exact t.effect_add productCode name status stock qualityRate now fails
  | update id name status stock qualityRate now fails =>
      exact t.effect_update id name status stock qualityRate now fails
  | delete id now fails => exact t.effect_delete id now fails

theorem truthful_iff (t : ProductTable) (op : Op) : Truthful t op ↔ t.Meets op := by
  cases t.effect op with
  | refused hmeets h =>
      refine ⟨fun _ => hmeets, fun _ => ⟨fun htold => ?_, fun _ => by rw [h]⟩⟩
      rw [h] at htold
      cases htold
  | changed hmeets htold hchanges _ =>
      refine ⟨fun _ => hmeets, fun _ => ⟨fun _ => hchanges, fun hrefused => ?_⟩⟩
      rw [htold] at hrefused
      cases hrefused
  | missed hmisses htold hnot =>
      exact ⟨fun h => absurd (h.accepted htold) hnot, fun h => absurd h hmisses⟩

/-- A call that meets the condition leaves the rows that are not live. -/
theorem mem_step {t : ProductTable} {op : Op} (hmeets : t.Meets op) {r : ProductRow}
    (hr : r ∈ t.rows) (hlive : r.live = false) : r ∈ (t.step op).rows := by
  rw [step]
  cases t.effect op with
  | refused _ h => rw [h]; exact hr
  | changed _ _ _ hkept => exact hkept r hr hlive
  | missed hmisses _ _ => exact absurd hmeets hmisses

/-! ## Runs -/

theorem buried_of_mem {t : ProductTable} {r : ProductRow} (hr : r ∈ t.rows)
    (hlive : r.live = false) : t.Buried r := by
  have hread {p : ProductRow → Bool} (hp : p r = true → r.live = true) : r ∉ t.rows.filter p := by
    intro hmem
    have hlive' := hp (List.mem_filter.mp hmem).2
    rw [hlive] at hlive'
    cases hlive'
  refine ⟨hr, hread id, fun id => hread fun h => (Bool.and_eq_true_iff.mp h).2, fun query => ?_⟩
  unfold selectLike
  dsimp only
  split
  · exact List.not_mem_nil
  · exact hread fun h => (Bool.and_eq_true_iff.mp h).2

/-- A row that is not live stays as it is. -/
theorem mem_after {t : ProductTable} {ops : List Op} (h : Runs.Along step Meets t ops)
    {r : ProductRow} (hr : r ∈ t.rows) (hlive : r.live = false) : r ∈ (t.after ops).rows :=
  h.invariant (I := fun t => r ∈ t.rows) hr fun _ _ hmem hmeets => mem_step hmeets hmem hlive

/-- The store tells the truth in a run if every `UPDATE` that is carried out names a live product,
and only then. -/
theorem tellsTruth_iff (t : ProductTable) (ops : List Op) :
    TellsTruth t ops ↔ Runs.Along step Meets t ops := by
  have hsteps : Runs.Along step Truthful t ops ↔ Runs.Along step Meets t ops :=
    Runs.along_congr truthful_iff
  refine ⟨fun h => hsteps.mp h.truthful, fun h => ⟨hsteps.mpr h, ?_⟩⟩
  rintro earlier later rest rfl r hr hlive
  have hlater := (Runs.along_append.mp (Runs.along_append.mp h).1).2
  exact buried_of_mem (mem_after hlater hr hlive) hlive

/-- The deletion of a product that is deleted changes its row, and that of no product changes
nothing.  Both return true. -/
theorem delete_not_truthful :
    let t := initialized (ascii "09:00")
    let deleted := t.step (.delete 1 (ascii "10:00") false)
    (deleted.perform (.delete 1 (ascii "11:00") false)).1 = true ∧
      (deleted.rows.head?.map ProductRow.deletedAt) = some (some (ascii "10:00")) ∧
      ((deleted.step (.delete 1 (ascii "11:00") false)).rows.head?.map ProductRow.deletedAt) =
        some (some (ascii "11:00")) ∧
      (t.perform (.delete 7 (ascii "10:00") false)).1 = true ∧
      ¬TellsTruth t [.delete 1 (ascii "10:00") false, .delete 1 (ascii "11:00") false] ∧
      ¬TellsTruth t [.delete 7 (ascii "10:00") false] := by
  refine ⟨rfl, by decide +kernel, by decide +kernel, rfl, fun h => ?_, fun h => ?_⟩
  · have hmeets := (truthful_iff _ _).mp h.truthful.2.1
    exact absurd (hmeets.resolve_left Bool.false_ne_true) (by decide +kernel)
  · have hmeets := (truthful_iff _ _).mp h.truthful.1
    exact absurd (hmeets.resolve_left Bool.false_ne_true) (by decide +kernel)

end ProductTable

end Products
