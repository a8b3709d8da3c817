import IndustrialHmi.Integration.PrimaryToSecondaryBridge

/-!
# Convergence of the secondary

Each field of an entity is a cell, and the two models with their threads simulate two
stores whose cells are written, read and forwarded.  A forward of a value that is out of
date can come last, so that the secondary keeps it; it does not when the current value
is still to come.
-/

namespace Bridge

open Production

variable {θ : Type} [DecidableEq θ]

/-! ## The models simulate stores of cells -/

/-- The cell is valid in both models. -/
def Valid (c : SimulatedModel) (m : MirrorModel) (k : Cell) : Prop :=
  InPrimary c k ∧ InSecondary m k

/-- Every call concerns a valid cell, and what is written or held is in the range of the
secondary. -/
structure Thread.Ready (c : SimulatedModel) (m : MirrorModel) (t : Thread) : Prop where
  todo : ∀ call ∈ t.todo, Valid c m call.cell
  written : ∀ call, t.stage = .written call → Valid c m call.cell ∧
    ∃ v, cells c.equipmentStatuses c.qualityCheckpoints call.cell = some v ∧ v.Stable
  snapped : ∀ sent, t.stage = .snapped sent → Deliverable m sent

structure System.Ready (s : System θ) : Prop where
  running : s.running = true
  threads : ∀ t, (s.threads t).Ready s.primary s.secondary

/-- Two pairs of models in which a ready thread stays ready: valid cells stay valid, and
values stay in range. -/
structure Extends (c c' : SimulatedModel) (m m' : MirrorModel) : Prop where
  valid : ∀ k, Valid c m k → Valid c' m' k
  stable : ∀ k v, cells c.equipmentStatuses c.qualityCheckpoints k = some v → v.Stable →
    ∃ v', cells c'.equipmentStatuses c'.qualityCheckpoints k = some v' ∧ v'.Stable
  secondary : ∀ k, InSecondary m k → InSecondary m' k

theorem Thread.Ready.extend {c c' : SimulatedModel} {m m' : MirrorModel} {t : Thread}
    (h : t.Ready c m) (hext : Extends c c' m m') : t.Ready c' m' := by
  refine ⟨fun call hmem => hext.valid _ (h.todo call hmem), fun call hstage => ?_,
    fun sent hstage => ?_⟩
  · obtain ⟨hvalid, v, hv, hstable⟩ := h.written call hstage
    exact ⟨hext.valid _ hvalid, hext.stable _ v hv hstable⟩
  · obtain ⟨k, v, hview, hk, hv⟩ := h.snapped sent hstage
    exact ⟨k, v, hview, hext.secondary k hk, hv⟩

/-- A step that changes one thread keeps the others ready. -/
theorem System.Ready.update {s : System θ} (h : s.Ready) {c : SimulatedModel} {m : MirrorModel}
    (hext : Extends s.primary c s.secondary m) (t : θ) {thread : Thread}
    (hthread : thread.Ready c m) :
    System.Ready
      { s with
        primary := c
        secondary := m
        threads := Function.update s.threads t thread } := by
  refine ⟨h.running, fun t' => ?_⟩
  by_cases ht : t' = t
  · subst ht
    simpa using hthread
  · simpa [ht] using (h.threads t').extend hext

theorem view_threads_update (threads : θ → Thread) (t : θ) (thread : Thread) :
    (fun t' => (Function.update threads t thread t').view) =
      Function.update (fun t' => (threads t').view) t thread.view :=
  Function.comp_update Thread.view threads t thread

/-- The step that writes. -/
theorem System.Ready.write {s : System θ} (h : s.Ready) {t : θ} {call : Call} {todo : List Call}
    (hthread : s.threads t = { todo := call :: todo }) :
    (s.step t).Ready ∧ (s.step t).view = s.view.step t := by
  have htodo : ∀ call' ∈ call :: todo, Valid s.primary s.secondary call'.cell := by
    have hready := (h.threads t).todo
    rw [hthread] at hready
    exact hready
  have hvalid := htodo call List.mem_cons_self
  obtain ⟨primary, hwrite, hcells⟩ := write_valid hvalid.1
  have hstep : s.step t =
      { s with
        primary := primary
        threads := Function.update s.threads t { stage := .written call, todo := todo } } := by
    simp only [System.step, hthread, hwrite]
  have hext : Extends s.primary primary s.secondary s.secondary := by
    refine ⟨fun k hk => ⟨inPrimary_write hwrite hk.1, hk.2⟩, fun k v hv hstable => ?_,
      fun _ hk => hk⟩
    rw [hcells]
    by_cases hk : k = call.cell
    · exact ⟨call.value, by rw [hk, Function.update_self], call.value_stable⟩
    · exact ⟨v, by rw [Function.update_of_ne hk, hv], hstable⟩
  have hview : s.view.threads t =
      { stage := .idle, todo := (call.cell, some call.value) ::
          todo.map fun call => (call.cell, some call.value) } := by
    simp only [System.view, hthread]
    rfl
  rw [hstep]
  constructor
  · refine h.update hext t ⟨fun call' hmem => hext.valid _ (htodo call' ?_), ?_, nofun⟩
    · exact List.mem_cons_of_mem call hmem
    · rintro call' ⟨⟩
      exact ⟨hext.valid _ hvalid, call.value, by rw [hcells, Function.update_self],
        call.value_stable⟩
  · simp only [Mirroring.Stores.step, hview]
    simp only [System.view, hcells, view_threads_update]
    rfl

/-- The step that takes the snapshot. -/
theorem System.Ready.snapshot {s : System θ} (h : s.Ready) {t : θ} {call : Call}
    (hstage : (s.threads t).stage = .written call) :
    (s.step t).Ready ∧ (s.step t).view = s.view.step t := by
  obtain ⟨hvalid, v, hv, hstable⟩ := (h.threads t).written call hstage
  obtain ⟨hsame, hview⟩ := snapshot_valid hvalid.1
  have hstep : s.step t =
      { s with
        threads := Function.update s.threads t
          { stage := .snapped (Bridge.snapshot s.primary call).2
            todo := (s.threads t).todo } } := by
    simp only [System.step, hstage, hsame]
  have hwritten : (s.view.threads t).stage = .written call.cell := by
    simp only [System.view, Thread.view, hstage]
    rfl
  rw [hstep]
  constructor
  · refine h.update ⟨fun _ hk => hk, fun _ v hv hs => ⟨v, hv, hs⟩, fun _ hk => hk⟩ t
      ⟨(h.threads t).todo, nofun, ?_⟩
    rintro sent ⟨⟩
    exact ⟨call.cell, v, hview.trans (congrArg _ hv), hvalid.2, hstable⟩
  · simp only [Mirroring.Stores.step, hwritten]
    simp only [System.view, view_threads_update]
    simp only [Thread.view, hview]

/-- The step that forwards. -/
theorem System.Ready.forward {s : System θ} (h : s.Ready) {t : θ} {sent : List Notification}
    (hstage : (s.threads t).stage = .snapped sent) :
    (s.step t).Ready ∧ (s.step t).view = s.view.step t := by
  obtain ⟨k, v, hview, hk, hv⟩ := (h.threads t).snapped sent hstage
  obtain ⟨hcells, hsecondary⟩ := forward_deliverable hview hk hv
  have hstep : s.step t =
      { s with
        secondary := sent.foldl (Bridge.forward true) s.secondary
        threads := Function.update s.threads t { todo := (s.threads t).todo } } := by
    simp only [System.step, hstage, h.running]
  have hext : Extends s.primary s.primary s.secondary
      (sent.foldl (Bridge.forward true) s.secondary) :=
    ⟨fun k hk => ⟨hk.1, hsecondary k hk.2⟩, fun _ v hv hs => ⟨v, hv, hs⟩, hsecondary⟩
  have hholding : (s.view.threads t).stage = .holding k (some v) := by
    simp only [System.view, Thread.view, hstage]
    exact hview
  rw [hstep]
  constructor
  · exact h.update hext t
      ⟨fun call hmem => hext.valid _ ((h.threads t).todo call hmem), nofun, nofun⟩
  · simp only [Mirroring.Stores.step, hholding]
    simp only [System.view, view_threads_update, hcells]
    rfl

theorem System.Ready.step {s : System θ} (h : s.Ready) (t : θ) :
    (s.step t).Ready ∧ (s.step t).view = s.view.step t := by
  rcases hthread : s.threads t with ⟨stage, todo⟩
  cases stage with
  | idle =>
      cases todo with
      | nil =>
          have hstep : s.step t = s := by simp only [System.step, hthread]
          have hidle : s.view.threads t = { todo := [] } := by
            simp only [System.view, hthread]
            rfl
          rw [hstep]
          exact ⟨h, by simp only [Mirroring.Stores.step, hidle]⟩
      | cons call todo => exact h.write hthread
  | written call => exact h.snapshot (by rw [hthread])
  | snapped sent => exact h.forward (by rw [hthread])

/-! ## Runs -/

/-- At every step of a run, the snapshot that is forwarded, if one is, is current, or
another call is under way that has still to read the field or holds its current value. -/
def System.ForwardsFresh (s : System θ) : List θ → Prop
  | [] => True
  | t :: turns => s.view.Fresh t ∧ (s.step t).ForwardsFresh turns

theorem System.Ready.run {s : System θ} (h : s.Ready) (turns : List θ) :
    (s.run turns).view = s.view.run turns ∧
      (s.ForwardsFresh turns → s.view.FreshRun turns) := by
  induction turns generalizing s with
  | nil => exact ⟨rfl, fun _ => trivial⟩
  | cons t turns ih =>
      obtain ⟨hready, hview⟩ := h.step t
      obtain ⟨hrun, hfresh⟩ := ih hready
      rw [hview] at hrun hfresh
      exact ⟨hrun, fun hf => ⟨hf.1, hfresh hf.2⟩⟩

/-- The bridge runs, no thread has begun, and every call concerns an entity that both
models have. -/
structure System.Start (s : System θ) : Prop where
  running : s.running = true
  idle : ∀ t, (s.threads t).stage = .idle
  valid : ∀ t, ∀ call ∈ (s.threads t).todo, Valid s.primary s.secondary call.cell

/-- All calls have returned. -/
def System.Returned (s : System θ) : Prop := ∀ t, s.threads t = { todo := [] }

omit [DecidableEq θ] in
theorem System.Start.ready {s : System θ} (h : s.Start) : s.Ready := by
  refine ⟨h.running, fun t => ⟨h.valid t, fun call hstage => ?_, fun sent hstage => ?_⟩⟩ <;>
  · rw [h.idle t] at hstage
    cases hstage

/-- When no forward is out of date unless a current one is still to come, and all calls
have returned, the secondary has the value of the primary for every field that was set. -/
theorem secondary_converges {s : System θ} (hstart : s.Start) {turns : List θ}
    (hfresh : s.ForwardsFresh turns) (hreturned : (s.run turns).Returned) (t : θ) :
    ∀ call ∈ (s.threads t).todo,
      (s.run turns).view.secondary call.cell = (s.run turns).view.primary call.cell := by
  intro call hmem
  obtain ⟨hview, hfreshView⟩ := hstart.ready.run turns
  have hawaited : s.view.Awaited call.cell :=
    ⟨t, some call.value, List.mem_map.mpr ⟨call, hmem, rfl⟩⟩
  have hquiescent : (s.view.run turns).Quiescent := fun t' => by
    rw [← hview]
    exact congrArg Thread.view (hreturned t')
  rw [hview]
  exact Mirroring.Stores.run_agrees hawaited (hfreshView hfresh) hquiescent

/-- The demo line and its mirror, with two threads that set the level of the first line. -/
def demo : System Bool where
  primary := ({} : SimulatedModel).initializeDemoData.1
  secondary := .create 3 3
  threads t := { todo := [.setEquipmentSupplyLevel 0 (if t then 20 else 10)] }

theorem demo_start : demo.Start := by
  refine ⟨rfl, fun _ => rfl, fun t call hmem => ?_⟩
  obtain rfl := List.mem_singleton.mp hmem
  exact ⟨⟨by decide, ⟨0, 2, 85, "85K tablets/hr"⟩, by decide, rfl⟩,
    show 0 ∈ demo.secondary.equipment by decide⟩

/-- The first thread forwards a level that is out of date, while the second has still to
read the one it wrote. -/
theorem secondary_converges_demo :
    (demo.run [false, false, true, false, true, true]).view.secondary (.supplyLevel 0) =
      (demo.run [false, false, true, false, true, true]).view.primary (.supplyLevel 0) := by
  have hfresh : demo.ForwardsFresh [false, false, true, false, true, true] :=
    ⟨by decide, by decide, by decide, by decide, by decide, by decide, trivial⟩
  exact secondary_converges demo_start hfresh (fun t => by cases t <;> rfl) false
    (.setEquipmentSupplyLevel 0 10) (List.mem_singleton_self _)

/-- The first thread forwards its level after the second has forwarded a later one. -/
theorem stale_forward_stays :
    demo.Start ∧ (demo.run [false, false, true, true, true, false]).Returned ∧
      (demo.run [false, false, true, true, true, false]).view.primary (.supplyLevel 0) =
        some (.level 20) ∧
      (demo.run [false, false, true, true, true, false]).view.secondary (.supplyLevel 0) =
        some (.level 10) := by
  refine ⟨demo_start, fun t => by cases t <;> rfl, ?_, ?_⟩
  · decide
  · decide

end Bridge
