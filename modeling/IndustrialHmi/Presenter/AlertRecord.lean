import IndustrialHmi.Presenter.AlertRuns

/-!
# What the alarm store shows

`WellKept` collects what holds of the store after any calls: which records are kept
for a live alarm, what the two snapshots show and in which order, and what the
history remembers.  Two of its fields compare the store with the run that led to it:
`insertionOrder` lists the live keys in the order in which they were raised, and
`resolved` the alarms that have left since the last `clearHistory`, newest first.
-/

namespace AlertCenter

variable {τ : Type} (translate : Translators τ)

/-! ## What a run has inserted and resolved -/

/-- The key that a call makes live. -/
def inserted (c : Store τ) (call : Call τ) : List String :=
  match call.op with
  | .raise alert => if alert.key ∈ keys c then [] else [alert.key]
  | _ => []

/-- The live keys after further calls, in the order in which they were raised, when they
stand in `order` at `c`. -/
def insertionOrder (c : Store τ) (order : List String) : List (Call τ) → List String
  | [] => order
  | call :: rest =>
      let c' := (step translate c call).2
      insertionOrder c' ((order ++ inserted c call).filter (· ∈ keys c')) rest

/-- The alarms that leave at a call, as they were. -/
def resolvedBy (c : Store τ) (call : Call τ) : List (AlertViewModel τ) :=
  (c.alarms.filter fun alarm => alarm.key ∉ keys (step translate c call).2).map Alarm.vm

/-- The record of resolved alarms after a call, when it was `record` before: those that leave
go to the front, `clearHistory` empties it, and `retranslate` applies to it. -/
def recordAfter (c : Store τ) (record : List (AlertViewModel τ)) (call : Call τ) :
    List (AlertViewModel τ) :=
  match call.op with
  | .clearHistory => []
  | .retranslate => record.map (translated translate)
  | _ => (resolvedBy translate c call).reverse ++ record

/-- The alarms that have left in further calls, newest first, in front of `record`. -/
def resolved (c : Store τ) (record : List (AlertViewModel τ)) :
    List (Call τ) → List (AlertViewModel τ)
  | [] => record
  | call :: rest => resolved (step translate c call).2 (recordAfter translate c record call) rest

/-! ## The history -/

theorem push_newest {history : List (AlertHistoryEntry τ)} {record : List (AlertViewModel τ)}
    (h : history.map AlertHistoryEntry.alert = record.take kHistoryCapacity)
    (alert : AlertViewModel τ) (time : String) :
    (pushHistoryUnlocked history alert time).map AlertHistoryEntry.alert =
      (alert :: record).take kHistoryCapacity := by
  have hlength : history.length ≤ kHistoryCapacity := by
    have := congrArg List.length h
    rw [List.length_map, List.length_take] at this
    omega
  have htake : pushHistoryUnlocked history alert time =
      (⟨alert, time⟩ :: history).take kHistoryCapacity := by
    unfold pushHistoryUnlocked
    simp only [List.length_cons]
    split
    · rw [List.dropLast_eq_take, List.length_cons, show history.length = kHistoryCapacity by omega]
      rfl
    · rw [List.take_of_length_le (by simp only [List.length_cons]; omega)]
  rw [htake, List.map_take, List.map_cons, h, kHistoryCapacity, List.take_succ_cons,
    List.take_succ_cons, List.take_take]
  rfl

theorem pushAll_newest (r : Reading) (alarms : List (Alarm τ)) :
    ∀ {i : Nat} {history : List (AlertHistoryEntry τ)} {record : List (AlertViewModel τ)},
      history.map AlertHistoryEntry.alert = record.take kHistoryCapacity →
      (pushAll r alarms i history).map AlertHistoryEntry.alert =
        ((alarms.map Alarm.vm).reverse ++ record).take kHistoryCapacity := by
  induction alarms with
  | nil => intro i history record h; exact h
  | cons alarm alarms ih =>
      intro i history record h
      rw [pushAll, ih (push_newest h alarm.vm (r.formatNow i))]
      simp

/-- Who leaves at a call: the keys that the machine lets go. -/
theorem leaves_iff {c : Store τ} (hc : Unique c) (call : Call τ) (key : String) :
    key ∉ keys (step translate c call).2 ↔
      (lifecycle (status c key) (event c key call)).2 = none := by
  rw [mem_keys, Option.not_isSome_iff_eq_none, ← step_seen translate hc]
  rfl

theorem resolvedBy_nil {c : Store τ} (hc : Unique c) {call : Call τ}
    (h : ∀ alarm ∈ c.alarms,
      (lifecycle (status c alarm.key) (event c alarm.key call)).2 ≠ none) :
    resolvedBy translate c call = [] := by
  rw [resolvedBy, List.map_eq_nil_iff, List.filter_eq_nil_iff]
  intro alarm hmem
  rw [decide_eq_true_eq, leaves_iff translate hc]
  exact h alarm hmem

/-- A call that lets nobody go and leaves the history alone keeps the record. -/
theorem history_kept {c c' : Store τ} {record gone : List (AlertViewModel τ)}
    (h : c.history.map AlertHistoryEntry.alert = record.take kHistoryCapacity)
    (hgone : gone = []) (hsame : c'.history = c.history) :
    c'.history.map AlertHistoryEntry.alert = (gone.reverse ++ record).take kHistoryCapacity := by
  rw [hgone, hsame, h]
  rfl

/-- Calls that resolve nothing. -/
def Op.resolvesNothing : Op τ → Prop
  | .raise _ | .shelve _ _ | .unshelve _ | .tick => True
  | _ => False

theorem quiet_history {c : Store τ} {call : Call τ} (hop : call.op.resolvesNothing) :
    (step translate c call).2.history = c.history := by
  unfold step
  cases h : call.op <;> rw [h] at hop <;> simp only [Op.resolvesNothing] at hop
  case raise alert =>
    cases hfind : findByKey c alert.key <;> simp [raise, hfind]
  case shelve k duration =>
    show (shelve k duration call.reading c).2.history = _
    unfold shelve
    split <;> rfl
  case unshelve k =>
    show (unshelve k c).2.history = _
    unfold unshelve
    split
    · rfl
    · split <;> rfl
  case tick => rfl

theorem quiet_resolvedBy {c : Store τ} (hc : Unique c) {call : Call τ}
    (hop : call.op.resolvesNothing) : resolvedBy translate c call = [] := by
  refine resolvedBy_nil translate hc fun alarm hmem hnone => ?_
  rw [status_some (FirstMatch.find_of_mem hc hmem)] at hnone
  obtain ⟨hevent, _⟩ | ⟨hevent, _⟩ | hevent := lifecycle_leaves hnone
  · rw [event_clear hevent] at hop
    exact hop
  · rw [event_acknowledge hevent] at hop
    exact hop
  · rw [event_clearAll hevent] at hop
    exact hop

/-- A call about one key, when there is no alarm or the alarm stays. -/
theorem resolvedBy_stays {c : Store τ} (hc : Unique c) {call : Call τ} {key : String}
    {e : KeyEvent} (hevent : ∀ k, event c k call = if key = k then e else .other)
    (hstays : status c key = none ∨ (lifecycle (status c key) e).2 ≠ none) :
    resolvedBy translate c call = [] := by
  refine resolvedBy_nil translate hc fun alarm hmem => ?_
  have hlive : status c alarm.key = some alarm.status :=
    status_some (FirstMatch.find_of_mem hc hmem)
  rw [hevent]
  by_cases hkey : key = alarm.key
  · rw [hkey, hlive] at hstays
    rw [hkey, if_pos rfl, hlive]
    exact hstays.resolve_left (by simp)
  · rw [if_neg hkey, hlive]
    simp

/-- A call about one key whose alarm leaves. -/
theorem resolvedBy_leaves {c : Store τ} (hc : Unique c) {call : Call τ} {key : String}
    {e : KeyEvent} (hevent : ∀ k, event c k call = if key = k then e else .other)
    {alarm : Alarm τ} (hfind : findByKey c key = some alarm)
    (hleaves : (lifecycle (some alarm.status) e).2 = none) :
    resolvedBy translate c call = [alarm.vm] := by
  have hfilter : (c.alarms.filter fun a => a.key ∉ keys (step translate c call).2) =
      c.alarms.filter (Alarm.key · == key) := by
    refine List.filter_congr fun a hmem => ?_
    rw [Bool.eq_iff_iff, decide_eq_true_eq, beq_iff_eq, leaves_iff translate hc, hevent]
    have hlive : status c a.key = some a.status := status_some (FirstMatch.find_of_mem hc hmem)
    by_cases hkey : key = a.key
    · rw [if_pos hkey, ← hkey, status_some hfind]
      simpa using hleaves
    · simp [hkey, hlive, Ne.symm hkey]
  rw [findByKey] at hfind
  rw [resolvedBy, hfilter, FirstMatch.filter_key hc, hfind]
  rfl

/-- A call about one key whose alarm leaves from one state and stays in every other. -/
theorem keyed_history {c c' : Store τ} (hc : Unique c) {record : List (AlertViewModel τ)}
    (h : c.history.map AlertHistoryEntry.alert = record.take kHistoryCapacity) {call : Call τ}
    {key : String} {e : KeyEvent} (s : AlarmState)
    (hevent : ∀ k, event c k call = if key = k then e else .other)
    (htable : ∀ s' b, (lifecycle (some (s', b)) e).2 = none ↔ s' = s)
    (habsent : findByKey c key = none → c'.history = c.history)
    (hleaves : ∀ alarm, findByKey c key = some alarm → alarm.vm.state = s →
      ∃ time, c'.history = pushHistoryUnlocked c.history alarm.vm time)
    (hstays : ∀ alarm, findByKey c key = some alarm → alarm.vm.state ≠ s →
      c'.history = c.history) :
    c'.history.map AlertHistoryEntry.alert =
      ((resolvedBy translate c call).reverse ++ record).take kHistoryCapacity := by
  cases hfind : findByKey c key with
  | none =>
      have hgone := resolvedBy_stays translate hc hevent (Or.inl (status_none hfind))
      exact history_kept h hgone (habsent hfind)
  | some alarm =>
      by_cases hs : alarm.vm.state = s
      · have hgone : resolvedBy translate c call = [alarm.vm] :=
          resolvedBy_leaves translate hc hevent hfind ((htable _ _).mpr hs)
        obtain ⟨time, hpush⟩ := hleaves alarm hfind hs
        rw [hpush, hgone]
        exact push_newest h alarm.vm time
      · have hstatus : (lifecycle (status c key) e).2 ≠ none := by
          rw [status_some hfind]
          exact fun hnone => hs ((htable _ _).mp hnone)
        have hgone := resolvedBy_stays translate hc hevent (Or.inr hstatus)
        exact history_kept h hgone (hstays alarm hfind hs)

theorem clear_history {c : Store τ} (hc : Unique c) {record : List (AlertViewModel τ)}
    (h : c.history.map AlertHistoryEntry.alert = record.take kHistoryCapacity) {call : Call τ}
    {key : String} (hop : call.op = .clear key) :
    (clear key call.reading c).2.history.map AlertHistoryEntry.alert =
      ((resolvedBy translate c call).reverse ++ record).take kHistoryCapacity := by
  have hevent (k : String) : event c k call = if key = k then .clear else .other := by
    rw [event, hop]
  refine keyed_history translate hc h .AckActive hevent ?_ ?_ ?_ ?_
  · intro s b
    cases s <;> cases b <;> simp [lifecycle]
  · intro hfind
    simp [clear, hfind]
  · intro alarm hfind hs
    simp only [clear, hfind, hs]
    exact ⟨_, rfl⟩
  · intro alarm hfind hs
    cases hstate : alarm.vm.state <;> simp_all [clear]

theorem acknowledge_history {c : Store τ} (hc : Unique c) {record : List (AlertViewModel τ)}
    (h : c.history.map AlertHistoryEntry.alert = record.take kHistoryCapacity) {call : Call τ}
    {key : String} (hop : call.op = .acknowledge key) :
    (acknowledge key call.reading c).2.history.map AlertHistoryEntry.alert =
      ((resolvedBy translate c call).reverse ++ record).take kHistoryCapacity := by
  have hevent (k : String) : event c k call = if key = k then .acknowledge else .other := by
    rw [event, hop]
  refine keyed_history translate hc h .RtnUnack hevent ?_ ?_ ?_ ?_
  · intro s b
    cases s <;> cases b <;> simp [lifecycle]
  · intro hfind
    simp [acknowledge, hfind]
  · intro alarm hfind hs
    simp only [acknowledge, hfind, hs]
    exact ⟨_, rfl⟩
  · intro alarm hfind hs
    cases hstate : alarm.vm.state <;> simp_all [acknowledge]

theorem clearAll_history {c : Store τ} (hc : Unique c) {record : List (AlertViewModel τ)}
    (h : c.history.map AlertHistoryEntry.alert = record.take kHistoryCapacity) {call : Call τ}
    (hop : call.op = .clearAll) :
    (clearAll call.reading c).2.history.map AlertHistoryEntry.alert =
      ((resolvedBy translate c call).reverse ++ record).take kHistoryCapacity := by
  have hgone : resolvedBy translate c call = c.alarms.map Alarm.vm := by
    rw [resolvedBy, List.filter_eq_self.mpr]
    intro alarm hmem
    rw [decide_eq_true_eq, leaves_iff translate hc, event, hop,
      status_some (FirstMatch.find_of_mem hc hmem)]
    rfl
  rw [hgone, clearAll]
  split
  next hempty => simpa [List.isEmpty_iff.mp hempty] using h
  next => exact pushAll_newest call.reading c.alarms h

/-- **A call keeps the history the newest of the record.** -/
theorem step_history {c : Store τ} (hc : Unique c) {record : List (AlertViewModel τ)}
    (h : c.history.map AlertHistoryEntry.alert = record.take kHistoryCapacity) (call : Call τ) :
    (step translate c call).2.history.map AlertHistoryEntry.alert =
      (recordAfter translate c record call).take kHistoryCapacity := by
  have hquiet (hop : call.op.resolvesNothing) :
      (step translate c call).2.history.map AlertHistoryEntry.alert =
        ((resolvedBy translate c call).reverse ++ record).take kHistoryCapacity :=
    history_kept h (quiet_resolvedBy translate hc hop) (quiet_history translate hop)
  cases hop : call.op <;> simp only [recordAfter, hop]
  case clear key =>
    rw [step, hop]
    exact clear_history translate hc h hop
  case acknowledge key =>
    rw [step, hop]
    exact acknowledge_history translate hc h hop
  case clearAll =>
    rw [step, hop]
    exact clearAll_history translate hc h hop
  case clearHistory =>
    rw [step, hop]
    show (clearHistory c).2.history.map _ = _
    rw [clearHistory]
    split
    next hempty => simp [List.isEmpty_iff.mp hempty]
    next => rfl
  case retranslate =>
    rw [step, hop, ← List.map_take, ← h, List.map_map]
    show (retranslate translate c).2.history.map _ = _
    rw [retranslate, List.map_map]
    rfl
  all_goals
    refine hquiet ?_
    rw [hop]
    exact trivial

theorem after_history (calls : List (Call τ)) :
    ∀ {c : Store τ}, Unique c → ∀ {record : List (AlertViewModel τ)},
      c.history.map AlertHistoryEntry.alert = record.take kHistoryCapacity →
      (Transducer.final (step translate) c calls).history.map AlertHistoryEntry.alert =
        (resolved translate c record calls).take kHistoryCapacity := by
  induction calls with
  | nil => intro c _ record h; exact h
  | cons call calls ih =>
      intro c hc record h
      exact ih (step_unique translate hc call) (step_history translate hc h call)

/-! ## Insertion order -/

/-- A list without repetitions is sifted out of any longer one by membership. -/
theorem filter_mem_of_sublist {l l' : List String} (h : l'.Sublist l) (hnd : l.Nodup) :
    l.filter (· ∈ l') = l' := by
  induction h with
  | slnil => rfl
  | cons a hsub ih =>
      rename_i l' l
      rw [List.nodup_cons] at hnd
      have ha : a ∉ l' := fun hmem => hnd.1 (hsub.subset hmem)
      rw [List.filter_cons_of_neg (by simpa using ha), ih hnd.2]
  | cons_cons a hsub ih =>
      rename_i l' l
      rw [List.nodup_cons] at hnd
      rw [List.filter_cons_of_pos (by simp)]
      congr 1
      refine (List.filter_congr fun b hb => ?_).trans (ih hnd.2)
      have hba : b ≠ a := fun hba => hnd.1 (hba ▸ hb)
      simp [hba]

/-- A call keeps the alarms in insertion order. -/
theorem step_order {c : Store τ} (hc : Unique c) (call : Call τ) :
    keys (step translate c call).2 =
      (keys c ++ inserted c call).filter (· ∈ keys (step translate c call).2) := by
  cases hop : call.op with
  | raise alert =>
      have hnext : (step translate c call).2 = (raise alert call.reading c).2 := by
        rw [step, hop]
      have hkeys : keys (raise alert call.reading c).2 = keys c ++ inserted c call := by
        rw [inserted, hop]
        obtain ⟨hmem, hkeys⟩ | ⟨hnew, hkeys⟩ := raise_keys alert call.reading c
        · simp [hkeys, hmem]
        · simp [hkeys, hnew]
      rw [hnext, hkeys]
      exact (List.filter_eq_self.mpr (by simp)).symm
  | _ =>
      have hnone : inserted c call = [] := by rw [inserted, hop]
      rw [hnone, List.append_nil]
      exact (filter_mem_of_sublist
        (keys_sublist translate c call (by rw [hop]; exact fun _ => by simp)) hc).symm

theorem after_order (calls : List (Call τ)) :
    ∀ {c : Store τ}, Unique c →
      keys (Transducer.final (step translate) c calls) =
        insertionOrder translate c (keys c) calls := by
  induction calls with
  | nil => intro c _; rfl
  | cons call calls ih =>
      intro c hc
      rw [insertionOrder, ← step_order translate hc]
      exact ih (step_unique translate hc call)

/-! ## The snapshots -/

theorem byPriority_trans (a b c : AlertViewModel τ) :
    decide (a.priority ≤ b.priority) = true → decide (b.priority ≤ c.priority) = true →
      decide (a.priority ≤ c.priority) = true := by
  simp only [decide_eq_true_eq]
  exact Int.le_trans

theorem byPriority_total (a b : AlertViewModel τ) :
    (decide (a.priority ≤ b.priority) || decide (b.priority ≤ a.priority)) = true := by
  simp only [Bool.or_eq_true, decide_eq_true_eq]
  exact Int.le_total _ _

theorem snapshot_sorted (c : Store τ) : (snapshot c).Pairwise (·.priority ≤ ·.priority) := by
  have hsorted := List.pairwise_mergeSort byPriority_trans byPriority_total
    ((c.alarms.filter fun alarm => alarm.vm.state ≠ .Shelved).map Alarm.vm)
  exact hsorted.imp fun h => of_decide_eq_true h

/-- The rows of one priority stand in the order of the store. -/
theorem snapshot_stable (c : Store τ) (priority : Int) :
    (((snapshot c).filter (·.priority = priority)).map AlertViewModel.key).Sublist (keys c) := by
  have hclass : (snapshot c).filter (·.priority = priority) = _ :=
    filter_mergeSort byPriority_trans byPriority_total (fun a b ha hb => by simp_all) _
  have hkeys : keys c = (c.alarms.map Alarm.vm).map AlertViewModel.key := by
    rw [List.map_map]
    rfl
  rw [hclass, hkeys]
  exact (List.filter_sublist.trans (List.filter_sublist.map _)).map _

theorem mem_snapshot {c : Store τ} {vm : AlertViewModel τ} (h : vm ∈ snapshot c) :
    vm.state ≠ .Shelved := by
  rw [snapshot, List.mem_mergeSort] at h
  obtain ⟨alarm, hmem, rfl⟩ := List.mem_map.mp h
  simpa using (List.mem_filter.mp hmem).2

theorem mem_shelvedSnapshot {sort : Sorting (byDeadline (τ := τ))} {now : Int} {c : Store τ}
    {row : ShelvedView τ} (h : row ∈ shelvedSnapshot sort now c) :
    ∃ alarm ∈ c.alarms, alarm.vm.state = .Shelved ∧ row = alarm.shelvedView now := by
  obtain ⟨alarm, hmem, rfl⟩ := List.mem_map.mp ((sort.perm _).mem_iff.mp h)
  obtain ⟨hmem, hs⟩ := List.mem_filter.mp hmem
  exact ⟨alarm, hmem, of_decide_eq_true hs, rfl⟩

theorem secondsRemaining_nonneg (now : Int) (alarm : Alarm τ) :
    0 ≤ (alarm.shelvedView now).secondsRemaining := by
  rw [Alarm.shelvedView]
  simp only
  split <;> omega

/-! ## Everything that is kept -/

/-- What holds of the store after the calls of a run. -/
structure WellKept (calls : List (Call τ)) (c : Store τ) : Prop where
  keys_unique : (keys c).Nodup
  active_states : ∀ alarm ∈ c.alarms,
    alarm.vm.state = .UnackActive ∨ alarm.vm.state = .AckActive → alarm.conditionActive = true
  returned_state : ∀ alarm ∈ c.alarms,
    alarm.vm.state = .RtnUnack → alarm.conditionActive = false
  /-- The condition flag is the last process input for the key. -/
  condition : ∀ alarm ∈ c.alarms,
    lastInput alarm.key calls = some (if alarm.conditionActive then .raise else .clear)
  /-- The two snapshots divide the live alarms between them. -/
  partition : ∀ (sort : Sorting (byDeadline (τ := τ))) (now : Int),
    (snapshot c ++ (shelvedSnapshot sort now c).map ShelvedView.vm).Perm (c.alarms.map Alarm.vm)
  visible : ∀ vm ∈ snapshot c, vm.state ≠ .Shelved
  shelved : ∀ (sort : Sorting (byDeadline (τ := τ))) (now : Int),
    ∀ row ∈ shelvedSnapshot sort now c, row.vm.state = .Shelved
  by_priority : (snapshot c).Pairwise (·.priority ≤ ·.priority)
  /-- Within a priority, the rows stand in insertion order. -/
  by_insertion : ∀ priority : Int,
    (((snapshot c).filter (·.priority = priority)).map AlertViewModel.key).Sublist
      (insertionOrder translate {} [] calls)
  by_deadline : ∀ (sort : Sorting (byDeadline (τ := τ))) (now : Int),
    (shelvedSnapshot sort now c).Pairwise (·.deadline ≤ ·.deadline)
  seconds : ∀ (sort : Sorting (byDeadline (τ := τ))) (now : Int),
    ∀ row ∈ shelvedSnapshot sort now c, 0 ≤ row.secondsRemaining
  /-- The newest at most 50 alarms resolved since the last `clearHistory`, newest first. -/
  history : c.history.map AlertHistoryEntry.alert =
    (resolved translate {} [] calls).take kHistoryCapacity

/-- **After any calls the store is well kept.** -/
theorem after_wellKept (calls : List (Call τ)) :
    WellKept translate calls (after translate calls) := by
  have hunique := after_unique translate calls
  have hstatus (alarm : Alarm τ) (hmem : alarm ∈ (after translate calls).alarms) :
      status (after translate calls) alarm.key = some (alarm.vm.state, alarm.conditionActive) :=
    status_some (FirstMatch.find_of_mem hunique hmem)
  have hconsistent (alarm : Alarm τ) (hmem : alarm ∈ (after translate calls).alarms) :
      Consistent (some (alarm.vm.state, alarm.conditionActive)) :=
    hstatus alarm hmem ▸ after_consistent translate calls alarm.key
  constructor
  case keys_unique => exact hunique
  case active_states =>
    intro alarm hmem hs
    have h := hconsistent alarm hmem
    cases hs with
    | inl hs => rwa [hs] at h
    | inr hs => rwa [hs] at h
  case returned_state =>
    intro alarm hmem hs
    have h := hconsistent alarm hmem
    rwa [hs] at h
  case condition =>
    intro alarm hmem
    obtain ⟨input, hlast, hactive⟩ := after_heeds translate calls alarm.key _ _ (hstatus alarm hmem)
    rw [hlast, hactive]
    cases input <;> rfl
  case partition => exact fun sort now => snapshots_perm sort now _
  case visible => exact fun vm hmem => mem_snapshot hmem
  case shelved =>
    intro sort now row hmem
    obtain ⟨alarm, _, hs, rfl⟩ := mem_shelvedSnapshot hmem
    exact hs
  case by_priority => exact snapshot_sorted _
  case by_insertion =>
    intro priority
    have horder : keys (after translate calls) = insertionOrder translate {} [] calls :=
      after_order translate calls (c := {}) List.nodup_nil
    exact horder ▸ snapshot_stable _ priority
  case by_deadline => exact fun sort now => (sort.sorted _).imp fun h => of_decide_eq_true h
  case seconds =>
    intro sort now row hmem
    obtain ⟨alarm, _, _, rfl⟩ := mem_shelvedSnapshot hmem
    exact secondsRemaining_nonneg now alarm
  case history => exact after_history translate calls (c := {}) List.nodup_nil rfl

end AlertCenter
