import IndustrialHmi.Presenter.AlertRuns
import IndustrialHmi.Theory.DeferredLog

/-!
# The audit journal

A call of the alarm store changes it under the lock and writes its audit entries
after the lock is released, so the journal is a log written after the fact.  While a
thread holds an entry back, another may change the same alarm and write first; and
what the process says about a shelved alarm is not journalled at all, so that two
runs with one journal may end in different states (`journal_out_of_order`).

Otherwise the journal tells what happened (`journal_true`): in a run in which no call
changes an alarm that still has an unwritten entry, the entries of each key are its
transitions in order, and with the last process input for an alarm off the shelf they
give back the live states.
-/

namespace AlertCenter

open DeferredLog

variable {τ θ : Type} [DecidableEq θ] (translate : Translators τ)

/-! ## The journal of a run -/

/-- A call as the journal sees it. -/
def auditStep (c : Store τ) (call : Call τ) : List AuditEntry × Store τ :=
  ((step translate c call).1.audit, (step translate c call).2)

/-- A run of calls and journal writes by any threads. -/
def audited (actions : List (Action (Call τ) θ)) : Config (Store τ) (Call τ) AuditEntry θ :=
  run (auditStep translate) { state := {} } actions

/-- The audit entries of calls made one after the other. -/
def made (calls : List (Call τ)) : List AuditEntry := entries (auditStep translate) {} calls

/-- The actions journalled for a key. -/
def actionsOf (key : String) (journal : List AuditEntry) : List AuditAction :=
  (journal.filter (·.key = key)).map AuditEntry.action

theorem final_auditStep (calls : List (Call τ)) :
    ∀ c : Store τ, Transducer.final (auditStep translate) c calls =
      Transducer.final (step translate) c calls := by
  induction calls with
  | nil => intro c; rfl
  | cons call calls ih => intro c; exact ih _

theorem actionsOf_append (key : String) (journal journal' : List AuditEntry) :
    actionsOf key (journal ++ journal') = actionsOf key journal ++ actionsOf key journal' := by
  rw [actionsOf, List.filter_append, List.map_append]
  rfl

/-- A call journals for a key what the machine gives there. -/
theorem actionsOf_made_concat (calls : List (Call τ)) (call : Call τ) (key : String) :
    actionsOf key (made translate (calls ++ [call])) =
      actionsOf key (made translate calls) ++
        (lifecycle (status (after translate calls) key)
          (event (after translate calls) key call)).1 := by
  rw [made, entries_concat, actionsOf_append, final_auditStep,
    ← step_seen translate (after_unique translate calls)]
  rfl

/-! ## Reading the journal back -/

/-- The state that an entry leaves the alarm in, when `last` is the last process input: from
the shelf it goes where the condition asks. -/
def leaves (last : Option ProcessInput) : AuditAction → Option AlarmState
  | .RAISE | .REALARM => some .UnackActive
  | .ACK => some .AckActive
  | .RTN => some .RtnUnack
  | .RESOLVE => none
  | .SHELVE => some .Shelved
  | .UNSHELVE | .EXPIRE => some (if last = some .raise then .UnackActive else .RtnUnack)

/-- The state of an alarm after its journal. -/
def replay (last : Option ProcessInput) (journal : List AuditAction) : Option AlarmState :=
  journal.foldl (fun _ action => leaves last action) none

theorem replay_concat (last : Option ProcessInput) (journal : List AuditAction)
    (action : AuditAction) : replay last (journal ++ [action]) = leaves last action := by
  simp [replay]

/-- At most one entry for a key, and with an entry the state that it leaves. -/
theorem lifecycle_entry {last : Option ProcessInput} {m : Status} (hm : Consistent m)
    (hheeds : Heeds last m) (e : KeyEvent) :
    ((lifecycle m e).1 = [] ∧ (lifecycle m e).2.map Prod.fst = m.map Prod.fst) ∨
    ∃ action, (lifecycle m e).1 = [action] ∧
      (lifecycle m e).2.map Prod.fst = leaves (e.input.or last) action := by
  rcases m with _ | ⟨s, b⟩
  · cases e <;> simp [lifecycle, leaves]
  · obtain ⟨input, hlast, hb⟩ := hheeds s b rfl
    subst hlast hb
    cases e <;> cases s <;> cases input <;>
      simp_all [lifecycle, leaves, unshelved, KeyEvent.input, ProcessInput.active, Consistent]

/-- Off the shelf, an unacknowledged alarm stands where the last process input asks. -/
theorem leaves_unshelved {last last' : Option ProcessInput} {m : Status} (hm : Consistent m)
    (hheeds : Heeds last' m) {action : AuditAction}
    (h : m.map Prod.fst = leaves last action) : m.map Prod.fst = leaves last' action := by
  rcases m with _ | ⟨s, b⟩
  · cases action <;> simp_all [leaves]
  · obtain ⟨input, hlast, hb⟩ := hheeds s b rfl
    subst hlast hb
    by_cases hraise : last = some .raise <;> cases action <;> cases s <;> cases input <;>
      simp_all [leaves, ProcessInput.active, Consistent]

theorem lifecycle_replay {last : Option ProcessInput} {m : Status} {journal : List AuditAction}
    (hm : Consistent m) (hheeds : Heeds last m) (h : m.map Prod.fst = replay last journal)
    (e : KeyEvent) :
    (lifecycle m e).2.map Prod.fst =
      replay (e.input.or last) (journal ++ (lifecycle m e).1) := by
  obtain ⟨hnone, hsame⟩ | ⟨action, haction, hleaves⟩ := lifecycle_entry hm hheeds e
  · rw [hnone, List.append_nil, hsame]
    have hnext := lifecycle_heeds hheeds e
    have hnextm := lifecycle_consistent hm e
    cases journal using List.reverseRecOn with
    | nil => exact h
    | append_singleton journal action =>
        rw [replay_concat] at h ⊢
        rw [← hsame] at h ⊢
        exact leaves_unshelved hnextm hnext h
  · rw [haction, replay_concat, hleaves]

theorem made_replay (calls : List (Call τ)) (key : String) :
    stateOf (after translate calls) key =
      replay (lastInput key calls) (actionsOf key (made translate calls)) := by
  induction calls using List.reverseRecOn with
  | nil => rfl
  | append_singleton calls call ih =>
      rw [stateOf, status_concat, actionsOf_made_concat, lastInput_concat,
        ← event_input (after translate calls)]
      exact lifecycle_replay (after_consistent translate calls key)
        (after_heeds translate calls key) ih _

/-! ## Raises and resolutions alternate -/

/-- The raises and the resolutions balance, up to a live alarm. -/
structure Balanced (m : Status) (journal : List AuditAction) : Prop where
  total : journal.count .RAISE = journal.count .RESOLVE + if m.isSome then 1 else 0
  prefixes : ∀ early, early <+: journal → early.count .RESOLVE ≤ early.count .RAISE

/-- A raise makes an absent alarm live, a resolution a live one absent, and nothing else
does either. -/
theorem lifecycle_liveness (m : Status) (e : KeyEvent) :
    ((lifecycle m e).1.count .RAISE + if m.isSome then 1 else 0) =
      (lifecycle m e).1.count .RESOLVE + if (lifecycle m e).2.isSome then 1 else 0 := by
  rcases m with _ | ⟨s, b⟩
  · cases e <;> simp [lifecycle]
  · cases e <;> cases s <;> simp [lifecycle]

theorem lifecycle_balanced {m : Status} {journal : List AuditAction} (h : Balanced m journal)
    {e : KeyEvent} (hentry : (lifecycle m e).1 = [] ∨ ∃ action, (lifecycle m e).1 = [action]) :
    Balanced (lifecycle m e).2 (journal ++ (lifecycle m e).1) := by
  have htotal : (journal ++ (lifecycle m e).1).count .RAISE =
      (journal ++ (lifecycle m e).1).count .RESOLVE +
        if (lifecycle m e).2.isSome then 1 else 0 := by
    have hlive := lifecycle_liveness m e
    have hbefore := h.total
    rw [List.count_append, List.count_append]
    omega
  refine ⟨htotal, fun early hearly => ?_⟩
  obtain hnone | ⟨action, haction⟩ := hentry
  · rw [hnone, List.append_nil] at hearly
    exact h.prefixes early hearly
  · rw [haction] at hearly htotal
    obtain rfl | hbefore := List.prefix_concat_iff.mp hearly
    · omega
    · exact h.prefixes early hbefore

theorem made_balanced (calls : List (Call τ)) (key : String) :
    Balanced (status (after translate calls) key) (actionsOf key (made translate calls)) := by
  induction calls using List.reverseRecOn with
  | nil => exact ⟨rfl, fun early hearly => by simp [List.prefix_nil.mp hearly]⟩
  | append_singleton calls call ih =>
      rw [status_concat, actionsOf_made_concat]
      refine lifecycle_balanced ih ?_
      obtain ⟨hnone, _⟩ | ⟨action, haction, _⟩ := lifecycle_entry
        (after_consistent translate calls key) (after_heeds translate calls key)
        (event (after translate calls) key call)
      · exact Or.inl hnone
      · exact Or.inr ⟨action, haction⟩

/-! ## The journal of a quiet run -/

theorem auditStep_distinct {c : Store τ} (hc : Unique c) (call : Call τ) :
    ((auditStep translate c call).1.map AuditEntry.key).Nodup := by
  rw [List.nodup_iff_count_le_one]
  intro key
  have hfew : (auditOf key (step translate c call).1).length ≤ 1 := by
    have hseen := congrArg Prod.fst (step_seen translate hc call key)
    rw [show auditOf key (step translate c call).1 = _ from hseen]
    rcases status c key with _ | ⟨s, b⟩
    · cases event c key call <;> simp [lifecycle]
    · cases event c key call <;> cases s <;> simp [lifecycle]
  rw [auditOf, List.length_map, ← List.countP_eq_length_filter] at hfew
  rw [List.count, List.countP_map]
  exact hfew

theorem actionsOf_under (key : String) (journal : List AuditEntry) :
    actionsOf key journal = (under AuditEntry.key key journal).map AuditEntry.action := rfl

theorem count_actionsOf (key : String) (journal : List AuditEntry) (action : AuditAction) :
    (actionsOf key journal).count action = journal.count ⟨action, key⟩ := by
  induction journal with
  | nil => rfl
  | cons entry journal ih =>
      rw [← List.singleton_append, actionsOf_append, List.count_append, List.count_append, ih]
      congr 1
      obtain ⟨a, k⟩ := entry
      by_cases hk : k = key <;> by_cases ha : a = action <;>
        simp [actionsOf, hk, ha]

/-- **The journal tells what happened.**  In any run, every entry is written once.  In a run in
which no call changes an alarm that has an unwritten entry, the journal of each key is what its
transitions gave, in order; when all entries are written, reading it back with the last process
input for the key gives the live state; and a resolution always follows a raise of its own. -/
theorem journal_true (actions : List (Action (Call τ) θ)) :
    ((audited translate actions).log ++ (audited translate actions).unwritten.map Prod.snd).Perm
      (made translate (audited translate actions).calls) ∧
    (QuietRun (auditStep translate) AuditEntry.key { state := {} } actions →
      (∀ key, actionsOf key (audited translate actions).log <+:
        actionsOf key (made translate (audited translate actions).calls)) ∧
      ((audited translate actions).unwritten = [] → ∀ key,
        actionsOf key (audited translate actions).log =
          actionsOf key (made translate (audited translate actions).calls) ∧
        stateOf (audited translate actions).state key =
          replay (lastInput key (audited translate actions).calls)
            (actionsOf key (audited translate actions).log)) ∧
      ∀ early, early <+: (audited translate actions).log → ∀ key,
        early.count ⟨.RESOLVE, key⟩ ≤ early.count ⟨.RAISE, key⟩) := by
  have hacc := run_accounts (auditStep translate) {} actions
  refine ⟨hacc.entries, fun hquiet => ?_⟩
  have hempty : Unique ({} : Store τ) := List.nodup_nil
  have hordered := run_ordered (auditStep translate) AuditEntry.key
    (fun c call hc => step_unique translate hc call)
    (fun c call hc => auditStep_distinct translate hc call) actions hempty
    (Accounts.start _ _) (InOrder.start _ _ _) hquiet
  have hstate : (audited translate actions).state =
      after translate (audited translate actions).calls :=
    hacc.state.trans (final_auditStep translate _ _)
  have horder (key : String) : actionsOf key (audited translate actions).log ++
      actionsOf key ((audited translate actions).unwritten.map Prod.snd) =
      actionsOf key (made translate (audited translate actions).calls) := by
    rw [actionsOf_under, actionsOf_under, ← List.map_append]
    exact congrArg (List.map AuditEntry.action) (hordered.order key)
  refine ⟨fun key => ⟨_, horder key⟩, fun hall key => ?_, fun early hearly key => ?_⟩
  · have hlog : actionsOf key (audited translate actions).log =
        actionsOf key (made translate (audited translate actions).calls) := by
      have h := horder key
      rw [hall] at h
      exact (List.append_nil _).symm.trans h
    refine ⟨hlog, ?_⟩
    rw [hstate, hlog]
    exact made_replay translate _ key
  · have hprefix : actionsOf key early <+:
        actionsOf key (made translate (audited translate actions).calls) :=
      ((hearly.filter _).map _).trans ⟨_, horder key⟩
    rw [← count_actionsOf, ← count_actionsOf]
    exact (made_balanced translate _ key).prefixes _ hprefix

/-! ## Two threads -/

/-- A call made when the clocks stand still. -/
def atNoon (op : Op Empty) : Call Empty :=
  { op, reading := { now := 0, formatNow := fun _ => "12:00:00" } }

/-- The first thread raises, the second acknowledges once that is journalled. -/
def takeTurns : List (Action (Call Empty) Bool) :=
  [.call true (atNoon (.raise { key := "pump" })), .write true,
    .call false (atNoon (.acknowledge "pump")), .write false]

/-- Such a run is quiet, and its journal gives the live state. -/
theorem journal_true_takeTurns :
    stateOf (audited .absent takeTurns).state "pump" = some .AckActive ∧
      replay (some .raise) (actionsOf "pump" (audited .absent takeTurns).log) =
        some .AckActive := by
  have hquiet : QuietRun (auditStep .absent) AuditEntry.key { state := {} } takeTurns := by
    refine ⟨?_, trivial, ?_, trivial, trivial⟩
    · intro _ e _ w hw
      exact absurd hw List.not_mem_nil
    · intro _ e _ w hw
      exact absurd hw List.not_mem_nil
  have hwritten : (audited .absent takeTurns).unwritten = [] := by decide
  have hstate : stateOf (audited .absent takeTurns).state "pump" = some .AckActive := by decide
  have hreplay := ((journal_true .absent takeTurns).2 hquiet).2.1 hwritten "pump"
  have hlast : lastInput "pump" (audited .absent takeTurns).calls = some .raise := by decide
  rw [hlast, hstate] at hreplay
  exact ⟨hstate, hreplay.2.symm⟩

/-- The first thread raises and is held up before it writes; the second acknowledges the
alarm, clears it, and writes what it did. -/
def overtake : List (Action (Call Empty) Bool) :=
  [.call true (atNoon (.raise { key := "pump" })),
    .call false (atNoon (.acknowledge "pump")), .write false,
    .call false (atNoon (.clear "pump")), .write false, .write true]

/-- One thread shelves a raised alarm and takes it back, with the calls `meanwhile` in
between. -/
def shelveAround (meanwhile : List (Op Empty)) : List (Action (Call Empty) Bool) :=
  [.call true (atNoon (.raise { key := "pump" })), .write true,
    .call true (atNoon (.shelve "pump" 60)), .write true] ++
  meanwhile.flatMap (fun op => [.call true (atNoon op), .write true]) ++
  [.call true (atNoon (.unshelve "pump")), .write true]

/-- The journal may be out of order: all calls have returned, the alarm is gone, and the
journal begins with an acknowledgement and ends with the raise.  And the journal leaves out
what the process says about a shelved alarm: with and without a clear it is the same, and
the live states differ. -/
theorem journal_out_of_order :
    ((audited .absent overtake).unwritten = [] ∧
      actionsOf "pump" (audited .absent overtake).log = [.ACK, .RESOLVE, .RAISE] ∧
      actionsOf "pump" (made .absent (audited .absent overtake).calls) =
        [.RAISE, .ACK, .RESOLVE] ∧
      stateOf (audited .absent overtake).state "pump" = none ∧
      (∀ last, replay last (actionsOf "pump" (audited .absent overtake).log) =
        some .UnackActive) ∧
      [⟨.ACK, "pump"⟩, ⟨.RESOLVE, "pump"⟩] <+: (audited .absent overtake).log) ∧
    ((audited .absent (shelveAround [])).unwritten = [] ∧
      (audited .absent (shelveAround [.clear "pump"])).unwritten = [] ∧
      (audited .absent (shelveAround [])).log =
        (audited .absent (shelveAround [.clear "pump"])).log ∧
      stateOf (audited .absent (shelveAround [])).state "pump" = some .UnackActive ∧
      stateOf (audited .absent (shelveAround [.clear "pump"])).state "pump" =
        some .RtnUnack) := by
  have hlog : actionsOf "pump" (audited .absent overtake).log = [.ACK, .RESOLVE, .RAISE] := by
    decide
  refine ⟨⟨by decide, hlog, by decide, by decide, fun last => ?_, by decide⟩, ?_⟩
  · rw [hlog]
    rfl
  · exact ⟨by decide, by decide, by decide, by decide, by decide⟩

end AlertCenter
