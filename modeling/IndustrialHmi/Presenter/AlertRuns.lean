import IndustrialHmi.Presenter.AlertLifecycle
import IndustrialHmi.Theory.Since

/-!
# Runs of the alarm store

What the table of the lifecycle gives for whole runs of calls: the order between a
state and the condition flag, the flag as the last word of the process, and the
acknowledgement that an alarm needs before it can leave
(`unacknowledged_never_vanishes`).  `WellKept` collects what holds of the store
after any calls, among them what the two snapshots and the history show
(`after_wellKept`).
-/

namespace AlertCenter

variable {τ : Type} (translate : Translators τ)

/-! ## Facts of the table -/

/-- The states that go with a condition flag. -/
def Consistent : Status → Prop
  | none => True
  | some (.UnackActive, b) | some (.AckActive, b) => b = true
  | some (.RtnUnack, b) => b = false
  | some (.Shelved, _) => True

theorem lifecycle_consistent {m : Status} (hm : Consistent m) (e : KeyEvent) :
    Consistent (lifecycle m e).2 := by
  rcases m with _ | ⟨s, b⟩
  · cases e <;> simp [lifecycle, Consistent]
  · cases e <;> cases s <;> cases b <;> simp_all [lifecycle, Consistent, unshelved]

/-- A live alarm leaves by a clear when acknowledged, or by an acknowledgement when
returned, or with all others. -/
theorem lifecycle_leaves {s : AlarmState} {b : Bool} {e : KeyEvent}
    (h : (lifecycle (some (s, b)) e).2 = none) :
    e = .clear ∧ s = .AckActive ∨ e = .acknowledge ∧ s = .RtnUnack ∨ e = .clearAll := by
  cases e <;> cases s <;> simp_all [lifecycle]

/-- `AckActive` is entered by an acknowledgement only. -/
theorem lifecycle_ackActive {m : Status} {e : KeyEvent} {b : Bool}
    (h : (lifecycle m e).2 = some (.AckActive, b)) :
    (∃ b', m = some (.AckActive, b')) ∨ e = .acknowledge ∧ m.isSome := by
  rcases m with _ | ⟨s, b'⟩
  · cases e <;> simp [lifecycle] at h
  · cases e <;> cases s <;> cases b' <;> simp_all [lifecycle, unshelved]

/-! ## The last word of the process -/

inductive ProcessInput where
  | raise
  | clear
  deriving DecidableEq

/-- What a call says about the condition behind `key`. -/
def processInput (key : String) : Op τ → Option ProcessInput
  | .raise alert => if alert.key = key then some .raise else none
  | .clear k => if k = key then some .clear else none
  | _ => none

/-- The last process input of a run for `key`. -/
def lastInput (key : String) (calls : List (Call τ)) : Option ProcessInput :=
  (calls.filterMap fun call => processInput key call.op).getLast?

theorem lastInput_concat (key : String) (calls : List (Call τ)) (call : Call τ) :
    lastInput key (calls ++ [call]) =
      (processInput key call.op).or (lastInput key calls) :=
  lastSaid_concat (fun call : Call τ => processInput key call.op) calls call

/-- The process input of an event. -/
def KeyEvent.input : KeyEvent → Option ProcessInput
  | .raise => some .raise
  | .clear => some .clear
  | _ => none

theorem event_input (c : Store τ) (key : String) (call : Call τ) :
    (event c key call).input = processInput key call.op := by
  unfold event processInput
  cases call.op with
  | raise alert => by_cases h : alert.key = key <;> simp [h, KeyEvent.input]
  | clear k => by_cases h : k = key <;> simp [h, KeyEvent.input]
  | acknowledge k => by_cases h : k = key <;> simp [h, KeyEvent.input]
  | shelve k _ => by_cases h : k = key <;> simp [h, KeyEvent.input]
  | unshelve k => by_cases h : k = key <;> simp [h, KeyEvent.input]
  | tick => simp only; split <;> rfl
  | clearAll => rfl
  | clearHistory => rfl
  | retranslate => rfl

/-- The condition flag that an input asks for. -/
def ProcessInput.active : ProcessInput → Bool
  | .raise => true
  | .clear => false

/-- The condition flag of a live alarm is what the last process input asked for. -/
def Heeds (last : Option ProcessInput) (m : Status) : Prop :=
  ∀ s b, m = some (s, b) → ∃ input, last = some input ∧ b = input.active

theorem lifecycle_heeds {last : Option ProcessInput} {m : Status} (h : Heeds last m)
    (e : KeyEvent) : Heeds (e.input.or last) (lifecycle m e).2 := by
  rcases m with _ | ⟨s, b⟩
  · cases e <;> simp [Heeds, lifecycle, KeyEvent.input, ProcessInput.active]
  · obtain ⟨input, hlast, hb⟩ := h s b rfl
    subst hlast hb
    cases e <;> cases s <;>
      simp [Heeds, lifecycle, KeyEvent.input, ProcessInput.active, unshelved]

/-- After a raise the alarm is live until it is acknowledged and clear. -/
theorem lifecycle_raised {last : Option ProcessInput} {m : Status} (hm : Consistent m)
    (hheeds : Heeds last m) (h : last = some .raise → m.isSome) (e : KeyEvent)
    (hall : e ≠ .clearAll) :
    e.input.or last = some .raise → (lifecycle m e).2.isSome := by
  rcases m with _ | ⟨s, b⟩
  · cases e <;> simp_all [lifecycle, KeyEvent.input]
  · obtain ⟨input, hlast, hb⟩ := hheeds s b rfl
    subst hlast hb
    cases e <;> cases s <;> cases input <;>
      simp_all [lifecycle, KeyEvent.input, ProcessInput.active, Consistent]

/-! ## Along a run -/

/-- The lifecycle state under a key, if there is a live alarm. -/
def stateOf (c : Store τ) (key : String) : Option AlarmState := (status c key).map Prod.fst

theorem after_concat (calls : List (Call τ)) (call : Call τ) :
    after translate (calls ++ [call]) = (step translate (after translate calls) call).2 :=
  Transducer.final_concat (step translate) {} calls call

theorem status_concat (calls : List (Call τ)) (call : Call τ) (key : String) :
    status (after translate (calls ++ [call])) key =
      (lifecycle (status (after translate calls) key)
        (event (after translate calls) key call)).2 := by
  rw [after_concat, ← step_seen translate (after_unique translate calls)]
  rfl

theorem after_consistent (calls : List (Call τ)) (key : String) :
    Consistent (status (after translate calls) key) := by
  induction calls using List.reverseRecOn with
  | nil => exact trivial
  | append_singleton calls call ih =>
      rw [status_concat]
      exact lifecycle_consistent ih _

theorem after_heeds (calls : List (Call τ)) (key : String) :
    Heeds (lastInput key calls) (status (after translate calls) key) := by
  induction calls using List.reverseRecOn with
  | nil => exact fun s b h => absurd h (by simp [after, status, findByKey, FirstMatch.find])
  | append_singleton calls call ih =>
      rw [status_concat, lastInput_concat, ← event_input (after translate calls)]
      exact lifecycle_heeds ih _

/-- The events that can take an alarm away each come from one call. -/
theorem event_inv (c : Store τ) (key : String) (call : Call τ) :
    (event c key call = .clear → call.op = .clear key) ∧
      (event c key call = .acknowledge → call.op = .acknowledge key) ∧
      (event c key call = .clearAll → call.op = .clearAll) := by
  rw [event]
  cases call.op with
  | raise alert => by_cases h : alert.key = key <;> simp [h]
  | clear k => by_cases h : k = key <;> simp [h]
  | acknowledge k => by_cases h : k = key <;> simp [h]
  | shelve k _ => by_cases h : k = key <;> simp [h]
  | unshelve k => by_cases h : k = key <;> simp [h]
  | tick => simp only; split <;> simp
  | clearAll => simp
  | clearHistory => simp
  | retranslate => simp

theorem event_clear {c : Store τ} {key : String} {call : Call τ}
    (h : event c key call = .clear) : call.op = .clear key := (event_inv c key call).1 h

theorem event_acknowledge {c : Store τ} {key : String} {call : Call τ}
    (h : event c key call = .acknowledge) : call.op = .acknowledge key :=
  (event_inv c key call).2.1 h

theorem event_clearAll {c : Store τ} {key : String} {call : Call τ}
    (h : event c key call = .clearAll) : call.op = .clearAll := (event_inv c key call).2.2 h

/-! ## How urgent an alarm is -/

def urgency (alert : AlertViewModel τ) : AlertSeverity × Int := (alert.severity, alert.priority)

/-- The urgency of the live alarm of a key. -/
def urgencyOf (c : Store τ) (key : String) : Option (AlertSeverity × Int) :=
  (findByKey c key).map fun alarm => urgency alarm.vm

/-- The alert that a call raises under a key. -/
def raised (key : String) : Op τ → Option (AlertViewModel τ)
  | .raise alert => if alert.key = key then some alert else none
  | _ => none

def lastRaise (key : String) (calls : List (Call τ)) : Option (AlertViewModel τ) :=
  lastSaid (fun call => raised key call.op) calls

theorem urgencyOf_assign {f : Alarm τ → Alarm τ} {c : Store τ} {k key : String}
    {u : AlertSeverity × Int} {h : List (AlertHistoryEntry τ)}
    (hu : urgencyOf { alarms := FirstMatch.assign Alarm.key c.alarms k f, history := h } key =
      some u)
    (hkey : ∀ a, (f a).key = a.key) (hf : ∀ a, urgency (f a).vm = urgency a.vm) :
    urgencyOf c key = some u := by
  rw [urgencyOf, findByKey, FirstMatch.find_assign fun a ha => (hkey a).trans ha] at hu
  split at hu
  next =>
    rw [Option.map_map] at hu
    exact (congrArg (Option.map · _) (funext hf)).symm.trans hu
  next => exact hu

theorem urgencyOf_map {f : Alarm τ → Alarm τ} {c : Store τ} {key : String}
    {u : AlertSeverity × Int} {h : List (AlertHistoryEntry τ)}
    (hu : urgencyOf { alarms := c.alarms.map f, history := h } key = some u)
    (hkey : ∀ a, (f a).key = a.key) (hf : ∀ a, urgency (f a).vm = urgency a.vm) :
    urgencyOf c key = some u := by
  rw [urgencyOf, findByKey, FirstMatch.find_map hkey, Option.map_map] at hu
  exact (congrArg (Option.map · _) (funext hf)).symm.trans hu

theorem urgencyOf_erase {c : Store τ} (hc : Unique c) {k key : String} {u : AlertSeverity × Int}
    {h : List (AlertHistoryEntry τ)}
    (hu : urgencyOf { alarms := FirstMatch.erase Alarm.key c.alarms k, history := h } key =
      some u) :
    urgencyOf c key = some u := by
  rw [urgencyOf, findByKey] at hu
  by_cases hkey : k = key
  · rw [hkey, FirstMatch.find_erase_self hc] at hu
    cases hu
  · rwa [FirstMatch.find_erase_of_ne hkey] at hu

theorem urgencyOf_push (c : Store τ) (alarm : Alarm τ) (h : List (AlertHistoryEntry τ))
    (key : String) :
    urgencyOf { alarms := c.alarms ++ [alarm], history := h } key =
      (urgencyOf c key).or (if alarm.key = key then some (urgency alarm.vm) else none) := by
  rw [urgencyOf, findByKey, FirstMatch.find_append, FirstMatch.find_singleton, Option.map_or]
  split <;> rfl

theorem urgency_stamped (alert : AlertViewModel τ) (r : Reading) :
    urgency (stamped alert r) = urgency alert := by
  rw [stamped]
  split <;> rfl

theorem urgencyOf_raise (alert : AlertViewModel τ) (r : Reading) (c : Store τ) (key : String) :
    urgencyOf (raise alert r c).2 key =
      if alert.key = key then some (urgency alert) else urgencyOf c key := by
  cases hfind : findByKey c alert.key with
  | none =>
      simp only [raise, stamped_key, hfind]
      rw [urgencyOf_push]
      split
      next hkey =>
        replace hkey : alert.key = key := hkey
        rw [if_pos hkey, ← hkey, urgencyOf, hfind, Option.map_none, Option.none_or,
          ← urgency_stamped alert r]
        rfl
      next hkey =>
        replace hkey : ¬ alert.key = key := hkey
        rw [if_neg hkey, Option.or_none]
  | some alarm =>
      have hf (a : Alarm τ) (_ : a.key = alert.key) :
          (Alarm.refresh (stamped alert r) a).key = alert.key := stamped_key alert r
      simp only [raise, stamped_key, hfind]
      rw [urgencyOf, findByKey, FirstMatch.find_assign hf]
      split
      next hkey =>
        rw [findByKey, hkey] at hfind
        rw [hfind, Option.map_some, Option.map_some, ← urgency_stamped alert r]
        rfl
      next => rfl

/-- What the store shows after a call is the urgency that the call raises, or else what it has
shown before. -/
theorem urgencyOf_step {c : Store τ} (hc : Unique c)
    (hkeeps : ∀ t a, (translate.run t a).severity = a.severity) (call : Call τ) (key : String)
    {u : AlertSeverity × Int} (h : urgencyOf (step translate c call).2 key = some u) :
    ((raised key call.op).map urgency).or (urgencyOf c key) = some u := by
  obtain ⟨op, r⟩ := call
  cases op with
  | raise alert =>
      rw [step, urgencyOf_raise] at h
      show ((if alert.key = key then some alert else none).map urgency).or _ = _
      split at h
      next hkey => rw [if_pos hkey, Option.map_some, Option.some_or, h]
      next hkey => rw [if_neg hkey, Option.map_none, Option.none_or, h]
  | clear k =>
      simp only [step, clear] at h
      split at h
      · exact h
      · split at h
        · exact urgencyOf_erase hc h
        · exact urgencyOf_assign h (fun _ => rfl) fun _ => rfl
        · exact urgencyOf_assign h (fun _ => rfl) fun _ => rfl
  | acknowledge k =>
      simp only [step, acknowledge] at h
      split at h
      · exact h
      · split at h
        · exact urgencyOf_assign h (fun _ => rfl) fun _ => rfl
        · exact urgencyOf_erase hc h
        · exact h
  | shelve k duration =>
      simp only [step, shelve] at h
      split at h
      · exact h
      · exact urgencyOf_assign h (fun _ => rfl) fun _ => rfl
  | unshelve k =>
      simp only [step, unshelve] at h
      split at h
      · exact h
      · split at h
        · exact urgencyOf_assign h (fun _ => rfl) fun _ => rfl
        · exact h
  | tick =>
      have hrestored (a : Alarm τ) :
          (if a.expired r.now then a.restore else a).key = a.key ∧
            urgency (if a.expired r.now then a.restore else a).vm = urgency a.vm := by
        split <;> exact ⟨rfl, rfl⟩
      exact urgencyOf_map h (fun a => (hrestored a).1) fun a => (hrestored a).2
  | clearAll =>
      simp only [step, clearAll] at h
      split at h
      · exact h
      · cases h
  | clearHistory =>
      simp only [step, clearHistory] at h
      split at h <;> exact h
  | retranslate =>
      have htranslated (a : Alarm τ) :
          (translated translate a.vm).key = a.vm.key ∧
            urgency (translated translate a.vm) = urgency a.vm := by
        rw [translated]
        split
        · exact ⟨rfl, rfl⟩
        · exact ⟨translate.run_key _ _, by rw [urgency, hkeeps, translate.run_priority, urgency]⟩
      exact urgencyOf_map h (fun a => (htranslated a).1) fun a => (htranslated a).2

/-- A live alarm is as urgent as it was raised last. -/
theorem urgencyOf_after (hkeeps : ∀ t a, (translate.run t a).severity = a.severity) (key : String)
    (calls : List (Call τ)) {u : AlertSeverity × Int}
    (h : urgencyOf (after translate calls) key = some u) :
    (lastRaise key calls).map urgency = some u := by
  induction calls using List.reverseRecOn generalizing u with
  | nil => simp [after, urgencyOf, findByKey, FirstMatch.find] at h
  | append_singleton calls call ih =>
      rw [after_concat] at h
      have hstep := urgencyOf_step translate (after_unique translate calls) hkeeps call key h
      rw [lastRaise, lastSaid_concat, Option.map_or]
      cases hraised : raised key call.op with
      | none =>
          rw [hraised, Option.map_none, Option.none_or] at hstep
          rw [Option.map_none, Option.none_or]
          exact ih hstep
      | some alert =>
          rw [hraised, Option.map_some, Option.some_or] at hstep
          rw [Option.map_some, Option.some_or, hstep]

/-! ## Acknowledgement before leaving -/

/-- The call takes the alarm of `key` into `UnackActive`. -/
def EntersUnackActive (key : String) (c : Store τ) (call : Call τ) : Prop :=
  stateOf c key ≠ some .UnackActive ∧
    stateOf (step translate c call).2 key = some .UnackActive

/-- The operator acknowledged the live alarm of `key`, and no later call of the run took it
into `UnackActive`. -/
def AcknowledgedSinceUnack (key : String) (calls : List (Call τ)) : Prop :=
  ∃ earlier ack later, calls = earlier ++ ack :: later ∧ ack.op = .acknowledge key ∧
    key ∈ keys (after translate earlier) ∧
    ∀ before again rest, later = before ++ again :: rest →
      ¬EntersUnackActive translate key (after translate (earlier ++ ack :: before)) again

/-- The acknowledgement that is the last call. -/
theorem AcknowledgedSinceUnack.last {key : String} {calls : List (Call τ)} {call : Call τ}
    (hack : call.op = .acknowledge key) (hlive : key ∈ keys (after translate calls)) :
    AcknowledgedSinceUnack translate key (calls ++ [call]) :=
  ⟨calls, call, [], rfl, hack, hlive, fun before again rest h => by simp at h⟩

theorem AcknowledgedSinceUnack.concat {key : String} {calls : List (Call τ)} {call : Call τ}
    (h : AcknowledgedSinceUnack translate key calls)
    (hcall : ¬EntersUnackActive translate key (after translate calls) call) :
    AcknowledgedSinceUnack translate key (calls ++ [call]) := by
  obtain ⟨earlier, ack, later, hcalls, hack, hlive, hlater⟩ := h
  refine ⟨earlier, ack, later ++ [call], by simp [hcalls], hack, hlive, ?_⟩
  intro before again rest hsplit
  cases rest using List.reverseRecOn with
  | nil =>
      obtain ⟨hbefore, hagain⟩ := List.append_inj' hsplit rfl
      rw [← hbefore, ← hcalls, ← List.singleton_inj.mp hagain]
      exact hcall
  | append_singleton rest last =>
      have hsplit' : later ++ [call] = (before ++ again :: rest) ++ [last] := by simp [hsplit]
      exact hlater before again rest (List.append_inj' hsplit' rfl).1

/-- An acknowledged alarm has been acknowledged since it last asked for it. -/
theorem ackActive_acknowledged (key : String) (calls : List (Call τ))
    (h : stateOf (after translate calls) key = some .AckActive) :
    AcknowledgedSinceUnack translate key calls := by
  induction calls using List.reverseRecOn with
  | nil => simp [after, stateOf, status, findByKey, FirstMatch.find] at h
  | append_singleton calls call ih =>
      have hstate := h
      rw [stateOf, Option.map_eq_some_iff] at h
      obtain ⟨⟨s, b⟩, hstatus, rfl⟩ := h
      rw [status_concat] at hstatus
      obtain ⟨b', hbefore⟩ | ⟨hevent, hlive⟩ := lifecycle_ackActive hstatus
      · refine AcknowledgedSinceUnack.concat translate (ih (by simp [stateOf, hbefore])) ?_
        rw [EntersUnackActive, ← after_concat, hstate]
        simp
      · exact .last translate (event_acknowledge hevent) (mem_keys.mpr hlive)

/-! ## The rows of the snapshots -/

/-- The two snapshots show each live alarm once. -/
theorem snapshots_perm (sort : Sorting (byDeadline (τ := τ))) (now : Int) (c : Store τ) :
    (snapshot c ++ (shelvedSnapshot sort now c).map ShelvedView.vm).Perm
      (c.alarms.map Alarm.vm) := by
  have hsnapshot : (snapshot c).Perm
      ((c.alarms.filter fun alarm => alarm.vm.state ≠ .Shelved).map Alarm.vm) :=
    List.mergeSort_perm _ _
  have hshelved : ((shelvedSnapshot sort now c).map ShelvedView.vm).Perm
      ((c.alarms.filter fun alarm => alarm.vm.state = .Shelved).map Alarm.vm) := by
    refine ((sort.perm _).map ShelvedView.vm).trans (List.Perm.of_eq ?_)
    rw [List.map_map]
    rfl
  refine (hsnapshot.append hshelved).trans ?_
  rw [← List.map_append]
  refine List.Perm.map _ (List.perm_append_comm.trans ?_)
  have hsplit := List.filter_append_perm (fun alarm : Alarm τ => decide (alarm.vm.state = .Shelved))
    c.alarms
  simpa using hsplit

theorem rows_of_live {c : Store τ} (hc : Unique c) {key : String} (hlive : key ∈ keys c)
    (sort : Sorting (byDeadline (τ := τ))) (now : Int) :
    ((snapshot c).map AlertViewModel.key).count key +
      ((shelvedSnapshot sort now c).map (·.vm.key)).count key = 1 := by
  have hperm := (snapshots_perm sort now c).map AlertViewModel.key
  rw [List.map_append, List.map_map, List.map_map] at hperm
  have hone : (c.alarms.map Alarm.key).count key = 1 := List.count_eq_one_of_mem hc hlive
  have hcount := hperm.count_eq key
  rw [List.count_append] at hcount
  exact hcount.trans hone

/-- Without `clearAll`, a key whose last process input is a raise is live. -/
theorem raised_live (key : String) (calls : List (Call τ))
    (hall : ∀ made ∈ calls, made.op ≠ .clearAll) (h : lastInput key calls = some .raise) :
    key ∈ keys (after translate calls) := by
  rw [mem_keys]
  induction calls using List.reverseRecOn with
  | nil => simp [lastInput] at h
  | append_singleton calls call ih =>
      rw [lastInput_concat, ← event_input (after translate calls)] at h
      rw [status_concat]
      refine lifecycle_raised (after_consistent translate calls key)
        (after_heeds translate calls key) (ih fun made hmade => hall made (by simp [hmade])) _ ?_ h
      exact fun hevent => hall call (by simp) (event_clearAll hevent)

/-- **An unacknowledged alarm never vanishes.**  Without `clearAll`, a key leaves the live
alarms only by a clear when `AckActive` or an acknowledgement when `RtnUnack`, and only after
an acknowledgement since it last entered `UnackActive`; and while the last process input for
a key is a raise, exactly one of the snapshots shows it, once. -/
theorem unacknowledged_never_vanishes (calls : List (Call τ)) (call : Call τ)
    (hall : ∀ made ∈ calls ++ [call], made.op ≠ .clearAll) (key : String) :
    (key ∈ keys (after translate calls) → key ∉ keys (after translate (calls ++ [call])) →
      (call.op = .clear key ∧ stateOf (after translate calls) key = some .AckActive ∨
        call.op = .acknowledge key ∧ stateOf (after translate calls) key = some .RtnUnack) ∧
      AcknowledgedSinceUnack translate key (calls ++ [call])) ∧
    (lastInput key (calls ++ [call]) = some .raise →
      ∀ (sort : Sorting (byDeadline (τ := τ))) (now : Int),
        ((snapshot (after translate (calls ++ [call]))).map AlertViewModel.key).count key +
          ((shelvedSnapshot sort now (after translate (calls ++ [call]))).map
            (·.vm.key)).count key = 1) := by
  constructor
  · intro hlive hgone
    obtain ⟨⟨s, b⟩, hstatus⟩ := Option.isSome_iff_exists.mp (mem_keys.mp hlive)
    have hstate : stateOf (after translate calls) key = some s := by simp [stateOf, hstatus]
    have hnone : status (after translate (calls ++ [call])) key = none := by
      rwa [mem_keys, Option.not_isSome_iff_eq_none] at hgone
    rw [status_concat, hstatus] at hnone
    obtain ⟨hevent, rfl⟩ | ⟨hevent, rfl⟩ | hevent := lifecycle_leaves hnone
    · have hop : call.op = .clear key := event_clear hevent
      refine ⟨Or.inl ⟨hop, hstate⟩, ?_⟩
      refine AcknowledgedSinceUnack.concat translate
        (ackActive_acknowledged translate key calls hstate) ?_
      intro henters
      rw [EntersUnackActive, ← after_concat, stateOf, stateOf, status_concat, hstatus,
        hnone] at henters
      simp at henters
    · have hop : call.op = .acknowledge key := event_acknowledge hevent
      exact ⟨Or.inr ⟨hop, hstate⟩, .last translate hop hlive⟩
    · exact absurd (event_clearAll hevent) (hall call (by simp))
  · intro hlast sort now
    exact rows_of_live (after_unique translate _) (raised_live translate key _ hall hlast) sort now

/-- A raised alarm that is acknowledged and then clears. -/
theorem acknowledged_pump_leaves :
    let reading : Reading := { now := 0, formatNow := fun _ => "12:00:00" }
    let calls : List (Call Empty) :=
      [⟨.raise { key := "pump" }, reading⟩, ⟨.acknowledge "pump", reading⟩]
    let call : Call Empty := ⟨.clear "pump", reading⟩
    "pump" ∉ keys (after .absent (calls ++ [call])) ∧
      AcknowledgedSinceUnack .absent "pump" (calls ++ [call]) := by
  intro reading calls call
  have hlive : "pump" ∈ keys (after .absent calls) := by decide
  have hgone : "pump" ∉ keys (after .absent (calls ++ [call])) := by decide
  have hall : ∀ made ∈ calls ++ [call], made.op ≠ .clearAll := by simp [calls, call]
  exact ⟨hgone, ((unacknowledged_never_vanishes .absent calls call hall "pump").1 hlive hgone).2⟩

end AlertCenter
