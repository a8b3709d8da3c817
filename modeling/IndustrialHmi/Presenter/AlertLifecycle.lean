import IndustrialHmi.Presenter.AlertCenter

/-!
# The lifecycle of one alarm

Seen at one key, the store is a small machine: the alarm there is absent or has a
lifecycle state and a condition flag, and `lifecycle` says what each kind of call
does to the two and which audit entry it gives.  `step_status` and `step_audit` say
that the store runs this machine at every key at once.  What holds of the machine
is then a matter of its table, with no list in sight.
-/

namespace AlertCenter

variable {τ : Type} (translate : Translators τ)

/-! ## The machine -/

/-- The lifecycle state and the condition flag of a live alarm, `none` when absent. -/
abbrev Status := Option (AlarmState × Bool)

/-- What a call is to one key. -/
inductive KeyEvent where
  | raise
  | clear
  | acknowledge
  | shelve
  | unshelve
  | expire
  | clearAll
  /-- The call leaves the state and the condition of this key alone. -/
  | other
  deriving DecidableEq

/-- Where an alarm goes from the shelf. -/
def unshelved (active : Bool) : AlarmState × Bool :=
  (if active then .UnackActive else .RtnUnack, active)

def lifecycle : Status → KeyEvent → List AuditAction × Status
  | none, .raise => ([.RAISE], some (.UnackActive, true))
  | none, _ => ([], none)
  | some (s, _), .raise =>
      if s = .RtnUnack then ([.REALARM], some (.UnackActive, true)) else ([], some (s, true))
  | some (s, _), .clear =>
      if s = .AckActive then ([.RESOLVE], none)
      else if s = .UnackActive then ([.RTN], some (.RtnUnack, false))
      else ([], some (s, false))
  | some (s, b), .acknowledge =>
      if s = .UnackActive then ([.ACK], some (.AckActive, b))
      else if s = .RtnUnack then ([.RESOLVE], none)
      else ([], some (s, b))
  | some (_, b), .shelve => ([.SHELVE], some (.Shelved, b))
  | some (s, b), .unshelve =>
      if s = .Shelved then ([.UNSHELVE], some (unshelved b)) else ([], some (s, b))
  | some (s, b), .expire =>
      if s = .Shelved then ([.EXPIRE], some (unshelved b)) else ([], some (s, b))
  | some _, .clearAll => ([.RESOLVE], none)
  | some (s, b), .other => ([], some (s, b))

@[simp] theorem lifecycle_other (m : Status) : lifecycle m .other = ([], m) := by
  cases m <;> rfl

/-! ## The store seen at a key -/

def Alarm.status (alarm : Alarm τ) : AlarmState × Bool := (alarm.vm.state, alarm.conditionActive)

def status (c : Store τ) (key : String) : Status := (findByKey c key).map Alarm.status

/-- The actions that a call journals for `key`. -/
def auditOf (key : String) (e : Effects) : List AuditAction :=
  (e.audit.filter (·.key == key)).map AuditEntry.action

/-- The alarm is on the shelf past its deadline. -/
def expires (now : Int) (m : Option (Alarm τ)) : Bool := m.any (Alarm.expired now)

/-- What a call is to `key`, at a store. -/
def event (c : Store τ) (key : String) (call : Call τ) : KeyEvent :=
  match call.op with
  | .raise alert => if alert.key = key then .raise else .other
  | .clear k => if k = key then .clear else .other
  | .acknowledge k => if k = key then .acknowledge else .other
  | .shelve k _ => if k = key then .shelve else .other
  | .unshelve k => if k = key then .unshelve else .other
  | .tick => if expires call.reading.now (findByKey c key) then .expire else .other
  | .clearAll => .clearAll
  | .clearHistory | .retranslate => .other

/-- No two live alarms have the same key. -/
def Unique (c : Store τ) : Prop := (c.alarms.map Alarm.key).Nodup

@[simp] theorem stamped_key (alert : AlertViewModel τ) (r : Reading) :
    (stamped alert r).key = alert.key := by
  unfold stamped
  split <;> rfl

@[simp] theorem auditOf_none (key : String) {a h : Bool} :
    auditOf key { alertsChanged := a, historyChanged := h } = [] := rfl

@[simp] theorem auditOf_one (key k : String) (action : AuditAction) {a h : Bool} :
    auditOf key { alertsChanged := a, historyChanged := h, audit := [⟨action, k⟩] } =
      if k = key then [action] else [] := by
  by_cases hk : k = key <;> simp [auditOf, hk]

theorem status_assign_self {f : Alarm τ → Alarm τ} {c : Store τ} {k : String} {alarm : Alarm τ}
    (hfind : findByKey c k = some alarm) (hf : ∀ a, a.key = k → (f a).key = k)
    (h : List (AlertHistoryEntry τ)) :
    status { alarms := FirstMatch.assign Alarm.key c.alarms k f, history := h } k =
      some (f alarm).status := by
  rw [findByKey] at hfind
  rw [status, findByKey, FirstMatch.find_assign hf, if_pos rfl, hfind]
  rfl

theorem status_assign_other {f : Alarm τ → Alarm τ} {k key : String} (hkey : k ≠ key)
    (c : Store τ) (hf : ∀ a, a.key = k → (f a).key = k) (h : List (AlertHistoryEntry τ)) :
    status { alarms := FirstMatch.assign Alarm.key c.alarms k f, history := h } key =
      status c key := by
  rw [status, findByKey, FirstMatch.find_assign hf, if_neg hkey]
  rfl

theorem status_erase_self {c : Store τ} (hc : Unique c) (k : String)
    (h : List (AlertHistoryEntry τ)) :
    status { alarms := FirstMatch.erase Alarm.key c.alarms k, history := h } k = none := by
  rw [status, findByKey, FirstMatch.find_erase_self hc, Option.map_none]

theorem status_erase_other {k key : String} (hkey : k ≠ key) (c : Store τ)
    (h : List (AlertHistoryEntry τ)) :
    status { alarms := FirstMatch.erase Alarm.key c.alarms k, history := h } key =
      status c key := by
  rw [status, findByKey, FirstMatch.find_erase_of_ne hkey]
  rfl

theorem status_push (c : Store τ) (h : List (AlertHistoryEntry τ)) (alarm : Alarm τ)
    (key : String) :
    status { alarms := c.alarms ++ [alarm], history := h } key =
      (status c key).or (if alarm.key = key then some alarm.status else none) := by
  rw [status, findByKey, FirstMatch.find_append, FirstMatch.find_singleton, Option.map_or]
  congr 1
  by_cases hkey : alarm.key = key <;> simp [hkey]

/-! ## The store runs the machine at every key -/

/-- What a call gives and leaves for `key`. -/
def seen (key : String) (out : Effects × Store τ) : List AuditAction × Status :=
  (auditOf key out.1, status out.2 key)

theorem seen_untouched (key : String) (c : Store τ) :
    seen key (({} : Effects), c) = lifecycle (status c key) .other := by
  simp [seen]

theorem status_none {c : Store τ} {key : String} (h : findByKey c key = none) :
    status c key = none := by
  simp [status, h]

theorem status_some {c : Store τ} {key : String} {alarm : Alarm τ}
    (h : findByKey c key = some alarm) : status c key = some alarm.status := by
  simp [status, h]

theorem raise_seen (alert : AlertViewModel τ) (r : Reading) (c : Store τ) (key : String) :
    seen key (raise alert r c) =
      lifecycle (status c key) (if alert.key = key then .raise else .other) := by
  cases hfind : findByKey c alert.key with
  | none =>
      simp only [raise, stamped_key, hfind, seen, auditOf_one, status_push, Alarm.key,
        Alarm.status]
      by_cases hkey : alert.key = key
      · subst hkey
        simp [status_none hfind, lifecycle]
      · simp [hkey]
  | some alarm =>
      simp only [raise, stamped_key, hfind, seen]
      have hf (a : Alarm τ) (_ : a.key = alert.key) :
          ((Alarm.refresh (stamped alert r) a)).key = alert.key := stamped_key alert r
      by_cases hkey : alert.key = key
      · subst hkey
        rw [status_assign_self hfind hf, status_some hfind]
        by_cases hret : alarm.vm.state = .RtnUnack <;>
          simp [hret, lifecycle, Alarm.status, Alarm.refresh]
      · rw [status_assign_other hkey c hf]
        by_cases hret : alarm.vm.state = .RtnUnack <;> simp [hret, hkey]

/-- A call about another key does nothing here. -/
theorem seen_other {c c' : Store τ} {key k : String} {e : Effects} (hkey : k ≠ key)
    (haudit : ∀ entry ∈ e.audit, entry.key = k) (hstatus : status c' key = status c key) :
    seen key (e, c') = lifecycle (status c key) .other := by
  have hnone : auditOf key e = [] := by
    rw [auditOf, List.map_eq_nil_iff, List.filter_eq_nil_iff]
    intro entry hentry
    simpa [haudit entry hentry] using hkey
  rw [seen, hnone, hstatus, lifecycle_other]

theorem clear_seen {c : Store τ} (hc : Unique c) (k : String) (r : Reading) (key : String) :
    seen key (clear k r c) = lifecycle (status c key) (if k = key then .clear else .other) := by
  by_cases hkey : k = key
  · subst hkey
    cases hfind : findByKey c k with
    | none => simp [clear, hfind, seen, status_none hfind, lifecycle]
    | some alarm =>
        rw [status_some hfind]
        cases hs : alarm.vm.state with
        | AckActive =>
            simp [clear, hfind, hs, seen, status_erase_self hc, lifecycle, Alarm.status]
        | UnackActive =>
            simp only [clear, hfind, hs, seen]
            rw [status_assign_self hfind]
            · simp [hs, lifecycle, Alarm.status, Alarm.withState]
            · exact fun a h => h
        | RtnUnack =>
            simp only [clear, hfind, hs, seen]
            rw [status_assign_self hfind]
            · simp [hs, lifecycle, Alarm.status]
            · exact fun a h => h
        | Shelved =>
            simp only [clear, hfind, hs, seen]
            rw [status_assign_self hfind]
            · simp [hs, lifecycle, Alarm.status]
            · exact fun a h => h
  · rw [if_neg hkey]
    cases hfind : findByKey c k with
    | none =>
        simp only [clear, hfind]
        exact seen_untouched key c
    | some alarm =>
        cases hs : alarm.vm.state <;> simp only [clear, hfind, hs]
        case AckActive => exact seen_other hkey (by simp) (status_erase_other hkey c _)
        all_goals
          exact seen_other hkey (by simp) (status_assign_other hkey c (by exact fun _ h => h) _)

theorem acknowledge_seen {c : Store τ} (hc : Unique c) (k : String) (r : Reading)
    (key : String) :
    seen key (acknowledge k r c) =
      lifecycle (status c key) (if k = key then .acknowledge else .other) := by
  by_cases hkey : k = key
  · subst hkey
    cases hfind : findByKey c k with
    | none => simp [acknowledge, hfind, seen, status_none hfind, lifecycle]
    | some alarm =>
        rw [status_some hfind]
        cases hs : alarm.vm.state with
        | UnackActive =>
            simp only [acknowledge, hfind, hs, seen]
            rw [status_assign_self hfind]
            · simp [hs, lifecycle, Alarm.status, Alarm.withState]
            · exact fun a h => h
        | RtnUnack =>
            simp [acknowledge, hfind, hs, seen, status_erase_self hc, lifecycle, Alarm.status]
        | AckActive =>
            simp [acknowledge, hfind, hs, seen, status_some hfind, lifecycle, Alarm.status]
        | Shelved =>
            simp [acknowledge, hfind, hs, seen, status_some hfind, lifecycle, Alarm.status]
  · rw [if_neg hkey]
    cases hfind : findByKey c k with
    | none =>
        simp only [acknowledge, hfind]
        exact seen_untouched key c
    | some alarm =>
        cases hs : alarm.vm.state <;> simp only [acknowledge, hfind, hs]
        case UnackActive =>
          exact seen_other hkey (by simp) (status_assign_other hkey c (by exact fun _ h => h) _)
        case RtnUnack => exact seen_other hkey (by simp) (status_erase_other hkey c _)
        all_goals exact seen_untouched key c

theorem shelve_seen (k : String) (duration : Int) (r : Reading) (c : Store τ) (key : String) :
    seen key (shelve k duration r c) =
      lifecycle (status c key) (if k = key then .shelve else .other) := by
  cases hfind : findByKey c k with
  | none =>
      simp only [shelve, hfind, seen_untouched]
      by_cases hkey : k = key
      · subst hkey
        simp [status_none hfind, lifecycle]
      · rw [if_neg hkey]
  | some alarm =>
      simp only [shelve, hfind]
      by_cases hkey : k = key
      · subst hkey
        rw [seen, status_assign_self hfind, status_some hfind]
        · simp [lifecycle, Alarm.status, Alarm.shelve, Alarm.withState]
        · exact fun a h => h
      · rw [if_neg hkey]
        exact seen_other hkey (by simp) (status_assign_other hkey c (by exact fun _ h => h) _)

theorem unshelve_seen (k : String) (c : Store τ) (key : String) :
    seen key (unshelve k c) =
      lifecycle (status c key) (if k = key then .unshelve else .other) := by
  cases hfind : findByKey c k with
  | none =>
      simp only [unshelve, hfind, seen_untouched]
      by_cases hkey : k = key
      · subst hkey
        simp [status_none hfind, lifecycle]
      · rw [if_neg hkey]
  | some alarm =>
      by_cases hs : alarm.vm.state = .Shelved
      · simp only [unshelve, hfind, hs, if_true]
        by_cases hkey : k = key
        · subst hkey
          rw [seen, status_assign_self hfind, status_some hfind]
          · simp [hs, lifecycle, Alarm.status, Alarm.restore, Alarm.withState, unshelved]
          · exact fun a h => h
        · rw [if_neg hkey]
          exact seen_other hkey (by simp) (status_assign_other hkey c (by exact fun _ h => h) _)
      · simp only [unshelve, hfind, hs, if_false, seen_untouched]
        by_cases hkey : k = key
        · subst hkey
          simp [status_some hfind, hs, lifecycle, Alarm.status]
        · rw [if_neg hkey]

/-- Entries of one action for a list of alarms, seen at a key. -/
theorem auditOf_map {c : Store τ} (hc : Unique c) (p : Alarm τ → Bool) (action : AuditAction)
    (key : String) {a h : Bool} :
    auditOf key
        { alertsChanged := a
          historyChanged := h
          audit := (c.alarms.filter p).map fun alarm => ⟨action, alarm.vm.key⟩ } =
      if (findByKey c key).any p then [action] else [] := by
  have hswap : (c.alarms.filter p).filter (Alarm.key · == key) =
      (findByKey c key).toList.filter p := by
    rw [List.filter_comm, FirstMatch.filter_key hc, findByKey]
  have hkeep : ((fun entry : AuditEntry => entry.key == key) ∘
      fun alarm : Alarm τ => ⟨action, alarm.vm.key⟩) = fun alarm => alarm.key == key := rfl
  rw [auditOf, List.filter_map, hkeep, hswap, List.map_map]
  cases findByKey c key with
  | none => rfl
  | some alarm => cases hp : p alarm <;> simp [hp]

theorem tick_seen {c : Store τ} (hc : Unique c) (r : Reading) (key : String) :
    seen key (tick r c) =
      lifecycle (status c key)
        (if expires r.now (findByKey c key) then .expire else .other) := by
  have hafter : status (tick r c).2 key =
      (findByKey c key).map fun alarm =>
        (if alarm.expired r.now then alarm.restore else alarm).status := by
    rw [status, findByKey, tick, FirstMatch.find_map, Option.map_map]
    · rfl
    · intro alarm
      split <;> rfl
  have haudit := auditOf_map hc (Alarm.expired r.now) .EXPIRE key
    (a := !(c.alarms.filter (Alarm.expired r.now)).isEmpty) (h := false)
  rw [seen, hafter]
  simp only [tick, haudit, expires]
  cases hfind : findByKey c key with
  | none => simp [status_none hfind]
  | some alarm =>
      rw [status_some hfind]
      by_cases hexp : alarm.expired r.now = true
      · have hs : alarm.vm.state = .Shelved := by
          simp only [Alarm.expired, Bool.and_eq_true, decide_eq_true_eq] at hexp
          exact hexp.1
        simp [hexp, hs, lifecycle, Alarm.status, Alarm.restore, Alarm.withState, unshelved]
      · simp [hexp]

theorem clearAll_seen {c : Store τ} (hc : Unique c) (r : Reading) (key : String) :
    seen key (clearAll r c) = lifecycle (status c key) .clearAll := by
  have haudit := auditOf_map hc (fun _ => true) .RESOLVE key (a := true) (h := true)
  rw [List.filter_true] at haudit
  by_cases hempty : c.alarms.isEmpty
  · have hnone : findByKey c key = none := by
      rw [findByKey, List.isEmpty_iff.mp hempty]
      rfl
    simp [clearAll, hempty, seen, status_none hnone, lifecycle]
  · have hseen : seen key (clearAll r c) =
        (if (findByKey c key).any (fun _ => true) then [.RESOLVE] else [], none) := by
      rw [← haudit, clearAll, if_neg hempty]
      rfl
    rw [hseen]
    cases hfind : findByKey c key with
    | none => simp [status_none hfind, lifecycle]
    | some alarm => simp [status_some hfind, lifecycle]

theorem clearHistory_seen (c : Store τ) (key : String) :
    seen key (clearHistory c) = lifecycle (status c key) .other := by
  unfold clearHistory
  split
  · exact seen_untouched key c
  · rw [lifecycle_other]
    rfl

theorem translated_kept (alert : AlertViewModel τ) :
    (translated translate alert).key = alert.key ∧
      (translated translate alert).state = alert.state ∧
      (translated translate alert).priority = alert.priority := by
  unfold translated
  split
  · exact ⟨rfl, rfl, rfl⟩
  · exact ⟨translate.run_key _ _, translate.run_state _ _, translate.run_priority _ _⟩

theorem retranslate_seen (c : Store τ) (key : String) :
    seen key (retranslate translate c) = lifecycle (status c key) .other := by
  have hafter : status (retranslate translate c).2 key = status c key := by
    rw [status, findByKey, retranslate, FirstMatch.find_map, Option.map_map]
    · congr 1
      funext alarm
      simp [Alarm.status, translated_kept]
    · intro alarm
      exact (translated_kept translate alarm.vm).1
  rw [seen, hafter, lifecycle_other]
  rfl

/-- **A step of the store is a step of the machine at every key**: what it journals for the
key, and what it leaves there. -/
theorem step_seen {c : Store τ} (hc : Unique c) (call : Call τ) (key : String) :
    seen key (step translate c call) = lifecycle (status c key) (event c key call) := by
  unfold step event
  cases call.op with
  | raise alert => exact raise_seen alert call.reading c key
  | clear k => exact clear_seen hc k call.reading key
  | acknowledge k => exact acknowledge_seen hc k call.reading key
  | shelve k duration => exact shelve_seen k duration call.reading c key
  | unshelve k => exact unshelve_seen k c key
  | tick => exact tick_seen hc call.reading key
  | clearAll => exact clearAll_seen hc call.reading key
  | clearHistory => exact clearHistory_seen c key
  | retranslate => exact retranslate_seen translate c key

/-! ## Keys stay distinct -/

/-- The keys of the live alarms, in the order of the store. -/
def keys (c : Store τ) : List String := c.alarms.map Alarm.key

theorem mem_keys {c : Store τ} {key : String} : key ∈ keys c ↔ (status c key).isSome := by
  rw [status, Option.isSome_map, findByKey, FirstMatch.find_isSome, keys]

theorem keys_assign {f : Alarm τ → Alarm τ} {k : String} (hf : ∀ a, a.key = k → (f a).key = k)
    (c : Store τ) (h : List (AlertHistoryEntry τ)) :
    keys { alarms := FirstMatch.assign Alarm.key c.alarms k f, history := h } = keys c :=
  FirstMatch.map_key_assign hf c.alarms

theorem keys_erase (c : Store τ) (k : String) (h : List (AlertHistoryEntry τ)) :
    (keys { alarms := FirstMatch.erase Alarm.key c.alarms k, history := h }).Sublist (keys c) :=
  (FirstMatch.erase_sublist c.alarms k).map Alarm.key

theorem raise_keys (alert : AlertViewModel τ) (r : Reading) (c : Store τ) :
    alert.key ∈ keys c ∧ keys (raise alert r c).2 = keys c ∨
      alert.key ∉ keys c ∧ keys (raise alert r c).2 = keys c ++ [alert.key] := by
  cases hfind : findByKey c alert.key with
  | none =>
      refine Or.inr ⟨FirstMatch.find_eq_none.mp hfind, ?_⟩
      simp [raise, hfind, keys, Alarm.key]
  | some alarm =>
      refine Or.inl ⟨mem_keys.mpr (by simp [status, hfind]), ?_⟩
      simp only [raise, stamped_key, hfind]
      exact keys_assign (by intro a _; exact stamped_key alert r) c _

/-- A call other than `raise` keeps the keys in their order, less those that leave. -/
theorem keys_sublist (c : Store τ) (call : Call τ) (h : ∀ alert, call.op ≠ .raise alert) :
    (keys (step translate c call).2).Sublist (keys c) := by
  unfold step
  cases hop : call.op with
  | raise alert => exact absurd hop (h alert)
  | clear k =>
      show (keys (clear k call.reading c).2).Sublist _
      unfold clear
      split
      · exact List.Sublist.refl _
      · split
        · exact keys_erase c k _
        · rw [keys_assign (by exact fun _ h => h)]
        · rw [keys_assign (by exact fun _ h => h)]
  | acknowledge k =>
      show (keys (acknowledge k call.reading c).2).Sublist _
      unfold acknowledge
      split
      · exact List.Sublist.refl _
      · split
        · rw [keys_assign (by exact fun _ h => h)]
        · exact keys_erase c k _
        · exact List.Sublist.refl _
  | shelve k duration =>
      show (keys (shelve k duration call.reading c).2).Sublist _
      unfold shelve
      split
      · exact List.Sublist.refl _
      · rw [keys_assign (by exact fun _ h => h)]
  | unshelve k =>
      show (keys (unshelve k c).2).Sublist _
      unfold unshelve
      split
      · exact List.Sublist.refl _
      · split
        · rw [keys_assign (by exact fun _ h => h)]
        · exact List.Sublist.refl _
  | tick =>
      have hsame : keys (tick call.reading c).2 = keys c := by
        rw [keys, tick, List.map_map]
        refine List.map_congr_left fun alarm _ => ?_
        rw [Function.comp_apply]
        split <;> rfl
      exact hsame ▸ List.Sublist.refl _
  | clearAll =>
      show (keys (clearAll call.reading c).2).Sublist _
      unfold clearAll
      split
      · exact List.Sublist.refl _
      · exact List.nil_sublist _
  | clearHistory =>
      show (keys (clearHistory c).2).Sublist _
      unfold clearHistory
      split <;> exact List.Sublist.refl _
  | retranslate =>
      have hsame : keys (retranslate translate c).2 = keys c := by
        rw [keys, retranslate, List.map_map]
        exact List.map_congr_left fun alarm _ => (translated_kept translate alarm.vm).1
      exact hsame ▸ List.Sublist.refl _

theorem step_unique {c : Store τ} (hc : Unique c) (call : Call τ) :
    Unique (step translate c call).2 := by
  cases hop : call.op with
  | raise alert =>
      have hstep : (step translate c call).2 = (raise alert call.reading c).2 := by
        rw [step, hop]
      show (keys (step translate c call).2).Nodup
      rw [hstep]
      obtain ⟨_, hkeys⟩ | ⟨hnew, hkeys⟩ := raise_keys alert call.reading c
      · rw [hkeys]
        exact hc
      · rw [hkeys, List.nodup_append]
        refine ⟨hc, List.nodup_singleton _, fun a ha b hb => ?_⟩
        rw [List.mem_singleton.mp hb]
        exact fun hab => hnew (hab ▸ ha)
  | _ => exact hc.sublist (keys_sublist translate c call (by rw [hop]; exact fun _ => by simp))

theorem after_unique (calls : List (Call τ)) : Unique (after translate calls) := by
  have hempty : Unique ({} : Store τ) := List.nodup_nil
  have hstep (c : Store τ) (call : Call τ) (hc : Unique c) : Unique (step translate c call).2 :=
    step_unique translate hc call
  exact Transducer.final_invariant (step translate) hstep calls hempty

end AlertCenter
