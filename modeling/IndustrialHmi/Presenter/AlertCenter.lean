import IndustrialHmi.Theory.FirstMatch
import IndustrialHmi.Theory.Sorting
import IndustrialHmi.Theory.Transducer

/-!
# The alarm store

`AlertCenter` holds the live alarms in the order they were inserted and the newest
resolved ones.  Each member function is a step: the locked section gives the next
store, and `Effects` is what the call does after it has released the lock.

A call reads two clocks, `now_` and the wall clock of `formatNow`; its `Reading`
says what they answer.  A producer's `retranslate` callback is a name of type `τ`,
and `translate` says what it does to an alert.
-/

/-! ## Alerts -/

/-- Severity buckets for operator-visible alerts. -/
inductive AlertSeverity where
  | Info
  | Warning
  | Critical
  deriving DecidableEq

/-- The lifecycle state of an alarm. -/
inductive AlarmState where
  /-- Condition active, not yet acknowledged. -/
  | UnackActive
  /-- Condition active, acknowledged by the operator. -/
  | AckActive
  /-- Condition cleared, awaiting acknowledgement. -/
  | RtnUnack
  /-- Suppressed by the operator until a deadline. -/
  | Shelved
  deriving DecidableEq

def kAlarmPriorityLow : Int := 4

/-- A single alert card. -/
structure AlertViewModel (τ : Type) where
  key : String
  severity : AlertSeverity := .Info
  title : String := ""
  message : String := ""
  timestamp : String := ""
  state : AlarmState := .UnackActive
  priority : Int := kAlarmPriorityLow
  retranslate : Option τ := none

/-- A resolved alarm and the time of its resolution. -/
structure AlertHistoryEntry (τ : Type) where
  alert : AlertViewModel τ
  resolvedAt : String

/-- What the callbacks of the producers do to an alert: they may rewrite it, except for
the fields that the lifecycle rests on. -/
structure Translators (τ : Type) where
  run : τ → AlertViewModel τ → AlertViewModel τ
  run_key : ∀ t a, (run t a).key = a.key
  run_state : ∀ t a, (run t a).state = a.state
  run_priority : ∀ t a, (run t a).priority = a.priority

/-- No producer installs a callback. -/
def Translators.absent : Translators Empty where
  run t _ := t.elim
  run_key t _ := t.elim
  run_state t _ := t.elim
  run_priority t _ := t.elim

namespace AlertCenter

variable {τ : Type}

/-! ## The store -/

/-- Maximum entries kept in the history. -/
def kHistoryCapacity : Nat := 50

/-- Ticks of the shelf clock in a second. -/
def ticksPerSecond : Int := 1000000000

/-- One tracked alarm. -/
structure Alarm (τ : Type) where
  vm : AlertViewModel τ
  conditionActive : Bool := true
  shelvedUntil : Int := 0

structure Store (τ : Type) where
  alarms : List (Alarm τ) := []
  /-- Newest first. -/
  history : List (AlertHistoryEntry τ) := []

inductive AuditAction where
  | RAISE
  | REALARM
  | ACK
  | RTN
  | RESOLVE
  | SHELVE
  | UNSHELVE
  | EXPIRE
  deriving DecidableEq

/-- One call of the audit hook. -/
structure AuditEntry where
  action : AuditAction
  key : String
  deriving DecidableEq

/-- What a call does after it has released the lock. -/
structure Effects where
  alertsChanged : Bool := false
  historyChanged : Bool := false
  audit : List AuditEntry := []

/-- What the clocks answer to one call. -/
structure Reading where
  now : Int
  /-- The answers to the calls of `formatNow`, in order. -/
  formatNow : Nat → String

def Alarm.key (alarm : Alarm τ) : String := alarm.vm.key

def findByKey (c : Store τ) (key : String) : Option (Alarm τ) :=
  FirstMatch.find Alarm.key c.alarms key

/-- Newest first; the oldest entry drops off a full history. -/
def pushHistoryUnlocked (history : List (AlertHistoryEntry τ)) (alert : AlertViewModel τ)
    (resolvedAt : String) : List (AlertHistoryEntry τ) :=
  let pushed := { alert, resolvedAt } :: history
  if pushed.length > kHistoryCapacity then pushed.dropLast else pushed

/-! ## The member functions -/

/-- The alert of a `raise`, with a time if the producer left it out. -/
def stamped (alert : AlertViewModel τ) (r : Reading) : AlertViewModel τ :=
  if alert.timestamp.isEmpty then { alert with timestamp := r.formatNow 0 } else alert

/-- The presentation of a tracked alarm is replaced; a returned alarm goes back to
`UnackActive`. -/
def Alarm.refresh (alert : AlertViewModel τ) (alarm : Alarm τ) : Alarm τ :=
  let next := if alarm.vm.state = .RtnUnack then .UnackActive else alarm.vm.state
  { alarm with vm := { alert with state := next }, conditionActive := true }

def raise (alert : AlertViewModel τ) (r : Reading) (c : Store τ) : Effects × Store τ :=
  let alert := stamped alert r
  match findByKey c alert.key with
  | none =>
      ({ alertsChanged := true, audit := [⟨.RAISE, alert.key⟩] },
        { c with alarms := c.alarms ++ [{ vm := { alert with state := .UnackActive } }] })
  | some alarm =>
      let audit := if alarm.vm.state = .RtnUnack then [⟨.REALARM, alert.key⟩] else []
      ({ alertsChanged := true, audit },
        { c with alarms := FirstMatch.assign Alarm.key c.alarms alert.key (Alarm.refresh alert) })

/-- Sets the lifecycle state. -/
def Alarm.withState (state : AlarmState) (alarm : Alarm τ) : Alarm τ :=
  { alarm with vm := { alarm.vm with state } }

def clear (key : String) (r : Reading) (c : Store τ) : Effects × Store τ :=
  match findByKey c key with
  | none => ({}, c)
  | some alarm =>
      let lower := fun alarm : Alarm τ => { alarm with conditionActive := false }
      match alarm.vm.state with
      | .AckActive =>
          ({ alertsChanged := true, historyChanged := true, audit := [⟨.RESOLVE, key⟩] },
            { alarms := FirstMatch.erase Alarm.key c.alarms key
              history := pushHistoryUnlocked c.history alarm.vm (r.formatNow 0) })
      | .UnackActive =>
          let returned := fun alarm => (lower alarm).withState .RtnUnack
          ({ alertsChanged := true, audit := [⟨.RTN, key⟩] },
            { c with alarms := FirstMatch.assign Alarm.key c.alarms key returned })
      | _ => ({}, { c with alarms := FirstMatch.assign Alarm.key c.alarms key lower })

def acknowledge (key : String) (r : Reading) (c : Store τ) : Effects × Store τ :=
  match findByKey c key with
  | none => ({}, c)
  | some alarm =>
      match alarm.vm.state with
      | .UnackActive =>
          let acked := Alarm.withState .AckActive
          ({ alertsChanged := true, audit := [⟨.ACK, key⟩] },
            { c with alarms := FirstMatch.assign Alarm.key c.alarms key acked })
      | .RtnUnack =>
          ({ alertsChanged := true, historyChanged := true, audit := [⟨.RESOLVE, key⟩] },
            { alarms := FirstMatch.erase Alarm.key c.alarms key
              history := pushHistoryUnlocked c.history alarm.vm (r.formatNow 0) })
      | _ => ({}, c)

/-- The alarm hidden until `deadline`. -/
def Alarm.shelve (deadline : Int) (alarm : Alarm τ) : Alarm τ :=
  { (alarm.withState .Shelved) with shelvedUntil := deadline }

/-- `duration` is in seconds. -/
def shelve (key : String) (duration : Int) (r : Reading) (c : Store τ) : Effects × Store τ :=
  match findByKey c key with
  | none => ({}, c)
  | some _ =>
      ({ alertsChanged := true, audit := [⟨.SHELVE, key⟩] },
        { c with
          alarms := FirstMatch.assign Alarm.key c.alarms key
            (Alarm.shelve (r.now + duration * ticksPerSecond)) })

/-- The alarm back from the shelf, in the state its condition asks for. -/
def Alarm.restore (alarm : Alarm τ) : Alarm τ :=
  let state := if alarm.conditionActive then AlarmState.UnackActive else .RtnUnack
  { (alarm.withState state) with shelvedUntil := 0 }

def unshelve (key : String) (c : Store τ) : Effects × Store τ :=
  match findByKey c key with
  | none => ({}, c)
  | some alarm =>
      if alarm.vm.state = .Shelved then
        ({ alertsChanged := true, audit := [⟨.UNSHELVE, key⟩] },
          { c with alarms := FirstMatch.assign Alarm.key c.alarms key Alarm.restore })
      else ({}, c)

/-- Shelved, with a deadline that has passed. -/
def Alarm.expired (now : Int) (alarm : Alarm τ) : Bool :=
  alarm.vm.state = .Shelved && decide (alarm.shelvedUntil ≤ now)

def tick (r : Reading) (c : Store τ) : Effects × Store τ :=
  let expired := c.alarms.filter (Alarm.expired r.now)
  ({ alertsChanged := !expired.isEmpty
     audit := expired.map fun alarm => ⟨.EXPIRE, alarm.vm.key⟩ },
    { c with alarms := c.alarms.map fun alarm =>
        if alarm.expired r.now then alarm.restore else alarm })

/-- Pushes the alarms one after the other, the `i`-th with the `i`-th reading. -/
def pushAll (r : Reading) :
    List (Alarm τ) → Nat → List (AlertHistoryEntry τ) → List (AlertHistoryEntry τ)
  | [], _, history => history
  | alarm :: rest, i, history =>
      pushAll r rest (i + 1) (pushHistoryUnlocked history alarm.vm (r.formatNow i))

def clearAll (r : Reading) (c : Store τ) : Effects × Store τ :=
  if c.alarms.isEmpty then ({}, c)
  else
    ({ alertsChanged := true, historyChanged := true
       audit := c.alarms.map fun alarm => ⟨.RESOLVE, alarm.vm.key⟩ },
      { alarms := [], history := pushAll r c.alarms 0 c.history })

def clearHistory (c : Store τ) : Effects × Store τ :=
  if c.history.isEmpty then ({}, c) else ({ historyChanged := true }, { c with history := [] })

/-- Runs the alert's own callback on it, if it has one. -/
def translated (translate : Translators τ) (alert : AlertViewModel τ) : AlertViewModel τ :=
  match alert.retranslate with
  | none => alert
  | some t => translate.run t alert

def retranslate (translate : Translators τ) (c : Store τ) : Effects × Store τ :=
  ({ alertsChanged := c.alarms.any (·.vm.retranslate.isSome)
     historyChanged := c.history.any (·.alert.retranslate.isSome) },
    { alarms := c.alarms.map fun alarm => { alarm with vm := translated translate alarm.vm }
      history := c.history.map fun entry =>
        { entry with alert := translated translate entry.alert } })

/-! ## Snapshots -/

def snapshot (c : Store τ) : List (AlertViewModel τ) :=
  let out := (c.alarms.filter fun alarm => alarm.vm.state ≠ .Shelved).map Alarm.vm
  out.mergeSort fun a b => decide (a.priority ≤ b.priority)

/-- A row of the shelved inventory. -/
structure ShelvedView (τ : Type) where
  vm : AlertViewModel τ
  deadline : Int
  /-- In seconds. -/
  secondsRemaining : Int

/-- The row of a shelved alarm at `now`: whole seconds left, 0 past the deadline. -/
def Alarm.shelvedView (now : Int) (alarm : Alarm τ) : ShelvedView τ :=
  let delta := (alarm.shelvedUntil - now).tdiv ticksPerSecond
  { vm := alarm.vm, deadline := alarm.shelvedUntil
    secondsRemaining := if delta < 0 then 0 else delta }

/-- No row of a later deadline stands before one of an earlier deadline. -/
def byDeadline (a b : ShelvedView τ) : Bool := decide (a.deadline ≤ b.deadline)

/-- `sort` is `std::sort`, which leaves the order of equal deadlines open. -/
def shelvedSnapshot (sort : Sorting (byDeadline (τ := τ))) (now : Int) (c : Store τ) :
    List (ShelvedView τ) :=
  let shelved := c.alarms.filter fun alarm => alarm.vm.state = .Shelved
  sort.run (shelved.map (Alarm.shelvedView now))

/-! ## Runs of calls -/

inductive Op (τ : Type) where
  | raise (alert : AlertViewModel τ)
  | clear (key : String)
  | acknowledge (key : String)
  | shelve (key : String) (duration : Int)
  | unshelve (key : String)
  | tick
  | clearAll
  | clearHistory
  | retranslate

/-- A member function, with what the clocks answer to it. -/
structure Call (τ : Type) where
  op : Op τ
  reading : Reading

variable (translate : Translators τ)

def step (c : Store τ) (call : Call τ) : Effects × Store τ :=
  match call.op with
  | .raise alert => raise alert call.reading c
  | .clear key => clear key call.reading c
  | .acknowledge key => acknowledge key call.reading c
  | .shelve key duration => shelve key duration call.reading c
  | .unshelve key => unshelve key c
  | .tick => tick call.reading c
  | .clearAll => clearAll call.reading c
  | .clearHistory => clearHistory c
  | .retranslate => retranslate translate c

/-- The store after the calls of a run, made one after the other. -/
def after (calls : List (Call τ)) : Store τ := Transducer.final (step translate) {} calls

end AlertCenter
