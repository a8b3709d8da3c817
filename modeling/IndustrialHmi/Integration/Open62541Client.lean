import IndustrialHmi.Theory.Json
import IndustrialHmi.Theory.FirstMatch
import Mathlib.Data.List.Induction

/-!
# The OPC-UA client

`start` connects a new client of the library, creates a subscription on it and arms a monitored
item for every registered node; `stop` takes all of it down.  The worker that iterates the client
only clears the running flag when the link is lost, and a `stop` after that returns at once.

So a `start` may find the client of an earlier session still there.  `reconnects_iff` says that this
is what keeps the client from recovering, and nothing else.
-/

namespace OpcUa

/-! ## What the library holds -/

/-- A monitored item: on which client and subscription it was created, and for which registration,
by its place. -/
structure MonitoredItem where
  client : Nat
  subscriptionId : Nat
  pending : Nat
  deriving DecidableEq

/-- The clients of the library with what was created on them.  A client is known by how many there
were before it. -/
structure Library where
  created : Nat := 0
  deleted : List Nat := []
  /-- The subscriptions, each with its client. -/
  subscriptions : List (Nat × Nat) := []
  items : List MonitoredItem := []

namespace Library

def clientNew (l : Library) : Nat × Library := (l.created, { l with created := l.created + 1 })

def subscriptionsCreate (l : Library) (client id : Nat) : Library :=
  { l with subscriptions := (client, id) :: l.subscriptions }

def subscriptionsDeleteSingle (l : Library) (client id : Nat) : Library :=
  { l with
    subscriptions := l.subscriptions.filter (· ≠ (client, id))
    items := l.items.filter fun item => ¬(item.client = client ∧ item.subscriptionId = id) }

/-- An item is created on a subscription of the same client only. -/
def createDataChange (l : Library) (item : MonitoredItem) : Option Library :=
  if (item.client, item.subscriptionId) ∈ l.subscriptions then
    some { l with items := l.items ++ [item] }
  else none

def clientDelete (l : Library) (client : Nat) : Library :=
  { l with
    deleted := client :: l.deleted
    subscriptions := l.subscriptions.filter (·.1 ≠ client)
    items := l.items.filter (·.client ≠ client) }

end Library

/-! ## The client -/

inductive ValueType where
  | Float
  | Int32
  | Bool
  deriving DecidableEq

structure PendingSubscription where
  nodeBrowsePath : Text
  type : ValueType
  deriving DecidableEq

structure Client where
  running : Bool := false
  /-- The worker is iterating. -/
  working : Bool := false
  /-- The material for a secured connection was loaded. -/
  secured : Bool := false
  endpointUrl : Text := ascii "opc.tcp://127.0.0.1:4840"
  client : Option Nat := none
  /-- Zero when no subscription was created. -/
  subscriptionId : Nat := 0
  monitoredItemCount : Nat := 0
  subscriptions : List PendingSubscription := []
  library : Library := {}

/-- What a `start` is answered: each step goes well, or fails with the name of a status. -/
structure Answers where
  clientNew : Bool := true
  setDefault : Except Text Unit := .ok ()
  connect : Except Text Unit := .ok ()
  /-- Ids of subscriptions are not zero. -/
  subscriptionsCreate : Except Text { id : Nat // 0 < id }
  /-- Whether the server finds the node of a path. -/
  resolves : Text → Bool

/-- How a `start` ends. -/
inductive Started where
  | alreadyRunning
  | threw (message : Text)
  | returned
  deriving DecidableEq

namespace Client

/-- The message of what is thrown, if anything is, and the client then. -/
def connectSync (s : Client) (a : Answers) : Option Text × Client :=
  if !a.clientNew then
    (some (ascii "Open62541Client: UA_Client_new returned null"), { s with client := none })
  else
    let s := { s with client := some s.library.clientNew.1, library := s.library.clientNew.2 }
    match a.setDefault with
    | .error rc =>
        (some (ascii "Open62541Client: " ++
          (if s.secured then ascii "setDefaultEncryption" else ascii "setDefault") ++
          ascii " failed: " ++ rc), s)
    | .ok _ =>
        match a.connect with
        | .error rc =>
            (some (ascii "Open62541Client: connect to " ++ s.endpointUrl ++ ascii " failed: " ++
              rc), s)
        | .ok _ => (none, s)

def createSubscription (s : Client) (a : Answers) : Option Text × Client :=
  if s.subscriptionId ≠ 0 then (none, s)
  else
    match a.subscriptionsCreate with
    | .error rc => (some (ascii "Open62541Client: Subscriptions_create failed: " ++ rc), s)
    | .ok id =>
        (none,
          { s with
            subscriptionId := id
            library := s.client.elim s.library (s.library.subscriptionsCreate · id) })

/-- Arms the registration at a place, if its node is found and the item is accepted. -/
def armMonitoredItem (s : Client) (resolves : Text → Bool) (place : Nat)
    (pending : PendingSubscription) : Bool × Client :=
  match s.client with
  | none => (false, s)
  | some client =>
      if s.subscriptionId = 0 then (false, s)
      else if !resolves pending.nodeBrowsePath then (false, s)
      else
        match s.library.createDataChange
            { client, subscriptionId := s.subscriptionId, pending := place } with
        | none => (false, s)
        | some library =>
            (true, { s with library, monitoredItemCount := s.monitoredItemCount + 1 })

def replaySubscriptions (s : Client) (resolves : Text → Bool) : Client :=
  s.subscriptions.zipIdx.foldl (fun s e => (s.armMonitoredItem resolves e.2 e.1).2) s

/-- Takes a `start` back that threw. -/
def rollBack (s : Client) : Client :=
  match s.client with
  | none => { s with running := false }
  | some client =>
      { s with
        running := false
        library := s.library.clientDelete client
        client := none
        subscriptionId := 0 }

def start (s : Client) (a : Answers) : Started × Client :=
  if s.running then (.alreadyRunning, s)
  else
    match { s with running := true }.connectSync a with
    | (some message, s) => (.threw message, s.rollBack)
    | (none, s) =>
        match s.createSubscription a with
        | (some message, s) => (.threw message, s.rollBack)
        | (none, s) => (.returned, { s.replaySubscriptions a.resolves with working := true })

def stop (s : Client) : Client :=
  if !s.running then s
  else
    match s.client with
    | none => { s with running := false, working := false, monitoredItemCount := 0 }
    | some client =>
        let library :=
          if s.subscriptionId ≠ 0 then
            s.library.subscriptionsDeleteSingle client s.subscriptionId
          else s.library
        { s with
          running := false
          working := false
          subscriptionId := 0
          library := library.clientDelete client
          client := none
          monitoredItemCount := 0 }

/-- The worker gets a bad status from the library, and ends. -/
def linkFailure (s : Client) : Client :=
  if s.working then { s with running := false, working := false } else s

def registerSubscription (s : Client) (resolves : Text → Bool) (pending : PendingSubscription) :
    Bool × Client :=
  if pending.nodeBrowsePath = [] then (false, s)
  else
    let place := s.subscriptions.length
    let s := { s with subscriptions := s.subscriptions ++ [pending] }
    if s.running then s.armMonitoredItem resolves place pending else (true, s)

def subscribeFloat (s : Client) (resolves : Text → Bool) (nodeBrowsePath : Text) :
    Bool × Client :=
  s.registerSubscription resolves { nodeBrowsePath, type := .Float }

def subscribeInt32 (s : Client) (resolves : Text → Bool) (nodeBrowsePath : Text) :
    Bool × Client :=
  s.registerSubscription resolves { nodeBrowsePath, type := .Int32 }

def subscribeBool (s : Client) (resolves : Text → Bool) (nodeBrowsePath : Text) :
    Bool × Client :=
  s.registerSubscription resolves { nodeBrowsePath, type := .Bool }

/-! ## Runs -/

/-- What happens to the client: a call, or a loss of the link that the worker sees.  When a
subscription is made the server may find any nodes. -/
inductive Event where
  | start (a : Answers)
  | stop
  | subscribeFloat (resolves : Text → Bool) (nodeBrowsePath : Text)
  | subscribeInt32 (resolves : Text → Bool) (nodeBrowsePath : Text)
  | subscribeBool (resolves : Text → Bool) (nodeBrowsePath : Text)
  | linkFailure

def step (s : Client) : Event → Client
  | .start a => (s.start a).2
  | .stop => s.stop
  | .subscribeFloat resolves path => (s.subscribeFloat resolves path).2
  | .subscribeInt32 resolves path => (s.subscribeInt32 resolves path).2
  | .subscribeBool resolves path => (s.subscribeBool resolves path).2
  | .linkFailure => s.linkFailure

/-- A new client after a run. -/
def after (events : List Event) : Client := events.foldl step {}

theorem after_concat (events : List Event) (e : Event) :
    after (events ++ [e]) = (after events).step e := List.foldl_concat ..

/-- The items of one client for one registration. -/
def itemsFor (s : Client) (client place : Nat) : List MonitoredItem :=
  s.library.items.filter fun item => item.client = client ∧ item.pending = place

/-- After a `start`: every registration whose node is found has exactly one item, and that on a
subscription of the current client; the counter counts the items of that client; and all other
clients were deleted. -/
def Recovered (resolves : Text → Bool) (s : Client) : Prop :=
  ∃ client, s.client = some client ∧
    (∀ (place : Nat) pending, s.subscriptions[place]? = some pending →
      resolves pending.nodeBrowsePath = true →
        ∃ item, s.itemsFor client place = [item] ∧
          (client, item.subscriptionId) ∈ s.library.subscriptions) ∧
    s.monitoredItemCount = s.library.items.countP (fun item => item.client = client) ∧
    ∀ other < s.library.created, other ≠ client → other ∈ s.library.deleted

/-- Every `start` of the run that finds the client not running finds no client of the library
either. -/
def Tidy (events : List Event) : Prop :=
  ∀ done a, done ++ [.start a] <+: events → (after done).running = false →
    (after done).client = none

/-! ## What arming adds -/

/-- The item that a registration gets. -/
def itemOf (s : Client) (resolves : Text → Bool) (e : PendingSubscription × Nat) :
    Option MonitoredItem :=
  s.client.bind fun client =>
    if s.subscriptionId ≠ 0 ∧ resolves e.1.nodeBrowsePath = true ∧
        (client, s.subscriptionId) ∈ s.library.subscriptions then
      some { client, subscriptionId := s.subscriptionId, pending := e.2 }
    else none

def withItems (s : Client) (items : List MonitoredItem) : Client :=
  { s with
    library := { s.library with items := s.library.items ++ items }
    monitoredItemCount := s.monitoredItemCount + items.length }

theorem withItems_nil (s : Client) : s.withItems [] = s := by
  simp only [withItems, List.append_nil, List.length_nil, Nat.add_zero]

theorem withItems_append (s : Client) (items items' : List MonitoredItem) :
    (s.withItems items).withItems items' = s.withItems (items ++ items') := by
  simp only [withItems, List.append_assoc, List.length_append, Nat.add_assoc]

theorem armMonitoredItem_eq (s : Client) (resolves : Text → Bool) (place : Nat)
    (pending : PendingSubscription) :
    (s.armMonitoredItem resolves place pending).2 =
      s.withItems (s.itemOf resolves (pending, place)).toList := by
  rw [armMonitoredItem, itemOf]
  cases hclient : s.client with
  | none => exact s.withItems_nil.symm
  | some client =>
      dsimp only [Option.bind_some]
      by_cases hid : s.subscriptionId = 0
      · rw [if_pos hid, if_neg fun h => h.1 hid]
        exact s.withItems_nil.symm
      · rw [if_neg hid]
        cases resolves pending.nodeBrowsePath with
        | false =>
            rw [if_pos (by decide), if_neg fun h => Bool.false_ne_true h.2.1]
            exact s.withItems_nil.symm
        | true =>
            rw [if_neg (by decide), Library.createDataChange]
            by_cases hmem : (client, s.subscriptionId) ∈ s.library.subscriptions
            · rw [if_pos hmem, if_pos ⟨hid, rfl, hmem⟩]
              simp only [withItems, hclient]
              rfl
            · rw [if_neg hmem, if_neg fun h => hmem h.2.2]
              exact s.withItems_nil.symm

/-- The replay arms the registrations one after the other. -/
theorem replaySubscriptions_eq (s : Client) (resolves : Text → Bool) :
    s.replaySubscriptions resolves =
      s.withItems (s.subscriptions.zipIdx.filterMap (s.itemOf resolves)) := by
  have h (es : List (PendingSubscription × Nat)) (armed : List MonitoredItem) :
      es.foldl (fun s e => (s.armMonitoredItem resolves e.2 e.1).2) (s.withItems armed) =
        s.withItems (armed ++ es.filterMap (s.itemOf resolves)) := by
    induction es generalizing armed with
    | nil => rw [List.filterMap_nil, List.append_nil, List.foldl_nil]
    | cons e es ih =>
        have hitem : (s.withItems armed).itemOf resolves (e.1, e.2) = s.itemOf resolves e := rfl
        rw [List.foldl_cons, armMonitoredItem_eq, withItems_append, hitem, ih,
          List.append_assoc, List.filterMap_cons]
        cases s.itemOf resolves e <;> rfl
  have hfirst := h s.subscriptions.zipIdx []
  rw [withItems_nil, List.nil_append] at hfirst
  exact hfirst

theorem itemOf_client {s : Client} {resolves : Text → Bool} {e : PendingSubscription × Nat}
    {item : MonitoredItem} (h : s.itemOf resolves e = some item) :
    s.client = some item.client := by
  obtain ⟨client, hclient, h⟩ := Option.bind_eq_some_iff.mp h
  split at h
  next => rw [hclient, ← Option.some.inj h]
  next => cases h

theorem itemOf_pending {s : Client} {resolves : Text → Bool} {e : PendingSubscription × Nat}
    {item : MonitoredItem} (h : s.itemOf resolves e = some item) : item.pending = e.2 := by
  obtain ⟨client, _, h⟩ := Option.bind_eq_some_iff.mp h
  split at h
  next => rw [← Option.some.inj h]
  next => cases h

/-! ## What a start does -/

/-- The client with a new client of the library. -/
def connected (s : Client) : Client :=
  { s with running := true, client := some s.library.clientNew.1, library := s.library.clientNew.2 }

/-- The connected client with a subscription; one that is there is left. -/
def subscribed (s : Client) (id : Nat) : Client :=
  if s.subscriptionId ≠ 0 then s.connected
  else
    { s.connected with
      subscriptionId := id
      library := s.connected.library.subscriptionsCreate s.library.created id }

theorem connectSync_cases (s : Client) (a : Answers) :
    (∃ message, { s with running := true }.connectSync a =
      (some message, { s with running := true, client := none })) ∨
      ∃ thrown, { s with running := true }.connectSync a = (thrown, s.connected) := by
  rw [connectSync]
  by_cases hnew : a.clientNew = true
  · rw [hnew, if_neg (by decide)]
    cases a.setDefault with
    | error rc => exact Or.inr ⟨_, rfl⟩
    | ok _ =>
        cases a.connect with
        | error rc => exact Or.inr ⟨_, rfl⟩
        | ok _ => exact Or.inr ⟨_, rfl⟩
  · rw [Bool.eq_false_iff.mpr hnew, if_pos (by decide)]
    exact Or.inl ⟨_, rfl⟩

theorem createSubscription_cases (s : Client) (a : Answers) :
    (∃ message, s.connected.createSubscription a = (some message, s.connected)) ∨
      ∃ id, 0 < id ∧ s.connected.createSubscription a = (none, s.subscribed id) := by
  rw [createSubscription]
  by_cases hid : s.subscriptionId ≠ 0
  · refine Or.inr ⟨1, Nat.one_pos, ?_⟩
    rw [subscribed, if_pos hid]
    exact if_pos hid
  · have hzero : ¬s.connected.subscriptionId ≠ 0 := hid
    rw [if_neg hzero]
    cases a.subscriptionsCreate with
    | error rc => exact Or.inl ⟨_, rfl⟩
    | ok id =>
        refine Or.inr ⟨id, id.2, ?_⟩
        rw [subscribed, if_neg hid]
        rfl

/-- A start of a client that is not running: no client of the library is made; or one is made and
deleted again; or it is kept, and the registrations are armed. -/
theorem start_cases {s : Client} (hidle : s.running = false) (a : Answers) :
    ((s.start a).1 ≠ .returned ∧
        ((s.start a).2 = { s with client := none, running := false } ∨
          (s.start a).2 = s.connected.rollBack)) ∨
      ∃ id, 0 < id ∧ (s.start a).1 = .returned ∧
        (s.start a).2 =
          { (s.subscribed id).replaySubscriptions a.resolves with working := true } := by
  rw [start, hidle, if_neg Bool.false_ne_true]
  obtain ⟨message, hconnect⟩ | ⟨thrown, hconnect⟩ := s.connectSync_cases a
  · rw [hconnect]
    exact Or.inl ⟨nofun, Or.inl rfl⟩
  · rw [hconnect]
    cases thrown with
    | some message => exact Or.inl ⟨nofun, Or.inr rfl⟩
    | none =>
        dsimp only
        obtain ⟨message, hcreate⟩ | ⟨id, hid, hcreate⟩ := s.createSubscription_cases a
        · rw [hcreate]
          exact Or.inl ⟨nofun, Or.inr rfl⟩
        · rw [hcreate]
          exact Or.inr ⟨id, hid, rfl, rfl⟩

/-! ## Who holds the clients of the library -/

/-- How a step passes the clients of the library on. -/
inductive Custody (s s' : Client) : Prop where
  | same (client : s'.client = s.client) (created : s'.library.created = s.library.created)
      (deleted : s'.library.deleted = s.library.deleted)
  | taken (idle : s.running = false) (client : s'.client = some s.library.created)
      (created : s'.library.created = s.library.created + 1)
      (deleted : s'.library.deleted = s.library.deleted)
  | dropped (idle : s.running = false) (client : s'.client = none)
      (created : s'.library.created = s.library.created)
      (deleted : s'.library.deleted = s.library.deleted)
  | discarded (idle : s.running = false) (client : s'.client = none)
      (created : s'.library.created = s.library.created + 1)
      (deleted : s'.library.deleted = s.library.created :: s.library.deleted)
  | released {held : Nat} (client : s.client = some held) (client' : s'.client = none)
      (created : s'.library.created = s.library.created)
      (deleted : s'.library.deleted = held :: s.library.deleted)

theorem subscribed_client (s : Client) (id : Nat) :
    (s.subscribed id).client = some s.library.created ∧
      (s.subscribed id).library.created = s.library.created + 1 ∧
      (s.subscribed id).library.deleted = s.library.deleted := by
  rw [subscribed]
  split <;> exact ⟨rfl, rfl, rfl⟩

theorem custody_start {s : Client} (hidle : s.running = false) (a : Answers) :
    Custody s (s.start a).2 := by
  obtain ⟨_, hstart | hstart⟩ | ⟨id, _, _, hstart⟩ := start_cases hidle a
  · rw [hstart]
    exact .dropped hidle rfl rfl rfl
  · rw [hstart]
    exact .discarded hidle rfl rfl rfl
  · rw [hstart, replaySubscriptions_eq]
    obtain ⟨hclient, hcreated, hdeleted⟩ := s.subscribed_client id
    exact .taken hidle hclient hcreated hdeleted

theorem custody_register (s : Client) (resolves : Text → Bool) (pending : PendingSubscription) :
    Custody s (s.registerSubscription resolves pending).2 := by
  rw [registerSubscription]
  split
  next => exact .same rfl rfl rfl
  next =>
    dsimp only
    split
    next =>
      rw [armMonitoredItem_eq]
      exact .same rfl rfl rfl
    next => exact .same rfl rfl rfl

theorem custody_stop (s : Client) : Custody s s.stop := by
  rw [stop]
  split
  next => exact .same rfl rfl rfl
  next =>
    split
    next => exact .same rfl rfl rfl
    next held hheld =>
      refine .released hheld rfl ?_ ?_
      · split <;> rfl
      · split <;> rfl

theorem custody_step (s : Client) (e : Event) : Custody s (s.step e) := by
  cases e with
  | start a =>
      cases hrunning : s.running with
      | false => exact custody_start hrunning a
      | true =>
          have hsame : s.step (.start a) = s := by rw [step, start, hrunning, if_pos rfl]
          rw [hsame]
          exact .same rfl rfl rfl
  | stop => exact s.custody_stop
  | subscribeFloat resolves path => exact s.custody_register resolves _
  | subscribeInt32 resolves path => exact s.custody_register resolves _
  | subscribeBool resolves path => exact s.custody_register resolves _
  | linkFailure =>
      rw [step, linkFailure]
      split <;> exact .same rfl rfl rfl

/-- The client that is held was created and is not deleted. -/
structure Holds (s : Client) : Prop where
  held : ∀ client, s.client = some client →
    client < s.library.created ∧ client ∉ s.library.deleted
  deleted_lt : ∀ client ∈ s.library.deleted, client < s.library.created

theorem Holds.custody {s s' : Client} (h : s.Holds) (hstep : Custody s s') : s'.Holds := by
  cases hstep with
  | same hclient hcreated hdeleted =>
      refine ⟨?_, ?_⟩
      · rw [hclient, hcreated, hdeleted]
        exact h.held
      · rw [hcreated, hdeleted]
        exact h.deleted_lt
  | taken _ hclient hcreated hdeleted =>
      refine ⟨fun client hheld => ?_, fun client hmem => ?_⟩
      · rw [hclient] at hheld
        obtain rfl := Option.some.inj hheld
        rw [hcreated, hdeleted]
        exact ⟨Nat.lt_succ_self _, fun hmem => Nat.lt_irrefl _ (h.deleted_lt _ hmem)⟩
      · rw [hdeleted] at hmem
        rw [hcreated]
        exact Nat.lt_succ_of_lt (h.deleted_lt client hmem)
  | dropped _ hclient hcreated hdeleted =>
      refine ⟨fun client hheld => ?_, ?_⟩
      · rw [hclient] at hheld
        cases hheld
      · rw [hcreated, hdeleted]
        exact h.deleted_lt
  | discarded _ hclient hcreated hdeleted =>
      refine ⟨fun client hheld => ?_, fun client hmem => ?_⟩
      · rw [hclient] at hheld
        cases hheld
      · rw [hdeleted] at hmem
        rw [hcreated]
        rcases List.mem_cons.mp hmem with rfl | hold
        · exact Nat.lt_succ_self _
        · exact Nat.lt_succ_of_lt (h.deleted_lt client hold)
  | released hheld hclient hcreated hdeleted =>
      refine ⟨fun client hheld' => ?_, fun client hmem => ?_⟩
      · rw [hclient] at hheld'
        cases hheld'
      · rw [hdeleted] at hmem
        rw [hcreated]
        rcases List.mem_cons.mp hmem with rfl | hold
        · exact (h.held _ hheld).1
        · exact h.deleted_lt client hold

theorem holds_after (events : List Event) : (after events).Holds := by
  induction events using List.reverseRecOn with
  | nil => exact ⟨nofun, nofun⟩
  | append_singleton events e ih =>
      rw [after_concat]
      exact ih.custody (custody_step _ e)

/-- A client of the library that is not deleted and that nobody holds. -/
structure Leaked (s : Client) (client : Nat) : Prop where
  created : client < s.library.created
  not_deleted : client ∉ s.library.deleted
  not_held : s.client ≠ some client

/-- Nobody comes by a leaked client again. -/
theorem Leaked.custody {s s' : Client} {client : Nat} (h : s.Leaked client)
    (hstep : Custody s s') : s'.Leaked client := by
  cases hstep with
  | same hclient hcreated hdeleted =>
      exact ⟨hcreated ▸ h.created, hdeleted ▸ h.not_deleted, hclient ▸ h.not_held⟩
  | taken _ hclient hcreated hdeleted =>
      refine ⟨hcreated ▸ Nat.lt_succ_of_lt h.created, hdeleted ▸ h.not_deleted, fun hheld => ?_⟩
      rw [hclient] at hheld
      exact Nat.lt_irrefl _ (Option.some.inj hheld ▸ h.created)
  | dropped _ hclient hcreated hdeleted =>
      refine ⟨hcreated ▸ h.created, hdeleted ▸ h.not_deleted, ?_⟩
      rw [hclient]
      exact nofun
  | discarded _ hclient hcreated hdeleted =>
      refine ⟨hcreated ▸ Nat.lt_succ_of_lt h.created, fun hmem => ?_, ?_⟩
      · rw [hdeleted] at hmem
        rcases List.mem_cons.mp hmem with rfl | hold
        · exact Nat.lt_irrefl _ h.created
        · exact h.not_deleted hold
      · rw [hclient]
        exact nofun
  | released hheld hclient hcreated hdeleted =>
      refine ⟨hcreated ▸ h.created, fun hmem => ?_, ?_⟩
      · rw [hdeleted] at hmem
        rcases List.mem_cons.mp hmem with rfl | hold
        · exact h.not_held hheld
        · exact h.not_deleted hold
      · rw [hclient]
        exact nofun

/-- A start that finds a client leaks it. -/
theorem leaked_of_start {s : Client} (hholds : s.Holds) (hidle : s.running = false) {client : Nat}
    (hclient : s.client = some client) (a : Answers) : (s.start a).2.Leaked client := by
  obtain ⟨hlt, hnot⟩ := hholds.held client hclient
  obtain ⟨_, hstart | hstart⟩ | ⟨id, _, _, hstart⟩ := start_cases hidle a
  · rw [hstart]
    exact ⟨hlt, hnot, nofun⟩
  · rw [hstart]
    refine ⟨Nat.lt_succ_of_lt hlt, fun hmem => ?_, nofun⟩
    rcases List.mem_cons.mp hmem with rfl | hold
    · exact Nat.lt_irrefl _ hlt
    · exact hnot hold
  · rw [hstart, replaySubscriptions_eq]
    obtain ⟨hcurrent, hcreated, hdeleted⟩ := s.subscribed_client id
    refine ⟨hcreated ▸ Nat.lt_succ_of_lt hlt, hdeleted ▸ hnot, fun hheld => ?_⟩
    exact Nat.lt_irrefl _ (Option.some.inj (hcurrent.symm.trans hheld) ▸ hlt)

theorem not_recovered_of_leaked {s : Client} {client : Nat} (h : s.Leaked client)
    (resolves : Text → Bool) : ¬Recovered resolves s := by
  rintro ⟨current, hcurrent, _, _, hdeleted⟩
  refine h.not_deleted (hdeleted client h.created fun heq => h.not_held ?_)
  rw [heq, hcurrent]

/-! ## A client that is put away -/

/-- Every client of the library that is not held is deleted, and without one there is nothing left
of a session. -/
structure Orderly (s : Client) : Prop where
  idle : s.client = none →
    s.running = false ∧ s.subscriptionId = 0 ∧ s.monitoredItemCount = 0
  released : ∀ client < s.library.created, s.client ≠ some client → client ∈ s.library.deleted
  items_lt : ∀ item ∈ s.library.items, item.client < s.library.created

theorem Orderly.withItems {s : Client} (h : s.Orderly) (hholds : s.Holds)
    {items : List MonitoredItem} (hitems : ∀ item ∈ items, s.client = some item.client) :
    (s.withItems items).Orderly := by
  refine ⟨fun hnone => ?_, h.released, fun item hmem => ?_⟩
  · have hempty : items = [] := by
      cases items with
      | nil => rfl
      | cons item items =>
          have hclient := hitems item List.mem_cons_self
          rw [show s.client = none from hnone] at hclient
          cases hclient
    rw [hempty, withItems_nil]
    exact h.idle hnone
  · rcases List.mem_append.mp hmem with hold | hnew
    · exact h.items_lt item hold
    · exact (hholds.held _ (hitems item hnew)).1

theorem Orderly.register {s : Client} (h : s.Orderly) (hholds : s.Holds)
    (resolves : Text → Bool) (pending : PendingSubscription) :
    (s.registerSubscription resolves pending).2.Orderly := by
  rw [registerSubscription]
  split
  next => exact h
  next =>
    have hregistered : Orderly { s with subscriptions := s.subscriptions ++ [pending] } :=
      ⟨h.idle, h.released, h.items_lt⟩
    dsimp only
    split
    next =>
      rw [armMonitoredItem_eq]
      refine hregistered.withItems ⟨hholds.held, hholds.deleted_lt⟩ fun item hmem => ?_
      exact itemOf_client (Option.mem_toList.mp hmem)
    next => exact hregistered

theorem Orderly.stop {s : Client} (h : s.Orderly) : s.stop.Orderly := by
  rw [Client.stop]
  split
  next => exact h
  next hrunning =>
    split
    next hnone =>
      rw [(h.idle hnone).1] at hrunning
      exact absurd rfl hrunning
    next held hheld =>
      have hreleased : ∀ client < s.library.created, client ∈ held :: s.library.deleted := by
        intro client hlt
        by_cases hclient : client = held
        · exact List.mem_cons.mpr (Or.inl hclient)
        · refine List.mem_cons_of_mem _ (h.released client hlt fun heq => hclient ?_)
          exact (Option.some.inj (hheld.symm.trans heq)).symm
      by_cases hid : s.subscriptionId ≠ 0
      · rw [if_pos hid]
        refine ⟨fun _ => ⟨rfl, rfl, rfl⟩, fun client hlt _ => hreleased client hlt,
          fun item hmem => ?_⟩
        exact h.items_lt item (List.mem_of_mem_filter (List.mem_of_mem_filter hmem))
      · rw [if_neg hid]
        refine ⟨fun _ => ⟨rfl, rfl, rfl⟩, fun client hlt _ => hreleased client hlt,
          fun item hmem => ?_⟩
        exact h.items_lt item (List.mem_of_mem_filter hmem)

/-- A start that finds no client leaves the client orderly. -/
theorem Orderly.start {s : Client} (h : s.Orderly) (hholds : s.Holds) (hnone : s.client = none)
    (a : Answers) : (s.start a).2.Orderly := by
  obtain ⟨hidle, hid, hcount⟩ := h.idle hnone
  have hdeleted : ∀ client < s.library.created, client ∈ s.library.deleted := by
    intro client hlt
    refine h.released client hlt ?_
    rw [hnone]
    exact nofun
  have hconnected : s.connected.Orderly := by
    refine ⟨nofun, fun client hlt hne => ?_, fun item hmem => ?_⟩
    · rcases Nat.lt_succ_iff_lt_or_eq.mp hlt with hold | rfl
      · exact hdeleted client hold
      · exact absurd rfl hne
    · exact Nat.lt_succ_of_lt (h.items_lt item hmem)
  have hheld : s.connected.Holds := hholds.custody (.taken hidle rfl rfl rfl)
  obtain ⟨_, hstart | hstart⟩ | ⟨id, _, _, hstart⟩ := start_cases hidle a
  · rw [hstart]
    exact ⟨fun _ => ⟨rfl, hid, hcount⟩, fun client hlt _ => hdeleted client hlt, h.items_lt⟩
  · rw [hstart]
    refine ⟨fun _ => ⟨rfl, rfl, hcount⟩, fun client hlt _ => ?_, fun item hmem => ?_⟩
    · rcases Nat.lt_succ_iff_lt_or_eq.mp hlt with hold | rfl
      · exact List.mem_cons_of_mem _ (hdeleted client hold)
      · exact List.mem_cons_self
    · exact Nat.lt_succ_of_lt (h.items_lt item (List.mem_of_mem_filter hmem))
  · have hsubscribed : (s.subscribed id).Orderly ∧ (s.subscribed id).Holds := by
      rw [subscribed, if_neg (not_not_intro hid)]
      exact ⟨⟨nofun, hconnected.released, hconnected.items_lt⟩, hheld.held, hheld.deleted_lt⟩
    have hitems : ∀ item ∈ (s.subscribed id).subscriptions.zipIdx.filterMap
        ((s.subscribed id).itemOf a.resolves), (s.subscribed id).client = some item.client := by
      intro item hmem
      obtain ⟨e, _, he⟩ := List.mem_filterMap.mp hmem
      exact itemOf_client he
    have hreplayed := hsubscribed.1.withItems hsubscribed.2 hitems
    rw [hstart, replaySubscriptions_eq]
    refine ⟨fun hclient => ?_, hreplayed.released, hreplayed.items_lt⟩
    cases (s.subscribed_client id).1.symm.trans hclient

/-- What a filter on the results keeps is what it keeps of the arguments. -/
theorem filter_filterMap_of {α β : Type} {f : α → Option β} {p : α → Bool} {q : β → Bool}
    (h : ∀ a b, f a = some b → q b = p a) (l : List α) :
    (l.filterMap f).filter q = (l.filter p).filterMap f := by
  induction l with
  | nil => rfl
  | cons a l ih =>
      cases hf : f a with
      | none =>
          rw [List.filterMap_cons_none hf, ih, List.filter_cons]
          split
          next => rw [List.filterMap_cons_none hf]
          next => rfl
      | some b =>
          rw [List.filterMap_cons_some hf, List.filter_cons, List.filter_cons, h a b hf, ih]
          split
          next => rw [List.filterMap_cons_some hf]
          next => rfl

/-- At a place of a list stands one element. -/
theorem filter_zipIdx {α : Type} {l : List α} {place : Nat} {a : α} (h : l[place]? = some a) :
    l.zipIdx.filter (fun e => e.2 == place) = [(a, place)] := by
  have hnodup : (l.zipIdx.map Prod.snd).Nodup := by
    rw [List.zipIdx_map_snd]
    exact List.nodup_range'
  rw [FirstMatch.filter_key hnodup place,
    FirstMatch.find_of_mem hnodup (List.mk_mem_zipIdx_iff_getElem?.mpr h)]
  rfl

theorem itemOf_subscribed {s : Client} (hid : s.subscriptionId = 0) {id : Nat} (hpos : 0 < id)
    (resolves : Text → Bool) (e : PendingSubscription × Nat) :
    (s.subscribed id).itemOf resolves e =
      if resolves e.1.nodeBrowsePath = true then
        some { client := s.library.created, subscriptionId := id, pending := e.2 }
      else none := by
  rw [subscribed, if_neg (not_not_intro hid)]
  refine if_congr ⟨fun h => h.2.1, fun h => ⟨Nat.ne_of_gt hpos, h, ?_⟩⟩ rfl rfl
  exact List.mem_cons_self

/-- A new client makes one item for a registration whose node is found. -/
theorem items_at {s : Client} (hid : s.subscriptionId = 0) {id : Nat} (hpos : 0 < id)
    {resolves : Text → Bool} {place : Nat} {pending : PendingSubscription}
    (hplace : s.subscriptions[place]? = some pending)
    (hresolves : resolves pending.nodeBrowsePath = true) :
    (s.subscriptions.zipIdx.filterMap ((s.subscribed id).itemOf resolves)).filter
        (fun item => item.client = s.library.created ∧ item.pending = place) =
      [{ client := s.library.created, subscriptionId := id, pending := place }] := by
  have hplaces : ∀ (e : PendingSubscription × Nat) (item : MonitoredItem),
      (s.subscribed id).itemOf resolves e = some item →
      decide (item.client = s.library.created ∧ item.pending = place) = (e.2 == place) := by
    intro e item hitem
    have hclient := (s.subscribed_client id).1.symm.trans (itemOf_client hitem)
    rw [← Option.some.inj hclient, itemOf_pending hitem]
    simp only [true_and]
    rfl
  rw [filter_filterMap_of hplaces, filter_zipIdx hplace,
    List.filterMap_cons_some ((itemOf_subscribed hid hpos resolves _).trans (if_pos hresolves)),
    List.filterMap_nil]

/-- A start that finds no client, and returns, arms every registration whose node is found. -/
theorem recovered_start {s : Client} (h : s.Orderly) (hnone : s.client = none) (a : Answers)
    (hreturned : (s.start a).1 = .returned) : Recovered a.resolves (s.start a).2 := by
  obtain ⟨hidle, hid, hcount⟩ := h.idle hnone
  obtain ⟨hthrew, _⟩ | ⟨id, hpos, _, hstart⟩ := start_cases hidle a
  · exact absurd hreturned hthrew
  · have hold : ∀ item ∈ s.library.items, item.client ≠ s.library.created := fun item hmem =>
      Nat.ne_of_lt (h.items_lt item hmem)
    have hnew : ∀ item ∈ s.subscriptions.zipIdx.filterMap ((s.subscribed id).itemOf a.resolves),
        item.client = s.library.created := by
      intro item hmem
      obtain ⟨e, _, hitem⟩ := List.mem_filterMap.mp hmem
      have hclient := (s.subscribed_client id).1.symm.trans (itemOf_client hitem)
      exact (Option.some.inj hclient).symm
    have hitems := @items_at s hid id hpos a.resolves
    rw [hstart, replaySubscriptions_eq]
    generalize (s.subscribed id).itemOf a.resolves = itemOf at hnew hitems
    rw [subscribed, if_neg (not_not_intro hid)]
    refine ⟨s.library.created, rfl, fun place pending hplace hresolves => ?_, ?_, ?_⟩
    · refine ⟨{ client := s.library.created, subscriptionId := id, pending := place }, ?_,
        List.mem_cons_self⟩
      show (s.library.items ++ s.subscriptions.zipIdx.filterMap itemOf).filter
        (fun item => item.client = s.library.created ∧ item.pending = place) = _
      have hnone_old : s.library.items.filter
          (fun item => item.client = s.library.created ∧ item.pending = place) = [] := by
        refine List.filter_eq_nil_iff.mpr fun item hmem htrue => ?_
        exact hold item hmem (of_decide_eq_true htrue).1
      rw [List.filter_append, hnone_old, List.nil_append]
      exact hitems hplace hresolves
    · show s.monitoredItemCount + (s.subscriptions.zipIdx.filterMap itemOf).length =
        (s.library.items ++ s.subscriptions.zipIdx.filterMap itemOf).countP
          (fun item => item.client = s.library.created)
      rw [List.countP_append, hcount]
      congr 1
      · refine (List.countP_eq_zero.mpr fun item hmem htrue => ?_).symm
        exact hold item hmem (of_decide_eq_true htrue)
      · exact (List.countP_eq_length.mpr fun item hmem => decide_eq_true (hnew item hmem)).symm
    · intro other hlt hne
      refine h.released other (Nat.lt_of_le_of_ne (Nat.le_of_lt_succ hlt) hne) ?_
      rw [hnone]
      exact nofun

/-! ## Runs -/

theorem tidy_nil : Tidy [] := by
  intro done a hpre
  cases List.append_eq_nil_iff.mp (List.prefix_nil.mp hpre) with
  | intro _ hcons => cases hcons

theorem tidy_concat {events : List Event} {e : Event} :
    Tidy (events ++ [e]) ↔ Tidy events ∧
      ∀ a, e = .start a → (after events).running = false → (after events).client = none := by
  constructor
  · intro h
    refine ⟨fun done a hdone => h done a (hdone.trans (List.prefix_append events [e])), ?_⟩
    rintro a rfl
    exact h events a List.prefix_rfl
  · rintro ⟨h, hlast⟩ done a hpre
    rcases List.prefix_concat_iff.mp hpre with heq | hbefore
    · obtain ⟨rfl, hstart⟩ := List.append_inj' heq rfl
      exact hlast a (List.singleton_inj.mp hstart).symm
    · exact h done a hbefore

theorem orderly_after {events : List Event} (h : Tidy events) : (after events).Orderly := by
  induction events using List.reverseRecOn with
  | nil => exact ⟨fun _ => ⟨rfl, rfl, rfl⟩, fun client hlt => absurd hlt (Nat.not_lt_zero _), nofun⟩
  | append_singleton events e ih =>
      obtain ⟨htidy, hlast⟩ := tidy_concat.mp h
      have hbefore := ih htidy
      have hholds := holds_after events
      rw [after_concat]
      cases e with
      | start a =>
          cases hrunning : (after events).running with
          | false => exact hbefore.start hholds (hlast a rfl hrunning) a
          | true =>
              have hsame : (after events).step (.start a) = after events := by
                rw [step, Client.start, hrunning, if_pos rfl]
              rw [hsame]
              exact hbefore
      | stop => exact hbefore.stop
      | subscribeFloat resolves path => exact hbefore.register hholds resolves _
      | subscribeInt32 resolves path => exact hbefore.register hholds resolves _
      | subscribeBool resolves path => exact hbefore.register hholds resolves _
      | linkFailure =>
          rw [step, linkFailure]
          split
          next => exact ⟨fun hnone => ⟨rfl, (hbefore.idle hnone).2⟩, hbefore.released,
            hbefore.items_lt⟩
          next => exact hbefore

/-- A start in the run that finds a client leaves one that is leaked for good. -/
theorem leaked_after {events : List Event} {done : List Event} {a : Answers}
    (hpre : done ++ [.start a] <+: events) (hidle : (after done).running = false)
    (hclient : (after done).client ≠ none) : ∃ client, (after events).Leaked client := by
  obtain ⟨client, hclient⟩ := Option.ne_none_iff_exists'.mp hclient
  obtain ⟨rest, rfl⟩ := hpre
  refine ⟨client, ?_⟩
  induction rest using List.reverseRecOn with
  | nil =>
      rw [List.append_nil, after_concat]
      exact leaked_of_start (holds_after done) hidle hclient a
  | append_singleton rest e ih =>
      rw [← List.append_assoc, after_concat]
      exact ih.custody (custody_step _ e)

/-- A start that returns, of a client that was not running, leaves it recovered exactly when no
start of the run, this one included, found a client of an earlier session. -/
theorem reconnects_iff (events : List Event) (a : Answers)
    (hidle : (after events).running = false)
    (hreturned : ((after events).start a).1 = .returned) :
    Recovered a.resolves ((after events).start a).2 ↔ Tidy (events ++ [.start a]) := by
  constructor
  · intro hrecovered done a' hpre hidle'
    by_contra hclient
    obtain ⟨client, hleaked⟩ := leaked_after hpre hidle' hclient
    rw [after_concat] at hleaked
    exact not_recovered_of_leaked hleaked a.resolves hrecovered
  · intro htidy
    obtain ⟨hbefore, hlast⟩ := tidy_concat.mp htidy
    exact recovered_start (orderly_after hbefore) (hlast a rfl hidle) a hreturned

/-! ### A session and a second one -/

/-- Everything goes well, and the server has the node `a`. -/
def wellAnswered : Answers where
  subscriptionsCreate := .ok ⟨7, by decide⟩
  resolves path := path = ascii "a"

theorem recovers_after_stop :
    Recovered wellAnswered.resolves
      ((after [.subscribeFloat (fun _ => true) (ascii "a"), .start wellAnswered,
        .subscribeBool (fun _ => true) (ascii "b"), .stop]).start wellAnswered).2 := by
  have hregistered : Tidy ([] ++ [.subscribeFloat (fun _ => true) (ascii "a")]) :=
    tidy_concat.mpr ⟨tidy_nil, nofun⟩
  have hstarted : Tidy ([.subscribeFloat (fun _ => true) (ascii "a")] ++ [.start wellAnswered]) :=
    tidy_concat.mpr ⟨hregistered, fun _ _ _ => rfl⟩
  have hstopped := tidy_concat.mpr ⟨tidy_concat.mpr ⟨hstarted,
    (nofun : ∀ a, Event.subscribeBool (fun _ => true) (ascii "b") = .start a → _)⟩,
    (nofun : ∀ a, Event.stop = .start a → _)⟩
  exact (reconnects_iff _ wellAnswered (by decide) (by decide)).mpr
    (tidy_concat.mpr ⟨hstopped, fun _ _ _ => rfl⟩)

/-- After a loss of the link the next start keeps the subscription id of the client that is lost,
so that no item is accepted, and that client is never deleted. -/
theorem lost_after_linkFailure :
    let events : List Event := [.subscribeFloat (fun _ => true) (ascii "a"), .start wellAnswered,
      .linkFailure, .stop]
    ((after events).start wellAnswered).1 = .returned ∧
      ((after events).start wellAnswered).2.client = some 1 ∧
      ((after events).start wellAnswered).2.itemsFor 1 0 = [] ∧
      ((after events).start wellAnswered).2.monitoredItemCount = 1 ∧
      ¬Recovered wellAnswered.resolves ((after events).start wellAnswered).2 := by
  refine ⟨by decide, rfl, by decide, rfl, ?_⟩
  rintro ⟨client, hclient, _, _, hdeleted⟩
  obtain rfl : 1 = client := Option.some.inj hclient
  exact absurd (hdeleted 0 (by decide) (by decide)) (by decide)

end Client

end OpcUa
