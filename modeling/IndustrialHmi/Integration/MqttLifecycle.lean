import IndustrialHmi.Integration.MqttEncoder
import IndustrialHmi.Theory.IoContext
import IndustrialHmi.Theory.Runs

/-!
# The sessions of the MQTT client

A `start` makes a session, arms the heartbeat timer and the first read on its io_context, and
hands the io_context to a worker thread.  A `stop` ends the worker and drops the session and what
waits on the io_context.

`running_` is what `stop` looks at, and a handler that meets a broken connection clears it.  Then
`stop` leaves the session, the worker and the handlers that wait where they are, and the next
`start` begins while that worker runs.

A session holds the work guard of the io_context.  A `start` that is refused drops it, and with
nothing outstanding that stops the io_context, which nothing restarts before a `stop` that finds a
session.  Up to there a `start` cannot drain the handler of its deadline, and no worker stays.  If
it is refused too, the handler is what `stop` leaves.

Nothing else keeps anything alive (`releases_iff`).

`start` and `stop` are called by one thread, and it is not the worker.  No `publish` or
`subscribe` runs inside a `start` or a `stop`: `session_` has no lock.
-/

namespace Mqtt

/-- `buildPublish` throws: a topic has a length of two bytes, and the rest is counted in 32
bits. -/
def buildPublishThrows (topic payload : Text) : Bool :=
  kMaxStringLength < topic.length ||
    kMaxRemainingLength < (2 + topic.length + payload.length) % 2 ^ 32

theorem buildPublishThrows_iff (topic payload : Text) :
    buildPublishThrows topic payload = true ↔ ∃ e, buildPublish topic payload = .error e := by
  rw [buildPublish_throws_iff, buildPublishThrows, Bool.or_eq_true, decide_eq_true_iff,
    decide_eq_true_iff]
  rfl

/-- What waits on the io_context. -/
inductive Handler where
  | deadline
  | heartbeat
  | read
  | publish (topic payload : Text)
  | subscribe (topicFilter : Text)
  deriving DecidableEq

/-- What a handler finds: its operation was cancelled, or what it reads or writes is there, or
the connection is broken. -/
inductive Found where
  | aborted
  | ok
  | broken
  deriving DecidableEq

/-- The client.  Sessions are numbered as they are made, and a worker has the number of the
session it was started for.  All workers run the one io_context. -/
structure MqttClient where
  running : Bool := false
  session : Option Nat := none
  sessions : Nat := 0
  io : IoContext Handler := {}
  workers : List Nat := []
  publishedCount : BitVec 64 := 0
  nextPacketId : BitVec 16 := 1
  subscriptions : List Text := []

/-- How the broker answers a CONNECT.  The deadline is drained by one `run_one`, and that takes
any handler that waits. -/
inductive Answer where
  | unreachable
  | replied (accepted : Bool) (drained : Nat) (found : Found)

/-- The broker answers, and does not accept the client. -/
def Answer.refuses : Answer → Bool
  | .unreachable => false
  | .replied accepted _ _ => !accepted

namespace MqttClient

def scheduleHeartbeat (c : MqttClient) : MqttClient :=
  if c.session = none ∨ c.running = false then c
  else { c with io := c.io.arm .heartbeat }

def startReadLoop (c : MqttClient) : MqttClient :=
  if c.session = none then c else { c with io := c.io.arm .read }

def sendSubscribeFrame (c : MqttClient) (written : Bool) : MqttClient :=
  if c.session = none ∨ c.running = false then c
  else
    let c := { c with nextPacketId := c.nextPacketId + 1 }
    if written then c else { c with running := false }

def replaySubscriptions (c : MqttClient) (written : Text → Bool) : MqttClient :=
  c.subscriptions.foldl (fun c topic => c.sendSubscribeFrame (written topic)) c

/-- A handler runs, and whether it throws. -/
def invoke (c : MqttClient) (found : Found) : Handler → MqttClient × Bool
  | .deadline => (c, false)
  | .heartbeat =>
      if found = .aborted ∨ c.session = none then (c, false)
      else if found = .broken then ({ c with running := false }, false)
      else (c.scheduleHeartbeat, false)
  | .read =>
      if found = .aborted then (c, false)
      else if found = .broken then ({ c with running := false }, false)
      else (c.startReadLoop, false)
  | .publish topic payload =>
      if c.session = none then (c, false)
      else if buildPublishThrows topic payload then (c, true)
      else if found ≠ .ok then ({ c with running := false }, false)
      else ({ c with publishedCount := c.publishedCount + 1 }, false)
  | .subscribe _ => (c.sendSubscribeFrame (found = .ok), false)

/-- Takes a handler off the io_context and runs it. -/
def runOne (c : MqttClient) (i : Nat) (found : Found) : MqttClient × Bool :=
  match c.io.runOne i with
  | (none, io) => ({ c with io := io }, false)
  | (some handler, io) => { c with io := io }.invoke found handler

/-- Without the work guard of a session the io_context stops when nothing is outstanding, and
every run of it returns. -/
def runOut (c : MqttClient) : MqttClient :=
  if c.session = none ∧ c.io.ranOut = true then { c with io := c.io.stop, workers := [] } else c

/-- Whether the broker accepts the client.  The wait of the deadline is cancelled, and its
handler queued. -/
def connectToBroker (c : MqttClient) : Answer → MqttClient × Bool
  | .unreachable => (c, false)
  | .replied accepted drained found =>
      let c := { c with io := c.io.post .deadline }
      match c.runOne (min drained (c.io.outstanding.length - 1)) found with
      | (c, threw) => (c, accepted && !threw)

/-- The client with a new session in place of the one it may have. -/
def renewed (c : MqttClient) : MqttClient :=
  { c with running := true, session := some c.sessions, sessions := c.sessions + 1 }

/-- The assignment to `thread_` waits for the worker it replaces: with one there, `start` does
not return.  On a stopped io_context the new worker returns at once. -/
def start (c : MqttClient) (a : Answer) (written : Text → Bool) : MqttClient :=
  if c.running then c
  else
    match c.renewed.connectToBroker a with
    | (c', false) => { c' with session := none, running := false }.runOut
    | (c', true) =>
        let c' := (c'.scheduleHeartbeat.startReadLoop).replaySubscriptions written
        { c' with workers := c'.workers ++ if c'.io.stopped then [] else [c.sessions] }

/-- Every run of the io_context returns when it is stopped, and `thread_` is joined.  The
io_context is a new one then. -/
def stop (c : MqttClient) : MqttClient :=
  if c.running then { c with running := false, workers := [], session := none, io := {} }
  else c

def publish (c : MqttClient) (topic payload : Text) : MqttClient :=
  if c.running = false ∨ c.session = none then c
  else { c with io := c.io.post (.publish topic payload) }

def subscribe (c : MqttClient) (topicFilter : Text) : MqttClient :=
  if topicFilter = [] ∨ kMaxStringLength < topicFilter.length then c
  else
    let c := { c with subscriptions := c.subscriptions.insert topicFilter }
    if c.running = false ∨ c.session = none then c
    else { c with io := c.io.post (.subscribe topicFilter) }

/-- A worker runs a handler, and ends if it throws. -/
def runIoLoop (c : MqttClient) (worker i : Nat) (found : Found) : MqttClient :=
  if worker ∈ c.workers then
    match c.runOne i found with
    | (c, false) => c.runOut
    | (c, true) => { c with running := false, workers := c.workers.erase worker }.runOut
  else c

/-- A `start` has not returned: it waits for the worker it replaces. -/
def Joining (c : MqttClient) : Prop := 1 < c.workers.length

instance (c : MqttClient) : Decidable c.Joining := inferInstanceAs (Decidable (1 < _))

/-! ## Runs -/

inductive Event where
  | start (a : Answer) (written : Text → Bool)
  | stop
  | publish (topic payload : Text)
  | subscribe (topicFilter : Text)
  | handler (worker i : Nat) (found : Found)

/-- The thread that is inside a `start` calls nothing else. -/
def step (c : MqttClient) : Event → MqttClient
  | .start a written => if c.Joining then c else c.start a written
  | .stop => if c.Joining then c else c.stop
  | .publish topic payload => c.publish topic payload
  | .subscribe topicFilter => c.subscribe topicFilter
  | .handler worker i found => c.runIoLoop worker i found

/-- A new client after a run. -/
def after (events : List Event) : MqttClient := events.foldl step {}

/-- There is no session, no worker, and nothing that waits. -/
structure Released (c : MqttClient) : Prop where
  session : c.session = none
  workers : c.workers = []
  outstanding : c.io.outstanding = []

/-- The broker accepts the new session of a `start`. -/
def Accepts (c : MqttClient) (a : Answer) : Prop := (c.renewed.connectToBroker a).2 = true

/-- The session is one that was not there before, and no worker is that of an earlier one. -/
structure Fresh (c c' : MqttClient) : Prop where
  session : c'.session = some c.sessions
  workers : ∀ worker ∈ c'.workers, worker = c.sessions

/-- No handler has cleared `running_` under a session. -/
def Settled (c : MqttClient) : Prop := c.running = true ∨ c.session = none

/-- A `start` that the broker refuses, on an io_context that is stopped. -/
def Strands (c : MqttClient) (a : Answer) : Prop :=
  c.running = false ∧ c.io.stopped = true ∧ a.refuses = true

/-- A `start` and a `stop` are to find the client settled, and a `start` that is refused an
io_context that is not stopped. -/
def Meets (c : MqttClient) : Event → Prop
  | .start a _ => c.Settled ∧ ¬c.Strands a
  | .stop => c.Settled
  | _ => True

def SettledRun (events : List Event) : Prop := Runs.Along step Meets {} events

/-! ## What a handler leaves -/

/-- The session and the workers are as they were, and the io_context runs or is stopped as
before. -/
structure Keeps (c c' : MqttClient) : Prop where
  session : c'.session = c.session
  sessions : c'.sessions = c.sessions
  workers : c'.workers = c.workers
  stopped : c'.io.stopped = c.io.stopped

theorem Keeps.trans {c c' c'' : MqttClient} (h : Keeps c c') (h' : Keeps c' c'') : Keeps c c'' :=
  ⟨h'.session.trans h.session, h'.sessions.trans h.sessions, h'.workers.trans h.workers,
    h'.stopped.trans h.stopped⟩

theorem keeps_scheduleHeartbeat (c : MqttClient) : Keeps c c.scheduleHeartbeat := by
  rw [scheduleHeartbeat]
  split <;> exact ⟨rfl, rfl, rfl, rfl⟩

theorem keeps_startReadLoop (c : MqttClient) : Keeps c c.startReadLoop := by
  rw [startReadLoop]
  split <;> exact ⟨rfl, rfl, rfl, rfl⟩

theorem keeps_sendSubscribeFrame (c : MqttClient) (written : Bool) :
    Keeps c (c.sendSubscribeFrame written) := by
  rw [sendSubscribeFrame]
  split
  next => exact ⟨rfl, rfl, rfl, rfl⟩
  next => cases written <;> exact ⟨rfl, rfl, rfl, rfl⟩

theorem keeps_replaySubscriptions (c : MqttClient) (written : Text → Bool) :
    Keeps c (c.replaySubscriptions written) := by
  have h (topics : List Text) (c : MqttClient) :
      Keeps c (topics.foldl (fun c topic => c.sendSubscribeFrame (written topic)) c) := by
    induction topics generalizing c with
    | nil => exact ⟨rfl, rfl, rfl, rfl⟩
    | cons topic topics ih => exact (keeps_sendSubscribeFrame c _).trans (ih _)
  exact h c.subscriptions c

theorem keeps_invoke (c : MqttClient) (found : Found) (handler : Handler) :
    Keeps c (c.invoke found handler).1 := by
  cases handler with
  | deadline => exact ⟨rfl, rfl, rfl, rfl⟩
  | heartbeat =>
      rw [invoke]
      split
      next => exact ⟨rfl, rfl, rfl, rfl⟩
      next =>
        split
        next => exact ⟨rfl, rfl, rfl, rfl⟩
        next => exact c.keeps_scheduleHeartbeat
  | read =>
      rw [invoke]
      split
      next => exact ⟨rfl, rfl, rfl, rfl⟩
      next =>
        split
        next => exact ⟨rfl, rfl, rfl, rfl⟩
        next => exact c.keeps_startReadLoop
  | publish topic payload =>
      rw [invoke]
      split
      next => exact ⟨rfl, rfl, rfl, rfl⟩
      next =>
        split
        next => exact ⟨rfl, rfl, rfl, rfl⟩
        next => split <;> exact ⟨rfl, rfl, rfl, rfl⟩
  | subscribe topicFilter => exact c.keeps_sendSubscribeFrame _

theorem keeps_runOne (c : MqttClient) (i : Nat) (found : Found) : Keeps c (c.runOne i found).1 := by
  have htaken : Keeps c { c with io := (c.io.runOne i).2 } :=
    ⟨rfl, rfl, rfl, c.io.stopped_runOne i⟩
  rw [runOne]
  split
  next io hone =>
    rw [hone] at htaken
    exact htaken
  next handler io hone =>
    rw [hone] at htaken
    exact htaken.trans (keeps_invoke _ found handler)

theorem keeps_connectToBroker (c : MqttClient) (a : Answer) : Keeps c (c.connectToBroker a).1 := by
  cases a with
  | unreachable => exact ⟨rfl, rfl, rfl, rfl⟩
  | replied accepted drained found =>
      have hdeadline : Keeps c { c with io := c.io.post .deadline } := ⟨rfl, rfl, rfl, rfl⟩
      exact hdeadline.trans (keeps_runOne _ _ found)

/-- With nothing else on the io_context the deadline is what is drained. -/
theorem connectToBroker_outstanding {c : MqttClient} (h : c.io.outstanding = [])
    (hruns : c.io.stopped = false) (a : Answer) :
    (c.connectToBroker a).1.io.outstanding = [] := by
  cases a with
  | unreachable => exact h
  | replied accepted drained found =>
      have hposted := c.io.outstanding_post_of_nil h .deadline
      have hone := (c.io.post .deadline).fst_runOne 0
      have hleft := (c.io.post .deadline).outstanding_runOne 0
      have hruns' : (c.io.post .deadline).stopped = false := hruns
      rw [hruns', if_neg Bool.false_ne_true, hposted] at hone hleft
      rw [connectToBroker]
      dsimp only
      rw [hposted, List.length_singleton, Nat.min_zero, runOne]
      revert hone hleft
      generalize (c.io.post .deadline).runOne 0 = r
      obtain ⟨handler, io⟩ := r
      intro hone hleft
      obtain rfl : handler = some .deadline := hone
      exact hleft

/-- A broker that cannot be reached leaves the io_context as it is. -/
theorem connectToBroker_unreachable {c : MqttClient} {a : Answer} (hrefuses : ¬c.Accepts a)
    (h : a.refuses = false) (hstopped : c.io.stopped = true) :
    (c.renewed.connectToBroker a).1.io = c.io := by
  cases a with
  | unreachable => rfl
  | replied accepted drained found =>
      -- Nothing is drained, so nothing throws, and the broker accepts.
      refine absurd ?_ hrefuses
      obtain rfl : accepted = true := by simpa [Answer.refuses] using h
      have hposted : (c.renewed.io.post .deadline).stopped = true := hstopped
      rw [Accepts, connectToBroker]
      dsimp only
      rw [runOne, IoContext.runOne, if_pos hposted]
      rfl

/-- Nothing is outstanding after it if nothing was before. -/
theorem runOut_released {c : MqttClient} (hsession : c.session = none) (hworkers : c.workers = [])
    (h : c.io.outstanding = []) : c.runOut.Released := by
  rw [runOut]
  split
  next => exact ⟨hsession, rfl, h⟩
  next => exact ⟨hsession, hworkers, h⟩

theorem runOut_of_session {c : MqttClient} {s : Nat} (h : c.session = some s) : c.runOut = c := by
  rw [runOut, if_neg]
  rintro ⟨hnone, _⟩
  rw [h] at hnone
  cases hnone

@[simp] theorem running_runOut (c : MqttClient) : c.runOut.running = c.running := by
  rw [runOut]
  split <;> rfl

/-! ## What a start leaves -/

theorem start_accepted {c : MqttClient} {a : Answer} (hidle : c.running = false)
    (haccepts : c.Accepts a) (written : Text → Bool) :
    (c.start a written).session = some c.sessions ∧
      (c.start a written).sessions = c.sessions + 1 ∧
      (c.start a written).io.stopped = c.io.stopped ∧
      (c.start a written).workers =
        c.workers ++ if c.io.stopped then [] else [c.sessions] := by
  have hkeeps := c.renewed.keeps_connectToBroker a
  rw [start, hidle, if_neg Bool.false_ne_true]
  rw [Accepts] at haccepts
  revert haccepts hkeeps
  generalize c.renewed.connectToBroker a = r
  obtain ⟨c', accepted⟩ := r
  intro haccepts hkeeps
  obtain rfl : accepted = true := haccepts
  have harmed := ((hkeeps.trans c'.keeps_scheduleHeartbeat).trans
    (keeps_startReadLoop _)).trans (keeps_replaySubscriptions _ written)
  refine ⟨harmed.session, harmed.sessions, harmed.stopped, ?_⟩
  show _ ++ (if _ then _ else _) = _
  rw [harmed.workers, harmed.stopped]
  rfl

theorem start_refused {c : MqttClient} {a : Answer} (hidle : c.running = false)
    (hrefuses : ¬c.Accepts a) (hworkers : c.workers = []) (written : Text → Bool)
    (hdrained : (c.renewed.connectToBroker a).1.io.outstanding = []) :
    (c.start a written).Released ∧ (c.start a written).running = false := by
  have hkeeps := c.renewed.keeps_connectToBroker a
  rw [start, hidle, if_neg Bool.false_ne_true]
  rw [Accepts, Bool.not_eq_true] at hrefuses
  revert hrefuses hkeeps hdrained
  generalize c.renewed.connectToBroker a = r
  obtain ⟨c', accepted⟩ := r
  intro hrefuses hdrained hkeeps
  obtain rfl : accepted = false := hrefuses
  exact ⟨runOut_released rfl (hkeeps.workers.trans hworkers) hdrained, running_runOut _⟩

/-- A start begins fresh if there is no worker, and only then. -/
theorem fresh_start_iff {c : MqttClient} {a : Answer} (hidle : c.running = false)
    (haccepts : c.Accepts a) (hearlier : ∀ worker ∈ c.workers, worker < c.sessions)
    (written : Text → Bool) :
    Fresh c (c.start a written) ↔ c.workers = [] := by
  obtain ⟨hsession, -, -, hworkers⟩ := start_accepted hidle haccepts written
  constructor
  · intro h
    refine List.eq_nil_iff_forall_not_mem.mpr fun worker hworker => ?_
    have hown := h.workers worker (hworkers ▸ List.mem_append_left _ hworker)
    exact absurd hown (Nat.ne_of_lt (hearlier worker hworker))
  · intro h
    refine ⟨hsession, fun worker hworker => ?_⟩
    rw [hworkers, h, List.nil_append] at hworker
    split at hworker
    next => cases hworker
    next => exact List.mem_singleton.mp hworker

/-! ## Settled runs -/

/-- Who runs the io_context: nobody, and nothing waits on it; or the worker of the session, unless
it has ended. -/
inductive Owned (c : MqttClient) : Prop where
  | idle (released : c.Released) (running : c.running = false)
  | held {s : Nat} (session : c.session = some s) (made : s < c.sessions)
      (workers : c.workers = [s] ∨ c.workers = [])

theorem Owned.released {c : MqttClient} (h : c.Owned) (hnone : c.session = none) :
    c.Released ∧ c.running = false := by
  cases h with
  | idle hreleased hrunning => exact ⟨hreleased, hrunning⟩
  | held hsession _ _ =>
      rw [hnone] at hsession
      cases hsession

theorem Owned.not_joining {c : MqttClient} (h : c.Owned) : ¬c.Joining := by
  have hlength : c.workers.length ≤ 1 := by
    cases h with
    | idle hreleased _ => simp only [hreleased.workers, List.length_nil, Nat.zero_le]
    | held _ _ hworkers => rcases hworkers with hworkers | hworkers <;> simp [hworkers]
  exact Nat.not_lt.mpr hlength

theorem Owned.earlier {c : MqttClient} (h : c.Owned) :
    ∀ worker ∈ c.workers, worker < c.sessions := by
  cases h with
  | idle hreleased _ => simp [hreleased.workers]
  | held _ hmade hworkers => rcases hworkers with hworkers | hworkers <;> simp [hworkers, hmade]

theorem Owned.start {c : MqttClient} (h : c.Owned) (hsettled : c.Settled) {a : Answer}
    (hstrands : ¬c.Strands a) (written : Text → Bool) : (c.start a written).Owned := by
  cases hrunning : c.running with
  | true =>
      rw [MqttClient.start, hrunning, if_pos rfl]
      exact h
  | false =>
      have hnone : c.session = none := hsettled.resolve_left (by rw [hrunning]; nofun)
      obtain ⟨hreleased, _⟩ := h.released hnone
      by_cases haccepts : c.Accepts a
      · obtain ⟨hsession, hsessions, -, hworkers⟩ := start_accepted hrunning haccepts written
        rw [hreleased.workers, List.nil_append] at hworkers
        refine .held hsession (hsessions ▸ Nat.lt_succ_self _) ?_
        rw [hworkers]
        split
        next => exact .inr rfl
        next => exact .inl rfl
      · have hdrained : (c.renewed.connectToBroker a).1.io.outstanding = [] := by
          cases hstopped : c.io.stopped with
          | false =>
              have hnothing : c.renewed.io.outstanding = [] := hreleased.outstanding
              exact connectToBroker_outstanding hnothing hstopped a
          | true =>
              have hreachable : a.refuses = false :=
                Bool.not_eq_true _ ▸ fun h => hstrands ⟨hrunning, hstopped, h⟩
              rw [connectToBroker_unreachable haccepts hreachable hstopped]
              exact hreleased.outstanding
        obtain ⟨hreleased', hrunning'⟩ :=
          start_refused hrunning haccepts hreleased.workers written hdrained
        exact .idle hreleased' hrunning'

theorem Owned.stop {c : MqttClient} (h : c.Owned) : c.stop.Owned := by
  rw [MqttClient.stop]
  split
  next => exact .idle ⟨rfl, rfl, rfl⟩ rfl
  next => exact h

theorem Owned.publish {c : MqttClient} (h : c.Owned) (topic payload : Text) :
    (c.publish topic payload).Owned := by
  rw [MqttClient.publish]
  split
  next => exact h
  next hup =>
    cases h with
    | idle _ hrunning => exact absurd (Or.inl hrunning) hup
    | held hsession hmade hworkers => exact .held hsession hmade hworkers

theorem Owned.subscribe {c : MqttClient} (h : c.Owned) (topicFilter : Text) :
    (c.subscribe topicFilter).Owned := by
  rw [MqttClient.subscribe]
  split
  next => exact h
  next =>
    have hknown : Owned { c with subscriptions := c.subscriptions.insert topicFilter } := by
      cases h with
      | idle hreleased hrunning => exact .idle ⟨hreleased.1, hreleased.2, hreleased.3⟩ hrunning
      | held hsession hmade hworkers => exact .held hsession hmade hworkers
    dsimp only
    split
    next => exact hknown
    next hup =>
      cases h with
      | idle _ hrunning => exact absurd (Or.inl hrunning) hup
      | held hsession hmade hworkers => exact .held hsession hmade hworkers

theorem Owned.runIoLoop {c : MqttClient} (h : c.Owned) (worker i : Nat) (found : Found) :
    (c.runIoLoop worker i found).Owned := by
  rw [MqttClient.runIoLoop]
  split
  next hworker =>
    have hkeeps := c.keeps_runOne i found
    cases h with
    | idle hreleased _ =>
        rw [hreleased.workers] at hworker
        cases hworker
    | @held s hsession hmade hworkers =>
        have hsession' := hkeeps.session.trans hsession
        have hmade' := hkeeps.sessions ▸ hmade
        -- The worker that runs the handler is the one of the session.
        have hone : c.workers = [s] :=
          hworkers.resolve_right fun hnil => by rw [hnil] at hworker; cases hworker
        rw [hone] at hworker
        obtain rfl := List.mem_singleton.mp hworker
        have hworkers' := hkeeps.workers.trans hone
        revert hsession' hmade' hworkers'
        generalize c.runOne i found = r
        obtain ⟨c', threw⟩ := r
        intro hsession' hmade' hworkers'
        dsimp only at hsession' hmade' hworkers'
        cases threw with
        | false =>
            dsimp only
            rw [runOut_of_session hsession']
            exact .held hsession' hmade' (Or.inl hworkers')
        | true =>
            have hended : c'.workers.erase worker = [] := by
              rw [hworkers', List.erase_cons_head]
            have hstays := runOut_of_session (s := worker)
              (c := { c' with running := false, workers := c'.workers.erase worker }) hsession'
            dsimp only
            rw [hstays]
            exact .held hsession' hmade' (Or.inr hended)
  next => exact h

theorem Owned.step {c : MqttClient} (h : c.Owned) {e : Event} (hmeets : c.Meets e) :
    (c.step e).Owned := by
  cases e with
  | start a written =>
      rw [MqttClient.step, if_neg h.not_joining]
      exact h.start hmeets.1 hmeets.2 written
  | stop =>
      rw [MqttClient.step, if_neg h.not_joining]
      exact h.stop
  | publish topic payload => exact h.publish topic payload
  | subscribe topicFilter => exact h.subscribe topicFilter
  | handler worker i found => exact h.runIoLoop worker i found

theorem owned_after {events : List Event} (h : SettledRun events) : (after events).Owned :=
  Runs.Along.invariant h (.idle ⟨rfl, rfl, rfl⟩ rfl) fun _ _ howned hmeets => howned.step hmeets

theorem Owned.released_stop_iff {c : MqttClient} (h : c.Owned) :
    c.stop.Released ↔ c.Settled := by
  rw [MqttClient.stop]
  cases hrunning : c.running with
  | true =>
      rw [if_pos rfl]
      exact ⟨fun _ => Or.inl hrunning, fun _ => ⟨rfl, rfl, rfl⟩⟩
  | false =>
      rw [if_neg Bool.false_ne_true]
      refine ⟨fun hreleased => Or.inr hreleased.session, fun hsettled => ?_⟩
      exact (h.released (hsettled.resolve_left (by rw [hrunning]; nofun))).1

/-- In such a run a `stop` releases everything exactly if it finds the client settled; and a
`start` that the broker accepts begins fresh exactly if no worker is left, as it is when it finds
the client settled. -/
theorem releases_iff {events : List Event} (h : SettledRun events) :
    ((after events).stop.Released ↔ (after events).Settled) ∧
      ((after events).running = false →
        (∀ a, (after events).Accepts a → ∀ written,
          Fresh (after events) ((after events).start a written) ↔ (after events).workers = []) ∧
        ((after events).Settled → (after events).workers = [])) := by
  have howned := owned_after h
  refine ⟨howned.released_stop_iff, fun hidle => ⟨fun a haccepts written => ?_, fun hsettled => ?_⟩⟩
  · exact fresh_start_iff hidle haccepts howned.earlier written
  · have hnone := hsettled.resolve_left (by rw [hidle]; nofun)
    exact (howned.released hnone).1.workers

/-- The broker accepts, and the deadline is drained. -/
def accepted : Answer := .replied true 0 .ok

/-- A first broker cannot be reached; the second accepts, its client is stopped and started
again, and the worker of the new session sends what is published. -/
theorem releases_after_publish :
    (after [.start .unreachable (fun _ => true), .start accepted (fun _ => true), .stop,
      .start accepted (fun _ => true), .publish (ascii "line/1") (ascii "ok"),
      .handler 2 0 .ok]).stop.Released := by
  have hsettled : SettledRun [.start .unreachable (fun _ => true), .start accepted (fun _ => true),
      .stop, .start accepted (fun _ => true), .publish (ascii "line/1") (ascii "ok"),
      .handler 2 0 .ok] :=
    ⟨⟨Or.inr rfl, by simp [Strands, Answer.refuses]⟩,
      ⟨Or.inr rfl, by simp [Strands, Answer.refuses, accepted]⟩, Or.inl rfl,
      ⟨Or.inr rfl, by simp [Strands, Answer.refuses, accepted]⟩, trivial, trivial, trivial⟩
  exact (releases_iff hsettled).1.mpr (Or.inl (by decide))

/-- The broker answers that it does not accept the client. -/
def refused : Answer := .replied false 0 .ok

/-- After a read that finds the connection broken a stop leaves the session, its worker and the
heartbeat, and the next start has two workers.  A start that cannot reach the broker stops the
io_context, and after one that is refused there the stop leaves the handler of its deadline. -/
theorem kept_after_broken_read :
    (let c := after [.start accepted (fun _ => true), .handler 0 1 .broken]
     c.running = false ∧ c.stop.session = some 0 ∧ c.stop.workers = [0] ∧
      c.stop.io.outstanding = [.heartbeat] ∧ ¬c.stop.Released ∧
      (c.stop.renewed.connectToBroker accepted).2 = true ∧
      (c.stop.start accepted fun _ => true).workers = [0, 1] ∧
      ¬Fresh c.stop (c.stop.start accepted fun _ => true)) ∧
    (let c := after [.start .unreachable (fun _ => true), .start refused (fun _ => true)]
     c.io.stopped = true ∧ c.stop.io.outstanding = [.deadline] ∧ ¬c.stop.Released) := by
  refine ⟨⟨by decide, by decide, by decide, by decide, fun h => ?_, by decide, by decide,
    fun h => ?_⟩, by decide, by decide, fun h => ?_⟩
  · exact absurd h.session (by decide)
  · exact absurd (h.workers 0 (by decide)) (by decide)
  · exact absurd h.outstanding (by decide)

end MqttClient

end Mqtt
