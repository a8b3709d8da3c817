import IndustrialHmi.Theory.Runs
import Mathlib.Data.List.Sublists

/-!
# The I/O context

A call is posted to the I/O thread, which serves it on the store, and its callback is handed to
the main loop with the answer.  A call on its way is in the queue of the io_context, in the
handler that the thread runs, or among the idle sources of the main loop.

What a run serves is carried out on the store, one call after the other, and an answer is the
result of its own operation there (`replay`).

A call is lost when the queue is full, when serving it throws, and when it is still in the queue
at a `stop`, or comes after it: the io_context is stopped, not drained.  Nothing else loses one,
and what is lost does not come back (`delivers_iff`).
-/

namespace ModelContext

def kMaxPendingOperations : Nat := 1000

/-- The handler that the thread runs: before its call is served, and behind that. -/
inductive Handler (κ : Type) where
  | taken (id : Nat) (call : κ)
  | ran

/-- Calls are numbered as they are made. -/
structure Context (σ κ ρ : Type) where
  store : σ
  called : List κ := []
  posted : List (Nat × κ) := []
  pendingOperations : Nat := 0
  handler : Option (Handler κ) := none
  idle : List (Nat × ρ) := []
  invoked : List (Nat × ρ) := []
  stopped : Bool := false
  /-- `work_` keeps the io_context running. -/
  guarded : Bool := true
  /-- `ioContext_.stopped()`. -/
  contextStopped : Bool := false

/-- How a call is served: it returns, in some circumstances; or it throws a `std::exception`, or
something else. -/
inductive Outcome (ω : Type) where
  | returns (w : ω)
  | throws
  | throwsOther

inductive Event (κ ω : Type) where
  | call (c : κ)
  | take
  | serve (outcome : Outcome ω)
  | finish
  | outOfWork
  | idle
  | stop

variable {σ κ ω ρ : Type}

namespace Context

/-- A call that finds the queue full is not posted. -/
def post (s : Context σ κ ρ) (c : κ) : Context σ κ ρ :=
  let id := s.called.length
  let s := { s with called := s.called ++ [c] }
  if kMaxPendingOperations ≤ s.pendingOperations then s
  else
    { s with
      pendingOperations := s.pendingOperations + 1
      posted := s.posted ++ [(id, c)] }

/-- The thread takes the next call. -/
def take (s : Context σ κ ρ) : Context σ κ ρ :=
  match s.handler, s.posted, s.contextStopped with
  | none, (id, c) :: rest, false => { s with handler := some (.taken id c), posted := rest }
  | _, _, _ => s

/-- The call is served.  A `std::exception` ends in the handler; anything else ends the handler,
and the thread runs the io_context again, restarted if it is stopped. -/
def serve (run : σ → κ → ω → ρ × σ) (s : Context σ κ ρ) (outcome : Outcome ω) : Context σ κ ρ :=
  match s.handler with
  | some (.taken id c) =>
      match outcome with
      | .returns w =>
          let (answer, store) := run s.store c w
          { s with store, handler := some .ran, idle := s.idle ++ [(id, answer)] }
      | .throws => { s with handler := some .ran }
      | .throwsOther => { s with handler := none, contextStopped := false }
  | _ => s

def finish (s : Context σ κ ρ) : Context σ κ ρ :=
  match s.handler with
  | some .ran => { s with handler := none, pendingOperations := s.pendingOperations - 1 }
  | _ => s

/-- With nothing to do and nothing to wait for, the io_context stops. -/
def outOfWork (s : Context σ κ ρ) : Context σ κ ρ :=
  if s.handler.isNone && s.posted.isEmpty && !s.guarded then { s with contextStopped := true }
  else s

/-- The main loop runs the next idle source, which invokes its callback. -/
def runIdle (s : Context σ κ ρ) : Context σ κ ρ :=
  match s.idle with
  | [] => s
  | answer :: rest => { s with idle := rest, invoked := s.invoked ++ [answer] }

def stop (s : Context σ κ ρ) : Context σ κ ρ :=
  if s.stopped then s else { s with stopped := true, guarded := false, contextStopped := true }

def step (run : σ → κ → ω → ρ × σ) (s : Context σ κ ρ) : Event κ ω → Context σ κ ρ
  | .call c => s.post c
  | .take => s.take
  | .serve outcome => s.serve run outcome
  | .finish => s.finish
  | .outOfWork => s.outOfWork
  | .idle => s.runIdle
  | .stop => s.stop

/-! ## What is to hold -/

/-- The call of the handler that is not served yet. -/
def taken : Option (Handler κ) → List (Nat × κ)
  | some (.taken id c) => [(id, c)]
  | _ => []

/-- The calls that are not served yet, and the answers to those that are, in order. -/
def unserved (s : Context σ κ ρ) : List (Nat × κ) := taken s.handler ++ s.posted
def answers (s : Context σ κ ρ) : List (Nat × ρ) := s.invoked ++ s.idle

/-- The calls that are not lost. -/
def ids (s : Context σ κ ρ) : List Nat := s.answers.map Prod.fst ++ s.unserved.map Prod.fst

/-- There is nothing to do for the thread and the main loop. -/
structure Settled (s : Context σ κ ρ) : Prop where
  handler : s.handler = none
  idle : s.idle = []
  posted : s.posted = [] ∨ s.contextStopped = true

/-- A step of the thread or of the main loop in which nothing throws. -/
def Quiet : Event κ ω → Prop
  | .call _ => False
  | .stop => False
  | .serve (.returns _) => True
  | .serve _ => False
  | _ => True

/-- The call that a step serves, with its number and in its circumstances. -/
def servedBy (s : Context σ κ ρ) : Event κ ω → Option (Nat × κ × ω)
  | .serve (.returns w) =>
      match s.handler with
      | some (.taken id c) => some (id, c, w)
      | _ => none
  | _ => none

/-- What a run serves. -/
def served (run : σ → κ → ω → ρ × σ) (store : σ) (events : List (Event κ ω)) :
    List (Nat × κ × ω) :=
  (Runs.trace (step run) { store } events).filterMap fun x => servedBy x.1 x.2

/-- The operations of calls, carried out one after the other: their results, and the store then. -/
def replay (run : σ → κ → ω → ρ × σ) (store : σ) (calls : List (Nat × κ × ω)) :
    List (Nat × ρ) × σ :=
  calls.foldl (fun r x =>
    (r.1 ++ [(x.1, (run r.2 x.2.1 x.2.2).1)], (run r.2 x.2.1 x.2.2).2)) ([], store)

/-- Every call was served once, in the order of the calls; nothing else was carried out on the
store; and every callback was invoked once, in that order, with the result of its operation. -/
structure Complete (run : σ → κ → ω → ρ × σ) (store : σ) (events : List (Event κ ω)) : Prop where
  calls : (served run store events).map (fun x => (x.2.1, x.1)) =
    (events.foldl (step run) { store }).called.zipIdx
  store_eq : (events.foldl (step run) { store }).store =
    (replay run store (served run store events)).2
  invoked : (events.foldl (step run) { store }).invoked =
    (replay run store (served run store events)).1

/-- The thread and the main loop can go on to where there is nothing to do, and wherever that is
every callback was invoked. -/
structure Delivers (run : σ → κ → ω → ρ × σ) (store : σ) (events : List (Event κ ω)) : Prop where
  settles : ∃ more : List (Event κ ω), (∀ e ∈ more, Quiet e) ∧
    ((events ++ more).foldl (step run) { store }).Settled
  complete : ∀ more : List (Event κ ω), (∀ e ∈ more, Quiet e) →
    ((events ++ more).foldl (step run) { store }).Settled → Complete run store (events ++ more)

/-- The queue takes a call, serving it does not throw, and a `stop` finds the queue empty. -/
def Meets (s : Context σ κ ρ) : Event κ ω → Prop
  | .call _ => s.pendingOperations < kMaxPendingOperations ∧ s.contextStopped = false
  | .serve (.returns _) => True
  | .serve _ => taken s.handler = []
  | .stop => s.stopped = true ∨ s.posted = []
  | _ => True

/-! ## What a step moves -/

variable {run : σ → κ → ω → ρ × σ}

/-- No call comes or goes. -/
structure Same (s s' : Context σ κ ρ) : Prop where
  store : s'.store = s.store
  called : s'.called = s.called
  unserved : s'.unserved = s.unserved
  answers : s'.answers = s.answers

theorem Same.refl (s : Context σ κ ρ) : Same s s := ⟨rfl, rfl, rfl, rfl⟩

theorem Same.ids {s s' : Context σ κ ρ} (h : Same s s') : s'.ids = s.ids := by
  rw [Context.ids, h.answers, h.unserved]
  rfl

theorem take_cases (s : Context σ κ ρ) :
    s.take = s ∨ ∃ id c rest, s.handler = none ∧ s.posted = (id, c) :: rest ∧
      s.contextStopped = false ∧
      s.take = { s with handler := some (.taken id c), posted := rest } := by
  rw [take]
  split
  next id c rest hhandler hposted hrunning =>
    exact Or.inr ⟨id, c, rest, hhandler, hposted, hrunning, rfl⟩
  next => exact Or.inl rfl

theorem same_take (s : Context σ κ ρ) : Same s s.take := by
  obtain h | ⟨id, c, rest, hhandler, hposted, _, h⟩ := s.take_cases
  · rw [h]
    exact .refl s
  · rw [h]
    refine ⟨rfl, rfl, ?_, rfl⟩
    rw [unserved, unserved, hhandler, hposted]
    rfl

theorem same_finish (s : Context σ κ ρ) : Same s s.finish := by
  rw [finish]
  split
  next hran => exact ⟨rfl, rfl, by rw [unserved, unserved, hran]; rfl, rfl⟩
  next => exact .refl s

theorem same_outOfWork (s : Context σ κ ρ) : Same s s.outOfWork := by
  rw [outOfWork]
  split <;> exact ⟨rfl, rfl, rfl, rfl⟩

theorem same_runIdle (s : Context σ κ ρ) : Same s s.runIdle := by
  rw [runIdle]
  split
  next => exact .refl s
  next answer rest hidle =>
    refine ⟨rfl, rfl, rfl, ?_⟩
    rw [answers, answers, hidle, List.append_assoc]
    rfl

theorem same_stop (s : Context σ κ ρ) : Same s s.stop := by
  rw [stop]
  split <;> exact ⟨rfl, rfl, rfl, rfl⟩

/-- A call that is served has an answer, or is lost, and there was none to serve else. -/
theorem serve_cases (run : σ → κ → ω → ρ × σ) (s : Context σ κ ρ) (outcome : Outcome ω) :
    (taken s.handler = [] ∧ s.serve run outcome = s) ∨
      ∃ id c, s.unserved = (id, c) :: s.posted ∧
        (s.serve run outcome).called = s.called ∧
        (s.serve run outcome).posted = s.posted ∧
        (s.serve run outcome).unserved = s.posted ∧
        ((∃ w, outcome = .returns w ∧ (s.serve run outcome).contextStopped = s.contextStopped ∧
            (s.serve run outcome).answers = s.answers ++ [(id, (run s.store c w).1)]) ∨
          ((∀ w, outcome ≠ .returns w) ∧ taken s.handler ≠ [] ∧
            (s.serve run outcome).answers = s.answers)) := by
  rw [serve]
  split
  next id c hhandler =>
    have hunserved : s.unserved = (id, c) :: s.posted := by rw [unserved, hhandler]; rfl
    refine Or.inr ⟨id, c, hunserved, ?_⟩
    cases outcome with
    | returns w =>
        refine ⟨rfl, rfl, rfl, Or.inl ⟨w, rfl, rfl, ?_⟩⟩
        exact (List.append_assoc _ _ _).symm
    | throws => exact ⟨rfl, rfl, rfl, Or.inr ⟨nofun, by rw [hhandler]; nofun, rfl⟩⟩
    | throwsOther => exact ⟨rfl, rfl, rfl, Or.inr ⟨nofun, by rw [hhandler]; nofun, rfl⟩⟩
  next hother =>
    refine Or.inl ⟨?_, rfl⟩
    cases hhandler : s.handler with
    | none => rfl
    | some handler =>
        cases handler with
        | taken id c => exact absurd hhandler (hother id c)
        | ran => rfl

/-! ## Calls are not mixed up -/

/-- The calls on their way are in the order in which they were made, and each has its own
number. -/
structure Tracked (s : Context σ κ ρ) : Prop where
  ordered : s.ids.Sublist (List.range s.called.length)
  calls : ∀ call ∈ s.unserved, s.called[call.1]? = some call.2

theorem Tracked.same {s s' : Context σ κ ρ} (h : Tracked s) (hsame : Same s s') : Tracked s' := by
  refine ⟨?_, ?_⟩
  · rw [hsame.ids, hsame.called]
    exact h.ordered
  · rw [hsame.unserved, hsame.called]
    exact h.calls

/-- A call that is made changes no call before it. -/
theorem getElem?_called_concat {l : List κ} {i : Nat} {x y : κ} (h : l[i]? = some x) :
    (l ++ [y])[i]? = some x := by
  rw [List.getElem?_append_left (List.getElem?_eq_some_iff.mp h).1]
  exact h

theorem Tracked.post {s : Context σ κ ρ} (h : Tracked s) (c : κ) : Tracked (s.post c) := by
  have hrange : List.range (s.called ++ [c]).length =
      List.range s.called.length ++ [s.called.length] := by
    rw [List.length_append, List.length_singleton, List.range_succ]
  rw [Context.post]
  dsimp only
  split
  next =>
    refine ⟨?_, fun call hmem => getElem?_called_concat (h.calls call hmem)⟩
    rw [hrange]
    exact h.ordered.trans (List.sublist_append_left _ _)
  next =>
    refine ⟨?_, fun call hmem => ?_⟩
    · rw [hrange]
      have hids : ids { s with
          called := s.called ++ [c]
          pendingOperations := s.pendingOperations + 1
          posted := s.posted ++ [(s.called.length, c)] } = s.ids ++ [s.called.length] := by
        simp only [ids, unserved, List.map_append, List.append_assoc]
        rfl
      rw [hids]
      exact h.ordered.append (List.Sublist.refl _)
    · have hmem' : call ∈ s.unserved ++ [(s.called.length, c)] := by
        rw [unserved, List.append_assoc]
        exact hmem
      rcases List.mem_append.mp hmem' with hold | hnew
      · exact getElem?_called_concat (h.calls call hold)
      · rw [List.mem_singleton.mp hnew]
        exact List.getElem?_concat_length

theorem Tracked.serve {s : Context σ κ ρ} (h : Tracked s) (outcome : Outcome ω) :
    Tracked (s.serve run outcome) := by
  obtain ⟨_, hsame⟩ | ⟨id, c, hunserved, hcalled, _, hposted, hanswers⟩ := serve_cases run s outcome
  · rw [hsame]
    exact h
  · have hrest (call : Nat × κ) (hmem : call ∈ s.posted) : s.called[call.1]? = some call.2 :=
      h.calls call (hunserved ▸ List.mem_cons_of_mem _ hmem)
    have hordered := h.ordered
    rw [ids, hunserved, List.map_cons] at hordered
    refine ⟨?_, ?_⟩
    · obtain ⟨w, _, _, hanswers⟩ | ⟨_, _, hanswers⟩ := hanswers
      · rw [ids, hcalled, hanswers, hposted, List.map_append, List.append_assoc]
        exact hordered
      · rw [ids, hcalled, hanswers, hposted]
        exact ((List.Sublist.refl _).append (List.sublist_cons_self _ _)).trans hordered
    · rw [hposted, hcalled]
      exact hrest

theorem Tracked.step {s : Context σ κ ρ} (h : Tracked s) (e : Event κ ω) :
    Tracked (s.step run e) := by
  cases e with
  | call c => exact h.post c
  | take => exact h.same s.same_take
  | serve outcome => exact h.serve outcome
  | finish => exact h.same s.same_finish
  | outOfWork => exact h.same s.same_outOfWork
  | idle => exact h.same s.same_runIdle
  | stop => exact h.same s.same_stop

theorem tracked_after {s : Context σ κ ρ} (h : Tracked s) (events : List (Event κ ω)) :
    Tracked (events.foldl (step run) s) :=
  Runs.invariant h (fun _ e hs => hs.step e) events

theorem tracked_init (store : σ) : Tracked ({ store } : Context σ κ ρ) :=
  ⟨List.nil_sublist _, by simp [unserved, taken]⟩

/-! ## What is carried out -/

theorem replay_concat (store : σ) (calls : List (Nat × κ × ω)) (x : Nat × κ × ω) :
    replay run store (calls ++ [x]) =
      ((replay run store calls).1 ++ [(x.1, (run (replay run store calls).2 x.2.1 x.2.2).1)],
        (run (replay run store calls).2 x.2.1 x.2.2).2) :=
  List.foldl_concat ..

/-- The results are numbered as their calls. -/
theorem ids_replay (store : σ) (calls : List (Nat × κ × ω)) :
    (replay run store calls).1.map Prod.fst = calls.map Prod.fst := by
  induction calls using List.reverseRecOn with
  | nil => rfl
  | append_singleton calls x ih =>
      rw [replay_concat, List.map_append, List.map_append, ih]
      rfl

theorem served_concat (store : σ) (events : List (Event κ ω)) (e : Event κ ω) :
    served run store (events ++ [e]) =
      served run store events ++ (servedBy (events.foldl (step run) { store }) e).toList := by
  rw [served, Runs.trace_concat, List.filterMap_append, ← served]
  rw [List.filterMap_cons, List.filterMap_nil]
  dsimp only
  cases servedBy (events.foldl (step run) { store }) e <;> rfl

/-- A step serves nothing, and leaves the calls, the answers and the store as they are; or it
serves the first of the calls on their way, on the store as it finds it. -/
theorem served_cases (s : Context σ κ ρ) (e : Event κ ω) :
    (servedBy s e = none ∧ (s.step run e).answers = s.answers ∧
        (s.step run e).store = s.store) ∨
      ∃ id c w, (id, c) ∈ s.unserved ∧ servedBy s e = some (id, c, w) ∧
        (s.step run e).answers = s.answers ++ [(id, (run s.store c w).1)] ∧
        (s.step run e).store = (run s.store c w).2 := by
  have hsame {s' : Context σ κ ρ} (h : Same s s') : s'.answers = s.answers ∧ s'.store = s.store :=
    ⟨h.answers, h.store⟩
  cases e with
  | call c =>
      refine Or.inl ⟨rfl, ?_⟩
      show (s.post c).answers = s.answers ∧ (s.post c).store = s.store
      rw [post]
      dsimp only
      split <;> exact ⟨rfl, rfl⟩
  | take => exact Or.inl ⟨rfl, hsame s.same_take⟩
  | serve outcome =>
      show (servedBy s (.serve outcome) = none ∧ (s.serve run outcome).answers = _ ∧
        (s.serve run outcome).store = _) ∨ _
      cases hhandler : s.handler with
      | none =>
          refine Or.inl ⟨?_, ?_⟩
          · cases outcome <;> simp [servedBy, hhandler]
          · rw [serve, hhandler]
            exact ⟨rfl, rfl⟩
      | some handler =>
          cases handler with
          | ran =>
              refine Or.inl ⟨?_, ?_⟩
              · cases outcome <;> simp [servedBy, hhandler]
              · rw [serve, hhandler]
                exact ⟨rfl, rfl⟩
          | taken id c =>
              cases outcome with
              | returns w =>
                  refine Or.inr ⟨id, c, w, ?_, ?_, ?_⟩
                  · rw [unserved, hhandler]
                    exact List.mem_cons_self
                  · rw [servedBy, hhandler]
                  · rw [step, serve, hhandler]
                    exact ⟨(List.append_assoc _ _ _).symm, rfl⟩
              | throws =>
                  refine Or.inl ⟨rfl, ?_⟩
                  rw [serve, hhandler]
                  exact ⟨rfl, rfl⟩
              | throwsOther =>
                  refine Or.inl ⟨rfl, ?_⟩
                  rw [serve, hhandler]
                  exact ⟨rfl, rfl⟩
  | finish => exact Or.inl ⟨rfl, hsame s.same_finish⟩
  | outOfWork => exact Or.inl ⟨rfl, hsame s.same_outOfWork⟩
  | idle => exact Or.inl ⟨rfl, hsame s.same_runIdle⟩
  | stop => exact Or.inl ⟨rfl, hsame s.same_stop⟩

/-- No step unmakes a call. -/
theorem called_step {s : Context σ κ ρ} {e : Event κ ω} {id : Nat} {c : κ}
    (h : s.called[id]? = some c) : (s.step run e).called[id]? = some c := by
  have hsame {s' : Context σ κ ρ} (hsame : Same s s') : s'.called[id]? = some c :=
    hsame.called.symm ▸ h
  cases e with
  | call c' =>
      show (s.post c').called[id]? = some c
      rw [post]
      dsimp only
      split <;> exact getElem?_called_concat h
  | take => exact hsame s.same_take
  | serve outcome =>
      show (s.serve run outcome).called[id]? = some c
      obtain ⟨_, hserve⟩ | ⟨_, _, _, hcalled, _⟩ := serve_cases run s outcome
      · rw [hserve]
        exact h
      · rw [hcalled]
        exact h
  | finish => exact hsame s.same_finish
  | outOfWork => exact hsame s.same_outOfWork
  | idle => exact hsame s.same_runIdle
  | stop => exact hsame s.same_stop

/-- The answers and the store are what carrying out the served calls gives, and each of these is
the call with its number. -/
structure CarriedOut (run : σ → κ → ω → ρ × σ) (store : σ) (events : List (Event κ ω)) :
    Prop where
  calls : ∀ x ∈ served run store events,
    (events.foldl (step run) { store }).called[x.1]? = some x.2.1
  answers : (events.foldl (step run) { store }).answers =
    (replay run store (served run store events)).1
  store : (events.foldl (step run) { store }).store =
    (replay run store (served run store events)).2

theorem carriedOut (store : σ) (events : List (Event κ ω)) : CarriedOut run store events := by
  induction events using List.reverseRecOn with
  | nil => exact ⟨by simp [served, Runs.trace], rfl, rfl⟩
  | append_singleton events e ih =>
      have htracked : Tracked (events.foldl (step run) { store }) :=
        tracked_after (tracked_init store) events
      have hcalls : ∀ x ∈ served run store events,
          ((events ++ [e]).foldl (step run) { store }).called[x.1]? = some x.2.1 := by
        intro x hx
        rw [List.foldl_concat]
        exact called_step (ih.calls x hx)
      obtain ⟨hnone, hanswers, hstore⟩ | ⟨id, c, w, hmem, hsome, hanswers, hstore⟩ :=
        @served_cases σ κ ω ρ run (events.foldl (step run) { store }) e
      · have hserved : served run store (events ++ [e]) = served run store events := by
          rw [served_concat, hnone]
          exact List.append_nil _
        refine ⟨hserved ▸ hcalls, ?_, ?_⟩
        · rw [hserved, List.foldl_concat, hanswers, ih.answers]
        · rw [hserved, List.foldl_concat, hstore, ih.store]
      · have hserved : served run store (events ++ [e]) =
            served run store events ++ [(id, c, w)] := by
          rw [served_concat, hsome]
          rfl
        refine ⟨?_, ?_, ?_⟩
        · intro x hx
          rw [hserved] at hx
          rcases List.mem_append.mp hx with hold | hnew
          · exact hcalls x hold
          · rw [List.mem_singleton.mp hnew, List.foldl_concat]
            exact called_step (htracked.calls (id, c) hmem)
        · rw [hserved, List.foldl_concat, hanswers, replay_concat, ih.answers, ih.store]
        · rw [hserved, List.foldl_concat, hstore, replay_concat, ih.store]

/-! ## When a call is lost -/

/-- No call is lost, and the thread will come to those that are posted. -/
structure Sound (s : Context σ κ ρ) : Prop where
  whole : s.ids.length = s.called.length
  flows : s.contextStopped = true → s.posted = []

theorem Tracked.length_le {s : Context σ κ ρ} (h : Tracked s) :
    s.ids.length ≤ s.called.length := by
  have hle := h.ordered.length_le
  rw [List.length_range] at hle
  exact hle

theorem sound_of_same {s s' : Context σ κ ρ} (h : Same s s')
    (hflows : (s'.contextStopped = true → s'.posted = []) ↔
      (s.contextStopped = true → s.posted = [])) : Sound s' ↔ Sound s := by
  constructor
  · rintro ⟨hwhole, hflows'⟩
    rw [h.ids, h.called] at hwhole
    exact ⟨hwhole, hflows.mp hflows'⟩
  · rintro ⟨hwhole, hflows'⟩
    refine ⟨?_, hflows.mpr hflows'⟩
    rw [h.ids, h.called]
    exact hwhole

theorem sound_take (s : Context σ κ ρ) : Sound s.take ↔ Sound s := by
  refine sound_of_same s.same_take ?_
  obtain h | ⟨id, c, rest, _, _, hrunning, h⟩ := s.take_cases
  · rw [h]
  · rw [h]
    show (s.contextStopped = true → _) ↔ (s.contextStopped = true → _)
    rw [hrunning]
    exact ⟨fun _ => nofun, fun _ => nofun⟩

theorem sound_finish (s : Context σ κ ρ) : Sound s.finish ↔ Sound s := by
  refine sound_of_same s.same_finish ?_
  rw [finish]
  split <;> exact Iff.rfl

theorem sound_outOfWork (s : Context σ κ ρ) : Sound s.outOfWork ↔ Sound s := by
  refine sound_of_same s.same_outOfWork ?_
  rw [outOfWork]
  split
  next hidle =>
    rw [Bool.and_eq_true, Bool.and_eq_true, List.isEmpty_iff] at hidle
    exact ⟨fun _ _ => hidle.1.2, fun _ _ => hidle.1.2⟩
  next => exact Iff.rfl

theorem sound_runIdle (s : Context σ κ ρ) : Sound s.runIdle ↔ Sound s := by
  refine sound_of_same s.same_runIdle ?_
  rw [runIdle]
  split <;> exact Iff.rfl

theorem sound_stop (s : Context σ κ ρ) :
    Sound s.stop ↔ Sound s ∧ (s.stopped = true ∨ s.posted = []) := by
  cases hstopped : s.stopped with
  | true =>
      have hsame : s.stop = s := by rw [stop, hstopped, if_pos rfl]
      rw [hsame]
      exact ⟨fun h => ⟨h, Or.inl rfl⟩, fun h => h.1⟩
  | false =>
      have hids : s.stop.ids = s.ids := s.same_stop.ids
      have hcalled : s.stop.called = s.called := s.same_stop.called
      have hstop : s.stop.contextStopped = true ∧ s.stop.posted = s.posted := by
        rw [stop, hstopped, if_neg Bool.false_ne_true]
        exact ⟨rfl, rfl⟩
      constructor
      · rintro ⟨hwhole, hflows⟩
        have hempty := hstop.2.symm.trans (hflows hstop.1)
        rw [hids, hcalled] at hwhole
        exact ⟨⟨hwhole, fun _ => hempty⟩, Or.inr hempty⟩
      · rintro ⟨⟨hwhole, _⟩, hposted⟩
        have hempty := hposted.resolve_left Bool.false_ne_true
        refine ⟨?_, fun _ => hstop.2.trans hempty⟩
        rw [hids, hcalled]
        exact hwhole

theorem sound_post {s : Context σ κ ρ} (h : Tracked s) (c : κ) :
    Sound (s.post c) ↔
      Sound s ∧ s.pendingOperations < kMaxPendingOperations ∧ s.contextStopped = false := by
  have hlength : (s.called ++ [c]).length = s.called.length + 1 := by
    rw [List.length_append, List.length_singleton]
  rw [post]
  dsimp only
  split
  next hfull =>
    refine ⟨fun hsound => ?_, fun hmeets => absurd hmeets.2.1 (Nat.not_lt.mpr hfull)⟩
    have hwhole : s.ids.length = (s.called ++ [c]).length := hsound.whole
    rw [hlength] at hwhole
    exact absurd h.length_le (Nat.not_le.mpr (hwhole ▸ Nat.lt_succ_self _))
  next hroom =>
    have hids : (ids { s with
        called := s.called ++ [c]
        pendingOperations := s.pendingOperations + 1
        posted := s.posted ++ [(s.called.length, c)] }).length = s.ids.length + 1 := by
      simp only [ids, unserved, List.length_append, List.length_map, List.length_singleton,
        Nat.add_assoc]
      rfl
    constructor
    · rintro ⟨hwhole, hflows⟩
      rw [hids] at hwhole
      have hrunning : s.contextStopped = false := by
        cases hstopped : s.contextStopped with
        | false => rfl
        | true => exact absurd (hflows hstopped) (List.append_ne_nil_of_right_ne_nil _ nofun)
      refine ⟨⟨Nat.succ.inj (hwhole.trans hlength), ?_⟩, Nat.lt_of_not_le hroom, hrunning⟩
      rw [hrunning]
      nofun
    · rintro ⟨⟨hwhole, _⟩, _, hrunning⟩
      refine ⟨?_, fun hstopped => ?_⟩
      · rw [hids, hwhole]
        exact hlength.symm
      · have hstopped' : s.contextStopped = true := hstopped
        rw [hrunning] at hstopped'
        cases hstopped'

theorem sound_serve {s : Context σ κ ρ} (h : Tracked s) (outcome : Outcome ω) :
    Sound (s.serve run outcome) ↔ Sound s ∧ Meets s (.serve outcome) := by
  obtain ⟨hnone, hsame⟩ | ⟨id, c, hunserved, hcalled, hposted, hunserved', hanswers⟩ :=
    serve_cases run s outcome
  · rw [hsame]
    refine ⟨fun hsound => ⟨hsound, ?_⟩, fun hboth => hboth.1⟩
    cases outcome with
    | returns w => trivial
    | throws => exact hnone
    | throwsOther => exact hnone
  · obtain ⟨w, rfl, hstopped, hanswers⟩ | ⟨hthrows, htaken, hanswers⟩ := hanswers
    · have hids : (s.serve run (.returns w)).ids = s.ids := by
        rw [ids, hanswers, hunserved', ids, hunserved, List.map_append, List.append_assoc]
        rfl
      constructor
      · rintro ⟨hwhole, hflows⟩
        rw [hids, hcalled] at hwhole
        rw [hstopped, hposted] at hflows
        exact ⟨⟨hwhole, hflows⟩, trivial⟩
      · rintro ⟨⟨hwhole, hflows⟩, _⟩
        rw [← hstopped, ← hposted] at hflows
        refine ⟨?_, hflows⟩
        rw [hids, hcalled]
        exact hwhole
    · have hids : (s.serve run outcome).ids.length + 1 = s.ids.length := by
        rw [ids, hanswers, hunserved', ids, hunserved, List.map_cons, List.length_append,
          List.length_append, List.length_cons]
        rfl
      constructor
      · intro hsound
        have hle := h.length_le
        rw [← hids, hsound.whole, hcalled] at hle
        exact absurd hle (Nat.not_succ_le_self _)
      · rintro ⟨_, hmeets⟩
        cases outcome with
        | returns w => exact absurd rfl (hthrows w)
        | throws => exact absurd hmeets htaken
        | throwsOther => exact absurd hmeets htaken

theorem sound_step {s : Context σ κ ρ} (h : Tracked s) (e : Event κ ω) :
    Sound (s.step run e) ↔ Sound s ∧ Meets s e := by
  cases e with
  | call c => exact sound_post h c
  | take => exact (sound_take s).trans (iff_of_eq (and_true _)).symm
  | serve outcome => exact sound_serve h outcome
  | finish => exact (sound_finish s).trans (iff_of_eq (and_true _)).symm
  | outOfWork => exact (sound_outOfWork s).trans (iff_of_eq (and_true _)).symm
  | idle => exact (sound_runIdle s).trans (iff_of_eq (and_true _)).symm
  | stop => exact sound_stop s

/-! ## Going on to the end -/

theorem meets_of_quiet {e : Event κ ω} (h : Quiet e) (s : Context σ κ ρ) : Meets s e := by
  cases e with
  | call c => exact h.elim
  | serve outcome =>
      cases outcome with
      | returns w => trivial
      | throws => exact h.elim
      | throwsOther => exact h.elim
  | stop => exact h.elim
  | take => trivial
  | finish => trivial
  | outOfWork => trivial
  | idle => trivial

theorem sound_after {s : Context σ κ ρ} (h : Tracked s) (events : List (Event κ ω)) :
    Sound (events.foldl (step run) s) ↔ Sound s ∧ Runs.Along (step run) Meets s events :=
  Runs.final_iff_along h (fun _ e hs => hs.step e) fun _ e hs => sound_step hs e

theorem along_of_quiet {s : Context σ κ ρ} {more : List (Event κ ω)} (h : ∀ e ∈ more, Quiet e) :
    Runs.Along (step run) Meets s more := by
  induction more generalizing s with
  | nil => trivial
  | cons e more ih =>
      exact ⟨meets_of_quiet (h e List.mem_cons_self) s,
        ih fun e' he' => h e' (List.mem_cons_of_mem e he')⟩

/-- How much the thread and the main loop have to do at most. -/
def work (s : Context σ κ ρ) : Nat :=
  4 * s.posted.length +
    (match s.handler with
      | some (.taken _ _) => 3
      | some .ran => 1
      | none => 0) +
    s.idle.length

/-- Where there is something to do, a step does some of it. -/
theorem settled_or_step [Inhabited ω] (run : σ → κ → ω → ρ × σ) (s : Context σ κ ρ) :
    s.Settled ∨ ∃ e : Event κ ω, Quiet e ∧ (s.step run e).work < s.work := by
  cases hhandler : s.handler with
  | some handler =>
      cases handler with
      | taken id c =>
          refine Or.inr ⟨.serve (.returns default), trivial, ?_⟩
          simp only [step, serve, work, hhandler, List.length_append, List.length_singleton]
          omega
      | ran =>
          refine Or.inr ⟨.finish, trivial, ?_⟩
          simp only [step, finish, work, hhandler]
          omega
  | none =>
      cases hidle : s.idle with
      | cons answer rest =>
          refine Or.inr ⟨.idle, trivial, ?_⟩
          simp only [step, runIdle, work, hhandler, hidle, List.length_cons]
          omega
      | nil =>
          cases hposted : s.posted with
          | nil => exact Or.inl ⟨hhandler, hidle, Or.inl hposted⟩
          | cons call rest =>
              cases hstopped : s.contextStopped with
              | true => exact Or.inl ⟨hhandler, hidle, Or.inr hstopped⟩
              | false =>
                  refine Or.inr ⟨.take, trivial, ?_⟩
                  simp only [step, take, work, hhandler, hidle, hposted, hstopped,
                    List.length_cons]
                  omega

theorem settles [Inhabited ω] (run : σ → κ → ω → ρ × σ) (s : Context σ κ ρ) :
    ∃ more : List (Event κ ω), (∀ e ∈ more, Quiet e) ∧ (more.foldl (step run) s).Settled := by
  induction hwork : s.work using Nat.strong_induction_on generalizing s with
  | _ n ih =>
      obtain hsettled | ⟨e, hquiet, hless⟩ := settled_or_step run s
      · exact ⟨[], nofun, hsettled⟩
      · obtain ⟨more, hmore, hsettled⟩ := ih _ (hwork ▸ hless) (s.step run e) rfl
        refine ⟨e :: more, fun e' he' => ?_, hsettled⟩
        rcases List.mem_cons.mp he' with rfl | he'
        · exact hquiet
        · exact hmore e' he'

/-- The calls, when every number stands for one that was served. -/
theorem map_zipIdx {called : List κ} {calls : List (Nat × κ × ω)}
    (hids : calls.map Prod.fst = List.range called.length)
    (hcalls : ∀ x ∈ calls, called[x.1]? = some x.2.1) :
    calls.map (fun x => (x.2.1, x.1)) = called.zipIdx := by
  have hlength : calls.length = called.length := by
    rw [← List.length_map (f := Prod.fst), hids, List.length_range]
  refine List.ext_getElem? fun i => ?_
  rw [List.getElem?_map, List.getElem?_zipIdx]
  cases hget : calls[i]? with
  | none =>
      rw [List.getElem?_eq_none_iff, hlength] at hget
      rw [List.getElem?_eq_none hget]
      rfl
  | some x =>
      have hi : i < called.length := hlength ▸ (List.getElem?_eq_some_iff.mp hget).1
      have hid : x.1 = i := by
        have hfst : (calls.map Prod.fst)[i]? = some x.1 := by rw [List.getElem?_map, hget]; rfl
        rw [hids, List.getElem?_range hi] at hfst
        exact (Option.some.inj hfst).symm
      rw [← hid, hcalls x (List.mem_of_getElem? hget)]
      simp

/-- Where there is nothing to do, no call is lost exactly if every callback was invoked. -/
theorem sound_iff_complete (store : σ) {events : List (Event κ ω)}
    (hsettled : (events.foldl (step run) { store }).Settled) :
    Sound (events.foldl (step run) { store }) ↔ Complete run store events := by
  have htracked : Tracked (events.foldl (step run) { store }) :=
    tracked_after (tracked_init store) events
  have hdone : CarriedOut run store events := carriedOut store events
  have hanswers : (events.foldl (step run) { store }).answers =
      (events.foldl (step run) { store }).invoked := by
    rw [answers, hsettled.idle, List.append_nil]
  have hids : (events.foldl (step run) { store }).ids =
      (served run store events).map Prod.fst ++
        (events.foldl (step run) { store }).posted.map Prod.fst := by
    rw [ids, hdone.answers, ids_replay, unserved, hsettled.handler]
    rfl
  constructor
  · rintro ⟨hwhole, hflows⟩
    have hposted := hsettled.posted.elim id hflows
    have hordered := htracked.ordered.eq_of_length (hwhole.trans List.length_range.symm)
    rw [hids, hposted, List.map_nil, List.append_nil] at hordered
    exact ⟨map_zipIdx hordered hdone.calls, hdone.store, hanswers.symm.trans hdone.answers⟩
  · rintro ⟨hserved, -, -⟩
    have hlength := congrArg List.length hserved
    rw [List.length_map, List.length_zipIdx] at hlength
    have hle := htracked.length_le
    rw [hids, List.length_append, List.length_map, List.length_map, hlength] at hle
    have hposted := Nat.le_zero.mp (Nat.le_of_add_le_add_left hle)
    refine ⟨?_, fun _ => List.length_eq_zero_iff.mp hposted⟩
    rw [hids, List.length_append, List.length_map, List.length_map, hlength, hposted, Nat.add_zero]

theorem delivers_iff [Inhabited ω] (store : σ) (events : List (Event κ ω)) :
    Delivers run store events ↔ Sound (events.foldl (step run) { store }) := by
  have htracked : Tracked (events.foldl (step run) { store }) :=
    tracked_after (tracked_init store) events
  have hafter (more : List (Event κ ω)) (hquiet : ∀ e ∈ more, Quiet e) :
      Sound ((events ++ more).foldl (step run) { store }) ↔
        Sound (events.foldl (step run) { store }) := by
    rw [List.foldl_append, sound_after htracked]
    exact and_iff_left (along_of_quiet hquiet)
  constructor
  · rintro ⟨⟨more, hquiet, hsettled⟩, hcomplete⟩
    have hsound := (sound_iff_complete store hsettled).mpr (hcomplete more hquiet hsettled)
    exact (hafter more hquiet).mp hsound
  · intro hsound
    obtain ⟨more, hquiet, hsettled⟩ := settles run (events.foldl (step run) { store })
    rw [← List.foldl_append] at hsettled
    refine ⟨⟨more, hquiet, hsettled⟩, fun more hquiet hsettled => ?_⟩
    exact (sound_iff_complete store hsettled).mp ((hafter more hquiet).mpr hsound)

/-- After a run every call can still come to its end exactly if no step of the run lost one. -/
theorem delivers_after_iff [Inhabited ω] (run : σ → κ → ω → ρ × σ) (store : σ)
    (events : List (Event κ ω)) :
    Delivers run store events ↔ Runs.Along (step run) Meets { store } events := by
  rw [delivers_iff, sound_after (tracked_init store)]
  exact and_iff_right ⟨rfl, by simp⟩

end Context

end ModelContext
