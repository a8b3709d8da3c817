import IndustrialHmi.Integration.ModbusFlow

/-!
# No sample is lost

`Phases` says which threads exist while the caller is where it is, and that `pollOnce`
and `drainOnce` run only in their threads; `drainOnce` also runs in `stop`, when both
threads are gone.  With `Flow` it is kept by every turn (`Keeps.step`), so it holds
after every run.

`conserves_samples` reads off both what the counters, the queue and the bridge say
together, and why `stop` leaves the queue empty: its own `drainOnce` has seen it
empty, and nobody is left to push.
-/

namespace Modbus

/-! ## One turn -/

/-- What one turn may do. -/
inductive Stepped (s : PollLoop) : Turn → Event × PollLoop → Prop where
  | stays {turn} : Stepped s turn (.none, s)
  | startCalled {turn} : s.caller = .idle → s.thread.state = .none →
      Stepped s turn (.none, { s with drainThread := .spawn, caller := .starting })
  | stopCalled {turn} : s.caller = .idle → s.thread.state ≠ .none →
      Stepped s turn (.none, { s with thread := s.thread.request_stop, caller := .joiningPoll })
  | spawned {turn} : s.caller = .starting →
      Stepped s turn (.none, { s with thread := .spawn, caller := .idle })
  | pollJoined {turn} : s.caller = .joiningPoll → s.thread.state = .exited →
      Stepped s turn (.none, { s with thread := {}, caller := .pollJoined })
  | drainStopped {turn} : s.caller = .pollJoined → s.drainThread.state ≠ .none →
      Stepped s turn
        (.none, { s with drainThread := s.drainThread.request_stop, caller := .joiningDrain })
  | drainMissing {turn} : s.caller = .pollJoined → s.drainThread.state = .none →
      Stepped s turn
        (.none, { s with pipeline := { s.pipeline with drain := .draining }, caller := .flushing })
  | drainJoined {turn} : s.caller = .joiningDrain → s.drainThread.state = .exited →
      Stepped s turn (.none, { s with
        drainThread := {}
        pipeline := { s.pipeline with drain := .draining }
        caller := .flushing })
  | flushes {turn} : s.caller = .flushing → s.pipeline.drain ≠ .returned →
      Stepped s turn (s.pipeline.drainOnce.1, { s with pipeline := s.pipeline.drainOnce.2 })
  | stopped {turn} : s.caller = .flushing → s.pipeline.drain = .returned →
      Stepped s turn (.stopped, { s with caller := .idle })
  | pollBegins {turn} : s.thread.state = .looping →
      Stepped s turn (.none, { s with
        thread := s.thread.goto .working
        pipeline := { s.pipeline with poll := .walking s.pipeline.map } })
  | polls (reader) : s.thread.state = .working → s.pipeline.poll ≠ .returned →
      Stepped s (.poll reader)
        ((s.pipeline.pollOnce reader).1, { s with pipeline := (s.pipeline.pollOnce reader).2 })
  | pollMoves {turn} (state) : s.thread.state ≠ .none → state ≠ .none →
      (s.thread.state = .working → s.pipeline.poll = .returned) →
      Stepped s turn (.none, { s with thread := s.thread.goto state })
  | drainBegins {turn} : s.drainThread.state = .looping →
      Stepped s turn (.none, { s with
        drainThread := s.drainThread.goto .working
        pipeline := { s.pipeline with drain := .draining } })
  | drains {turn} : s.drainThread.state = .working → s.pipeline.drain ≠ .returned →
      Stepped s turn (s.pipeline.drainOnce.1, { s with pipeline := s.pipeline.drainOnce.2 })
  | drainMoves {turn} (state) : s.drainThread.state ≠ .none → state ≠ .none →
      (s.drainThread.state = .working → s.pipeline.drain = .returned) →
      Stepped s turn (.none, { s with drainThread := s.drainThread.goto state })

theorem joinable_iff (t : Worker) : t.joinable = true ↔ t.state ≠ .none := by
  obtain ⟨state, stopRequested⟩ := t
  cases state <;> simp [Worker.joinable]

/-- A thread that is not in a call moves on. -/
theorem Stepped.pollIdle {s : PollLoop} {turn : Turn} {at_ : WorkerAt} (hat : s.thread.state = at_)
    (state : WorkerAt) (hsome : at_ ≠ .none) (hidle : at_ ≠ .working) (hstate : state ≠ .none) :
    Stepped s turn (.none, { s with thread := s.thread.goto state }) :=
  .pollMoves state (hat ▸ hsome) hstate fun hworking => absurd (hat.symm.trans hworking) hidle

theorem Stepped.drainIdle {s : PollLoop} {turn : Turn} {at_ : WorkerAt}
    (hat : s.drainThread.state = at_) (state : WorkerAt) (hsome : at_ ≠ .none)
    (hidle : at_ ≠ .working) (hstate : state ≠ .none) :
    Stepped s turn (.none, { s with drainThread := s.drainThread.goto state }) :=
  .drainMoves state (hat ▸ hsome) hstate fun hworking => absurd (hat.symm.trans hworking) hidle

theorem run_cases (s : PollLoop) (reader : Reader) : Stepped s (.poll reader) (s.run reader) := by
  unfold PollLoop.run
  split
  · next hstate =>
      split
      · exact .pollIdle hstate _ (by simp) (by simp) (by simp)
      · exact .pollBegins hstate
  · next hstate =>
      split
      · next hpoll => exact .pollMoves _ (by rw [hstate]; simp) (by simp) (fun _ => hpoll)
      · next hpoll => exact .polls reader hstate hpoll
  · next hstate =>
      split
      · exact .pollIdle hstate _ (by simp) (by simp) (by simp)
      · exact .pollIdle hstate _ (by simp) (by simp) (by simp)
  · next hstate => exact .pollIdle hstate _ (by simp) (by simp) (by simp)
  · exact .stays

theorem drainRun_cases (s : PollLoop) {turn : Turn} : Stepped s turn s.drainRun := by
  unfold PollLoop.drainRun
  split
  · next hstate =>
      split
      · exact .drainIdle hstate _ (by simp) (by simp) (by simp)
      · exact .drainBegins hstate
  · next hstate =>
      split
      · next hdrain => exact .drainMoves _ (by rw [hstate]; simp) (by simp) (fun _ => hdrain)
      · next hdrain => exact .drains hstate hdrain
  · next hstate =>
      split
      · exact .drainIdle hstate _ (by simp) (by simp) (by simp)
      · exact .drainIdle hstate _ (by simp) (by simp) (by simp)
  · next hstate => exact .drainIdle hstate _ (by simp) (by simp) (by simp)
  · exact .stays

theorem resume_cases (s : PollLoop) {turn : Turn} : Stepped s turn s.resume := by
  unfold PollLoop.resume
  split
  · exact .stays
  · next hcaller => exact .spawned hcaller
  · next hcaller =>
      split
      · next hexited => exact .pollJoined hcaller hexited
      · exact .stays
  · next hcaller =>
      split
      · next hjoinable => exact .drainStopped hcaller ((joinable_iff _).mp hjoinable)
      · next hmissing =>
          exact .drainMissing hcaller (not_not.mp (mt (joinable_iff _).mpr hmissing))
  · next hcaller =>
      split
      · next hexited => exact .drainJoined hcaller hexited
      · exact .stays
  · next hcaller =>
      split
      · next hdrain => exact .stopped hcaller hdrain
      · next hdrain => exact .flushes hcaller hdrain

theorem step_cases (s : PollLoop) (turn : Turn) : Stepped s turn (s.step turn) := by
  cases turn with
  | start =>
      simp only [PollLoop.step]
      split
      · next hcaller =>
          simp only [PollLoop.start]
          split
          · exact .stays
          · next hmissing =>
              exact .startCalled hcaller (not_not.mp (mt (joinable_iff _).mpr hmissing))
      · exact .stays
  | stop =>
      simp only [PollLoop.step]
      split
      · next hcaller =>
          simp only [PollLoop.stop]
          split
          · exact .stays
          · next hjoinable =>
              exact .stopCalled hcaller ((joinable_iff _).mp (by simpa using hjoinable))
      · exact .stays
  | caller => exact resume_cases s
  | poll reader => exact run_cases s reader
  | drain => exact drainRun_cases s

/-! ## The invariant -/

/-- The queue has nothing in it. -/
def PollLoop.Drained (s : PollLoop) : Prop :=
  s.pipeline.queue.queue.head = s.pipeline.queue.queue.tail

/-- Which threads exist while the caller is where it is. -/
def CallerOk (s : PollLoop) : CallerAt → Prop
  | .idle => (s.thread.state = .none ∧ s.drainThread.state = .none ∧ s.Drained) ∨
      (s.thread.state ≠ .none ∧ s.drainThread.state ≠ .none)
  | .starting => s.thread.state = .none ∧ s.drainThread.state ≠ .none
  | .joiningPoll => s.thread.state ≠ .none ∧ s.drainThread.state ≠ .none
  | .pollJoined => s.thread.state = .none ∧ s.drainThread.state ≠ .none
  | .joiningDrain => s.thread.state = .none ∧ s.drainThread.state ≠ .none
  | .flushing => s.thread.state = .none ∧ s.drainThread.state = .none ∧
      (s.pipeline.drain = .returned → s.Drained)

/-- Who is where. -/
structure Phases (s : PollLoop) : Prop where
  caller : CallerOk s s.caller
  poll : s.pipeline.poll = .returned ∨ s.thread.state = .working
  drain : s.pipeline.drain = .returned ∨ s.drainThread.state = .working ∨ s.caller = .flushing

theorem Phases.poll_of_thread {s : PollLoop} (h : Phases s) (ht : s.thread.state ≠ .working) :
    s.pipeline.poll = .returned := h.poll.resolve_right ht

/-- Outside `stop`'s own flush, `drainOnce` runs in the drain thread only. -/
theorem Phases.drain_of_caller {s : PollLoop} (h : Phases s) (hc : s.caller ≠ .flushing) :
    s.pipeline.drain = .returned ∨ s.drainThread.state = .working := by
  rcases h.drain with hreturned | hworking | hflushing
  · exact .inl hreturned
  · exact .inr hworking
  · exact absurd hflushing hc

/-- What a running thread does is nothing to the caller, as long as the thread runs. -/
theorem CallerOk.of_threads {s s' : PollLoop} {caller : CallerAt} (h : CallerOk s caller)
    (hthread : s'.thread.state = .none ↔ s.thread.state = .none)
    (hdrain : s'.drainThread.state = .none ↔ s.drainThread.state = .none)
    (hruns : s.thread.state ≠ .none ∨ s.drainThread.state ≠ .none) : CallerOk s' caller := by
  cases caller with
  | idle =>
      rcases h with ⟨hnone, hnone', -⟩ | ⟨hsome, hsome'⟩
      · exact absurd hruns (not_or.mpr ⟨not_not.mpr hnone, not_not.mpr hnone'⟩)
      · exact .inr ⟨mt hthread.mp hsome, mt hdrain.mp hsome'⟩
  | starting => exact ⟨hthread.mpr h.1, mt hdrain.mp h.2⟩
  | joiningPoll => exact ⟨mt hthread.mp h.1, mt hdrain.mp h.2⟩
  | pollJoined => exact ⟨hthread.mpr h.1, mt hdrain.mp h.2⟩
  | joiningDrain => exact ⟨hthread.mpr h.1, mt hdrain.mp h.2⟩
  | flushing =>
      exact absurd hruns (not_or.mpr ⟨not_not.mpr h.1, not_not.mpr h.2.1⟩)

/-- `pollOnce` leaves `drainOnce` where it is. -/
theorem pollOnce_drain (p : Pipeline) (reader : Reader) :
    (p.pollOnce reader).2.drain = p.drain := by
  unfold Pipeline.pollOnce
  split
  · rfl
  · split <;> rfl
  · rfl
  · split <;> rfl
  · rfl
  · rfl

/-- `drainOnce` leaves `pollOnce` where it is. -/
theorem drainOnce_poll (p : Pipeline) : p.drainOnce.2.poll = p.poll := by
  unfold Pipeline.drainOnce
  split
  · rfl
  · split <;> rfl
  · rfl
  · rfl

/-- The invariant of a run. -/
def Keeps (map : List RegisterMapping) (l : Ledger) (s : PollLoop) : Prop :=
  (∃ pushed popped, Flow map l pushed popped s.pipeline) ∧ Phases s

theorem Keeps.fresh (map : List RegisterMapping) : Keeps map {} (.fresh map) := by
  refine ⟨⟨[], [], ?_⟩, .inl ⟨rfl, rfl, rfl⟩, .inl rfl, .inl rfl⟩
  exact ⟨Core.Fifo.fresh _ _, rfl, rfl, rfl, rfl, rfl, fun _ hmem => (nomatch hmem), rfl, rfl,
    fun _ hmem => (nomatch hmem), rfl, rfl, rfl⟩

variable {map : List RegisterMapping} {l : Ledger} {s : PollLoop}

/-- A step of `drainOnce`, in the drain thread or in `stop`. -/
theorem Keeps.drainOnce (h : Keeps map l s) (hdrain : s.pipeline.drain ≠ .returned) :
    Keeps map (l.record s.pipeline.drainOnce.1) { s with pipeline := s.pipeline.drainOnce.2 } := by
  obtain ⟨⟨pushed, popped, hflow⟩, hcaller, hpoll, hruns⟩ := h
  obtain ⟨popped', hflow', hdrained⟩ := hflow.drainOnce hdrain
  refine ⟨⟨pushed, popped', hflow'⟩, ?_, ?_, .inr (hruns.resolve_left hdrain)⟩
  · rcases hruns.resolve_left hdrain with hworking | hflushing
    · refine hcaller.of_threads Iff.rfl Iff.rfl (.inr ?_)
      rw [hworking]
      exact fun he => nomatch he
    · rw [hflushing] at hcaller
      change CallerOk _ s.caller
      rw [hflushing]
      exact ⟨hcaller.1, hcaller.2.1, hdrained⟩
  · rw [drainOnce_poll]
    exact hpoll

/-- Every turn keeps the invariant. -/
theorem Keeps.step (h : Keeps map l s) (turn : Turn) :
    Keeps map (l.record (s.step turn).1) (s.step turn).2 := by
  have hcases := step_cases s turn
  generalize s.step turn = r at hcases ⊢
  have hkeeps := h
  obtain ⟨⟨pushed, popped, hflow⟩, hphases⟩ := h
  have hcaller := hphases.caller
  cases hcases with
  | stays => exact hkeeps
  | startCalled hc ht =>
      have hdrain := hphases.drain_of_caller (by rw [hc]; simp)
      rw [hc] at hcaller
      -- there is no drain thread, or the loop would have been running
      rcases hcaller with ⟨-, hnone, -⟩ | ⟨hsome, -⟩
      · rw [hnone] at hdrain
        exact ⟨⟨pushed, popped, hflow⟩, ⟨ht, by simp [Worker.spawn]⟩, hphases.poll,
          .inl (hdrain.resolve_right (by simp))⟩
      · exact absurd ht hsome
  | stopCalled hc ht =>
      have hdrain := hphases.drain_of_caller (by rw [hc]; simp)
      rw [hc] at hcaller
      rcases hcaller with ⟨hnone, -, -⟩ | ⟨-, hsome⟩
      · exact absurd hnone ht
      · exact ⟨⟨pushed, popped, hflow⟩, ⟨ht, hsome⟩, hphases.poll, hdrain.imp_right .inl⟩
  | spawned hc =>
      have hdrain := hphases.drain_of_caller (by rw [hc]; simp)
      rw [hc] at hcaller
      have hreturned := hphases.poll_of_thread (by rw [hcaller.1]; simp)
      exact ⟨⟨pushed, popped, hflow⟩, .inr ⟨by simp [Worker.spawn], hcaller.2⟩, .inl hreturned,
        hdrain.imp_right .inl⟩
  | pollJoined hc hexited =>
      have hdrain := hphases.drain_of_caller (by rw [hc]; simp)
      rw [hc] at hcaller
      have hreturned := hphases.poll_of_thread (by rw [hexited]; simp)
      exact ⟨⟨pushed, popped, hflow⟩, ⟨rfl, hcaller.2⟩, .inl hreturned, hdrain.imp_right .inl⟩
  | drainStopped hc hsome =>
      have hdrain := hphases.drain_of_caller (by rw [hc]; simp)
      rw [hc] at hcaller
      exact ⟨⟨pushed, popped, hflow⟩, ⟨hcaller.1, hsome⟩, hphases.poll, hdrain.imp_right .inl⟩
  | drainMissing hc hnone =>
      rw [hc] at hcaller
      exact absurd hnone hcaller.2
  | drainJoined hc hexited =>
      have hdrain := hphases.drain_of_caller (by rw [hc]; simp)
      rw [hc] at hcaller
      rw [hexited] at hdrain
      exact ⟨⟨pushed, popped, hflow.beginDrain (hdrain.resolve_right (by simp))⟩,
        ⟨hcaller.1, rfl, by simp⟩, hphases.poll, .inr (.inr rfl)⟩
  | flushes hc hbusy => exact hkeeps.drainOnce hbusy
  | stopped hc hreturned =>
      rw [hc] at hcaller
      exact ⟨⟨pushed, popped, hflow⟩, .inl ⟨hcaller.1, hcaller.2.1, hcaller.2.2 hreturned⟩,
        hphases.poll, .inl hreturned⟩
  | pollBegins hstate =>
      have hreturned := hphases.poll_of_thread (by rw [hstate]; simp)
      have hsome : s.thread.state ≠ .none := by rw [hstate]; simp
      exact ⟨⟨pushed, popped, hflow.beginPoll hreturned⟩,
        hcaller.of_threads (by simp [Worker.goto, hsome]) Iff.rfl (.inl hsome), .inr rfl,
        hphases.drain⟩
  | polls reader hstate _ =>
      obtain ⟨pushed', hflow'⟩ := hflow.pollOnce reader
      have hsome : s.thread.state ≠ .none := by rw [hstate]; simp
      refine ⟨⟨pushed', popped, hflow'⟩, hcaller.of_threads Iff.rfl Iff.rfl (.inl hsome),
        .inr hstate, ?_⟩
      rw [pollOnce_drain]
      exact hphases.drain
  | pollMoves state hsome hstate hidle =>
      exact ⟨⟨pushed, popped, hflow⟩,
        hcaller.of_threads (by simp [Worker.goto, hstate, hsome]) Iff.rfl (.inl hsome),
        .inl (hphases.poll.elim id hidle), hphases.drain⟩
  | drainBegins hstate =>
      have hsome : s.drainThread.state ≠ .none := by rw [hstate]; simp
      have hc : s.caller ≠ .flushing := by
        intro hc
        rw [hc] at hcaller
        exact hsome hcaller.2.1
      have hdrain := hphases.drain_of_caller hc
      rw [hstate] at hdrain
      exact ⟨⟨pushed, popped, hflow.beginDrain (hdrain.resolve_right (by simp))⟩,
        hcaller.of_threads Iff.rfl (by simp [Worker.goto, hsome]) (.inr hsome), hphases.poll,
        .inr (.inl rfl)⟩
  | drains hstate hbusy => exact hkeeps.drainOnce hbusy
  | drainMoves state hsome hstate hidle =>
      refine ⟨⟨pushed, popped, hflow⟩,
        hcaller.of_threads Iff.rfl (by simp [Worker.goto, hstate, hsome]) (.inr hsome),
        hphases.poll, ?_⟩
      rcases hphases.drain with hreturned | hworking | hflushing
      · exact .inl hreturned
      · exact .inl (hidle hworking)
      · exact .inr (.inr hflushing)

/-! ## Runs -/

section

variable (map : List RegisterMapping) (turns : List Turn)

/-- The loop after some turns. -/
def loopAfter : PollLoop := Transducer.final PollLoop.step (.fresh map) turns

/-- What has happened by then. -/
def ledgerBy : Ledger :=
  (Transducer.outputs PollLoop.step (.fresh map) turns).foldl Ledger.record {}

end

/-- Every run keeps the invariant. -/
theorem keeps_run (map : List RegisterMapping) (turns : List Turn) :
    Keeps map (ledgerBy map turns) (loopAfter map turns) := by
  refine Transducer.run_history PollLoop.step
    (R := fun turns s => Keeps map (ledgerBy map turns) s) (Keeps.fresh map)
    (fun turns turn h => ?_) turns
  have hstep := h.step turn
  rw [ledgerBy, Transducer.outputs_concat, List.foldl_append]
  exact hstep

/-! ## What single steps tell -/

theorem drainOnce_event (p : Pipeline) :
    p.drainOnce.1 = .none ∨ ∃ sample, p.drainOnce.1 = .dispatched sample := by
  unfold Pipeline.drainOnce
  split
  · exact .inl rfl
  · split <;> exact .inl rfl
  · next sample _ => exact .inr ⟨sample, rfl⟩
  · exact .inl rfl

/-- A step that reads, refuses or drops is one of `pollOnce`. -/
theorem step_event {s : PollLoop} {turn : Turn} {event : Event} (h : (s.step turn).1 = event)
    (hnone : event ≠ .none) (hdispatched : ∀ sample, event ≠ .dispatched sample)
    (hstopped : event ≠ .stopped) :
    ∃ reader, turn = .poll reader ∧ (s.pipeline.pollOnce reader).1 = event := by
  have hcases := step_cases s turn
  generalize s.step turn = r at hcases h
  cases hcases with
  | polls reader _ _ => exact ⟨reader, rfl, h⟩
  | flushes _ _ =>
      rcases drainOnce_event s.pipeline with hevent | ⟨sample, hevent⟩
      · exact absurd (h.symm.trans hevent) hnone
      · exact absurd (h.symm.trans hevent) (hdispatched sample)
  | drains _ _ =>
      rcases drainOnce_event s.pipeline with hevent | ⟨sample, hevent⟩
      · exact absurd (h.symm.trans hevent) hnone
      · exact absurd (h.symm.trans hevent) (hdispatched sample)
  | stopped _ _ => exact absurd h.symm hstopped
  | _ => exact absurd h.symm hnone

/-- A sample is read from the register of its own mapping. -/
theorem pollOnce_read {p : Pipeline} {reader : Reader} {sample : RegisterSample}
    (h : (p.pollOnce reader).1 = .read sample) :
    sample.mapping ∈ p.poll.rest ∧
      ∃ more, reader sample.mapping.request = .ok (sample.value :: more) := by
  unfold Pipeline.pollOnce at h
  split at h
  · cases h
  · next entry rest hpoll =>
      split at h
      · next value more hread =>
          cases h
          rw [hpoll]
          exact ⟨List.mem_cons_self, more, hread⟩
      · cases h
  · cases h
  · split at h <;> cases h
  · cases h
  · cases h

/-- A push is refused by the queue. -/
theorem pollOnce_refused {p : Pipeline} {reader : Reader} {sample : RegisterSample}
    (h : (p.pollOnce reader).1 = .refused sample) :
    ∃ item, (p.queue.step .producer).1 = .rejected item := by
  unfold Pipeline.pollOnce at h
  split at h
  · cases h
  · split at h <;> cases h
  · cases h
  · split at h
    · cases h
    · next item queue hstep => exact ⟨item, by rw [hstep]⟩
    · cases h
  · cases h
  · cases h

/-- What is dropped is in hand. -/
theorem pollOnce_dropped {p : Pipeline} {reader : Reader} {sample : RegisterSample}
    (h : (p.pollOnce reader).1 = .dropped sample) : sample ∈ p.poll.hand := by
  unfold Pipeline.pollOnce at h
  split at h
  · cases h
  · split at h <;> cases h
  · cases h
  · split at h <;> cases h
  · next hpoll =>
      cases h
      rw [hpoll]
      exact List.mem_cons_self
  · cases h

/-- `stop` returns when its `drainOnce` has. -/
theorem step_stopped {s : PollLoop} {turn : Turn} (h : (s.step turn).1 = .stopped) :
    (s.step turn).2 = { s with caller := .idle } ∧ s.caller = .flushing ∧
      s.pipeline.drain = .returned := by
  have hcases := step_cases s turn
  generalize s.step turn = r at hcases h
  cases hcases with
  | stopped hcaller hreturned => exact ⟨rfl, hcaller, hreturned⟩
  | polls reader _ _ =>
      revert h
      unfold Pipeline.pollOnce
      repeat' split
      all_goals exact fun he => nomatch he
  | flushes _ _ =>
      rcases drainOnce_event s.pipeline with hevent | ⟨sample, hevent⟩
      · exact nomatch h.symm.trans hevent
      · exact nomatch h.symm.trans hevent
  | drains _ _ =>
      rcases drainOnce_event s.pipeline with hevent | ⟨sample, hevent⟩
      · exact nomatch h.symm.trans hevent
      · exact nomatch h.symm.trans hevent
  | _ => cases h

/-! ## The account -/

theorem PollOnceAt.hand_length_le (poll : PollOnceAt) : poll.hand.length ≤ 1 := by
  cases poll with
  | walking _ => exact Nat.zero_le 1
  | returned => exact Nat.zero_le 1
  | _ => exact Nat.le_refl 1

theorem DrainOnceAt.hand_length_le (drain : DrainOnceAt) : drain.hand.length ≤ 1 := by
  cases drain with
  | popped _ => exact Nat.le_refl 1
  | _ => exact Nat.zero_le 1

/-- What the poll loop owes its samples, at the end of one run. -/
structure Conserves (map : List RegisterMapping) (turns : List Turn) : Prop where
  /-- The counters count, in their 64-bit arithmetic. -/
  successfulReads : (loopAfter map turns).pipeline.successfulReads =
    BitVec.ofNat 64 (ledgerBy map turns).reads.length
  failedReads : (loopAfter map turns).pipeline.failedReads =
    BitVec.ofNat 64 (ledgerBy map turns).failed.length
  droppedSamples : (loopAfter map turns).pipeline.droppedSamples =
    BitVec.ofNat 64 (ledgerBy map turns).dropped.length
  /-- Each successful read is dispatched, dropped, queued or in a thread's hand. -/
  conserved : (ledgerBy map turns).reads.length =
    (ledgerBy map turns).dispatched.length + (ledgerBy map turns).dropped.length +
      (loopAfter map turns).pipeline.queue.queue.contents.length +
      ((loopAfter map turns).pipeline.poll.hand.length +
        (loopAfter map turns).pipeline.drain.hand.length)
  /-- The same of the counters themselves. -/
  counted : (loopAfter map turns).pipeline.successfulReads =
    BitVec.ofNat 64 (ledgerBy map turns).dispatched.length +
      (loopAfter map turns).pipeline.droppedSamples +
      (loopAfter map turns).pipeline.queue.queue.size +
      BitVec.ofNat 64 ((loopAfter map turns).pipeline.poll.hand.length +
        (loopAfter map turns).pipeline.drain.hand.length)
  /-- The thread that hands a sample over hands one over at a time. -/
  hands : (loopAfter map turns).pipeline.poll.hand.length ≤ 1 ∧
    (loopAfter map turns).pipeline.drain.hand.length ≤ 1
  /-- The reads that are not dropped are dispatched in the order in which they were made. -/
  order : (ledgerBy map turns).dispatched ++ (loopAfter map turns).pipeline.drain.hand ++
    (loopAfter map turns).pipeline.queue.queue.contents ++
    (loopAfter map turns).pipeline.poll.hand = (ledgerBy map turns).kept
  /-- A sample is read from the register of its own mapping. -/
  own : ∀ turn sample, ((loopAfter map turns).step turn).1 = .read sample →
    sample.mapping ∈ map ∧ ∃ reader more, turn = .poll reader ∧
      reader sample.mapping.request = .ok (sample.value :: more)
  /-- What is dropped is what has been read last. -/
  last : ∀ turn sample, ((loopAfter map turns).step turn).1 = .dropped sample →
    (ledgerBy map turns).reads.getLast? = some sample
  /-- Each drop follows a refused push, and a push is refused only by a full queue. -/
  refused : (ledgerBy map turns).dropped <+: (ledgerBy map turns).refused
  full : ∀ turn sample, ((loopAfter map turns).step turn).1 = .refused sample →
    (loopAfter map turns).pipeline.queue.queue.full = true
  /-- When `stop` returns, nothing is left in the queue or in hand. -/
  stopped : ∀ turn, ((loopAfter map turns).step turn).1 = .stopped →
    ((loopAfter map turns).step turn).2.pipeline.queue.queue.contents = [] ∧
      (ledgerBy map turns).dispatched = (ledgerBy map turns).kept
  /-- It stays so until the loop is started again. -/
  idle : (loopAfter map turns).caller = .idle → (loopAfter map turns).thread.joinable = false →
    (loopAfter map turns).pipeline.queue.queue.contents = []

/-- No sample is lost, counted twice or dispatched under another mapping. -/
theorem conserves_samples (map : List RegisterMapping) (turns : List Turn) :
    Conserves map turns := by
  have hkeeps := keeps_run map turns
  obtain ⟨⟨pushed, popped, hflow⟩, hphases⟩ := hkeeps
  have hconserved := hflow.conserved
  refine ⟨hflow.successfulReads, hflow.failedReads, hflow.droppedSamples, hconserved, ?_,
    ⟨PollOnceAt.hand_length_le _, DrainOnceAt.hand_length_le _⟩, hflow.order,
    ?_, ?_, ?_, ?_, ?_, ?_⟩
  · rw [hflow.successfulReads, hflow.droppedSamples, Core.SpscQueue.size_eq, hconserved,
      BitVec.ofNat_add, BitVec.ofNat_add, BitVec.ofNat_add]
  · intro turn sample hevent
    obtain ⟨reader, hturn, hread⟩ := step_event hevent (fun he => nomatch he)
      (fun _ he => nomatch he) (fun he => nomatch he)
    obtain ⟨hmem, more, hok⟩ := pollOnce_read hread
    exact ⟨hflow.rest _ hmem, reader, more, hturn, hok⟩
  · intro turn sample hevent
    obtain ⟨reader, -, hdrop⟩ := step_event hevent (fun he => nomatch he)
      (fun _ he => nomatch he) (fun he => nomatch he)
    exact hflow.last sample (pollOnce_dropped hdrop)
  · exact ⟨_, hflow.refused.symm⟩
  · intro turn sample hevent
    obtain ⟨reader, -, hrefused⟩ := step_event hevent (fun he => nomatch he)
      (fun _ he => nomatch he) (fun he => nomatch he)
    obtain ⟨item, hrejected⟩ := pollOnce_refused hrefused
    exact hflow.fifo.full (hflow.fifo.full_of_rejected hrejected)
  · intro turn hevent
    obtain ⟨hafter, hcaller, hreturned⟩ := step_stopped hevent
    have hok := hphases.caller
    rw [hcaller] at hok
    have hempty := Core.SpscQueue.contents_of_eq (hok.2.2 hreturned)
    have hpoll := hphases.poll_of_thread (by rw [hok.1]; simp)
    have horder := hflow.order
    rw [hempty, hpoll, hreturned] at horder
    simp only [DrainOnceAt.hand, PollOnceAt.hand, List.append_nil] at horder
    rw [hafter]
    exact ⟨hempty, horder⟩
  · intro hcaller hjoinable
    have hstate : (loopAfter map turns).thread.state = .none :=
      not_not.mp fun hsome => Bool.false_ne_true (hjoinable.symm.trans ((joinable_iff _).mpr hsome))
    have hok := hphases.caller
    rw [hcaller] at hok
    rcases hok with ⟨-, -, hdrained⟩ | ⟨hsome, -⟩
    · exact Core.SpscQueue.contents_of_eq hdrained
    · exact absurd hstate hsome

end Modbus
