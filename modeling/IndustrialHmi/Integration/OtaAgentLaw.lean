import IndustrialHmi.Integration.OtaAgentThread

/-!
# What the OTA agent does in every run

What threads share is in `Launched`: who holds the lock, how far `start` has got, and that a run
which is stopped has no thread that goes on.  `Late` is about a `stop` that begins once a `start`
has returned.  When it returns the agent is quiet, and it stays so, if that `stop` did not look at
`running` before it was set (`LooksInTime`).

It can: a second `start` returns at once, also while the first has latched `started` and not yet set
`running`, and then the law does not hold (`overtaken`).
-/

namespace OtaAgent

open Ota Flash

/-! ## What threads share -/

/-- `start` holds the lock. -/
def Launch.Holds (l : Launch) : Prop := l = .locked ∨ l = .creating ∨ l = .leaving

/-- `start` has set `running`. -/
def Launch.Stored (l : Launch) : Prop := l ≠ .unlatched ∧ l ≠ .latched

/-- No thread goes on: it is not there, it is joined, or the session is terminal. -/
def Impl.Halted (s : Impl) : Prop := s.agent = .off ∨ s.agent = .joined ∨ s.session.Terminal

/-- A `stop` has cleared `running` and waits for the thread. -/
def Mutex.Ends (m : Mutex) : Prop := ∃ late, m = .stop .stopping late ∨ m = .stop .joining late

/-- Nothing will be sent any more. -/
def Impl.Quiet (s : Impl) : Prop :=
  s.session.Terminal ∨
    s.launch.Stored ∧ s.running = false ∧ (s.agent = .off ∨ s.agent = .joined)

/-- How the flags, the lock and the threads fit together. -/
structure Launched (s : Impl) : Prop where
  lock : s.stopMutex = .start ↔ s.launch.Holds
  creating : s.launch = .creating → s.running = true
  made : s.agent ≠ .off → s.launch = .leaving ∨ s.launch = .returned
  ended : s.launch.Stored → s.running = false → s.Halted ∨ s.stopMutex.Ends
  running : s.running = true → s.launch.Stored
  ends : s.stopMutex.Ends → s.launch.Stored ∧ s.running = false
  called : s.launch ≠ .unlatched → .startCalled ∈ s.log
  starting : ∀ t, s.callers t = .starting → .startCalled ∈ s.log
  returned : .startReturned ∈ s.log → s.launch ≠ .unlatched
  inside : s.callers .agent ≠ .outside → s.agent = .calling
  ending : ∀ t late, s.callers t = .ending late → s.session.Terminal

/-- What holds of a `stop` that began when a `start` had returned. -/
structure Late (s : Impl) : Prop where
  stopping : ∀ t destroys, s.callers t = .stopping true destroys → s.launch ≠ .unlatched
  holding : ∀ phase, s.stopMutex = .stop phase true → s.launch ≠ .unlatched
  leaving : s.stopMutex = .stop .leaving true → s.Quiet
  quiet : .stopReturned true ∈ s.log → s.Quiet

/-- What a step of the agent's thread leaves to the others. -/
structure Worked (s s' : Impl) : Prop where
  running : s'.running = s.running
  launch : s'.launch = s.launch
  stopMutex : s'.stopMutex = s.stopMutex
  callers : s'.callers = s.callers
  off : s'.agent = .off ↔ s.agent = .off
  joined : s'.agent = .joined ↔ s.agent = .joined
  calling : s.agent = .calling → s.callers .agent ≠ .outside → s'.agent = .calling
  terminal : s.session.Terminal → s'.session.Terminal
  log : ∀ e, e.ofCaller = true → (e ∈ s'.log ↔ e ∈ s.log)

section

variable {s s' : Impl}

theorem Worked.refl : Worked s s :=
  ⟨rfl, rfl, rfl, rfl, Iff.rfl, Iff.rfl, fun h _ => h, id, fun _ _ => Iff.rfl⟩

/-- The agent's thread moves on, and may add to the log. -/
theorem Worked.moves (entries : List Entry) (hentries : ∀ e ∈ entries, e.ofCaller = false)
    (hshared : (s'.running, s'.launch, s'.stopMutex, s'.callers, s'.log) =
      (s.running, s.launch, s.stopMutex, s.callers, s.log ++ entries))
    (hfrom : s.agent ≠ .off ∧ s.agent ≠ .joined) (hto : s'.agent ≠ .off ∧ s'.agent ≠ .joined)
    (hcalling : s.agent = .calling → s.callers .agent ≠ .outside → s'.agent = .calling)
    (hterminal : s.session.Terminal → s'.session.Terminal) : Worked s s' := by
  simp only [Prod.mk.injEq] at hshared
  obtain ⟨hrunning, hlaunch, hmutex, hcallers, hlog⟩ := hshared
  refine ⟨hrunning, hlaunch, hmutex, hcallers, iff_of_false hto.1 hfrom.1,
    iff_of_false hto.2 hfrom.2, hcalling, hterminal, fun e he => ?_⟩
  rw [hlog, List.mem_append]
  refine or_iff_left fun hmem => ?_
  cases he.symm.trans (hentries e hmem)

/-- A step outside the handlers. -/
theorem Worked.goes (hfrom : s.agent ≠ .off ∧ s.agent ≠ .joined ∧ s.agent ≠ .calling)
    {place : AgentAt} (hto : place ≠ .off ∧ place ≠ .joined) (context : IoContext Handler) :
    Worked s { s with context := context, agent := place } :=
  .moves [] (List.forall_mem_nil _) (by rw [List.append_nil]) ⟨hfrom.1, hfrom.2.1⟩ hto
    (fun hcalling => absurd hcalling hfrom.2.2) id

theorem poll_worked (hagent : s.agent = .polling) (turn : Impl.Turn) : Worked s (s.poll turn) := by
  have hfrom : s.agent ≠ .off ∧ s.agent ≠ .joined ∧ s.agent ≠ .calling := by simp [hagent]
  unfold Impl.poll
  split
  · exact .goes hfrom (by simp) s.context
  · split
    · exact .goes hfrom (by simp) s.context.stop
    · split
      · exact .refl
      · exact .goes hfrom (by split <;> simp) (s.context.take turn.pick)

theorem fireDoneIfTerminal_worked {handler : Handler} (hagent : s.agent = .firing handler) :
    Worked s (s.fireDoneIfTerminal handler) := by
  have hfrom : s.agent ≠ .off ∧ s.agent ≠ .joined := by simp [hagent]
  have hcalling : s.agent ≠ .calling := by simp [hagent]
  unfold Impl.fireDoneIfTerminal
  split
  · split
    · exact .goes ⟨hfrom.1, hfrom.2, hcalling⟩ (by simp) s.context
    · split
      · exact .moves [.done s.progress] (by simp [Entry.ofCaller]) rfl hfrom
          (by simp [Impl.record]) (fun hc => absurd hc hcalling) id
      · exact .moves [] (List.forall_mem_nil _) (by rw [List.append_nil]) hfrom (by simp)
          (fun hc => absurd hc hcalling) id
  · exact .goes ⟨hfrom.1, hfrom.2, hcalling⟩ (by split <;> simp) s.context

theorem turn_worked (s : Impl) (turn : Impl.Turn) : Worked s (s.turn turn) := by
  unfold Impl.turn
  split
  · exact .refl
  · exact .refl
  · exact .refl
  · next hagent => exact .goes (by simp [hagent]) (by simp) s.context
  · next hagent => exact poll_worked hagent turn
  · next hagent => exact .goes (by simp [hagent]) (by split <;> simp) s.context
  · next handler hagent =>
      exact .moves [.handled (handler.op turn.now)] (by simp [Entry.ofCaller]) rfl
        (by simp [hagent]) (by simp [Impl.handle, Impl.record]) (fun hc => by simp [hagent] at hc)
        fun hterminal => by
          simpa [Impl.handle, Impl.record, hterminal.apply] using hterminal
  · next handler bytes hagent =>
      unfold Impl.doSend
      split
      · exact .goes (by simp [hagent]) (by simp) s.context
      · exact .moves [.sent bytes (s.send && turn.ok)] (by simp [Entry.ofCaller]) rfl
          (by simp [hagent]) (by simp [Impl.record]) (fun hc => by simp [hagent] at hc) id
  · next hagent =>
      exact .moves [.published (OtaProgress.of s.session s.transportFailed)]
        (by simp [Entry.ofCaller]) rfl (by simp [hagent])
        (by simp [Impl.publishProgress, Impl.record]) (fun hc => by simp [hagent] at hc) id
  · next hagent => exact fireDoneIfTerminal_worked hagent
  · next hagent =>
      split
      · next houtside =>
          exact .moves [] (List.forall_mem_nil _) (by rw [List.append_nil]) (by simp [hagent])
            (by simp) (fun _ hinside => absurd houtside hinside) id
      · exact .refl
  · next hagent => exact .goes (by simp [hagent]) (by simp) _

theorem Worked.halted (h : Worked s s') (hs : s.Halted) : s'.Halted := by
  rcases hs with hoff | hjoined | hterminal
  · exact .inl (h.off.mpr hoff)
  · exact .inr (.inl (h.joined.mpr hjoined))
  · exact .inr (.inr (h.terminal hterminal))

theorem Worked.quiet (h : Worked s s') (hs : s.Quiet) : s'.Quiet := by
  rcases hs with hterminal | ⟨hstored, hrunning, hagent⟩
  · exact .inl (h.terminal hterminal)
  · exact .inr ⟨h.launch ▸ hstored, h.running.trans hrunning, hagent.imp h.off.mpr h.joined.mpr⟩

theorem Launched.worked (h : Launched s) (hworked : Worked s s') : Launched s' where
  lock := by rw [hworked.stopMutex, hworked.launch]; exact h.lock
  creating := by rw [hworked.launch, hworked.running]; exact h.creating
  made hagent := by
    rw [hworked.launch]
    exact h.made fun hoff => hagent (hworked.off.mpr hoff)
  ended hstored hrunning := by
    rw [hworked.launch] at hstored
    rw [hworked.running] at hrunning
    rw [hworked.stopMutex]
    exact (h.ended hstored hrunning).imp hworked.halted id
  running := by rw [hworked.running, hworked.launch]; exact h.running
  ends := by rw [hworked.stopMutex, hworked.launch, hworked.running]; exact h.ends
  called := by rw [hworked.launch, hworked.log _ rfl]; exact h.called
  starting := by rw [hworked.callers, hworked.log _ rfl]; exact h.starting
  returned := by rw [hworked.launch, hworked.log _ rfl]; exact h.returned
  inside hinside := by
    rw [hworked.callers] at hinside
    exact hworked.calling (h.inside hinside) hinside
  ending t late hending := by
    rw [hworked.callers] at hending
    exact hworked.terminal (h.ending t late hending)

theorem Late.worked (h : Late s) (hworked : Worked s s') : Late s' where
  stopping := by rw [hworked.callers, hworked.launch]; exact h.stopping
  holding := by rw [hworked.stopMutex, hworked.launch]; exact h.holding
  leaving hleaving := by
    rw [hworked.stopMutex] at hleaving
    exact hworked.quiet (h.leaving hleaving)
  quiet hmem := hworked.quiet (h.quiet ((hworked.log _ rfl).mp hmem))

end

/-! ## Steps of the other threads -/

/-- What a step of `start`, `stop`, the sink or the timer does.  Under `inTime`, a `stop` that began
once a `start` had returned does not look at `running` before it is set. -/
inductive Moved (s : Impl) (inTime : Prop) : Impl → Prop where
  | context (io : IoContext Handler) : Moved s inTime { s with context := io }
  | startCalled {t} : s.callers t = .outside → (t = .agent → s.agent = .calling) →
      Moved s inTime ((s.moved t .starting).record .startCalled)
  | stopCalled {t} (destroys : Bool) : s.callers t = .outside →
      (t = .agent → s.agent = .calling) →
      Moved s inTime (s.moved t (.stopping (.startReturned ∈ s.log) destroys))
  | startedAgain {t} : s.callers t = .starting → s.launch ≠ .unlatched →
      Moved s inTime ((s.moved t .outside).record .startReturned)
  | latched {t} : s.callers t = .starting → s.launch = .unlatched →
      Moved s inTime ({ s with launch := .latched }.moved t .launching)
  | stored : s.launch = .latched → Moved s inTime { s with running := true, launch := .stored }
  | posted (io : IoContext Handler) : s.launch = .stored →
      Moved s inTime { s with context := io, launch := .posted }
  | locked : s.launch = .posted → s.stopMutex = .free →
      Moved s inTime { s with stopMutex := .start, launch := .locked }
  | checked : s.launch = .locked →
      Moved s inTime { s with launch := if s.running then .creating else .leaving }
  | created : s.launch = .creating → Moved s inTime { s with agent := .created, launch := .leaving }
  | returned {t} : s.callers t = .launching → s.launch = .leaving →
      Moved s inTime (({ s with stopMutex := .free, launch := .returned }.moved t .outside).record
        .startReturned)
  | ending {late destroys} : s.callers .agent = .stopping late destroys →
      Moved s inTime ({ s with running := false }.moved .agent (.ending late))
  | ended {t late} (io : IoContext Handler) : s.callers t = .ending late →
      Moved s inTime (({ s with context := io }.moved t .outside).record (.stopReturned late))
  | stopLocked {t late destroys} : s.callers t = .stopping late destroys → t ≠ .agent →
      s.stopMutex = .free →
      Moved s inTime ({ s with stopMutex := .stop .exchanging late }.moved t (.inStop destroys))
  | exchanged {late} : s.stopMutex = .stop .exchanging late → s.running = true →
      Moved s inTime { s with running := false, stopMutex := .stop .stopping late }
  | exchangedNothing {late} : s.stopMutex = .stop .exchanging late → s.running = false →
      (inTime → late = true → s.launch ≠ .latched) →
      Moved s inTime { s with stopMutex := .stop .leaving late }
  | stopped {late} (io : IoContext Handler) : s.stopMutex = .stop .stopping late →
      Moved s inTime { s with context := io, stopMutex := .stop .joining late }
  | joinedNothing {late} : s.stopMutex = .stop .joining late →
      s.agent = .off ∨ s.agent = .joined →
      Moved s inTime { s with stopMutex := .stop .leaving late }
  | joined {late} : s.stopMutex = .stop .joining late → s.agent = .over →
      Moved s inTime { s with agent := .joined, stopMutex := .stop .leaving late }
  | stopReturned {t late} (released : Bool) : s.callers t ≠ .outside →
      s.stopMutex = .stop .leaving late →
      Moved s inTime (({ s with stopMutex := .free, released := released }.moved t .outside).record
        (.stopReturned late))

theorem Moved.stays {s : Impl} {inTime : Prop} : Moved s inTime s := .context s.context

theorem launchStep_cases {s : Impl} {t : Thread} {inTime : Prop} (ht : s.callers t = .launching) :
    Moved s inTime (s.launchStep t) := by
  unfold Impl.launchStep
  split
  · exact .stays
  · next hlaunch => exact .stored hlaunch
  · next hlaunch => exact .posted _ hlaunch
  · next hlaunch =>
      split
      · next hfree => exact .locked hlaunch hfree
      · exact .stays
  · next hlaunch => exact .checked hlaunch
  · next hlaunch => exact .created hlaunch
  · next hlaunch => exact .returned ht hlaunch
  · exact .stays

theorem stopStep_cases {s : Impl} {t : Thread} {destroys : Bool} {inTime : Prop}
    (ht : s.callers t = .inStop destroys)
    (hlooks : inTime → s.stopMutex = .stop .exchanging true → s.launch ≠ .latched) :
    Moved s inTime (s.stopStep t destroys) := by
  unfold Impl.stopStep
  split
  · next hmutex =>
      split
      · next hrunning => exact .exchanged hmutex hrunning
      · next hrunning =>
          refine .exchangedNothing hmutex (Bool.eq_false_iff.mpr hrunning) fun hin hlate => ?_
          exact hlooks hin (hlate ▸ hmutex)
  · next hmutex => exact .stopped _ hmutex
  · next hmutex =>
      split
      · next hagent => exact .joinedNothing hmutex hagent
      · split
        · next hover => exact .joined hmutex hover
        · exact .stays
  · next hmutex => exact .stopReturned _ (by simp [ht]) hmutex
  · exact .stays
  · exact .stays

/-- A `stop` that began once a `start` had returned does not look at `running` while a `start` has
latched `started` and not yet set `running`. -/
def LooksInTime (s : Impl) : Impl.Event → Prop
  | .advance t => ∀ destroys, s.callers t = .inStop destroys →
      s.stopMutex = .stop .exchanging true → s.launch ≠ .latched
  | _ => True

instance (s : Impl) (event : Impl.Event) : Decidable (LooksInTime s event) := by
  unfold LooksInTime
  split <;> infer_instance

theorem advance_cases (s : Impl) (t : Thread) :
    Moved s (LooksInTime s (.advance t)) (s.advance t) := by
  unfold Impl.advance
  split
  · exact .stays
  · next ht =>
      split
      · next hstarted => exact .startedAgain ht (of_decide_eq_true hstarted)
      · next hstarted => exact .latched ht (by simpa [Impl.started] using hstarted)
  · next ht => exact launchStep_cases ht
  · next ht =>
      split
      · next hagent =>
          subst hagent
          exact .ending ht
      · next hother =>
          split
          · next hfree => exact .stopLocked ht hother hfree
          · exact .stays
  · next ht => exact .ended _ ht
  · next ht => exact stopStep_cases ht fun hlooks => hlooks _ ht

theorem call_cases (s : Impl) (t : Thread) (c : Impl.Call) :
    Moved s (LooksInTime s (.call t c)) (s.call t c) := by
  unfold Impl.call
  split
  · next hcaller =>
      obtain ⟨houtside, hagent⟩ := hcaller
      cases c with
      | start => exact .startCalled houtside hagent
      | stop => exact .stopCalled false houtside hagent
      | destroy =>
          show Moved s _ (if t = .agent then s else _)
          split
          · exact .stays
          · exact .stopCalled true houtside hagent
  · exact .stays

section

variable {s s' : Impl} {inTime : Prop}

/-- There is no thread before `start` has made it. -/
theorem Launched.off_of_creating (h : Launched s) (hlaunch : s.launch = .creating) :
    s.agent = .off := by
  by_contra hmade
  rcases h.made hmade with hpast | hpast
  · cases hlaunch.symm.trans hpast
  · cases hlaunch.symm.trans hpast

/-- The check of `running` makes the thread or leaves. -/
theorem stored_of_check (running : Bool) :
    (if running then Launch.creating else .leaving).Stored := by
  cases running
  · exact ⟨by simp, by simp⟩
  · exact ⟨by simp, by simp⟩

/-- Nothing the agent's thread writes in a handler. -/
theorem Moved.apart (hmoved : Moved s inTime s') (h : Launched s) : Apart s s' := by
  cases hmoved with
  | startCalled | startedAgain | returned | ended | stopReturned =>
      exact ⟨rfl, rfl, rfl, rfl, rfl, .inl rfl, .inr ⟨_, rfl, rfl⟩⟩
  | created hlaunch =>
      have hoff := h.off_of_creating hlaunch
      exact ⟨rfl, rfl, rfl, rfl, rfl, .inr ⟨.inl (by rw [hoff]; trivial), trivial⟩, .inl rfl⟩
  | joined _ hover =>
      exact ⟨rfl, rfl, rfl, rfl, rfl, .inr ⟨.inl (by rw [hover]; trivial), trivial⟩, .inl rfl⟩
  | _ => exact ⟨rfl, rfl, rfl, rfl, rfl, .inl rfl, .inl rfl⟩

/-! ### The lock and the thread -/

theorem Moved.keeps_lock (hmoved : Moved s inTime s') (h : Launched s) :
    s'.stopMutex = .start ↔ s'.launch.Holds := by
  have hlock := h.lock
  unfold Launch.Holds at hlock ⊢
  cases hmoved with
  | checked hlaunch =>
      have hheld : s.stopMutex = .start := hlock.mpr (.inl hlaunch)
      refine iff_of_true hheld (.inr ?_)
      cases s.running
      · exact .inr rfl
      · exact .inl rfl
  | _ => simp_all [Impl.moved, Impl.record]

theorem Moved.keeps_creating (hmoved : Moved s inTime s') (h : Launched s)
    (hlaunch' : s'.launch = .creating) : s'.running = true := by
  have hcreating := h.creating
  cases hmoved with
  | checked hlaunch => simpa using hlaunch'
  | exchanged hmutex _ =>
      -- the lock is with `start`
      cases hmutex.symm.trans (h.lock.mpr (.inr (.inl hlaunch')))
  | ending hcaller =>
      -- the thread is there already
      have hcalling : s.agent = .calling := h.inside (by simp [hcaller])
      cases hcalling.symm.trans (h.off_of_creating hlaunch')
  | _ => simp_all [Impl.moved, Impl.record]

theorem Moved.keeps_made (hmoved : Moved s inTime s') (h : Launched s) (hagent : s'.agent ≠ .off) :
    s'.launch = .leaving ∨ s'.launch = .returned := by
  have hmade := h.made
  cases hmoved with
  | created hlaunch => exact .inl rfl
  | joined _ hover => exact hmade (by simp [hover])
  | _ => simp_all [Impl.moved, Impl.record]

theorem Moved.keeps_ended (hmoved : Moved s inTime s') (h : Launched s)
    (hcallback : s.agent = .calling → s.session.Terminal) (hstored : s'.launch.Stored)
    (hrunning : s'.running = false) : s'.Halted ∨ s'.stopMutex.Ends := by
  have hended := h.ended
  unfold Launch.Stored at hstored hended
  unfold Impl.Halted Mutex.Ends at hended ⊢
  cases hmoved with
  | created hlaunch => cases (h.creating hlaunch).symm.trans hrunning
  | ending hcaller => exact .inl (.inr (.inr (hcallback (h.inside (by simp [hcaller])))))
  | returned _ hlaunch =>
      -- the lock was with `start`, so no `stop` waits
      have hheld : s.stopMutex = .start := h.lock.mpr (.inr (.inr hlaunch))
      exact .inl ((hended (by simp [hlaunch]) hrunning).resolve_right (by simp [hheld]))
  | joinedNothing _ hagent => exact .inl (hagent.imp_right .inl)
  | _ => simp_all [Impl.moved, Impl.record]

theorem Moved.keeps_stored (hmoved : Moved s inTime s') (hstored : s.launch.Stored) :
    s'.launch.Stored := by
  cases hmoved with
  | checked => exact stored_of_check s.running
  | _ => simp_all [Launch.Stored, Impl.moved, Impl.record]

theorem Moved.keeps_running (hmoved : Moved s inTime s') (h : Launched s)
    (hrunning' : s'.running = true) : s'.launch.Stored := by
  have hwas : s.running = true → s'.launch.Stored := fun hrunning =>
    hmoved.keeps_stored (h.running hrunning)
  cases hmoved with
  | stored => exact ⟨by simp, by simp⟩
  | ending | exchanged => cases hrunning'
  | _ => exact hwas hrunning'

/-- Once set, `running` is not set again. -/
theorem Moved.keeps_stopped (hmoved : Moved s inTime s') (hstored : s.launch.Stored)
    (hrunning : s.running = false) : s'.running = false := by
  cases hmoved with
  | stored hlaunch => exact absurd hlaunch hstored.2
  | ending | exchanged => rfl
  | _ => exact hrunning

theorem Moved.keeps_ends (hmoved : Moved s inTime s') (h : Launched s)
    (hends' : s'.stopMutex.Ends) : s'.launch.Stored ∧ s'.running = false := by
  have hstays : s.stopMutex.Ends → s'.launch.Stored ∧ s'.running = false := fun hends =>
    have hended := h.ends hends
    ⟨hmoved.keeps_stored hended.1, hmoved.keeps_stopped hended.1 hended.2⟩
  cases hmoved with
  | exchanged _ hrunning => exact ⟨h.running hrunning, rfl⟩
  | stopped _ hmutex => exact hstays ⟨_, .inl hmutex⟩
  | locked | returned | stopLocked | exchangedNothing | joinedNothing | joined | stopReturned =>
      simp [Mutex.Ends, Impl.moved, Impl.record] at hends'
  | _ => exact hstays hends'

/-! ### The callers -/

theorem of_moved {t u : Thread} {place place' : CallerAt}
    (h : (s.moved t place).callers u = place') (hne : place ≠ place') : s.callers u = place' := by
  have h : Function.update s.callers t place u = place' := h
  rw [Function.update_apply] at h
  split at h
  · exact absurd h hne
  · exact h

theorem Moved.keeps_called (hmoved : Moved s inTime s') (h : Launched s)
    (hlaunch' : s'.launch ≠ .unlatched) : .startCalled ∈ s'.log := by
  have hcalled := h.called
  cases hmoved with
  | latched hcaller _ => exact h.starting _ hcaller
  | startedAgain _ hlaunch => exact List.mem_append_left _ (hcalled hlaunch)
  | _ => simp_all [Impl.moved, Impl.record]

theorem Moved.keeps_starting (hmoved : Moved s inTime s') (h : Launched s) {t : Thread}
    (hcaller' : s'.callers t = .starting) : .startCalled ∈ s'.log := by
  have hmoves : ∀ {u place}, (s.moved u place).callers t = .starting → place ≠ .starting →
      .startCalled ∈ s.log := fun hmoved hne => h.starting t (of_moved hmoved hne)
  cases hmoved with
  | startCalled => exact List.mem_append_right _ List.mem_cons_self
  | stopCalled => exact hmoves hcaller' (by simp)
  | latched => exact hmoves hcaller' (by simp)
  | ending => exact hmoves hcaller' (by simp)
  | stopLocked => exact hmoves hcaller' (by simp)
  | startedAgain => exact List.mem_append_left _ (hmoves hcaller' (by simp))
  | returned => exact List.mem_append_left _ (hmoves hcaller' (by simp))
  | ended => exact List.mem_append_left _ (hmoves hcaller' (by simp))
  | stopReturned => exact List.mem_append_left _ (hmoves hcaller' (by simp))
  | _ => exact h.starting t hcaller'

theorem Moved.keeps_returned (hmoved : Moved s inTime s') (h : Launched s)
    (hmem : .startReturned ∈ s'.log) : s'.launch ≠ .unlatched := by
  have hreturned := h.returned
  cases hmoved with
  | startedAgain _ hlaunch => exact hlaunch
  | checked => exact (stored_of_check s.running).1
  | _ => simp_all [Impl.moved, Impl.record]

/-- The agent's thread is inside `start` or `stop` only from the callback. -/
theorem inside_moved (h : Launched s) {t : Thread} {place : CallerAt}
    (ht : t = .agent → s.agent = .calling)
    (hinside : (s.moved t place).callers .agent ≠ .outside) : s.agent = .calling := by
  have hinside : Function.update s.callers t place .agent ≠ .outside := hinside
  rw [Function.update_apply] at hinside
  split at hinside
  · next hagent => exact ht hagent.symm
  · exact h.inside hinside

theorem Moved.keeps_inside (hmoved : Moved s inTime s') (h : Launched s)
    (hinside' : s'.callers .agent ≠ .outside) : s'.agent = .calling := by
  have hwas : ∀ {t}, s.callers t ≠ .outside → t = .agent → s.agent = .calling :=
    fun hcaller ht => h.inside (ht ▸ hcaller)
  cases hmoved with
  | created hlaunch => cases (h.inside hinside').symm.trans (h.off_of_creating hlaunch)
  | joined _ hover => cases hover.symm.trans (h.inside hinside')
  | startCalled _ hagent => exact inside_moved (s := s) h hagent hinside'
  | stopCalled _ _ hagent => exact inside_moved (s := s) h hagent hinside'
  | startedAgain hcaller | latched hcaller | returned hcaller | ending hcaller | ended _ hcaller
  | stopLocked hcaller => exact inside_moved (s := s) h (hwas (by simp [hcaller])) hinside'
  | stopReturned _ hcaller => exact inside_moved (s := s) h (hwas hcaller) hinside'
  | _ => exact h.inside hinside'

theorem Moved.keeps_ending (hmoved : Moved s inTime s') (h : Launched s)
    (hcallback : s.agent = .calling → s.session.Terminal) {t : Thread} {late : Bool}
    (hcaller' : s'.callers t = .ending late) : s'.session.Terminal := by
  cases hmoved with
  | ending hcaller => exact hcallback (h.inside (by simp [hcaller]))
  | startCalled | stopCalled | startedAgain | latched | returned | ended | stopLocked
  | stopReturned => exact h.ending t late (of_moved hcaller' (by simp))
  | _ => exact h.ending t late hcaller'

theorem Launched.moved (h : Launched s) (hcallback : s.agent = .calling → s.session.Terminal)
    (hmoved : Moved s inTime s') : Launched s' where
  lock := hmoved.keeps_lock h
  creating := hmoved.keeps_creating h
  made := hmoved.keeps_made h
  ended := hmoved.keeps_ended h hcallback
  running := hmoved.keeps_running h
  ends := hmoved.keeps_ends h
  called := hmoved.keeps_called h
  starting _ := hmoved.keeps_starting h
  returned := hmoved.keeps_returned h
  inside := hmoved.keeps_inside h
  ending _ _ := hmoved.keeps_ending h hcallback

/-! ### A late stop -/

theorem Moved.keeps_latched (hmoved : Moved s inTime s') (hlaunch : s.launch ≠ .unlatched) :
    s'.launch ≠ .unlatched := by
  cases hmoved with
  | checked => exact (stored_of_check s.running).1
  | _ => simp_all [Impl.moved, Impl.record]

theorem Moved.session (hmoved : Moved s inTime s') : s'.session = s.session := by
  cases hmoved <;> rfl

theorem Moved.quiet (hmoved : Moved s inTime s') (h : Launched s) (hquiet : s.Quiet) :
    s'.Quiet := by
  rcases hquiet with hterminal | ⟨hstored, hrunning, hagent⟩
  · exact .inl (hmoved.session ▸ hterminal)
  · refine .inr ⟨hmoved.keeps_stored hstored, hmoved.keeps_stopped hstored hrunning, ?_⟩
    cases hmoved with
    | created hlaunch => cases (h.creating hlaunch).symm.trans hrunning
    | joined => exact .inr rfl
    | _ => exact hagent

theorem Impl.Halted.quiet (h : s.Halted) (hstored : s.launch.Stored)
    (hrunning : s.running = false) : s.Quiet := by
  rcases h with hoff | hjoined | hterminal
  · exact .inr ⟨hstored, hrunning, .inl hoff⟩
  · exact .inr ⟨hstored, hrunning, .inr hjoined⟩
  · exact .inl hterminal

theorem Moved.keeps_stopping (hmoved : Moved s inTime s') (hlaunched : Launched s) (h : Late s)
    {t : Thread} {destroys : Bool} (hcaller' : s'.callers t = .stopping true destroys) :
    s'.launch ≠ .unlatched := by
  have hwas : ∀ {u place}, (s.moved u place).callers t = .stopping true destroys →
      place ≠ .stopping true destroys → s.launch ≠ .unlatched :=
    fun hmoved hne => h.stopping t destroys (of_moved hmoved hne)
  refine hmoved.keeps_latched ?_
  cases hmoved with
  | stopCalled =>
      by_cases hmem : .startReturned ∈ s.log
      · exact hlaunched.returned hmem
      · exact hwas hcaller' (by simp [hmem])
  | startCalled | startedAgain | latched | returned | ending | ended | stopLocked | stopReturned =>
      exact hwas hcaller' (by simp)
  | _ => exact h.stopping t destroys hcaller'

theorem Moved.keeps_holding (hmoved : Moved s inTime s') (h : Late s) {phase : Phase}
    (hmutex' : s'.stopMutex = .stop phase true) : s'.launch ≠ .unlatched := by
  refine hmoved.keeps_latched ?_
  cases hmoved with
  | stopLocked hcaller =>
      cases hmutex'
      exact h.stopping _ _ hcaller
  | exchanged hmutex | exchangedNothing hmutex | joinedNothing hmutex | joined hmutex =>
      cases hmutex'
      exact h.holding _ hmutex
  | stopped _ hmutex =>
      cases hmutex'
      exact h.holding _ hmutex
  | locked | returned | stopReturned => cases hmutex'
  | _ => exact h.holding phase hmutex'

/-- A `stop` leaves with the thread joined, or it finds that another has stopped the run. -/
theorem Moved.keeps_leaving (hmoved : Moved s inTime s') (hin : inTime) (hlaunched : Launched s)
    (h : Late s) (hmutex' : s'.stopMutex = .stop .leaving true) : s'.Quiet := by
  have hstays : s.stopMutex = .stop .leaving true → s'.Quiet :=
    fun hmutex => hmoved.quiet hlaunched (h.leaving hmutex)
  cases hmoved with
  | exchangedNothing hmutex hrunning hlooks =>
      cases hmutex'
      have hstored : s.launch.Stored := ⟨h.holding _ hmutex, hlooks hin rfl⟩
      have hhalted := (hlaunched.ended hstored hrunning).resolve_right
        (by simp [Mutex.Ends, hmutex])
      exact hhalted.quiet hstored hrunning
  | joinedNothing hmutex hagent =>
      obtain ⟨hstored, hrunning⟩ := hlaunched.ends ⟨_, .inr hmutex⟩
      exact .inr ⟨hstored, hrunning, hagent⟩
  | joined hmutex =>
      obtain ⟨hstored, hrunning⟩ := hlaunched.ends ⟨_, .inr hmutex⟩
      exact .inr ⟨hstored, hrunning, .inr rfl⟩
  | locked | returned | stopLocked | exchanged | stopped | stopReturned => cases hmutex'
  | _ => exact hstays hmutex'

theorem Moved.keeps_quiet (hmoved : Moved s inTime s') (hlaunched : Launched s) (h : Late s)
    (hmem' : .stopReturned true ∈ s'.log) : s'.Quiet := by
  have hstays : .stopReturned true ∈ s.log → s'.Quiet := fun hmem =>
    hmoved.quiet hlaunched (h.quiet hmem)
  have hnew : ∀ {e}, .stopReturned true ∈ s.log ++ [e] → (.stopReturned true = e → s'.Quiet) →
      s'.Quiet := fun hmem hlast =>
    (List.mem_append.mp hmem).elim hstays fun hlast' => hlast (List.mem_singleton.mp hlast')
  cases hmoved with
  | startCalled | startedAgain | returned => exact hnew hmem' fun heq => by cases heq
  | ended _ hcaller => exact .inl (hlaunched.ending _ _ hcaller)
  | stopReturned _ _ hmutex =>
      refine hnew hmem' fun heq => ?_
      cases heq
      exact h.leaving hmutex
  | _ => exact hstays hmem'

theorem Late.moved (h : Late s) (hlaunched : Launched s) (hmoved : Moved s inTime s')
    (hin : inTime) : Late s' where
  stopping _ _ := hmoved.keeps_stopping hlaunched h
  holding _ := hmoved.keeps_holding h
  leaving := hmoved.keeps_leaving hin hlaunched h
  quiet := hmoved.keeps_quiet hlaunched h

end

/-! ## Runs -/

/-- What holds of an agent for a session `s₀`, along a run in which every `stop` looks in time. -/
structure Inv (s₀ : OtaSession) (s : Impl) : Prop where
  confined : Confined s₀ s
  launched : Launched s
  late : Late s
  sending : Each (Sendable s₀) s.log

section

variable {s₀ : OtaSession} {s : Impl}

theorem Confined.callback (h : Confined s₀ s) (hagent : s.agent = .calling) :
    s.session.Terminal := by
  have hplaced := h.placed
  rwa [Impl.Placed, hagent] at hplaced

/-- The bytes that are sent are allowed. -/
theorem Inv.sendable (h : Inv s₀ s) {handler : Handler} {bytes : Bytes}
    (hagent : s.agent = .sending handler bytes) (hbytes : bytes ≠ []) (ok : Bool) :
    Sendable s₀ s.log (.sent bytes ok) := by
  have hopen : ¬ s.session.Terminal := by
    have hplaced := h.confined.placed
    rw [Impl.Placed, hagent] at hplaced
    exact mt hplaced hbytes
  intro _ _ heq
  refine ⟨?_, fun hstopped => ?_, h.confined.session ▸ hopen⟩
  · rcases h.launched.made (by simp [hagent]) with hlaunch | hlaunch
    · exact h.launched.called (by simp [hlaunch])
    · exact h.launched.called (by simp [hlaunch])
  · rcases h.late.quiet hstopped with hterminal | ⟨-, -, hoff | hjoined⟩
    · exact hopen hterminal
    · cases hagent.symm.trans hoff
    · cases hagent.symm.trans hjoined

theorem not_sent {before : List Entry} {e : Entry} (h : e.bytes = none) : Sendable s₀ before e := by
  rintro bytes ok rfl
  cases h

theorem Inv.sending_turn (h : Inv s₀ s) (turn : Impl.Turn) :
    Each (Sendable s₀) (s.turn turn).log := by
  have hsending := h.sending
  unfold Impl.turn
  split
  · exact hsending
  · exact hsending
  · exact hsending
  · exact hsending
  · unfold Impl.poll
    split
    · exact hsending
    · split
      · exact hsending
      · split <;> exact hsending
  · exact hsending
  · exact hsending.concat (not_sent rfl)
  · next hagent =>
      unfold Impl.doSend
      split
      · exact hsending
      · next hbytes => exact hsending.concat (h.sendable hagent hbytes _)
  · exact hsending.concat (not_sent rfl)
  · unfold Impl.fireDoneIfTerminal
    split
    · split
      · exact hsending
      · split
        · exact hsending.concat (not_sent rfl)
        · exact hsending
    · exact hsending
  · split <;> exact hsending
  · exact hsending

theorem Inv.turn (h : Inv s₀ s) (turn : Impl.Turn) : Inv s₀ (s.turn turn) where
  confined := h.confined.turn turn
  launched := h.launched.worked (turn_worked s turn)
  late := h.late.worked (turn_worked s turn)
  sending := h.sending_turn turn

theorem Inv.moved {s' : Impl} {inTime : Prop} (h : Inv s₀ s) (hmoved : Moved s inTime s')
    (hin : inTime) : Inv s₀ s' where
  confined := h.confined.apart (hmoved.apart h.launched)
  launched := h.launched.moved h.confined.callback hmoved
  late := h.late.moved h.launched hmoved hin
  sending := by
    rcases (hmoved.apart h.launched).log with hlog | ⟨e, hcaller, hlog⟩
    · rw [hlog]
      exact h.sending
    · rw [hlog]
      refine h.sending.concat (not_sent ?_)
      cases e <;> first | rfl | cases hcaller

theorem Inv.step (h : Inv s₀ s) (event : Impl.Event) (hin : LooksInTime s event) :
    Inv s₀ (s.step event) := by
  cases event with
  | call t c => exact h.moved (call_cases s t c) hin
  | advance t => exact h.moved (advance_cases s t) hin
  | frame frame expired =>
      show Inv s₀ (s.frameSink frame expired)
      unfold Impl.frameSink
      split
      · exact h
      · exact h.moved (show Moved s True _ from .context _) trivial
  | expire => exact h.moved (show Moved s True _ from .context _) trivial
  | turn turn => exact h.turn turn

theorem Inv.start (send onDone : Bool) (image : Bytes) (version : UInt32) (timing : Timing) :
    Inv (OtaSession.new image version timing) (Impl.make send onDone image version timing) where
  confined := {
    session := rfl
    bytes := rfl
    failed := rfl
    called := {
      unfired := fun _ => rfl
      fired := fun hfired => by cases hfired
      once := Nat.zero_le 1
      ended := fun _ hmem => by cases hmem }
    terminal := fun hterminal => absurd hterminal
      (OtaSession.not_terminal rfl (by simp [OtaSession.new, Impl.make])
        (by simp [OtaSession.new, Impl.make]))
    placed := trivial
    followed := fun _ _ _ hsplit => absurd hsplit (by simp [Impl.make]) }
  launched := {
    lock := by simp [Impl.make, Launch.Holds]
    creating := fun hlaunch => by cases hlaunch
    made := fun hagent => absurd rfl hagent
    ended := fun hstored => absurd rfl hstored.1
    running := fun hrunning => by cases hrunning
    ends := fun hends => by simp [Impl.make, Mutex.Ends] at hends
    called := fun hlaunch => absurd rfl hlaunch
    starting := fun _ hcaller => by cases hcaller
    returned := fun hmem => by cases hmem
    inside := fun hinside => absurd rfl hinside
    ending := fun _ _ hcaller => by cases hcaller }
  late := {
    stopping := fun _ _ hcaller => by cases hcaller
    holding := fun _ hmutex => by cases hmutex
    leaving := fun hmutex => by cases hmutex
    quiet := fun hmem => by cases hmem }
  sending := each_nil

/-- How many steps lie at least before the next call of the session. -/
def AgentAt.ahead : AgentAt → Nat
  | .sending _ _ | .publishing _ | .firing _ => 0
  | .checked _ => 1
  | .entered _ => 2
  | .polling => 3
  | _ => 4

theorem AgentAt.Handling.ahead {a : AgentAt} (h : a.Handling) : a.ahead = 0 := by
  cases a <;> first | rfl | exact h.elim

theorem turn_ahead (s : Impl) (turn : Impl.Turn) :
    s.agent.ahead ≤ (s.turn turn).agent.ahead + 1 := by
  unfold Impl.turn
  split
  · exact Nat.le_succ _
  · exact Nat.le_succ _
  · exact Nat.le_succ _
  · next hagent => simp [hagent, AgentAt.ahead]
  · next hagent =>
      unfold Impl.poll
      split
      · simp [hagent, AgentAt.ahead]
      · split
        · simp [hagent, AgentAt.ahead]
        · split
          · exact Nat.le_succ _
          · show s.agent.ahead ≤ (if _ then AgentAt.polling else .entered _).ahead + 1
            split <;> simp [hagent, AgentAt.ahead]
  · next hagent =>
      show s.agent.ahead ≤ (if _ then AgentAt.checked _ else .polling).ahead + 1
      split <;> simp [hagent, AgentAt.ahead]
  · next hagent => simp [hagent, AgentAt.ahead]
  · next hagent => simp [hagent, AgentAt.ahead]
  · next hagent => simp [hagent, AgentAt.ahead]
  · next hagent => simp [hagent, AgentAt.ahead]
  · next hagent => split <;> simp [hagent, AgentAt.ahead]
  · next hagent => simp [hagent, AgentAt.ahead, Impl.scheduleTick]

/-- A handler that has seen whether the update is over is far from the next call. -/
theorem firing_ahead {handler : Handler} (hagent : s.agent = .firing handler) (turn : Impl.Turn) :
    3 ≤ (s.turn turn).agent.ahead := by
  simp only [Impl.turn, hagent, Impl.fireDoneIfTerminal]
  split
  · split
    · exact Nat.le_refl 3
    · split
      · exact Nat.le_succ 3
      · exact Nat.le_refl 3
  · show 3 ≤ (if handler.rearms then AgentAt.rearming else .polling).ahead
    split
    · exact Nat.le_succ 3
    · exact Nat.le_refl 3

theorem publishing_turn {handler : Handler} (hagent : s.agent = .publishing handler)
    (turn : Impl.Turn) : (s.turn turn).agent = .firing handler := by
  simp only [Impl.turn, hagent]
  rfl

theorem sending_turn {handler : Handler} {bytes : Bytes} (hagent : s.agent = .sending handler bytes)
    (turn : Impl.Turn) : (s.turn turn).agent = .publishing handler := by
  simp only [Impl.turn, hagent, Impl.doSend]
  split <;> rfl

/-- Three steps of the agent's thread end what a handler has yet to do. -/
theorem handling_ends (h : s.agent.Handling) (r₁ r₂ r₃ : Impl.Turn) :
    ¬ (((s.turn r₁).turn r₂).turn r₃).agent.Handling := by
  intro hhandling
  have hahead := hhandling.ahead
  have h₂ := turn_ahead (s.turn r₁) r₂
  have h₃ := turn_ahead ((s.turn r₁).turn r₂) r₃
  cases hagent : s.agent with
  | sending handler bytes =>
      have hfiring := publishing_turn (sending_turn hagent r₁) r₂
      have := firing_ahead hfiring r₃
      omega
  | publishing handler =>
      have := firing_ahead (publishing_turn hagent r₁) r₂
      omega
  | firing handler =>
      have := firing_ahead hagent r₁
      omega
  | _ => simp [hagent, AgentAt.Handling] at h

theorem Inv.law (h : Inv s₀ s) : Law s₀ s where
  session := h.confined.session
  sending := h.sending
  bytes := h.confined.bytes
  once := h.confined.called.once
  ended := h.confined.called.ended
  fires hdone hterminal := by
    rcases h.confined.terminal (h.confined.session ▸ hterminal) with hfired | hhandling
    · exact .inl (h.confined.called.fired hfired hdone)
    · exact .inr hhandling
  followed := h.confined.followed
  ends := handling_ends
  transportFailed := by
    rw [h.confined.failed, sendFailed, List.any_eq_true]
    constructor
    · rintro ⟨e, hmem, hfailed⟩
      cases e with
      | sent bytes ok =>
          cases ok with
          | false => exact ⟨bytes, hmem⟩
          | true => cases hfailed
      | _ => cases hfailed
    · rintro ⟨bytes, hmem⟩
      exact ⟨_, hmem, rfl⟩

end

/-- The law holds after every run in which no `stop` that began once a `start` had returned looks at
`running` while another `start` has latched `started` and not yet set `running`. -/
theorem agent_law (send onDone : Bool) (image : Bytes) (version : UInt32) (timing : Timing)
    (events : List Impl.Event)
    (h : Runs.Along Impl.step LooksInTime (Impl.make send onDone image version timing) events) :
    Law (OtaSession.new image version timing)
      (events.foldl Impl.step (Impl.make send onDone image version timing)) :=
  Inv.law (h.invariant (Inv.start send onDone image version timing) fun _ event hinv hin =>
    hinv.step event hin)

/-- An update is started, sends its first frame and is stopped. -/
def stoppedEarly : List Impl.Event :=
  .call (.other 1) .start :: List.replicate 7 (.advance (.other 1)) ++
    List.replicate 5 (.turn {}) ++ .call (.other 2) .stop ::
      List.replicate 3 (.advance (.other 2)) ++ List.replicate 4 (.turn {}) ++
        List.replicate 2 (.advance (.other 2))

theorem agent_law_stoppedEarly : Law (OtaSession.new [0] 1 {})
    (stoppedEarly.foldl Impl.step (Impl.make true true [0] 1 {})) :=
  agent_law true true [0] 1 {} stoppedEarly (by decide)

/-- A `start` has latched `started` and not set `running` yet.  Another `start` returns, a `stop`
finds nothing running and returns, and then the first `start` makes the thread, which sends. -/
def overtaken : List Impl.Event :=
  [.call (.other 1) .start, .advance (.other 1), .call (.other 2) .start, .advance (.other 2)] ++
    .call (.other 2) .stop :: List.replicate 3 (.advance (.other 2)) ++
      List.replicate 6 (.advance (.other 1)) ++ List.replicate 5 (.turn {})

theorem overtaken_sends :
    ¬ Law (OtaSession.new [0] 1 {}) (overtaken.foldl Impl.step (Impl.make true true [0] 1 {})) := by
  intro h
  have hsendable := h.sending
    [.startCalled, .startCalled, .startReturned, .stopReturned true, .startReturned,
      .handled (.start 0)]
    (.sent ((OtaSession.new [0] 1 {}).apply (.start 0)).1 true) [] rfl _ true rfl
  exact hsendable.2.1 (by simp)

end OtaAgent
