import IndustrialHmi.Integration.OtaAgent
import IndustrialHmi.Theory.Since

/-!
# What the agent's thread does

`Law` says what the OTA agent does, in terms of the log.  What the agent's thread alone writes is in
`Confined`: its state is what the log tells.  A step of another thread leaves that alone (`Apart`),
and each step of a handler keeps it.
-/

namespace OtaAgent

open Ota Flash Transducer

/-! ## Reading the log -/

namespace Entry

def op : Entry → Option Op
  | .handled op => some op
  | _ => none

def bytes : Entry → Option Bytes
  | .sent bytes _ => some bytes
  | _ => none

def snapshot : Entry → Option OtaProgress
  | .done progress => some progress
  | _ => none

def failed : Entry → Bool
  | .sent _ ok => !ok
  | _ => false

/-- Not of the agent's thread. -/
def ofCaller : Entry → Bool
  | .startCalled | .startReturned | .stopReturned _ => true
  | _ => false

end Entry

def handledOps (log : List Entry) : List Op := log.filterMap Entry.op
def sends (log : List Entry) : List Bytes := log.filterMap Entry.bytes
def dones (log : List Entry) : List OtaProgress := log.filterMap Entry.snapshot
def sendFailed (log : List Entry) : Bool := log.any Entry.failed

section

variable (log : List Entry) (e : Entry)

theorem handledOps_concat : handledOps (log ++ [e]) = handledOps log ++ e.op.toList := by
  rw [handledOps, List.filterMap_append]
  cases e <;> rfl

theorem sends_concat : sends (log ++ [e]) = sends log ++ e.bytes.toList := by
  rw [sends, List.filterMap_append]
  cases e <;> rfl

theorem dones_concat : dones (log ++ [e]) = dones log ++ e.snapshot.toList := by
  rw [dones, List.filterMap_append]
  cases e <;> rfl

theorem sendFailed_concat : sendFailed (log ++ [e]) = (sendFailed log || e.failed) := by
  rw [sendFailed, List.any_append, List.any_cons, List.any_nil, Bool.or_false]
  rfl

end

/-- The session after the operations of a log. -/
def sessionAfter (s₀ : OtaSession) (log : List Entry) : OtaSession :=
  final OtaSession.apply s₀ (handledOps log)

/-- What the session gave to send for the operations of a log. -/
def emitted (s₀ : OtaSession) (log : List Entry) : List Bytes :=
  (outputs OtaSession.apply s₀ (handledOps log)).filter (· ≠ [])

section

variable {s₀ : OtaSession} {log : List Entry} {e : Entry} {op : Op}

theorem sessionAfter_handled :
    sessionAfter s₀ (log ++ [.handled op]) = ((sessionAfter s₀ log).apply op).2 := by
  rw [sessionAfter, handledOps_concat]
  exact final_concat _ _ _ _

theorem emitted_handled : emitted s₀ (log ++ [.handled op]) =
    emitted s₀ log ++ [((sessionAfter s₀ log).apply op).1].filter (· ≠ []) := by
  rw [emitted, handledOps_concat, show (Entry.handled op).op.toList = [op] from rfl,
    outputs_concat, List.filter_append]
  rfl

theorem sessionAfter_concat (h : e.op = none) :
    sessionAfter s₀ (log ++ [e]) = sessionAfter s₀ log := by
  rw [sessionAfter, handledOps_concat, h, Option.toList_none, List.append_nil]
  rfl

theorem emitted_concat (h : e.op = none) : emitted s₀ (log ++ [e]) = emitted s₀ log := by
  rw [emitted, handledOps_concat, h, Option.toList_none, List.append_nil]
  rfl

end

/-! ## The law -/

/-- The agent's thread has called the session in this handler and has yet to send, to publish or
to see whether the update is over. -/
def AgentAt.Handling : AgentAt → Prop
  | .sending _ _ | .publishing _ | .firing _ => True
  | _ => False

/-- The handler has yet to publish. -/
def AgentAt.owes : AgentAt → Bool
  | .sending _ _ | .publishing _ => true
  | _ => false

/-- What the handler has yet to send. -/
def AgentAt.unsent : AgentAt → List Bytes
  | .sending _ bytes => [bytes].filter (· ≠ [])
  | _ => []

/-- Each handled operation is followed by a snapshot of the session before the next one is
handled, if it is not the one whose handler has yet to publish. -/
def Followed (s₀ : OtaSession) (owes : Bool) (log : List Entry) : Prop :=
  ∀ before op after, log = before ++ .handled op :: after →
    (∃ quiet rest, handledOps quiet = [] ∧
      after = quiet ++ .published (OtaProgress.of (sessionAfter s₀ (before ++ [.handled op]))
        (sendFailed (before ++ .handled op :: quiet))) :: rest) ∨
    owes = true ∧ handledOps after = []

/-- Bytes are sent only where it is allowed. -/
def Sendable (s₀ : OtaSession) (before : List Entry) (e : Entry) : Prop :=
  ∀ bytes ok, e = .sent bytes ok →
    .startCalled ∈ before ∧ .stopReturned true ∉ before ∧ ¬ (sessionAfter s₀ before).Terminal

/-- What the agent has done for a new session `s₀`. -/
structure Law (s₀ : OtaSession) (s : Impl) : Prop where
  session : s.session = sessionAfter s₀ s.log
  /-- Nothing is sent before `start`, after a `stop` that began once `start` had returned, or once
  the session is terminal. -/
  sending : Each (Sendable s₀) s.log
  /-- What is sent is what the session gave, in order. -/
  bytes : sends s.log ++ s.agent.unsent = emitted s₀ s.log
  /-- The callback is called at most once, with the update finished or failed. -/
  once : (dones s.log).length ≤ 1
  ended : ∀ progress ∈ dones s.log, progress.stage = .done ∨ progress.stage = .failed
  /-- It is called when the session is terminal, at the end of the handler that made it so. -/
  fires : s.onDone = true → (sessionAfter s₀ s.log).Terminal → dones s.log ≠ [] ∨ s.agent.Handling
  followed : Followed s₀ s.agent.owes s.log
  /-- Three steps of the agent's thread end what a handler has yet to do. -/
  ends : s.agent.Handling → ∀ r₁ r₂ r₃, ¬ (((s.turn r₁).turn r₂).turn r₃).agent.Handling
  transportFailed : s.transportFailed = true ↔ ∃ bytes, .sent bytes false ∈ s.log

theorem Followed.grow {s₀ : OtaSession} {owes owes' : Bool} {log : List Entry} {e : Entry}
    (h : Followed s₀ owes log)
    (hhandled : ∀ op, e = .handled op → owes = false ∧ owes' = true)
    (hother : e.op = none → owes = true →
      owes' = true ∨ e = .published (OtaProgress.of (sessionAfter s₀ log) (sendFailed log))) :
    Followed s₀ owes' (log ++ [e]) := by
  intro before op after hsplit
  obtain ⟨rfl, rfl, rfl⟩ | ⟨middle, rfl, rfl⟩ := concat_eq_split hsplit
  · exact .inr ⟨(hhandled op rfl).2, rfl⟩
  · rcases h before op middle rfl with ⟨quiet, rest, hquiet, rfl⟩ | ⟨howes, hquiet⟩
    · exact .inl ⟨quiet, rest ++ [e], hquiet, by rw [List.append_assoc, List.cons_append]⟩
    · cases hop : e.op with
      | some op' =>
          cases e <;> cases hop
          exact absurd howes (by rw [(hhandled op' rfl).1]; exact Bool.false_ne_true)
      | none =>
          rcases hother hop howes with howes' | rfl
          · refine .inr ⟨howes', ?_⟩
            rw [handledOps_concat, hop, hquiet]
            rfl
          · -- nothing was handled since, so the snapshot is of the session after this operation
            refine .inl ⟨middle, [], hquiet, ?_⟩
            have hsame : sessionAfter s₀ (before ++ .handled op :: middle) =
                sessionAfter s₀ (before ++ [.handled op]) := by
              rw [sessionAfter, sessionAfter, handledOps, handledOps, List.append_cons,
                List.filterMap_append, show middle.filterMap Entry.op = [] from hquiet,
                List.append_nil]
            rw [hsame]

/-! ## What the agent's thread alone writes -/

/-- What the place of the agent's thread tells. -/
def Impl.Placed (s : Impl) : Prop :=
  match s.agent with
  | .sending _ bytes => s.session.Terminal → bytes = []
  | .firing _ => s.progress = OtaProgress.of s.session s.transportFailed
  | .calling => s.session.Terminal
  | _ => True

/-- The callback has been called once `doneFired` is set, if there is one. -/
structure Called (onDone doneFired : Bool) (log : List Entry) : Prop where
  unfired : doneFired = false → dones log = []
  fired : doneFired = true → onDone = true → dones log ≠ []
  once : (dones log).length ≤ 1
  ended : ∀ progress ∈ dones log, progress.stage = .done ∨ progress.stage = .failed

theorem Called.concat {onDone doneFired : Bool} {log : List Entry} {e : Entry}
    (h : Called onDone doneFired log) (he : e.snapshot = none) :
    Called onDone doneFired (log ++ [e]) := by
  have hdones : dones (log ++ [e]) = dones log := by
    rw [dones_concat, he]
    exact List.append_nil _
  exact {
    unfired := by rw [hdones]; exact h.unfired
    fired := by rw [hdones]; exact h.fired
    once := by rw [hdones]; exact h.once
    ended := by rw [hdones]; exact h.ended }

/-- The state of the agent's thread is what the log tells. -/
structure Confined (s₀ : OtaSession) (s : Impl) : Prop where
  session : s.session = sessionAfter s₀ s.log
  bytes : sends s.log ++ s.agent.unsent = emitted s₀ s.log
  failed : s.transportFailed = sendFailed s.log
  called : Called s.onDone s.doneFired s.log
  terminal : s.session.Terminal → s.doneFired = true ∨ s.agent.Handling
  placed : s.Placed
  followed : Followed s₀ s.agent.owes s.log

/-- The agent's thread is between two calls of the session, and in no callback. -/
def AgentAt.Idle : AgentAt → Prop
  | .sending _ _ | .publishing _ | .firing _ | .calling => False
  | _ => True

theorem AgentAt.Idle.unsent {a : AgentAt} (h : a.Idle) : a.unsent = [] := by
  cases a <;> first | rfl | exact h.elim

theorem AgentAt.Idle.owes {a : AgentAt} (h : a.Idle) : a.owes = false := by
  cases a <;> first | rfl | exact h.elim

theorem AgentAt.Idle.not_handling {a : AgentAt} (h : a.Idle) : ¬ a.Handling := by
  cases a <;> first | exact id | exact h.elim

theorem Impl.placed_of_idle {s : Impl} (h : s.agent.Idle) : s.Placed := by
  unfold Impl.Placed
  split <;> first | trivial | exact absurd h (by rename_i heq; rw [heq]; exact id)

/-- A step that leaves alone what the agent's thread writes in a handler. -/
structure Apart (s s' : Impl) : Prop where
  onDone : s'.onDone = s.onDone
  session : s'.session = s.session
  transportFailed : s'.transportFailed = s.transportFailed
  doneFired : s'.doneFired = s.doneFired
  progress : s'.progress = s.progress
  agent : s'.agent = s.agent ∨ (s.agent.Idle ∨ s.agent = .calling) ∧ s'.agent.Idle
  log : s'.log = s.log ∨ ∃ e, e.ofCaller = true ∧ s'.log = s.log ++ [e]

section

variable {s₀ : OtaSession} {s s' : Impl}

theorem Apart.told (h : Apart s s') :
    handledOps s'.log = handledOps s.log ∧ sends s'.log = sends s.log ∧
      sendFailed s'.log = sendFailed s.log := by
  rcases h.log with hlog | ⟨e, hcaller, hlog⟩
  · rw [hlog]
    exact ⟨rfl, rfl, rfl⟩
  · rw [hlog, handledOps_concat, sends_concat, sendFailed_concat]
    cases e <;> first
      | exact ⟨List.append_nil _, List.append_nil _, Bool.or_false _⟩
      | cases hcaller

theorem Apart.called (h : Apart s s') (hs : Called s.onDone s.doneFired s.log) :
    Called s'.onDone s'.doneFired s'.log := by
  rw [h.onDone, h.doneFired]
  rcases h.log with hlog | ⟨e, hcaller, hlog⟩
  · rwa [hlog]
  · rw [hlog]
    refine hs.concat ?_
    cases e <;> first | rfl | cases hcaller

theorem Apart.handling (h : Apart s s') : s'.agent.unsent = s.agent.unsent ∧
    s'.agent.owes = s.agent.owes ∧ (s'.agent.Handling ↔ s.agent.Handling) := by
  rcases h.agent with hagent | ⟨hidle | hcalling, hidle'⟩
  · rw [hagent]
    exact ⟨rfl, rfl, Iff.rfl⟩
  · exact ⟨hidle'.unsent.trans hidle.unsent.symm, hidle'.owes.trans hidle.owes.symm,
      iff_of_false hidle'.not_handling hidle.not_handling⟩
  · rw [hcalling]
    exact ⟨hidle'.unsent, hidle'.owes, iff_of_false hidle'.not_handling id⟩

theorem Apart.followed (h : Apart s s') {owes : Bool} (hs : Followed s₀ owes s.log) :
    Followed s₀ owes s'.log := by
  rcases h.log with hlog | ⟨e, hcaller, hlog⟩
  · rwa [hlog]
  · rw [hlog]
    refine hs.grow (fun op he => ?_) fun _ howes => .inl howes
    rw [he] at hcaller
    cases hcaller

theorem Apart.placed (h : Apart s s') (hs : s.Placed) : s'.Placed := by
  rcases h.agent with hagent | ⟨-, hidle'⟩
  · unfold Impl.Placed at hs ⊢
    rwa [hagent, h.session, h.progress, h.transportFailed]
  · exact Impl.placed_of_idle hidle'

theorem Confined.apart (h : Confined s₀ s) (hapart : Apart s s') : Confined s₀ s' := by
  obtain ⟨hops, hsends, hfailed⟩ := hapart.told
  obtain ⟨hunsent, howes, hhandling⟩ := hapart.handling
  have hafter : sessionAfter s₀ s'.log = sessionAfter s₀ s.log := by
    rw [sessionAfter, sessionAfter, hops]
  have hemitted : emitted s₀ s'.log = emitted s₀ s.log := by rw [emitted, emitted, hops]
  exact {
    session := by rw [hapart.session, hafter, h.session]
    bytes := by rw [hsends, hunsent, hemitted, h.bytes]
    failed := by rw [hapart.transportFailed, hfailed, h.failed]
    called := hapart.called h.called
    terminal := by rw [hapart.session, hapart.doneFired, hhandling]; exact h.terminal
    placed := hapart.placed h.placed
    followed := by rw [howes]; exact hapart.followed h.followed }

/-! ## The calls of a handler -/

/-- A handler calls the session. -/
theorem Confined.handle (h : Confined s₀ s) {handler : Handler}
    (hagent : s.agent = .checked handler) (now : Int) : Confined s₀ (s.handle handler now) := by
  have hsent : (s.handle handler now).agent.unsent =
      [(s.session.apply (handler.op now)).1].filter (· ≠ []) := rfl
  have hlog : (s.handle handler now).log = s.log ++ [.handled (handler.op now)] := rfl
  have hidle : s.agent.unsent = [] := by rw [hagent]; rfl
  exact {
    session := by
      rw [hlog, sessionAfter_handled, ← h.session]
      rfl
    bytes := by
      rw [hlog, hsent, emitted_handled, ← h.session, sends_concat, ← h.bytes, hidle]
      simp [Entry.bytes]
    failed := by
      rw [hlog, sendFailed_concat, ← h.failed]
      exact (Bool.or_false _).symm
    called := h.called.concat rfl
    terminal := fun _ => .inr trivial
    placed := OtaSession.apply_quiet
    followed := by
      rw [hlog]
      refine h.followed.grow (fun op _ => ⟨?_, rfl⟩) fun hnone => by cases hnone
      rw [hagent]
      rfl }

/-- A handler sends what the session gave it. -/
theorem Confined.doSend (h : Confined s₀ s) {handler : Handler} {bytes : Bytes}
    (hagent : s.agent = .sending handler bytes) (ok : Bool) :
    Confined s₀ (s.doSend handler bytes ok) := by
  have hunsent : s.agent.unsent = [bytes].filter (· ≠ []) := by rw [hagent]; rfl
  have howes : s.agent.owes = true := by rw [hagent]; rfl
  unfold Impl.doSend
  split
  · next hempty =>
      exact {
        session := h.session
        bytes := by
          rw [← h.bytes, hunsent, hempty]
          rfl
        failed := h.failed
        called := h.called
        terminal := fun _ => .inr trivial
        placed := trivial
        followed := by
          have hfollowed := h.followed
          rw [howes] at hfollowed
          exact hfollowed }
  · next hbytes =>
      exact {
        session := h.session.trans (sessionAfter_concat rfl).symm
        bytes := by
          have hsent : s.agent.unsent = [bytes] := by
            rw [hunsent, List.filter_cons_of_pos (by simpa using hbytes), List.filter_nil]
          show sends (s.log ++ [.sent bytes (s.send && ok)]) ++ [] = emitted s₀ (s.log ++ [_])
          rw [emitted_concat rfl, ← h.bytes, hsent, sends_concat, List.append_nil]
          rfl
        failed := by
          show (s.transportFailed || !(s.send && ok)) = sendFailed (s.log ++ [_])
          rw [sendFailed_concat, h.failed]
          rfl
        called := h.called.concat rfl
        terminal := fun _ => .inr trivial
        placed := trivial
        followed := h.followed.grow (fun op he => by cases he) fun _ _ => .inl rfl }

/-- A handler publishes the session. -/
theorem Confined.publishProgress (h : Confined s₀ s) {handler : Handler}
    (hagent : s.agent = .publishing handler) : Confined s₀ (s.publishProgress handler) := by
  have hunsent : s.agent.unsent = [] := by rw [hagent]; rfl
  have howes : s.agent.owes = true := by rw [hagent]; rfl
  have hlog : (s.publishProgress handler).log =
      s.log ++ [.published (OtaProgress.of s.session s.transportFailed)] := rfl
  exact {
    session := h.session.trans (sessionAfter_concat rfl).symm
    bytes := by
      rw [hlog, emitted_concat rfl, ← h.bytes, hunsent, sends_concat]
      exact List.append_nil _
    failed := by
      rw [hlog, sendFailed_concat, ← h.failed]
      exact (Bool.or_false _).symm
    called := h.called.concat rfl
    terminal := fun _ => .inr trivial
    placed := rfl
    followed := by
      rw [hlog, h.session, h.failed]
      exact h.followed.grow (fun op he => by cases he) fun _ _ => .inr rfl }

/-- A handler that has seen whether the update is over ends without the callback. -/
theorem Confined.leaves (h : Confined s₀ s) {handler : Handler}
    (hagent : s.agent = .firing handler) {place : AgentAt} (hidle : place.Idle) {fired : Bool}
    (hkept : s.doneFired = true → fired = true)
    (hquiet : fired = true → s.doneFired = false → s.onDone = false)
    (hfired : s.session.Terminal → fired = true) :
    Confined s₀ { s with doneFired := fired, agent := place } := by
  have hunsent : s.agent.unsent = [] := by rw [hagent]; rfl
  have howes : s.agent.owes = false := by rw [hagent]; rfl
  exact {
    session := h.session
    bytes := by
      rw [← h.bytes, hunsent]
      exact congrArg _ hidle.unsent
    failed := h.failed
    called := {
      unfired := fun hno => h.called.unfired (Bool.eq_false_iff.mpr fun hyes => by
        cases (hkept hyes).symm.trans hno)
      fired := fun hyes hdone => by
        cases hbefore : s.doneFired with
        | true => exact h.called.fired hbefore hdone
        | false => cases (hquiet hyes hbefore).symm.trans hdone
      once := h.called.once
      ended := h.called.ended }
    terminal := fun hterminal => .inl (hfired hterminal)
    placed := Impl.placed_of_idle hidle
    followed := by
      have hfollowed := h.followed
      rw [howes, ← hidle.owes] at hfollowed
      exact hfollowed }

/-- A handler sees whether the update is over. -/
theorem Confined.fireDoneIfTerminal (h : Confined s₀ s) {handler : Handler}
    (hagent : s.agent = .firing handler) : Confined s₀ (s.fireDoneIfTerminal handler) := by
  unfold Impl.fireDoneIfTerminal
  split
  · next hterminal =>
      split
      · next hfired =>
          exact h.leaves hagent (show AgentAt.polling.Idle from trivial)
            (show s.doneFired = true → s.doneFired = true from id)
            (fun hyes hno => by cases hyes.symm.trans hno) fun _ => hfired
      · next hunfired =>
          have hnone := h.called.unfired (Bool.eq_false_iff.mpr hunfired)
          split
          · next hdone =>
              have hprogress : s.progress = OtaProgress.of s.session s.transportFailed := by
                have hplaced := h.placed
                rwa [Impl.Placed, hagent] at hplaced
              have hdones : dones (s.log ++ [.done s.progress]) = [s.progress] := by
                rw [dones_concat, hnone]
                rfl
              have hunsent : s.agent.unsent = [] := by rw [hagent]; rfl
              exact {
                session := h.session.trans (sessionAfter_concat rfl).symm
                bytes := by
                  show sends (s.log ++ [.done s.progress]) ++ [] = emitted s₀ (s.log ++ [_])
                  rw [emitted_concat rfl, ← h.bytes, hunsent, sends_concat]
                  exact congrArg (· ++ []) (List.append_nil _)
                failed := by
                  show s.transportFailed = sendFailed (s.log ++ [_])
                  rw [sendFailed_concat, ← h.failed]
                  exact (Bool.or_false _).symm
                called := {
                  unfired := fun hno => by cases hno
                  fired := fun _ _ => hdones ▸ List.cons_ne_nil _ _
                  once := hdones ▸ Nat.le_refl 1
                  ended := by
                    intro progress hmem
                    have hmem : progress ∈ dones (s.log ++ [.done s.progress]) := hmem
                    rw [hdones, List.mem_singleton, hprogress] at hmem
                    rw [hmem]
                    exact hterminal }
                terminal := fun _ => .inl rfl
                placed := hterminal
                followed := by
                  have hfollowed := h.followed
                  rw [hagent] at hfollowed
                  exact hfollowed.grow (fun op he => by cases he) fun _ howes => by cases howes }
          · next hdone =>
              exact h.leaves hagent (show AgentAt.polling.Idle from trivial) (fun _ => rfl)
                (fun _ _ => Bool.eq_false_iff.mpr hdone) fun _ => rfl
  · next hopen =>
      have hidle : (if handler.rearms then AgentAt.rearming else .polling).Idle := by
        split <;> trivial
      exact h.leaves hagent hidle (show s.doneFired = true → s.doneFired = true from id)
        (fun hyes hno => by cases hyes.symm.trans hno) fun hterminal => absurd hterminal hopen

/-- Outside the handlers the agent's thread only moves on. -/
theorem Apart.idle (hidle : s.agent.Idle ∨ s.agent = .calling) (context : IoContext Handler)
    {place : AgentAt} (hplace : place.Idle) :
    Apart s { s with context := context, agent := place } where
  onDone := rfl
  session := rfl
  transportFailed := rfl
  doneFired := rfl
  progress := rfl
  agent := .inr ⟨hidle, hplace⟩
  log := .inl rfl

theorem Confined.poll (h : Confined s₀ s) (hagent : s.agent = .polling) (turn : Impl.Turn) :
    Confined s₀ (s.poll turn) := by
  have hidle : s.agent.Idle ∨ s.agent = .calling := .inl (by rw [hagent]; trivial)
  unfold Impl.poll
  split
  · exact h.apart (.idle hidle s.context trivial)
  · split
    · exact h.apart (.idle hidle s.context.stop trivial)
    · split
      · exact h
      · next handler _ =>
          have hplace : (if s.released && turn.expired then .polling
              else AgentAt.entered handler).Idle := by split <;> trivial
          exact h.apart (.idle hidle (s.context.take turn.pick) hplace)

theorem Confined.turn (h : Confined s₀ s) (turn : Impl.Turn) : Confined s₀ (s.turn turn) := by
  unfold Impl.turn
  split
  · exact h
  · exact h
  · exact h
  · next hagent => exact h.apart (.idle (.inl (by rw [hagent]; trivial)) s.context trivial)
  · next hagent => exact h.poll hagent turn
  · next handler hagent =>
      have hplace : (if handler.proceeds s.running then .checked handler
          else AgentAt.polling).Idle := by split <;> trivial
      exact h.apart (.idle (.inl (by rw [hagent]; trivial)) s.context hplace)
  · next hagent => exact h.handle hagent turn.now
  · next hagent => exact h.doSend hagent turn.ok
  · next hagent => exact h.publishProgress hagent
  · next hagent => exact h.fireDoneIfTerminal hagent
  · next hagent =>
      split
      · exact h.apart (.idle (.inr hagent) s.context trivial)
      · exact h
  · next hagent => exact h.apart (.idle (.inl (by rw [hagent]; trivial)) _ trivial)

end

end OtaAgent
