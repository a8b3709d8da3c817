import IndustrialHmi.Integration.OtaTranscript

/-!
# Answers delivered twice

The protocol resends a request whose answer is late, so the board may answer one
request twice.  The session ignores an answer that it has moved past
(`MovedPast`), and every other answer changes it: an `INFO` is not compared with
the session's number at all, and an `ACK` is taken again wherever the session
keeps its number, which is in the reboot wait.

`redelivered_answers` says that a second copy is harmless exactly when the session
has moved past it, and that a run whose second copies are all of that kind is the
run without them.
-/

namespace Ota

open Flash

/-! ## One answer -/

/-- The session has moved past the answer: it takes no frames any more, or the
answer names another frame than the last one sent. -/
def MovedPast (s : OtaSession) (a : FlashFrame) : Prop :=
  (s.stage = .idle ∨ s.stage = .done ∨ s.stage = .failed) ∨
    (a.type ≠ kInfo ∧ a.seq ≠ s.ctx.seq)

/-- The board's answers to a request that it carries out. -/
def IsAnswer (a : FlashFrame) : Prop := a.type = kAck ∨ a.type = kInfo

/-- An operation that sends nothing and changes nothing of note. -/
structure Harmless (s : OtaSession) (op : Op) : Prop where
  silent : (s.apply op).1 = []
  stage : (s.apply op).2.stage = s.stage
  failure : (s.apply op).2.ctx.failure = s.ctx.failure
  seq : (s.apply op).2.ctx.seq = s.ctx.seq
  inFlight : (s.apply op).2.ctx.inFlight = s.ctx.inFlight
  resends : (s.apply op).2.ctx.resends = s.ctx.resends
  bytesAcknowledged : (s.apply op).2.bytesAcknowledged = s.bytesAcknowledged

section

variable {s : OtaSession} {a : FlashFrame}

/-- An answer that the session has moved past leaves it as it is. -/
theorem MovedPast.ignored (h : MovedPast s a) (now : Int) : s.apply (.onFrame a now) = ([], s) := by
  rcases h with hstage | ⟨htype, hseq⟩
  · exact if_pos hstage
  · exact OtaSession.apply_stale htype hseq

theorem MovedPast.harmless (h : MovedPast s a) (now : Int) : Harmless s (.onFrame a now) := by
  constructor <;> rw [h.ignored now]

theorem seq_succ_ne (n : UInt16) : n + 1 ≠ n := by
  intro h
  have hnat := congrArg UInt16.toNat h
  rw [UInt16.toNat_add] at hnat
  have hlt := n.toNat_lt
  have hone : (1 : UInt16).toNat = 1 := rfl
  omega

/-- A row that takes an answer leaves its state or numbers a new frame. -/
theorem row_answer_moves {c c' : Context} {sm sm' : TableState} {e : Event}
    (row : Row c sm e sm' c') (he : e = .ack ∨ ∃ i, e = .info i) :
    sm' ≠ sm ∨ c'.seq = c.seq + 1 := by
  cases row with
  | upToDate _ _ => exact .inl (by decide)
  | onTrial _ _ => exact .inl (by decide)
  | needsUpdate _ => exact .inl (by decide)
  | begun => exact .inl (by decide)
  | chunkAcked _ => exact .inr rfl
  | allAcked _ => exact .inl (by decide)
  | committed => exact .inl (by decide)
  | rechecked _ => exact .inl (by decide)
  | wrongVersion _ => exact .inl (by decide)
  | confirmed => exact .inl (by decide)
  | _ => rcases he with he | ⟨i, he⟩ <;> cases he

/-- Dispatching an answer changes the stage or the number. -/
theorem dispatch_answer_moves {e : Event} {now : Int} (hlive : s.Live)
    (he : e = .ack ∨ ∃ i, e = .info i) :
    (s.dispatch e now).2.stage ≠ s.stage ∨ (s.dispatch e now).2.ctx.seq ≠ s.ctx.seq := by
  cases hrow : otaTable { s.ctx with now := now, outbox := [] } s.sm e with
  | none =>
      refine .inl ?_
      simp only [OtaSession.dispatch, hrow]
      exact fun hstage => hlive.2.2 hstage.symm
  | some r =>
      rw [OtaSession.dispatch_row hrow]
      by_cases hstage : ({ ctx := r.2, sm := r.1 } : OtaSession).stage = s.stage
      · refine .inr ?_
        rw [OtaSession.stage_of_ok hlive.failure] at hstage
        obtain ⟨-, hsm⟩ := OtaSession.ok_of_stage hstage hlive.sm.2.2
        rcases row_answer_moves (row_of_otaTable hrow) he with hmoves | hseq
        · exact absurd hsm hmoves
        · intro hsame
          exact seq_succ_ne s.ctx.seq (hseq.symm.trans hsame)
      · exact .inl hstage

/-- An answer that the session has not moved past changes it. -/
theorem not_harmless (hanswer : IsAnswer a) (h : ¬ MovedPast s a) (now : Int) :
    ¬ Harmless s (.onFrame a now) := by
  intro hharmless
  obtain ⟨hrest, hcurrent⟩ := not_or.mp h
  have hlive := OtaSession.live_of_not hrest
  have hstage := hharmless.stage
  have hseq := hharmless.seq
  rcases hanswer with htype | htype
  · have hack : a.seq = s.ctx.seq := by
      by_contra hne
      exact hcurrent ⟨by rw [htype]; decide, hne⟩
    rw [OtaSession.apply_ack hlive htype hack] at hstage hseq
    rcases dispatch_answer_moves hlive (.inl rfl) with hmoves | hmoves
    · exact hmoves hstage
    · exact hmoves hseq
  · by_cases hlen : a.payload.length = kInfoPayloadBytes
    · rw [OtaSession.apply_info hlive htype hlen] at hstage hseq
      rcases dispatch_answer_moves hlive (.inr ⟨_, rfl⟩) with hmoves | hmoves
      · exact hmoves hstage
      · exact hmoves hseq
    · -- an `INFO` of another length stops the session
      have hfailure := hharmless.failure
      rw [OtaSession.apply_info_malformed hlive htype hlen, hlive.failure] at hfailure
      cases hfailure

end

/-! ## Second copies in a run -/

section

variable (image : Bytes) (version : UInt32) (timing : Timing)

/-- The operations deliver the answer to a session that takes it. -/
def Consumed (ops : List Op) (a : FlashFrame) : Prop :=
  IsAnswer a ∧ ∃ before now rest, ops = before ++ Op.onFrame a now :: rest ∧
    ¬ MovedPast (after image version timing before) a

/-- `Spared ops kept`: the operations `kept` are `ops` without some second copies,
each of which the session had moved past. -/
inductive Spared : List Op → List Op → Prop where
  | nil : Spared [] []
  | keep {ops kept} (op : Op) : Spared ops kept → Spared (ops ++ [op]) (kept ++ [op])
  | leaveOut {ops kept a} (now : Int) : Spared ops kept → Consumed image version timing ops a →
      MovedPast (after image version timing ops) a → Spared (ops ++ [.onFrame a now]) kept

/-- A second copy of an answer is harmless exactly when the session has moved past
it, and a run in which every second copy is of that kind is the run without them. -/
theorem redelivered_answers (ops : List Op) :
    (∀ a, Consumed image version timing ops a → ∀ now,
      Harmless (after image version timing ops) (.onFrame a now) ↔
        MovedPast (after image version timing ops) a) ∧
      ∀ kept, Spared image version timing ops kept →
        after image version timing ops = after image version timing kept ∧
          wire image version timing ops = wire image version timing kept := by
  refine ⟨fun a hconsumed now => ⟨fun hharmless => ?_, fun h => h.harmless now⟩, ?_⟩
  · by_contra h
    exact not_harmless hconsumed.1 h now hharmless
  · intro kept hspared
    induction hspared with
    | nil => exact ⟨rfl, rfl⟩
    | keep op _ ih =>
        obtain ⟨hafter, hwire⟩ := ih
        rw [after_concat, after_concat, wire_concat, wire_concat, hafter, hwire]
        exact ⟨rfl, rfl⟩
    | leaveOut now _ _ hpast ih =>
        obtain ⟨hafter, hwire⟩ := ih
        rw [after_concat, wire_concat, hpast.ignored now, hafter, hwire]
        exact ⟨rfl, List.append_nil _⟩

end

/-- The update of one byte up to the reboot wait, which the answer to `COMMIT` starts. -/
def untilReboot : List Op :=
  [.start 0, .onFrame ⟨kInfo, 1, [1, 0, 0, 0, 1, 0]⟩ 1, .onFrame ⟨kAck, 2, []⟩ 2,
    .onFrame ⟨kAck, 3, []⟩ 3, .onFrame ⟨kAck, 4, []⟩ 4]

/-- A second copy of the answer to `COMMIT` fails the update in its reboot wait. -/
theorem redelivered_commit_ack :
    ¬ ∀ (image : Bytes) (version : UInt32) (timing : Timing) (ops : List Op) (a : FlashFrame),
      Consumed image version timing ops a → ∀ now,
        Harmless (after image version timing ops) (.onFrame a now) := by
  intro h
  have hconsumed : Consumed [0x11] 2 {} untilReboot ⟨kAck, 4, []⟩ := by
    refine ⟨.inl rfl, untilReboot.dropLast, 4, [], rfl, ?_⟩
    unfold MovedPast
    decide +kernel
  have hstage := (h [0x11] 2 {} untilReboot ⟨kAck, 4, []⟩ hconsumed 5).stage
  have hfails : ((after [0x11] 2 {} untilReboot).apply (.onFrame ⟨kAck, 4, []⟩ 5)).2.stage ≠
      (after [0x11] 2 {} untilReboot).stage := by
    decide +kernel
  exact hfails hstage

end Ota
