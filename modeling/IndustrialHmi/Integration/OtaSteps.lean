import IndustrialHmi.Integration.OtaSession

/-!
# What one operation does

`Row` lists the rows of the transition table with their guards as propositions,
and `row_of_otaTable` says that the table does nothing else.  `Trigger` says
which event an operation raises in a session, and `Outcome` what comes of it: the
operation is ignored, the session stops with a protocol error, or a row is taken.
`apply_cases` is the inversion lemma that every later fact about a step starts
from, so no proof outside this module unfolds the table or the public calls.
-/

namespace Ota

open Flash

/-! ## The rows of the table -/

/-- The states in which a request is in flight. -/
def TableState.Waiting (sm : TableState) : Prop :=
  sm = .probing ∨ sm = .beginning ∨ sm = .sending ∨ sm = .committing ∨ sm = .rechecking ∨
    sm = .confirming

/-- `Row c sm e sm' c'`: in state `sm`, event `e` moves the table to `sm'` and
the context from `c` to `c'`. -/
inductive Row (c : Context) : TableState → Event → TableState → Context → Prop where
  | start : c.image ≠ [] → Row c .idle .start .probing (kSendInfoReq c)
  | startEmpty : c.image = [] → Row c .idle .start .failed (kFailEmptyImage c)
  | upToDate {e} : e.version = c.version → e.state = kStateConfirmed →
      Row c .probing (.info e) .done (kFinishUpToDate c e)
  | onTrial {e} : e.version = c.version → e.state = kStateTrial →
      Row c .probing (.info e) .confirming (kSendConfirm c e)
  | needsUpdate {e} : e.version ≠ c.version → Row c .probing (.info e) .beginning (kSendBegin c e)
  | begun : Row c .beginning .ack .sending (kSendFirstChunk c)
  | chunkAcked : c.sentBytes + c.chunkBytes < c.image.length →
      Row c .sending .ack .sending (kAckChunkAndSendNext c)
  | allAcked : c.image.length ≤ c.sentBytes + c.chunkBytes →
      Row c .sending .ack .committing (kAckChunkAndCommit c)
  | committed : Row c .committing .ack .rebooting (kWaitOutReboot c)
  | rebooted : Row c .rebooting .rebootDone .rechecking (kSendInfoReq c)
  | rechecked {e} : e.version = c.version →
      Row c .rechecking (.info e) .confirming (kSendConfirm c e)
  | wrongVersion {e} : e.version ≠ c.version →
      Row c .rechecking (.info e) .failed (kFailWrongVersion c e)
  | confirmed : Row c .confirming .ack .done (kFinish c)
  | damaged {sm} : sm.Waiting → c.resends < c.timing.resends →
      Row c sm (.nak kNakBadCrc) sm (kResendInFlight c)
  | refused {sm code} : sm.Waiting → (code ≠ kNakBadCrc ∨ c.timing.resends ≤ c.resends) →
      Row c sm (.nak code) .failed (kFailRefused c code)
  | silent {sm} : sm.Waiting → c.resends < c.timing.resends →
      Row c sm .timeout sm (kResendInFlight c)
  | givenUp {sm} : sm.Waiting → c.timing.resends ≤ c.resends →
      Row c sm .timeout .failed (kFailSilent c)

theorem row_of_nakRows {c c' : Context} {sm sm' : TableState} {code : UInt8} (hsm : sm.Waiting)
    (h : nakRows sm c code = some (sm', c')) : Row c sm (.nak code) sm' c' := by
  unfold nakRows at h
  split at h
  · next hg =>
      cases h
      simp only [kDamagedAndCanResend, Bool.and_eq_true, beq_iff_eq, decide_eq_true_eq] at hg
      obtain ⟨rfl, hg⟩ := hg
      exact .damaged hsm hg
  · split at h
    · next hg =>
        cases h
        simp only [kRefusedOrSpent, Bool.or_eq_true, bne_iff_ne, decide_eq_true_eq] at hg
        exact .refused hsm hg
    · cases h

theorem row_of_timeoutRows {c c' : Context} {sm sm' : TableState} (hsm : sm.Waiting)
    (h : timeoutRows sm c = some (sm', c')) : Row c sm .timeout sm' c' := by
  unfold timeoutRows at h
  split at h
  · next hg =>
      cases h
      exact .silent hsm (of_decide_eq_true hg)
  · next hg =>
      cases h
      simp only [kCanResend, decide_eq_true_eq] at hg
      exact .givenUp hsm (Int.not_lt.mp hg)

/-- The table does nothing but take its rows. -/
theorem row_of_otaTable {c c' : Context} {sm sm' : TableState} {e : Event}
    (h : otaTable c sm e = some (sm', c')) : Row c sm e sm' c' := by
  unfold otaTable at h
  split at h
  · split at h
    · next hg => cases h; exact .start (by simpa [kHasImage] using hg)
    · split at h
      · next hg => cases h; exact .startEmpty (by simpa [kNoImage] using hg)
      · cases h
  · next e =>
      split at h
      · next hg =>
          cases h
          simp only [kIsConfirmedTarget, Bool.and_eq_true, beq_iff_eq] at hg
          exact .upToDate hg.1 hg.2
      · split at h
        · next hg =>
            cases h
            simp only [kIsTrialTarget, Bool.and_eq_true, beq_iff_eq] at hg
            exact .onTrial hg.1 hg.2
        · split at h
          · next hg => cases h; exact .needsUpdate (bne_iff_ne.mp hg)
          · cases h
  · cases h; exact .begun
  · split at h
    · next hg => cases h; exact .chunkAcked (of_decide_eq_true hg)
    · split at h
      · next hg => cases h; exact .allAcked (of_decide_eq_true hg)
      · cases h
  · cases h; exact .committed
  · cases h; exact .rebooted
  · split at h
    · next hg => cases h; exact .rechecked (beq_iff_eq.mp hg)
    · split at h
      · next hg => cases h; exact .wrongVersion (bne_iff_ne.mp hg)
      · cases h
  · cases h; exact .confirmed
  · exact row_of_nakRows (by simp [TableState.Waiting]) h
  · exact row_of_nakRows (by simp [TableState.Waiting]) h
  · exact row_of_nakRows (by simp [TableState.Waiting]) h
  · exact row_of_nakRows (by simp [TableState.Waiting]) h
  · exact row_of_nakRows (by simp [TableState.Waiting]) h
  · exact row_of_nakRows (by simp [TableState.Waiting]) h
  · exact row_of_timeoutRows (by simp [TableState.Waiting]) h
  · exact row_of_timeoutRows (by simp [TableState.Waiting]) h
  · exact row_of_timeoutRows (by simp [TableState.Waiting]) h
  · exact row_of_timeoutRows (by simp [TableState.Waiting]) h
  · exact row_of_timeoutRows (by simp [TableState.Waiting]) h
  · exact row_of_timeoutRows (by simp [TableState.Waiting]) h
  · cases h

/-! ## The event an operation raises -/

/-- A session that still takes frames and ticks. -/
def OtaSession.Live (s : OtaSession) : Prop :=
  s.stage ≠ .idle ∧ s.stage ≠ .done ∧ s.stage ≠ .failed

/-- What the payload of an `INFO` frame reports. -/
def infoOf (payload : Bytes) : EvInfo :=
  { version := readLittleEndian32 (payload.drop kInfoVersionAt)
    state := payload.getD kInfoStateAt 0 }

/-- `Trigger s op e now`: in session `s`, operation `op` raises event `e` at time `now`. -/
inductive Trigger (s : OtaSession) : Op → Event → Int → Prop where
  | start {now} : s.stage = .idle → Trigger s (.start now) .start now
  | ack {f now} : s.Live → f.type = kAck → f.seq = s.ctx.seq → Trigger s (.onFrame f now) .ack now
  | nak {f now code rest} : s.Live → f.type = kNak → f.seq = s.ctx.seq → f.payload = code :: rest →
      Trigger s (.onFrame f now) (.nak code) now
  | info {f now} : s.Live → f.type = kInfo → f.payload.length = kInfoPayloadBytes →
      Trigger s (.onFrame f now) (.info (infoOf f.payload)) now
  | timeout {now} : s.Live → s.ctx.deadline ≤ now → s.ctx.waitingOut = false →
      Trigger s (.onTick now) .timeout now
  | rebootDone {now} : s.Live → s.ctx.deadline ≤ now → s.ctx.waitingOut = true →
      Trigger s (.onTick now) .rebootDone now

/-- The context as the table sees it. -/
def OtaSession.seen (s : OtaSession) (e : Event) (now : Int) : Context :=
  { s.ctx with
    now := now
    outbox := []
    waitingOut := if e = .rebootDone then false else s.ctx.waitingOut }

/-- `Outcome s op r`: what operation `op` may make of session `s`. -/
inductive Outcome (s : OtaSession) (op : Op) : Bytes × OtaSession → Prop where
  | ignored : Outcome s op ([], s)
  | rejected (now : Int) (waitingOut : Bool) : s.ctx.failure = .none → s.sm ≠ .idle →
      s.sm ≠ .done →
      Outcome s op ([], { s with
        ctx := { s.ctx with now := now, waitingOut := waitingOut }.stopWith .protocolError 0 })
  | moved {e now sm' c'} : Trigger s op e now → s.ctx.failure = .none →
      Row (s.seen e now) s.sm e sm' c' → Outcome s op (c'.outbox, { ctx := c', sm := sm' })

theorem OtaSession.Live.failure {s : OtaSession} (h : s.Live) : s.ctx.failure = .none := by
  by_contra hf
  exact h.2.2 (if_pos hf)

theorem OtaSession.Live.sm {s : OtaSession} (h : s.Live) :
    s.sm ≠ .idle ∧ s.sm ≠ .done ∧ s.sm ≠ .failed := by
  have hf := h.failure
  refine ⟨fun he => h.1 ?_, fun he => h.2.1 ?_, fun he => h.2.2 ?_⟩ <;>
    simp [OtaSession.stage, hf, he]

theorem OtaSession.live_of_not {s : OtaSession}
    (h : ¬ (s.stage = .idle ∨ s.stage = .done ∨ s.stage = .failed)) : s.Live :=
  ⟨fun he => h (.inl he), fun he => h (.inr (.inl he)), fun he => h (.inr (.inr he))⟩

/-- The stage that a state of the table shows. -/
def TableState.shown : TableState → OtaStage
  | .idle => .idle
  | .probing => .probing
  | .beginning => .beginning
  | .sending => .sending
  | .committing => .committing
  | .rebooting => .rebooting
  | .rechecking => .rechecking
  | .confirming => .confirming
  | .done => .done
  | .failed => .failed

theorem TableState.shown_injective {sm sm' : TableState} (h : sm.shown = sm'.shown) : sm = sm' := by
  cases sm <;> cases sm' <;> first | rfl | cases h

theorem OtaSession.stage_of_ok {s : OtaSession} (h : s.ctx.failure = .none) :
    s.stage = s.sm.shown := by
  cases hsm : s.sm <;> simp [OtaSession.stage, TableState.shown, h, hsm]

/-- Only the failed stage is shown for two reasons. -/
theorem OtaSession.ok_of_stage {s : OtaSession} {sm : TableState} (h : s.stage = sm.shown)
    (hsm : sm ≠ .failed) : s.ctx.failure = .none ∧ s.sm = sm := by
  by_cases hf : s.ctx.failure = .none
  · rw [OtaSession.stage_of_ok hf] at h
    exact ⟨hf, TableState.shown_injective h⟩
  · have hfailed : s.stage = .failed := if_pos hf
    rw [hfailed] at h
    have hshown : TableState.failed = sm := TableState.shown_injective h
    exact absurd hshown.symm hsm

/-- Dispatching an event takes a row or stops the session. -/
theorem dispatch_cases {s s₀ : OtaSession} {op : Op} {e : Event} {now : Int}
    (htrigger : Trigger s op e now) (hlive : s.Live)
    (hs₀ : s₀ = { s with ctx := { s.ctx with
      waitingOut := if e = .rebootDone then false else s.ctx.waitingOut } }) :
    Outcome s op (s₀.dispatch e now) := by
  have hseen : { s₀.ctx with now := now, outbox := [] } = s.seen e now := by rw [hs₀]; rfl
  have hsm : s₀.sm = s.sm := by rw [hs₀]
  cases hrow : otaTable (s.seen e now) s.sm e with
  | none =>
      simp only [OtaSession.dispatch, hseen, hsm, hrow]
      exact .rejected now (if e = .rebootDone then false else s.ctx.waitingOut)
        hlive.failure hlive.sm.1 hlive.sm.2.1
  | some r =>
      simp only [OtaSession.dispatch, hseen, hsm, hrow]
      exact .moved htrigger hlive.failure (row_of_otaTable hrow)

/-- A malformed frame stops the session. -/
theorem malformed_cases {s : OtaSession} {op : Op} (hlive : s.Live) :
    Outcome s op ([], { s with ctx := s.ctx.stopWith .protocolError 0 }) :=
  .rejected s.ctx.now s.ctx.waitingOut hlive.failure hlive.sm.1 hlive.sm.2.1

/-- Everything an operation can do. -/
theorem apply_cases (s : OtaSession) (op : Op) : Outcome s op (s.apply op) := by
  cases op with
  | start now =>
      change Outcome s _ (s.start now)
      unfold OtaSession.start
      split
      · exact .ignored
      · next hstage =>
          have hidle := not_not.mp hstage
          obtain ⟨hf, hsm⟩ :=
            OtaSession.ok_of_stage (show s.stage = TableState.idle.shown from hidle) (by decide)
          have hseen : { s.ctx with now := now, outbox := [] } = s.seen .start now := rfl
          cases hrow : otaTable (s.seen .start now) s.sm .start with
          | none =>
              -- an idle table takes the start: the image is empty or it is not
              rw [hsm] at hrow
              simp only [otaTable, kHasImage, kNoImage] at hrow
              cases himage : (s.seen .start now).image.isEmpty <;> simp [himage] at hrow
          | some r =>
              simp only [hseen, hrow]
              exact .moved (.start hidle) hf (row_of_otaTable hrow)
  | onFrame f now =>
      change Outcome s _ (s.onFrame f now)
      unfold OtaSession.onFrame
      split
      · exact .ignored
      · next hstage =>
          have hlive := OtaSession.live_of_not hstage
          split
          · exact .ignored
          · next hseq =>
              have hseq : f.type ≠ kInfo → f.seq = s.ctx.seq := by
                intro hne
                by_contra hs
                exact hseq ⟨hne, hs⟩
              split
              · next htype =>
                  have htrigger : Trigger s (.onFrame f now) .ack now :=
                    .ack hlive htype (hseq (by rw [htype]; decide))
                  exact dispatch_cases htrigger hlive rfl
              · split
                · next htype =>
                    have hs := hseq (by rw [htype]; decide)
                    split
                    · exact malformed_cases hlive
                    · next code rest hp =>
                        exact dispatch_cases (.nak hlive htype hs hp) hlive rfl
                · split
                  · next htype =>
                      split
                      · exact malformed_cases hlive
                      · next hlen =>
                          exact dispatch_cases (.info hlive htype (not_not.mp hlen)) hlive rfl
                  · exact malformed_cases hlive
  | onTick now =>
      change Outcome s _ (s.onTick now)
      unfold OtaSession.onTick
      split
      · exact .ignored
      · next hstage =>
          have hlive := OtaSession.live_of_not hstage
          split
          · exact .ignored
          · next hdue =>
              have hdue := Int.not_lt.mp hdue
              split
              · next hwait => exact dispatch_cases (.rebootDone hlive hdue hwait) hlive rfl
              · next hwait =>
                  exact dispatch_cases (.timeout hlive hdue (by simpa using hwait)) hlive rfl

/-! ## What the calls compute -/

section

variable {s : OtaSession} {f : FlashFrame} {now : Int}

/-- A finished session ignores everything. -/
theorem OtaSession.apply_finished (h : s.stage = .done ∨ s.stage = .failed) (op : Op) :
    s.apply op = ([], s) := by
  cases op with
  | start now =>
      have hidle : s.stage ≠ .idle := by
        rcases h with h | h
        · rw [h]; decide
        · rw [h]; decide
      exact if_pos hidle
  | onFrame f now => exact if_pos (.inr h)
  | onTick now => exact if_pos (.inr h)

theorem OtaSession.Live.not_resting (h : s.Live) :
    ¬ (s.stage = .idle ∨ s.stage = .done ∨ s.stage = .failed) := by
  rintro (hs | hs | hs)
  · exact h.1 hs
  · exact h.2.1 hs
  · exact h.2.2 hs

/-- An answer to another frame than the one in flight is ignored. -/
theorem OtaSession.apply_stale (htype : f.type ≠ kInfo) (hseq : f.seq ≠ s.ctx.seq) :
    s.apply (.onFrame f now) = ([], s) := by
  change s.onFrame f now = _
  unfold OtaSession.onFrame
  split
  · rfl
  · exact if_pos ⟨htype, hseq⟩

theorem OtaSession.apply_ack (hlive : s.Live) (htype : f.type = kAck) (hseq : f.seq = s.ctx.seq) :
    s.apply (.onFrame f now) = s.dispatch .ack now := by
  change s.onFrame f now = _
  unfold OtaSession.onFrame
  rw [if_neg hlive.not_resting, if_neg (fun hs => hs.2 hseq), if_pos htype]

theorem OtaSession.apply_info (hlive : s.Live) (htype : f.type = kInfo)
    (hlen : f.payload.length = kInfoPayloadBytes) :
    s.apply (.onFrame f now) = s.dispatch (.info (infoOf f.payload)) now := by
  have hack : f.type ≠ kAck := by rw [htype]; decide
  have hnak : f.type ≠ kNak := by rw [htype]; decide
  change s.onFrame f now = _
  unfold OtaSession.onFrame
  rw [if_neg hlive.not_resting, if_neg (fun hs => hs.1 htype), if_neg hack, if_neg hnak,
    if_pos htype, if_neg (not_not.mpr hlen)]
  rfl

/-- An `INFO` of another length stops the session. -/
theorem OtaSession.apply_info_malformed (hlive : s.Live) (htype : f.type = kInfo)
    (hlen : f.payload.length ≠ kInfoPayloadBytes) :
    s.apply (.onFrame f now) = ([], { s with ctx := s.ctx.stopWith .protocolError 0 }) := by
  have hack : f.type ≠ kAck := by rw [htype]; decide
  have hnak : f.type ≠ kNak := by rw [htype]; decide
  change s.onFrame f now = _
  unfold OtaSession.onFrame
  rw [if_neg hlive.not_resting, if_neg (fun hs => hs.1 htype), if_neg hack, if_neg hnak,
    if_pos htype, if_pos hlen]

theorem OtaSession.apply_timeout (hlive : s.Live) (hdue : s.ctx.deadline ≤ now)
    (hwait : s.ctx.waitingOut = false) : s.apply (.onTick now) = s.dispatch .timeout now := by
  change s.onTick now = _
  unfold OtaSession.onTick
  rw [if_neg hlive.not_resting, if_neg (Int.not_lt.mpr hdue), hwait]
  rfl

theorem OtaSession.apply_rebootDone (hlive : s.Live) (hdue : s.ctx.deadline ≤ now)
    (hwait : s.ctx.waitingOut = true) : s.apply (.onTick now) =
      { s with ctx := { s.ctx with waitingOut := false } }.dispatch .rebootDone now := by
  change s.onTick now = _
  unfold OtaSession.onTick
  rw [if_neg hlive.not_resting, if_neg (Int.not_lt.mpr hdue), hwait]
  rfl

theorem OtaSession.dispatch_row {e : Event} {r : TableState × Context}
    (h : otaTable { s.ctx with now := now, outbox := [] } s.sm e = some r) :
    s.dispatch e now = (r.2.outbox, { ctx := r.2, sm := r.1 }) := by
  simp only [OtaSession.dispatch, h]

end

end Ota
