import IndustrialHmi.Integration.OtaTranscript

/-!
# What a run sends, and where it ends

Two properties of every run of a fresh session, whatever frames and ticks it is
given.

*Stop and wait.*  `Emission` lists the reasons for which an operation may put
bytes on the wire: the start, an answer to the frame in flight, the end of the
reboot wait, silence or damage.  `stop_and_wait` says that there are no others,
that numbers count up by one, and that a frame is repeated within its budget.

*Confirm safety.*  `confirm_safety` says that only an `INFO` with the target
version makes the session confirm, that a finished session stays as it is, and
that progress only grows, up to the size of the image.
-/

namespace Ota

open Flash

section

variable {image : Bytes} {version : UInt32} {timing : Timing} {ops : List Op} {s : OtaSession}
  {rs : List Request} {at_ : TableState} {blocks : List (WireFrame × Nat)}

/-! ## Silence -/

theorem wire_append (before rest : List Op) :
    wire image version timing (before ++ rest) = wire image version timing before ++
      emitted (Transducer.outputs OtaSession.apply (after image version timing before) rest) := by
  rw [wire, Transducer.outputs_append, emitted_append]
  rfl

theorem emitted_silent {outs : List Bytes} (h : ∀ out ∈ outs, out = []) : emitted outs = [] := by
  refine List.filter_eq_nil_iff.mpr fun out hout => ?_
  rw [h out hout]
  decide

/-- Operations that each give no bytes put nothing on the wire. -/
theorem wire_silent_run {Inv : OtaSession → Prop} {before rest : List Op}
    (hstep : ∀ s, ∀ op ∈ rest, Inv s → (s.apply op).1 = [] ∧ Inv (s.apply op).2)
    (h : Inv (after image version timing before)) :
    wire image version timing (before ++ rest) = wire image version timing before := by
  have hsilent := (Transducer.outputs_forall (P := (· = [])) OtaSession.apply hstep h).1
  rw [wire_append, emitted_silent hsilent, List.append_nil]

theorem after_append (before rest : List Op) :
    after image version timing (before ++ rest) =
      Transducer.final OtaSession.apply (after image version timing before) rest :=
  Transducer.final_append ..

/-- A finished session stays as it is. -/
theorem after_finished {before : List Op}
    (h : (after image version timing before).stage = .done ∨
      (after image version timing before).stage = .failed) (rest : List Op) :
    after image version timing (before ++ rest) = after image version timing before := by
  have hkeep : ∀ (s : OtaSession) (op : Op), s = after image version timing before →
      (s.apply op).2 = after image version timing before := by
    intro s op hs
    rw [hs, OtaSession.apply_finished h]
  rw [after_append]
  exact Transducer.final_invariant OtaSession.apply hkeep rest rfl

/-- A session that keeps silent until time `d`, unless it has stopped. -/
def Hushed (d : Int) (s : OtaSession) : Prop :=
  s.ctx.failure ≠ .none ∨
    (s.sm = .rebooting ∧ s.ctx.waitingOut = true ∧ s.ctx.deadline = d)

theorem hushed_step {d : Int} {op : Op} (h : Hushed d s) (hop : ∀ now, op = .onTick now → now < d) :
    (s.apply op).1 = [] ∧ Hushed d (s.apply op).2 := by
  have hcases := apply_cases s op
  generalize s.apply op = res at hcases ⊢
  cases hcases with
  | ignored => exact ⟨rfl, h⟩
  | rejected now w _ _ _ => exact ⟨rfl, .inl fun hf => nomatch hf⟩
  | @moved e now sm' c' htrigger hfail hrow =>
      obtain hf | ⟨hsm, hwait, hdeadline⟩ := h
      · exact absurd hfail hf
      · rw [hsm] at hrow
        cases hrow with
        | rebooted =>
            -- the wait ends only by a tick past its deadline
            cases htrigger with
            | rebootDone _ hdue _ => exact absurd (hop now rfl) (by omega)
        | damaged hw _ => exact absurd hw not_waiting_rebooting
        | refused hw _ => exact absurd hw not_waiting_rebooting
        | silent hw _ => exact absurd hw not_waiting_rebooting
        | givenUp hw _ => exact absurd hw not_waiting_rebooting

/-- The `ACK` of `COMMIT` starts the reboot wait. -/
theorem apply_ack_committing {a : FlashFrame} {t : Int} (hstage : s.stage = .committing)
    (htype : a.type = kAck) (hseq : a.seq = s.ctx.seq) :
    (s.apply (.onFrame a t)).1 = [] ∧
      Hushed (t + s.ctx.timing.reboot) (s.apply (.onFrame a t)).2 := by
  have hlive : s.Live := by
    refine ⟨?_, ?_, ?_⟩ <;> rw [hstage] <;> decide
  obtain ⟨-, hsm⟩ :=
    OtaSession.ok_of_stage (show s.stage = TableState.committing.shown from hstage) (by decide)
  have hrow : otaTable { s.ctx with now := t, outbox := [] } s.sm .ack =
      some (.rebooting, kWaitOutReboot { s.ctx with now := t, outbox := [] }) := by rw [hsm]; rfl
  rw [OtaSession.apply_ack hlive htype hseq, OtaSession.dispatch_row hrow]
  exact ⟨rfl, .inr ⟨rfl, rfl, rfl⟩⟩

/-! ## Why bytes are sent -/

/-- What an operation may put on the wire behind the byte strings `sent`. -/
inductive Emission (sent : List Bytes) (s : OtaSession) : Op → Bytes → Prop where
  /-- The first frame. -/
  | first {f : WireFrame} {now} : sent = [] → f.frame.seq = 1 → Emission sent s (.start now) f.bytes
  /-- The next frame, on an `ACK` with the number of the frame in flight. -/
  | onAck {f g : WireFrame} {a now} : sent.getLast? = some g.bytes → s.ctx.inFlight = g.bytes →
      f.frame.seq = g.frame.seq + 1 → a.type = kAck → a.seq = g.frame.seq →
      Emission sent s (.onFrame a now) f.bytes
  /-- The next frame, on an `INFO` while an `INFO_REQ` is in flight. -/
  | onInfo {f g : WireFrame} {a now} : sent.getLast? = some g.bytes → s.ctx.inFlight = g.bytes →
      f.frame.seq = g.frame.seq + 1 → g.frame.type = kInfoReq → a.type = kInfo →
      Emission sent s (.onFrame a now) f.bytes
  /-- The next frame, at the end of the reboot wait. -/
  | rebootOver {f g : WireFrame} {now} : sent.getLast? = some g.bytes →
      f.frame.seq = g.frame.seq + 1 → g.frame.type = kCommit → s.stage = .rebooting →
      s.ctx.waitingOut = true → s.ctx.deadline ≤ now → Emission sent s (.onTick now) f.bytes
  /-- The frame in flight again, after silence. -/
  | silence {g : WireFrame} {now} : sent.getLast? = some g.bytes → s.ctx.inFlight = g.bytes →
      s.ctx.waitingOut = false → s.ctx.deadline ≤ now → Emission sent s (.onTick now) g.bytes
  /-- The frame in flight again, after damage. -/
  | damage {g : WireFrame} {a now} : sent.getLast? = some g.bytes → s.ctx.inFlight = g.bytes →
      a.type = kNak → a.seq = g.frame.seq → a.payload.head? = some kNakBadCrc →
      Emission sent s (.onFrame a now) g.bytes

/-- The wire ends in the last request asked. -/
theorem History.last_block (h : History image version timing ops s rs at_ blocks)
    {rs' : List Request} {q : Request} (hrs : rs = rs' ++ [q]) :
    ∃ front f r, blocks = front ++ [(f, r)] ∧ f.frame.type = q.type ∧
      (wire image version timing ops).getLast? = some f.bytes := by
  rcases List.eq_nil_or_concat' blocks with hb | ⟨front, ⟨f, r⟩, hb⟩
  · have hframes := h.frames
    rw [hb, hrs, numbered_concat] at hframes
    exact absurd hframes (by simp)
  · obtain ⟨rs'', q', hrs', hf, _⟩ := h.last_frame hb
    have hq : q = q' := List.head_eq_of_cons_eq (List.append_inj' (hrs.symm.trans hrs') rfl).2
    exact ⟨front, f, r, hb, by rw [hf, hq]; rfl, by rw [h.wire_eq, hb, spelled_getLast?]⟩

/-- The frame in flight is the last one on the wire. -/
theorem History.in_flight (h : History image version timing ops s rs at_ blocks)
    (hfail : s.ctx.failure = .none) (hwait : s.sm.Waiting) :
    ∃ f : WireFrame, s.ctx.inFlight = f.bytes ∧ f.frame.seq = s.ctx.seq ∧
      (wire image version timing ops).getLast? = some f.bytes ∧
      ∀ rs' q, rs = rs' ++ [q] → f.frame.type = q.type := by
  obtain ⟨front, f, r, hb, hinFlight, -⟩ := h.inFlight hfail hwait
  refine ⟨f, hinFlight, h.last_seq hb, by rw [h.wire_eq, hb, spelled_getLast?], ?_⟩
  intro rs' q hrs
  obtain ⟨front', f', r', hb', htype, -⟩ := h.last_block hrs
  have hf : f = f' := by
    have hlast := List.head_eq_of_cons_eq (List.append_inj' (hb.symm.trans hb') rfl).2
    exact congrArg Prod.fst hlast
  rw [hf, htype]

/-- Every operation that sends has a reason to. -/
theorem History.emission (h : History image version timing ops s rs at_ blocks) {op : Op}
    (hsends : (s.apply op).1 ≠ []) :
    Emission (wire image version timing ops) s op (s.apply op).1 := by
  have hcases := apply_cases s op
  generalize s.apply op = res at hcases hsends ⊢
  cases hcases with
  | ignored => exact absurd rfl hsends
  | rejected _ _ _ _ _ => exact absurd rfl hsends
  | @moved e now sm' c' htrigger hfail hrow =>
      have hreached := h.reached
      rw [h.state hfail] at hreached
      cases h.effect hfail hrow with
      | asks r hasks _ _ _ _ =>
          change Emission _ s op (r.frame (s.ctx.seq + 1)).bytes
          generalize hsm : s.sm = sm at hasks hreached
          generalize s.ctx.sentBytes = n at hreached
          cases hasks with
          | start =>
              cases hreached
              cases htrigger with
              | start _ =>
                  have hb : blocks = [] := List.map_eq_nil_iff.mp h.frames
                  refine .first ?_ ?_
                  · rw [h.wire_eq, hb]; rfl
                  · change s.ctx.seq + 1 = 1
                    rw [h.seq]
                    rfl
          | ack hwait =>
              obtain ⟨g, hg, hseq, hlast, -⟩ := h.in_flight hfail (hsm ▸ hwait)
              cases htrigger with
              | ack _ htype hack =>
                  exact .onAck hlast hg (by rw [hseq]; rfl) htype (hack.trans hseq.symm)
          | info hask =>
              have hinfo : ∃ rs', rs = rs' ++ [infoReq] := by
                rcases hask with rfl | rfl
                · cases hreached
                  exact ⟨[], rfl⟩
                · cases hreached
                  exact ⟨_, rfl⟩
              have hwait : sm.Waiting := by
                rcases hask with rfl | rfl
                · exact .inl rfl
                · exact .inr (.inr (.inr (.inr (.inl rfl))))
              obtain ⟨rs', hrs⟩ := hinfo
              obtain ⟨g, hg, hseq, hlast, hkind⟩ := h.in_flight hfail (hsm ▸ hwait)
              cases htrigger with
              | info _ htype _ =>
                  exact .onInfo hlast hg (by rw [hseq]; rfl) (hkind rs' infoReq hrs) htype
          | rebootDone =>
              obtain ⟨rs', hrs⟩ : ∃ rs', rs = rs' ++ [commitReq] := by
                cases hreached
                exact ⟨_, rfl⟩
              obtain ⟨front, g, r', hb, hkind, hlast⟩ := h.last_block hrs
              have hstage : s.stage = .rebooting := by
                rw [OtaSession.stage_of_ok hfail, hsm]
                rfl
              cases htrigger with
              | rebootDone _ hdue hout =>
                  exact .rebootOver hlast (by rw [h.last_seq hb]; rfl) hkind hstage hout hdue
      | repeats hwait _ hcause =>
          obtain ⟨g, hg, hseq, hlast, -⟩ := h.in_flight hfail hwait
          change Emission _ s op s.ctx.inFlight
          rw [hg]
          rcases hcause with rfl | rfl
          · cases htrigger with
            | timeout _ hdue hout => exact .silence hlast hg hout hdue
          · cases htrigger with
            | nak _ htype hnak hpayload =>
                exact .damage hlast hg htype (hnak.trans hseq.symm) (by rw [hpayload]; rfl)
      | rests _ _ _ => exact absurd rfl hsends
      | stops _ => exact absurd rfl hsends

theorem numbered_seq (rs : List Request) :
    (numbered rs).map (·.frame.seq) = (List.range rs.length).map fun i => UInt16.ofNat (i + 1) := by
  apply List.ext_getElem
  · simp [numbered]
  · intro i hi hj
    simp [numbered, Request.frame]

end

/-- Stop and wait with a bounded resend budget, for one run. -/
structure StopAndWait (image : Bytes) (version : UInt32) (timing : Timing) (ops : List Op) :
    Prop where
  /-- The wire carries frames numbered 1, 2, 3 and so on modulo 2^16, each
  followed by at most `timing.resends` copies of its bytes. -/
  frames : ∃ blocks : List (WireFrame × Nat),
    wire image version timing ops = spelled blocks ∧
      blocks.map (·.1.frame.seq) =
        (List.range blocks.length).map (fun i => UInt16.ofNat (i + 1)) ∧
      ∀ b ∈ blocks, (b.2 : Int) ≤ timing.resends
  /-- Bytes are sent for the reasons of `Emission` only. -/
  reasons : ∀ before op rest, ops = before ++ op :: rest →
    ((after image version timing before).apply op).1 ≠ [] →
      Emission (wire image version timing before) (after image version timing before) op
        ((after image version timing before).apply op).1
  /-- Nothing is sent between the `ACK` of `COMMIT` and the end of the reboot wait. -/
  rebooting : ∀ before g a t quiet rest, ops = before ++ .onFrame a t :: quiet ++ rest →
    (after image version timing before).stage = .committing →
      (wire image version timing before).getLast? = some (WireFrame.bytes g) →
      a.type = kAck → a.seq = g.frame.seq →
      (∀ now, .onTick now ∈ quiet → now < t + timing.reboot) →
      wire image version timing (before ++ .onFrame a t :: quiet) = wire image version timing before
  /-- Nothing is sent once the session has finished. -/
  finished : ∀ before rest, ops = before ++ rest →
    (after image version timing before).stage = .done ∨
        (after image version timing before).stage = .failed →
      wire image version timing ops = wire image version timing before

/-- Every run of a fresh session is stop and wait within its budget. -/
theorem stop_and_wait (image : Bytes) (version : UInt32) (timing : Timing) (ops : List Op)
    (hresends : 0 ≤ timing.resends) : StopAndWait image version timing ops where
  frames := by
    obtain ⟨rs, at_, blocks, h⟩ := history_run image version timing ops
    have hseq : blocks.map (·.1.frame.seq) = (numbered rs).map (·.frame.seq) := by
      rw [← h.frames, List.map_map]
      rfl
    have hlength : blocks.length = rs.length := by
      rw [← List.length_map (f := Prod.fst), h.frames, numbered, List.length_mapIdx]
    refine ⟨blocks, h.wire_eq, ?_, fun b hb => ?_⟩
    · rw [hseq, numbered_seq, hlength]
    · have hbudget := h.budget b hb
      omega
  reasons := by
    intro before op rest _ hsends
    obtain ⟨rs, at_, blocks, h⟩ := history_run image version timing before
    exact h.emission hsends
  rebooting := by
    intro before g a t quiet rest _ hstage hlast htype hseq hquiet
    obtain ⟨rs, at_, blocks, h⟩ := history_run image version timing before
    obtain ⟨hfail, hsm⟩ := OtaSession.ok_of_stage
      (show (after image version timing before).stage = TableState.committing.shown from hstage)
      (by decide)
    -- the last frame on the wire is the `COMMIT` in flight
    have hwait : (after image version timing before).sm.Waiting := by
      rw [hsm]
      exact .inr (.inr (.inr (.inl rfl)))
    obtain ⟨f, -, hfseq, hflast, -⟩ := h.in_flight hfail hwait
    have hgf : g.frame = f.frame :=
      WireFrame.bytes_injective (Option.some.inj (hlast.symm.trans hflast))
    have hack : a.seq = (after image version timing before).ctx.seq := by
      rw [hseq, hgf, hfseq]
    obtain ⟨hsilent, hhushed⟩ := apply_ack_committing (t := t) hstage htype hack
    rw [h.timing_eq, ← after_concat] at hhushed
    have hrest : wire image version timing ((before ++ [.onFrame a t]) ++ quiet) =
        wire image version timing (before ++ [.onFrame a t]) := by
      refine wire_silent_run (fun s op hop hs => hushed_step hs fun now hnow => ?_) hhushed
      exact hquiet now (hnow ▸ hop)
    rw [wire_silent rfl hsilent, List.append_assoc] at hrest
    exact hrest
  finished := by
    intro before rest hops hstage
    have hkeep : ∀ s : OtaSession, ∀ op ∈ rest, s.stage = .done ∨ s.stage = .failed →
        (s.apply op).1 = [] ∧ ((s.apply op).2.stage = .done ∨ (s.apply op).2.stage = .failed) := by
      intro s op _ hs
      rw [OtaSession.apply_finished hs]
      exact ⟨rfl, hs⟩
    rw [hops]
    exact wire_silent_run hkeep hstage

/-- A probe that is repeated once. -/
theorem stop_and_wait_probe : StopAndWait [0x11] 2 {} [.start 0, .onTick 5000] :=
  stop_and_wait [0x11] 2 {} [.start 0, .onTick 5000] (by decide)

/-! ## Frames on the wire -/

/-- The frames a run has sent, as the other end of the wire decodes them. -/
def framesSent (image : Bytes) (version : UInt32) (timing : Timing) (ops : List Op) :
    List FlashFrame :=
  (wire image version timing ops).flatMap decoded

section

variable {image : Bytes} {version : UInt32} {timing : Timing} {ops : List Op} {s : OtaSession}
  {rs : List Request} {at_ : TableState} {blocks : List (WireFrame × Nat)}

theorem decoded_replicate (f : WireFrame) (n : Nat) :
    (List.replicate n f.bytes).flatMap decoded = List.replicate n f.frame := by
  induction n with
  | zero => rfl
  | succ n ih =>
      rw [List.replicate_succ, List.flatMap_cons, f.decoded_bytes, ih]
      rfl

theorem decoded_spelled (blocks : List (WireFrame × Nat)) :
    (spelled blocks).flatMap decoded =
      blocks.flatMap fun b => List.replicate (b.2 + 1) b.1.frame := by
  simp only [spelled, List.flatMap_assoc, decoded_replicate]

theorem History.framesSent_eq (h : History image version timing ops s rs at_ blocks) :
    framesSent image version timing ops =
      blocks.flatMap fun b => List.replicate (b.2 + 1) b.1.frame := by
  rw [framesSent, h.wire_eq, decoded_spelled]

/-- The frames sent are the requests asked, under their numbers. -/
theorem History.mem_framesSent (h : History image version timing ops s rs at_ blocks)
    {f : FlashFrame} :
    f ∈ framesSent image version timing ops ↔ ∃ w ∈ numbered rs, w.frame = f := by
  rw [h.framesSent_eq, ← h.frames]
  constructor
  · intro hf
    obtain ⟨b, hb, hmem⟩ := List.mem_flatMap.mp hf
    exact ⟨b.1, List.mem_map_of_mem hb, (List.mem_replicate.mp hmem).2.symm⟩
  · rintro ⟨w, hw, rfl⟩
    obtain ⟨b, hb, rfl⟩ := List.mem_map.mp hw
    exact List.mem_flatMap.mpr ⟨b, hb, List.mem_replicate.mpr ⟨Nat.succ_ne_zero _, rfl⟩⟩

theorem mem_numbered {w : WireFrame} :
    w ∈ numbered rs ↔
      ∃ (i : Nat) (r : Request), rs[i]? = some r ∧ w = r.frame (UInt16.ofNat (i + 1)) := by
  constructor
  · intro hw
    obtain ⟨i, hi, rfl⟩ := List.mem_mapIdx.mp hw
    exact ⟨i, rs[i], List.getElem?_eq_getElem hi, rfl⟩
  · rintro ⟨i, r, hr, rfl⟩
    obtain ⟨hi, rfl⟩ := List.getElem?_eq_some_iff.mp hr
    exact List.mem_mapIdx.mpr ⟨i, hi, rfl⟩

/-- What decodes from the frame in flight has been sent. -/
theorem History.in_flight_sent (h : History image version timing ops s rs at_ blocks)
    (hfail : s.ctx.failure = .none) (hwait : s.sm.Waiting) {f : FlashFrame}
    (hf : f ∈ decoded s.ctx.inFlight) : f ∈ framesSent image version timing ops := by
  obtain ⟨g, hg, -, hlast, -⟩ := h.in_flight hfail hwait
  rw [hg] at hf
  exact List.mem_flatMap.mpr ⟨g.bytes, List.mem_of_getLast? hlast, hf⟩

/-- A session that waits to be done has a `CONFIRM` in flight. -/
theorem History.confirm_in_flight (h : History image version timing ops s rs at_ blocks)
    (hfail : s.ctx.failure = .none) (hsm : s.sm = .confirming) :
    ∃ g : WireFrame, s.ctx.inFlight = g.bytes ∧ g.frame.type = kConfirm ∧
      g.frame.seq = s.ctx.seq := by
  have hwait : s.sm.Waiting := by
    rw [hsm]
    exact .inr (.inr (.inr (.inr (.inr rfl))))
  have hconfirm : ∃ rs', rs = rs' ++ [confirmReq] := by
    have hreached := h.reached
    rw [h.state hfail, hsm] at hreached
    generalize s.ctx.sentBytes = n at hreached
    cases hreached with
    | confirming => exact ⟨_, rfl⟩
    | onTrial => exact ⟨_, rfl⟩
  obtain ⟨rs', hrs⟩ := hconfirm
  obtain ⟨g, hg, hseq, -, hkind⟩ := h.in_flight hfail hwait
  exact ⟨g, hg, hkind rs' confirmReq hrs, hseq⟩

/-- What a send puts out decodes to one frame. -/
theorem decoded_send (c : Context) (type : UInt8) (payload : Payload) (within : Int) :
    decoded (c.send type payload within).outbox =
      [{ type := type, seq := c.seq + 1, payload := payload.1 }] :=
  WireFrame.decoded_bytes ⟨{ type := type, seq := c.seq + 1, payload := payload.1 }, payload.2⟩

/-! ## What a row sends -/

/-- `Sends c sm e type`: in state `sm`, event `e` may send a new frame of this type. -/
inductive Sends (c : Context) : TableState → Event → UInt8 → Prop where
  | probe : Sends c .idle .start kInfoReq
  | announce {i} : Sends c .probing (.info i) kBegin
  | chunk {sm} : sm = .beginning ∨ sm = .sending → Sends c sm .ack kData
  | commit : c.image.length ≤ c.sentBytes + c.chunkBytes → Sends c .sending .ack kCommit
  | recheck : Sends c .rebooting .rebootDone kInfoReq
  | confirm {sm i} : i.version = c.version →
      (sm = .probing ∧ i.state = kStateTrial ∨ sm = .rechecking) → Sends c sm (.info i) kConfirm

/-- A row sends a copy of the frame in flight or a new frame. -/
theorem row_sends {c c' : Context} {sm sm' : TableState} {e : Event} (row : Row c sm e sm' c')
    {f : FlashFrame} (hf : f ∈ decoded c'.outbox) :
    (sm.Waiting ∧ c'.outbox = c.inFlight) ∨ Sends c sm e f.type := by
  have hnew : ∀ {c₀ : Context} {type : UInt8} {payload : Payload} {within : Int},
      c'.outbox = (c₀.send type payload within).outbox → f.type = type := by
    intro c₀ type payload within hc
    rw [hc, decoded_send] at hf
    obtain rfl := List.mem_singleton.mp hf
    rfl
  have hnone : c'.outbox = [] → False := by
    intro hc
    rw [hc, decoded_nil] at hf
    cases hf
  cases row with
  | start _ => exact .inr (hnew rfl ▸ .probe)
  | startEmpty _ => exact (hnone rfl).elim
  | upToDate _ _ => exact (hnone rfl).elim
  | onTrial hversion hstate => exact .inr (hnew rfl ▸ .confirm hversion (.inl ⟨rfl, hstate⟩))
  | needsUpdate _ => exact .inr (hnew rfl ▸ .announce)
  | begun => exact .inr (hnew rfl ▸ .chunk (.inl rfl))
  | chunkAcked _ => exact .inr (hnew rfl ▸ .chunk (.inr rfl))
  | allAcked hall => exact .inr (hnew rfl ▸ .commit hall)
  | committed => exact (hnone rfl).elim
  | rebooted => exact .inr (hnew rfl ▸ .recheck)
  | rechecked hversion => exact .inr (hnew rfl ▸ .confirm hversion (.inr rfl))
  | wrongVersion _ => exact (hnone rfl).elim
  | confirmed => exact (hnone rfl).elim
  | damaged hwait _ => exact .inl ⟨hwait, rfl⟩
  | refused _ _ => exact (hnone rfl).elim
  | silent hwait _ => exact .inl ⟨hwait, rfl⟩
  | givenUp _ _ => exact (hnone rfl).elim

/-- What makes the session finish: an `INFO` that reports the target version as
confirmed, or the `ACK` of the `CONFIRM`. -/
def DoneCause (c : Context) (sm : TableState) (e : Event) : Prop :=
  (∃ i, e = .info i ∧ i.version = c.version ∧ sm = .probing ∧ i.state = kStateConfirmed) ∨
    (sm = .confirming ∧ e = .ack)

theorem row_done {c c' : Context} {sm : TableState} {e : Event} (row : Row c sm e .done c') :
    DoneCause c sm e := by
  cases row with
  | upToDate hversion hstate => exact .inl ⟨_, rfl, hversion, rfl, hstate⟩
  | confirmed => exact .inr ⟨rfl, rfl⟩
  | damaged hwait _ => exact absurd hwait not_waiting_done
  | silent hwait _ => exact absurd hwait not_waiting_done

/-! ## Progress -/

theorem Reached.le_length {sm : TableState} {n : Nat} (h : Reached image version rs sm n) :
    n ≤ image.length := by
  cases h with
  | sending hk => exact Nat.le_of_lt hk
  | committing => exact Nat.le_refl _
  | rebooting => exact Nat.le_refl _
  | rechecking => exact Nat.le_refl _
  | confirming => exact Nat.le_refl _
  | done => exact Nat.le_refl _
  | _ => exact Nat.zero_le _

theorem commitReq_not_opening (n : Nat) : ∀ r ∈ openingReqs image version n, r.type ≠ kCommit := by
  intro r hr
  rcases List.mem_cons.mp hr with rfl | hr
  · decide
  · rcases List.mem_cons.mp hr with rfl | hr
    · exact (by decide : kBegin ≠ kCommit)
    · obtain ⟨k, -, rfl⟩ := List.mem_map.mp hr
      exact (by decide : kData ≠ kCommit)

/-- A table that stands in its failed state has a reason. -/
theorem History.failed_iff (h : History image version timing ops s rs at_ blocks) :
    s.stage = .failed ↔ s.ctx.failure ≠ .none := by
  refine ⟨fun hstage hf => ?_, fun hf => if_pos hf⟩
  rw [OtaSession.stage_of_ok hf] at hstage
  have hsm : s.sm = .failed :=
    TableState.shown_injective (show s.sm.shown = TableState.failed.shown from hstage)
  have hreached := h.reached
  rw [h.state hf, hsm] at hreached
  cases hreached

/-- Once `COMMIT` has been asked, every byte has been acknowledged. -/
theorem Reached.of_commit {sm : TableState} {n : Nat} (h : Reached image version rs sm n)
    (hcommit : ∃ r ∈ rs, r.type = kCommit) : n = image.length := by
  obtain ⟨r, hr, htype⟩ := hcommit
  cases h with
  | idle => cases hr
  | probing _ => exact absurd htype (by rw [List.mem_singleton.mp hr]; decide)
  | beginning _ => exact absurd htype (commitReq_not_opening 0 r hr)
  | sending _ => exact absurd htype (commitReq_not_opening _ r hr)
  | upToDate => exact absurd htype (by rw [List.mem_singleton.mp hr]; decide)
  | onTrial =>
      rcases List.mem_append.mp hr with hr | hr <;>
        exact absurd htype (by rw [List.mem_singleton.mp hr]; decide)
  | trialDone =>
      rcases List.mem_append.mp hr with hr | hr <;>
        exact absurd htype (by rw [List.mem_singleton.mp hr]; decide)
  | _ => rfl

theorem History.acknowledged_step (h : History image version timing ops s rs at_ blocks) (op : Op) :
    s.bytesAcknowledged ≤ (s.apply op).2.bytesAcknowledged := by
  have hcases := apply_cases s op
  generalize s.apply op = res at hcases ⊢
  cases hcases with
  | ignored => exact Nat.le_refl _
  | rejected _ _ _ _ _ => exact Nat.le_refl _
  | moved _ hfail hrow =>
      cases h.effect hfail hrow with
      | asks _ _ _ _ _ hle => exact hle
      | repeats _ _ _ => exact Nat.le_refl _
      | rests _ _ _ => exact Nat.le_refl _
      | stops _ => exact Nat.le_refl _

theorem acknowledged_mono (before rest : List Op) :
    (after image version timing before).bytesAcknowledged ≤
      (after image version timing (before ++ rest)).bytesAcknowledged := by
  induction rest using List.reverseRecOn with
  | nil => rw [List.append_nil]
  | append_singleton rest op ih =>
      obtain ⟨rs, at_, blocks, h⟩ := history_run image version timing (before ++ rest)
      rw [← List.append_assoc, after_concat]
      exact Nat.le_trans ih (h.acknowledged_step op)

end

/-- Confirm safety and terminal stages, for one run. -/
structure ConfirmSafety (image : Bytes) (version : UInt32) (timing : Timing) (ops : List Op) :
    Prop where
  /-- A first `CONFIRM` answers an `INFO` that reports the target version. -/
  confirm : ∀ before op rest, ops = before ++ op :: rest →
    (∀ f ∈ framesSent image version timing before, f.type ≠ kConfirm) →
      ∀ f ∈ decoded ((after image version timing before).apply op).1, f.type = kConfirm →
        ∃ i now, op = .onFrame i now ∧ i.type = kInfo ∧ i.payload.length = kInfoPayloadBytes ∧
          (infoOf i.payload).version = version ∧
          ((after image version timing before).stage = .probing ∧
              (infoOf i.payload).state = kStateTrial ∨
            (after image version timing before).stage = .rechecking)
  /-- The session is done by an `INFO` that reports the target version as
  confirmed, or by the `ACK` of the `CONFIRM` in flight. -/
  done : ∀ before op rest, ops = before ++ op :: rest →
    (after image version timing before).stage ≠ .done →
      (after image version timing (before ++ [op])).stage = .done →
        ∃ a now, op = .onFrame a now ∧
          ((after image version timing before).stage = .probing ∧ a.type = kInfo ∧
              a.payload.length = kInfoPayloadBytes ∧ (infoOf a.payload).version = version ∧
              (infoOf a.payload).state = kStateConfirmed ∨
            (after image version timing before).stage = .confirming ∧ a.type = kAck ∧
              ∃ g : WireFrame, (after image version timing before).ctx.inFlight = g.bytes ∧
                g.frame.type = kConfirm ∧ a.seq = g.frame.seq)
  /-- Both encodings of a failure agree. -/
  failed : (after image version timing ops).stage = .failed ↔
    (after image version timing ops).ctx.failure ≠ .none
  /-- A finished session keeps its stage, its failure and the code of the `NAK`. -/
  finished : ∀ before rest, ops = before ++ rest →
    (after image version timing before).stage = .done ∨
        (after image version timing before).stage = .failed →
      (after image version timing ops).stage = (after image version timing before).stage ∧
        (after image version timing ops).ctx.failure =
          (after image version timing before).ctx.failure ∧
        (after image version timing ops).ctx.nakCode =
          (after image version timing before).ctx.nakCode
  /-- Progress never shrinks. -/
  monotone : ∀ before rest, ops = before ++ rest →
    (after image version timing before).bytesAcknowledged ≤
      (after image version timing ops).bytesAcknowledged
  /-- Progress is within the image. -/
  bounded : (after image version timing ops).bytesAcknowledged ≤ image.length
  /-- Progress is the whole image once a `COMMIT` has been sent. -/
  committed : (∃ f ∈ framesSent image version timing ops, f.type = kCommit) →
    (after image version timing ops).bytesAcknowledged = image.length

/-- Every run of a fresh session is safe to confirm. -/
theorem confirm_safety (image : Bytes) (version : UInt32) (timing : Timing) (ops : List Op) :
    ConfirmSafety image version timing ops where
  confirm := by
    intro before op rest _ hnone f hf htype
    obtain ⟨rs, at_, blocks, h⟩ := history_run image version timing before
    have hcases := apply_cases (after image version timing before) op
    generalize (after image version timing before).apply op = res at hcases hf
    cases hcases with
    | ignored => cases decoded_nil ▸ hf
    | rejected _ _ _ _ _ => cases decoded_nil ▸ hf
    | @moved e now sm' c' htrigger hfail hrow =>
        rcases row_sends hrow hf with ⟨hwait, hagain⟩ | hsends
        · -- a copy of the frame in flight is not the first
          have hsent : f ∈ framesSent image version timing before :=
            h.in_flight_sent hfail hwait (hagain ▸ hf)
          exact absurd htype (hnone f hsent)
        · rw [htype] at hsends
          rw [OtaSession.stage_of_ok hfail]
          generalize (after image version timing before).sm = sm at hsends
          cases hsends with
          | @confirm _ i hversion hwhere =>
              cases htrigger with
              | @info i _ _ hinfo hlen =>
                  refine ⟨i, now, rfl, hinfo, hlen, hversion.trans h.version_eq, ?_⟩
                  rcases hwhere with ⟨rfl, hstate⟩ | rfl
                  · exact .inl ⟨rfl, hstate⟩
                  · exact .inr rfl
  done := by
    intro before op rest _ hnot hdone
    obtain ⟨rs, at_, blocks, h⟩ := history_run image version timing before
    rw [after_concat] at hdone
    have hcases := apply_cases (after image version timing before) op
    generalize (after image version timing before).apply op = res at hcases hdone
    obtain ⟨hok, hsmdone⟩ := OtaSession.ok_of_stage
      (show res.2.stage = TableState.done.shown from hdone) (by decide)
    cases hcases with
    | ignored => exact absurd hdone hnot
    | rejected _ _ _ _ _ => cases hok
    | @moved e now sm' c' htrigger hfail hrow =>
        obtain rfl : sm' = .done := hsmdone
        rw [OtaSession.stage_of_ok hfail]
        rcases row_done hrow with ⟨i, rfl, hversion, hsm, hstate⟩ | ⟨hsm, rfl⟩
        · cases htrigger with
          | @info i _ _ hinfo hlen =>
              refine ⟨i, now, rfl, .inl ⟨by rw [hsm]; rfl, hinfo, hlen, ?_, hstate⟩⟩
              exact hversion.trans h.version_eq
        · cases htrigger with
          | @ack a _ _ htype hseq =>
              obtain ⟨g, hg, hkind, hgseq⟩ := h.confirm_in_flight hfail hsm
              exact ⟨a, now, rfl, .inr ⟨by rw [hsm]; rfl, htype, g, hg, hkind,
                hseq.trans hgseq.symm⟩⟩
  failed := by
    obtain ⟨rs, at_, blocks, h⟩ := history_run image version timing ops
    exact h.failed_iff
  finished := by
    intro before rest hops hstage
    rw [hops, after_finished hstage]
    exact ⟨rfl, rfl, rfl⟩
  monotone := by
    intro before rest hops
    rw [hops]
    exact acknowledged_mono before rest
  bounded := by
    obtain ⟨rs, at_, blocks, h⟩ := history_run image version timing ops
    exact h.reached.le_length
  committed := by
    rintro ⟨f, hf, htype⟩
    obtain ⟨rs, at_, blocks, h⟩ := history_run image version timing ops
    obtain ⟨w, hw, rfl⟩ := h.mem_framesSent.mp hf
    obtain ⟨i, r, hr, rfl⟩ := mem_numbered.mp hw
    exact h.reached.of_commit ⟨r, List.mem_of_getElem? hr, htype⟩

end Ota
