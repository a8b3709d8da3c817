import Mathlib.Data.List.Range
import IndustrialHmi.Integration.OtaSteps
import IndustrialHmi.Integration.FlashStream

/-!
# The transcript of a session

An update asks the board a fixed sequence of requests, each with the next message
number.  `Reached` lists the requests that have been asked when the table is in a
given state, with the image bytes acknowledged by then.  `row_effect` says that a
row of the table asks the next request, repeats the last one, moves on in silence
or stops.

`History` ties this to a run: the byte strings sent so far are the requests
asked, each repeated some number of times within the budget, and every request
but the last that wants an `ACK` got one while it was in flight.  `history_run`
says that every run of a fresh session has such a history.
-/

namespace Ota

open LittleEndian Flash

/-! ## Requests -/

/-- A request without its number. -/
structure Request where
  type : UInt8
  payload : Payload

/-- A request under a number. -/
def Request.frame (r : Request) (seq : UInt16) : WireFrame :=
  ⟨{ type := r.type, seq := seq, payload := r.payload.1 }, r.payload.2⟩

def infoReq : Request := ⟨kInfoReq, emptyPayload⟩
def beginReq (image : Bytes) (version : UInt32) : Request := ⟨kBegin, beginPayload image version⟩
def commitReq : Request := ⟨kCommit, emptyPayload⟩
def confirmReq : Request := ⟨kConfirm, emptyPayload⟩

/-- Image bytes in the chunk at `offset`. -/
def chunkLength (image : Bytes) (offset : Nat) : Nat := min kDataChunkBytes (image.length - offset)

/-- The `DATA` request for the chunk at `offset`. -/
def dataReqAt (image : Bytes) (offset : Nat) : Request :=
  ⟨kData, dataPayload image offset (chunkLength image offset),
    dataPayload_fits image offset (Nat.min_le_left _ _)⟩

/-- The `k`-th `DATA` request. -/
def dataReq (image : Bytes) (k : Nat) : Request := dataReqAt image (kDataChunkBytes * k)

/-- Number of `DATA` requests an image takes. -/
def chunkCount (image : Bytes) : Nat := (image.length + (kDataChunkBytes - 1)) / kDataChunkBytes

/-- The first `n` `DATA` requests, after the two requests that open an update. -/
def openingReqs (image : Bytes) (version : UInt32) (n : Nat) : List Request :=
  infoReq :: beginReq image version :: (List.range n).map (dataReq image)

/-- Every request up to the last `DATA`. -/
def transferReqs (image : Bytes) (version : UInt32) : List Request :=
  openingReqs image version (chunkCount image)

theorem openingReqs_succ (image : Bytes) (version : UInt32) (n : Nat) :
    openingReqs image version (n + 1) = openingReqs image version n ++ [dataReq image n] := by
  simp only [openingReqs, List.range_succ, List.map_append, List.map_cons, List.map_nil,
    List.cons_append]

/-- Requests under the numbers 1, 2, 3, and so on. -/
def numbered (rs : List Request) : List WireFrame :=
  rs.mapIdx fun i r => r.frame (UInt16.ofNat (i + 1))

theorem numbered_concat (rs : List Request) (r : Request) :
    numbered (rs ++ [r]) = numbered rs ++ [r.frame (UInt16.ofNat (rs.length + 1))] :=
  List.mapIdx_concat

/-! ## Requests asked so far -/

section

variable (image : Bytes) (version : UInt32)

/-- `Reached rs sm n`: the requests `rs` have been asked when the table is in
state `sm` with `n` image bytes acknowledged. -/
inductive Reached : List Request → TableState → Nat → Prop where
  | idle : Reached [] .idle 0
  | probing : image ≠ [] → Reached [infoReq] .probing 0
  | beginning : image ≠ [] → Reached (openingReqs image version 0) .beginning 0
  | sending {k} : kDataChunkBytes * k < image.length →
      Reached (openingReqs image version (k + 1)) .sending (kDataChunkBytes * k)
  | committing : Reached (transferReqs image version ++ [commitReq]) .committing image.length
  | rebooting : Reached (transferReqs image version ++ [commitReq]) .rebooting image.length
  | rechecking : Reached (transferReqs image version ++ [commitReq] ++ [infoReq]) .rechecking
      image.length
  | confirming : Reached (transferReqs image version ++ [commitReq] ++ [infoReq] ++ [confirmReq])
      .confirming image.length
  | onTrial : Reached ([infoReq] ++ [confirmReq]) .confirming 0
  | upToDate : Reached [infoReq] .done 0
  | done : Reached (transferReqs image version ++ [commitReq] ++ [infoReq] ++ [confirmReq]) .done
      image.length
  | trialDone : Reached ([infoReq] ++ [confirmReq]) .done 0

/-- Why a row may ask the next request. -/
inductive Asks : TableState → Event → Prop where
  | start : Asks .idle .start
  | ack {sm} : sm.Waiting → Asks sm .ack
  | info {sm e} : sm = .probing ∨ sm = .rechecking → Asks sm (.info e)
  | rebootDone : Asks .rebooting .rebootDone

/-- A context that is about to send: only the bookkeeping differs. -/
def Context.about (c : Context) (version : UInt32) (state : UInt8) (sentBytes chunkBytes : Nat) :
    Context :=
  { c with
    boardVersion := version, boardState := state, sentBytes := sentBytes, chunkBytes := chunkBytes }

/-- What a row does to the requests asked so far. -/
inductive Effect (rs : List Request) (sm : TableState) (c : Context) (e : Event) :
    TableState → Context → Prop where
  /-- The next request. -/
  | asks {sm' v b n m within} (r : Request) : Asks sm e → Reached image version (rs ++ [r]) sm' n →
      sm'.Waiting → (sm' = .sending → m = chunkLength image n) → c.sentBytes ≤ n →
      Effect rs sm c e sm' ((c.about v b n m).send r.type r.payload within)
  /-- The last request again. -/
  | repeats : sm.Waiting → c.resends < c.timing.resends →
      (e = .timeout ∨ e = .nak kNakBadCrc) → Effect rs sm c e sm c.resend
  /-- A step without a request. -/
  | rests {sm' v st up w d} : sm.Waiting → Reached image version rs sm' c.sentBytes →
      (sm' = .done ∧ w = c.waitingOut ∨
        sm' = .rebooting ∧ e = .ack ∧ w = true ∧ d = c.now + c.timing.reboot) →
      Effect rs sm c e sm'
        { c with
          boardVersion := v, boardState := st, alreadyUpToDate := up
          inFlight := [], outbox := [], waitingOut := w, deadline := d }
  /-- The end, with a reason. -/
  | stops {v why code} : why ≠ .none →
      Effect rs sm c e .failed ({ c with boardVersion := v }.stopWith why code)

end

theorem chunk_before_end {image : Bytes} {k : Nat}
    (h : kDataChunkBytes * k + chunkLength image (kDataChunkBytes * k) < image.length) :
    kDataChunkBytes * k + chunkLength image (kDataChunkBytes * k) = kDataChunkBytes * (k + 1) := by
  simp only [chunkLength, kDataChunkBytes] at *
  omega

theorem chunk_at_end {image : Bytes} {k : Nat} (hk : kDataChunkBytes * k < image.length)
    (h : image.length ≤ kDataChunkBytes * k + chunkLength image (kDataChunkBytes * k)) :
    kDataChunkBytes * k + chunkLength image (kDataChunkBytes * k) = image.length ∧
      chunkCount image = k + 1 := by
  simp only [chunkLength, chunkCount, kDataChunkBytes] at *
  omega

/-- A row asks the next request, repeats the last one, rests or stops. -/
theorem row_effect {c c' : Context} {sm sm' : TableState} {e : Event} {rs : List Request}
    (hr : Reached c.image c.version rs sm c.sentBytes)
    (hchunk : sm = .sending → c.chunkBytes = chunkLength c.image c.sentBytes)
    (row : Row c sm e sm' c') : Effect c.image c.version rs sm c e sm' c' := by
  generalize hn : c.sentBytes = n at hr
  cases row with
  | start himage =>
      cases hr
      exact .asks (b := c.boardState) (m := c.chunkBytes) infoReq .start (hn ▸ .probing himage)
        (.inl rfl) (fun h => by cases h) (Nat.le_refl _)
  | startEmpty himage => exact .stops (v := c.boardVersion) (by decide)
  | upToDate _ _ =>
      cases hr
      exact .rests (.inl rfl) (hn ▸ .upToDate) (.inl ⟨rfl, rfl⟩)
  | onTrial _ _ =>
      cases hr
      exact .asks (m := c.chunkBytes) confirmReq (.info (.inl rfl)) (hn ▸ .onTrial)
        (by simp [TableState.Waiting]) (fun h => by cases h) (Nat.le_refl _)
  | needsUpdate _ =>
      cases hr with
      | probing himage =>
          exact .asks (m := c.chunkBytes) (beginReq c.image c.version) (.info (.inl rfl))
            (hn ▸ .beginning himage) (by simp [TableState.Waiting]) (fun h => by cases h)
            (Nat.le_refl _)
  | begun =>
      cases hr with
      | beginning himage =>
          have hlen : kDataChunkBytes * 0 < c.image.length := List.length_pos_iff.mpr himage
          have hreached : Reached c.image c.version _ _ _ := .sending hlen
          rw [openingReqs_succ] at hreached
          exact .asks (dataReq c.image 0) (.ack (by simp [TableState.Waiting])) hreached
            (by simp [TableState.Waiting]) (fun _ => rfl) (Nat.le_of_eq hn)
  | chunkAcked hmore =>
      cases hr with
      | @sending k hk =>
          rw [hchunk rfl, hn] at hmore
          have hnext := chunk_before_end hmore
          have hreached : Reached c.image c.version _ _ _ := .sending (hnext ▸ hmore)
          rw [openingReqs_succ] at hreached
          have hsent : c.sentBytes + c.chunkBytes = kDataChunkBytes * (k + 1) := by
            rw [hchunk rfl, hn, hnext]
          have haction : kAckChunkAndSendNext c =
              (c.about c.boardVersion c.boardState (kDataChunkBytes * (k + 1))
                (chunkLength c.image (kDataChunkBytes * (k + 1)))).send
                (dataReq c.image (k + 1)).type (dataReq c.image (k + 1)).payload
                c.timing.answer := by
            rw [kAckChunkAndSendNext, hsent]
            rfl
          rw [haction]
          exact .asks (dataReq c.image (k + 1)) (.ack (by simp [TableState.Waiting])) hreached
            (by simp [TableState.Waiting]) (fun _ => rfl) (by rw [← hsent]; omega)
  | allAcked hall =>
      cases hr with
      | @sending k hk =>
          rw [hchunk rfl, hn] at hall
          obtain ⟨hlast, hcount⟩ := chunk_at_end hk hall
          have hsent : c.sentBytes + c.chunkBytes = c.image.length := by
            rw [hchunk rfl, hn, hlast]
          have haction : kAckChunkAndCommit c =
              (c.about c.boardVersion c.boardState c.image.length 0).send commitReq.type
                commitReq.payload c.timing.answer := by
            rw [kAckChunkAndCommit, hsent]
            rfl
          have hreached : Reached c.image c.version _ _ _ := .committing
          rw [transferReqs, hcount] at hreached
          rw [haction]
          exact .asks commitReq (.ack (by simp [TableState.Waiting])) hreached
            (by simp [TableState.Waiting]) (fun h => by cases h) (by rw [← hsent]; omega)
  | committed =>
      cases hr
      exact .rests (by simp [TableState.Waiting]) (hn ▸ .rebooting) (.inr ⟨rfl, rfl, rfl, rfl⟩)
  | rebooted =>
      cases hr
      exact .asks (m := c.chunkBytes) infoReq .rebootDone (hn ▸ .rechecking)
        (by simp [TableState.Waiting]) (fun h => by cases h) (Nat.le_refl _)
  | rechecked _ =>
      cases hr
      exact .asks (m := c.chunkBytes) confirmReq (.info (.inr rfl)) (hn ▸ .confirming)
        (by simp [TableState.Waiting]) (fun h => by cases h) (Nat.le_refl _)
  | wrongVersion _ => exact .stops (by decide)
  | confirmed =>
      cases hr with
      | confirming => exact .rests (by simp [TableState.Waiting]) (hn ▸ .done) (.inl ⟨rfl, rfl⟩)
      | onTrial => exact .rests (by simp [TableState.Waiting]) (hn ▸ .trialDone) (.inl ⟨rfl, rfl⟩)
  | damaged hwait hcan => exact .repeats hwait hcan (.inr rfl)
  | refused => exact .stops (v := c.boardVersion) (by decide)
  | silent hwait hcan => exact .repeats hwait hcan (.inl rfl)
  | givenUp => exact .stops (v := c.boardVersion) (by decide)

/-! ## Runs of a fresh session -/

/-- The byte strings among the outputs that put anything on the wire. -/
def emitted (outs : List Bytes) : List Bytes := outs.filter fun out => !out.isEmpty

theorem emitted_append (xs ys : List Bytes) : emitted (xs ++ ys) = emitted xs ++ emitted ys :=
  List.filter_append ..

theorem emitted_bytes (f : WireFrame) : emitted [f.bytes] = [f.bytes] :=
  List.filter_cons_of_pos (by simp [WireFrame.bytes, frameBytes_ne_nil])

section

variable (image : Bytes) (version : UInt32) (timing : Timing)

/-- The session after some operations on a fresh one. -/
def after (ops : List Op) : OtaSession :=
  Transducer.final OtaSession.apply (.new image version timing) ops

/-- The byte strings it has put on the wire by then. -/
def wire (ops : List Op) : List Bytes :=
  emitted (Transducer.outputs OtaSession.apply (.new image version timing) ops)

theorem after_concat (ops : List Op) (op : Op) :
    after image version timing (ops ++ [op]) = ((after image version timing ops).apply op).2 :=
  Transducer.final_concat ..

theorem wire_concat (ops : List Op) (op : Op) :
    wire image version timing (ops ++ [op]) =
      wire image version timing ops ++ emitted [((after image version timing ops).apply op).1] := by
  rw [wire, Transducer.outputs_concat, emitted_append]
  rfl

/-- `Acked ops f`: the operations bring an `ACK` that carries the number of `f`
while `f` is the last frame sent. -/
def Acked (ops : List Op) (f : WireFrame) : Prop :=
  ∃ before a now rest, ops = before ++ Op.onFrame a now :: rest ∧ a.type = kAck ∧
    a.seq = f.frame.seq ∧ (wire image version timing before).getLast? = some f.bytes

theorem Acked.mono {ops : List Op} {f : WireFrame} (h : Acked image version timing ops f)
    (more : List Op) : Acked image version timing (ops ++ more) f := by
  obtain ⟨before, a, now, rest, hops, htype, hseq, hlast⟩ := h
  exact ⟨before, a, now, rest ++ more, by rw [hops, List.append_assoc, List.cons_append], htype,
    hseq, hlast⟩

/-- What blocks of repeated frames spell. -/
def spelled (blocks : List (WireFrame × Nat)) : List Bytes :=
  blocks.flatMap fun b => List.replicate (b.2 + 1) b.1.bytes

/-- What a run has done when it stands in session `s`: it has asked `rs`, each
repeated as `blocks` says, and stands at `at_` in them. -/
structure History (ops : List Op) (s : OtaSession) (rs : List Request) (at_ : TableState)
    (blocks : List (WireFrame × Nat)) : Prop where
  image_eq : s.ctx.image = image
  version_eq : s.ctx.version = version
  timing_eq : s.ctx.timing = timing
  reached : Reached image version rs at_ s.ctx.sentBytes
  state : s.ctx.failure = .none → at_ = s.sm
  seq : s.ctx.seq = UInt16.ofNat rs.length
  frames : blocks.map Prod.fst = numbered rs
  wire_eq : wire image version timing ops = spelled blocks
  budget : ∀ b ∈ blocks, (b.2 : Int) ≤ max 0 timing.resends
  inFlight : s.ctx.failure = .none → s.sm.Waiting →
    ∃ front f r, blocks = front ++ [(f, r)] ∧ s.ctx.inFlight = f.bytes ∧
      s.ctx.resends = (r : Nat)
  chunk : s.ctx.failure = .none → s.sm = .sending →
    s.ctx.chunkBytes = chunkLength image s.ctx.sentBytes
  waitingOut : s.ctx.failure = .none → (s.ctx.waitingOut = true ↔ s.sm = .rebooting)
  acked : ∀ f ∈ (numbered rs).dropLast, f.frame.type ≠ kInfoReq → Acked image version timing ops f
  committed : s.ctx.failure = .none → s.sm = .rebooting →
    ∀ f ∈ numbered rs, f.frame.type ≠ kInfoReq → Acked image version timing ops f

end

theorem spelled_concat (blocks : List (WireFrame × Nat)) (f : WireFrame) (r : Nat) :
    spelled (blocks ++ [(f, r)]) = spelled blocks ++ List.replicate (r + 1) f.bytes := by
  simp only [spelled, List.flatMap_append, List.flatMap_cons, List.flatMap_nil, List.append_nil]

theorem spelled_getLast? (front : List (WireFrame × Nat)) (f : WireFrame) (r : Nat) :
    (spelled (front ++ [(f, r)])).getLast? = some f.bytes := by
  rw [spelled_concat, List.replicate_succ', ← List.append_assoc, List.getLast?_concat]

section

variable {image : Bytes} {version : UInt32} {timing : Timing} {ops : List Op} {s : OtaSession}
  {rs : List Request} {at_ : TableState} {blocks : List (WireFrame × Nat)}

theorem History.nil : History image version timing [] (.new image version timing) [] .idle [] where
  image_eq := rfl
  version_eq := rfl
  timing_eq := rfl
  reached := .idle
  state := fun _ => rfl
  seq := rfl
  frames := rfl
  wire_eq := rfl
  budget := fun _ h => nomatch h
  inFlight := by rintro - (h | h | h | h | h | h) <;> cases h
  chunk := fun _ h => nomatch h
  waitingOut := fun _ => ⟨fun h => (nomatch h), fun h => (nomatch h)⟩
  acked := fun _ h => nomatch h
  committed := fun _ h => nomatch h

/-- The last frame of the blocks is the last request under its number. -/
theorem History.last_frame (h : History image version timing ops s rs at_ blocks)
    {front : List (WireFrame × Nat)} {f : WireFrame} {r : Nat} (hb : blocks = front ++ [(f, r)]) :
    ∃ rs' q, rs = rs' ++ [q] ∧ f = q.frame (UInt16.ofNat rs.length) ∧
      front.map Prod.fst = numbered rs' := by
  have hframes := h.frames
  rw [hb, List.map_append] at hframes
  rcases List.eq_nil_or_concat' rs with hrs | ⟨rs', q, hrs⟩
  · rw [hrs] at hframes
    exact absurd hframes (by simp [numbered])
  · rw [hrs, numbered_concat] at hframes
    obtain ⟨hfront, hlast⟩ := List.append_inj' hframes rfl
    refine ⟨rs', q, hrs, ?_, hfront⟩
    rw [hrs, List.length_append]
    exact List.head_eq_of_cons_eq hlast

/-- The request in flight is numbered with the session's own number. -/
theorem History.last_seq (h : History image version timing ops s rs at_ blocks)
    {front : List (WireFrame × Nat)} {f : WireFrame} {r : Nat} (hb : blocks = front ++ [(f, r)]) :
    f.frame.seq = s.ctx.seq := by
  obtain ⟨_, q, _, hf, _⟩ := h.last_frame hb
  rw [hf, h.seq]
  rfl

theorem wire_silent {op : Op} (hs : s = after image version timing ops)
    (hout : (s.apply op).1 = []) :
    wire image version timing (ops ++ [op]) = wire image version timing ops := by
  rw [wire_concat, ← hs, hout]
  exact List.append_nil _

theorem wire_sends {op : Op} {f : WireFrame} (hs : s = after image version timing ops)
    (hout : (s.apply op).1 = f.bytes) :
    wire image version timing (ops ++ [op]) = wire image version timing ops ++ [f.bytes] := by
  rw [wire_concat, ← hs, hout, emitted_bytes]

/-- A step that stops the session, or does nothing in a stopped one. -/
theorem History.stop (h : History image version timing ops s rs at_ blocks) {s' : OtaSession}
    {op : Op} (hwire : wire image version timing (ops ++ [op]) = wire image version timing ops)
    (himage : s'.ctx.image = s.ctx.image) (hversion : s'.ctx.version = s.ctx.version)
    (htiming : s'.ctx.timing = s.ctx.timing) (hsent : s'.ctx.sentBytes = s.ctx.sentBytes)
    (hseq : s'.ctx.seq = s.ctx.seq) (hfail : s'.ctx.failure ≠ .none) :
    History image version timing (ops ++ [op]) s' rs at_ blocks where
  image_eq := himage.trans h.image_eq
  version_eq := hversion.trans h.version_eq
  timing_eq := htiming.trans h.timing_eq
  reached := hsent ▸ h.reached
  state := fun hf => absurd hf hfail
  seq := hseq.trans h.seq
  frames := h.frames
  wire_eq := hwire.trans h.wire_eq
  budget := h.budget
  inFlight := fun hf => absurd hf hfail
  chunk := fun hf => absurd hf hfail
  waitingOut := fun hf => absurd hf hfail
  acked := fun f hf ht => (h.acked f hf ht).mono _ _ _ [op]
  committed := fun hf => absurd hf hfail

/-- A step that leaves the session as it is. -/
theorem History.ignore (h : History image version timing ops s rs at_ blocks) {op : Op}
    (hwire : wire image version timing (ops ++ [op]) = wire image version timing ops) :
    History image version timing (ops ++ [op]) s rs at_ blocks :=
  { h with
    wire_eq := hwire.trans h.wire_eq
    acked := fun f hf ht => (h.acked f hf ht).mono _ _ _ [op]
    committed := fun hf hsm f hmem ht => (h.committed hf hsm f hmem ht).mono _ _ _ [op] }

/-- The last frame sent is acknowledged when an `ACK` event is raised. -/
theorem History.acked_last (h : History image version timing ops s rs at_ blocks) {op : Op}
    {now : Int} (htrigger : Trigger s op .ack now)
    (hinFlight : ∃ front f r, blocks = front ++ [(f, r)] ∧ s.ctx.inFlight = f.bytes ∧
      s.ctx.resends = (r : Nat)) :
    ∀ f ∈ numbered rs, f.frame.type ≠ kInfoReq → Acked image version timing (ops ++ [op]) f := by
  obtain ⟨front, g, r, hb, -, -⟩ := hinFlight
  obtain ⟨rs', q, hrs, hg, hfront⟩ := h.last_frame hb
  intro f hf ht
  have hnum : numbered rs = numbered rs' ++ [g] := by
    rw [← h.frames, hb, List.map_append, hfront]
    rfl
  rw [hnum] at hf
  cases List.mem_append.mp hf with
  | inl hmem =>
      refine (h.acked f ?_ ht).mono _ _ _ [op]
      rw [hnum, List.dropLast_concat]
      exact hmem
  | inr hmem =>
      obtain rfl := List.mem_singleton.mp hmem
      cases htrigger with
      | @ack a _ _ htype hseq =>
          refine ⟨ops, a, now, [], rfl, htype, hseq.trans (h.last_seq hb).symm, ?_⟩
          rw [h.wire_eq, hb, spelled_getLast?]

/-- Every request that wants an `ACK` has one when the next request is asked. -/
theorem History.acked_asks (h : History image version timing ops s rs at_ blocks) {op : Op}
    {e : Event} {now : Int} (hfail : s.ctx.failure = .none) (htrigger : Trigger s op e now)
    (hasks : Asks s.sm e) :
    ∀ f ∈ numbered rs, f.frame.type ≠ kInfoReq → Acked image version timing (ops ++ [op]) f := by
  have hr := h.reached
  rw [h.state hfail] at hr
  generalize hsm : s.sm = sm at hasks hr
  generalize s.ctx.sentBytes = n at hr
  cases hasks with
  | start =>
      cases hr
      intro f hf
      cases hf
  | ack hwait => exact h.acked_last htrigger (h.inFlight hfail (hsm ▸ hwait))
  | info hask =>
      -- the only request so far without an `ACK` is the `INFO_REQ` in flight
      intro f hf ht
      refine (h.acked f ?_ ht).mono _ _ _ [op]
      obtain ⟨rs', hrs⟩ : ∃ rs', rs = rs' ++ [infoReq] := by
        rcases hask with rfl | rfl
        · cases hr
          exact ⟨[], rfl⟩
        · cases hr
          exact ⟨_, rfl⟩
      rw [hrs, numbered_concat] at hf ⊢
      rw [List.dropLast_concat]
      cases List.mem_append.mp hf with
      | inl hmem => exact hmem
      | inr hmem =>
          obtain rfl := List.mem_singleton.mp hmem
          exact absurd rfl ht
  | rebootDone =>
      intro f hf ht
      exact (h.committed hfail hsm f hf ht).mono _ _ _ [op]

theorem not_waiting_rebooting : ¬ TableState.rebooting.Waiting := by
  rintro (h | h | h | h | h | h) <;> cases h

theorem not_waiting_done : ¬ TableState.done.Waiting := by
  rintro (h | h | h | h | h | h) <;> cases h

/-- A step that asks the next request. -/
theorem History.ask (h : History image version timing ops s rs at_ blocks)
    (hs : s = after image version timing ops) {op : Op} {e : Event} {now : Int} {sm' : TableState}
    {v : UInt32} {st : UInt8} {n m : Nat} {within : Int} {r : Request}
    (hfail : s.ctx.failure = .none) (htrigger : Trigger s op e now) (hasks : Asks s.sm e)
    (hreached : Reached image version (rs ++ [r]) sm' n) (hwait : sm'.Waiting)
    (hchunk : sm' = .sending → m = chunkLength image n)
    (hout : (s.apply op).1 = (r.frame (s.ctx.seq + 1)).bytes) :
    History image version timing (ops ++ [op])
      ⟨((s.seen e now).about v st n m).send r.type r.payload within, sm'⟩ (rs ++ [r]) sm'
      (blocks ++ [(r.frame (s.ctx.seq + 1), 0)]) := by
  have hseq : s.ctx.seq + 1 = UInt16.ofNat (rs.length + 1) := by rw [h.seq, UInt16.ofNat_add]; rfl
  have hacked := h.acked_asks hfail htrigger hasks
  exact {
    image_eq := h.image_eq
    version_eq := h.version_eq
    timing_eq := h.timing_eq
    reached := hreached
    state := fun _ => rfl
    seq := by rw [List.length_append]; exact hseq
    frames := by
      rw [List.map_append, h.frames, numbered_concat, hseq]
      rfl
    wire_eq := by
      rw [wire_sends hs hout, h.wire_eq, spelled_concat]
      rfl
    budget := by
      intro b hb
      cases List.mem_append.mp hb with
      | inl hmem => exact h.budget b hmem
      | inr hmem =>
          obtain rfl := List.mem_singleton.mp hmem
          exact Int.le_max_left 0 _
    inFlight := fun _ _ => ⟨blocks, r.frame (s.ctx.seq + 1), 0, rfl, rfl, rfl⟩
    chunk := fun _ => hchunk
    waitingOut := by
      intro _
      refine ⟨fun hw => (nomatch hw), ?_⟩
      rintro rfl
      exact absurd hwait not_waiting_rebooting
    acked := by
      rw [numbered_concat, List.dropLast_concat]
      exact hacked
    committed := by
      rintro - rfl
      exact absurd hwait not_waiting_rebooting }

/-- A step that repeats the request in flight. -/
theorem History.repeat_ (h : History image version timing ops s rs at_ blocks)
    (hs : s = after image version timing ops) {op : Op} {e : Event} (now : Int)
    (hfail : s.ctx.failure = .none) (hwait : s.sm.Waiting) (hcan : s.ctx.resends < timing.resends)
    (he : e ≠ .rebootDone) (hout : (s.apply op).1 = s.ctx.inFlight) :
    ∃ blocks', History image version timing (ops ++ [op]) ⟨(s.seen e now).resend, s.sm⟩ rs at_
      blocks' := by
  obtain ⟨front, f, r, hb, hinFlight, hresends⟩ := h.inFlight hfail hwait
  refine ⟨front ++ [(f, r + 1)], ?_⟩
  exact {
    image_eq := h.image_eq
    version_eq := h.version_eq
    timing_eq := h.timing_eq
    reached := h.reached
    state := fun _ => h.state hfail
    seq := h.seq
    frames := by
      rw [← h.frames, hb, List.map_append, List.map_append]
      rfl
    wire_eq := by
      rw [wire_sends hs (hout.trans hinFlight), h.wire_eq, hb, spelled_concat, spelled_concat,
        List.append_assoc, ← List.replicate_succ']
    budget := by
      intro b hmem
      cases List.mem_append.mp hmem with
      | inl hfront => exact h.budget b (hb ▸ List.mem_append_left _ hfront)
      | inr hlast =>
          obtain rfl := List.mem_singleton.mp hlast
          rw [hresends] at hcan
          exact Int.le_trans hcan (Int.le_max_right _ _)
    inFlight := fun _ _ => ⟨front, f, r + 1, rfl, hinFlight, congrArg (· + 1) hresends⟩
    chunk := fun _ => h.chunk hfail
    waitingOut := by
      intro _
      change (if e = .rebootDone then false else s.ctx.waitingOut) = true ↔ _
      rw [if_neg he]
      exact h.waitingOut hfail
    acked := fun g hg ht => (h.acked g hg ht).mono _ _ _ [op]
    committed := fun _ hsm => absurd (hsm ▸ hwait) not_waiting_rebooting }

/-- A row that a session with a history takes. -/
theorem History.effect (h : History image version timing ops s rs at_ blocks) {e : Event}
    {now : Int} {sm' : TableState} {c' : Context} (hfail : s.ctx.failure = .none)
    (hrow : Row (s.seen e now) s.sm e sm' c') :
    Effect image version rs s.sm (s.seen e now) e sm' c' := by
  have himage : (s.seen e now).image = image := h.image_eq
  have hversion : (s.seen e now).version = version := h.version_eq
  have hreached := h.reached
  rw [h.state hfail, ← himage, ← hversion] at hreached
  have heffect := row_effect hreached (fun hsm => himage ▸ h.chunk hfail hsm) hrow
  rw [himage, hversion] at heffect
  exact heffect

/-- Every operation extends the history. -/
theorem History.step (h : History image version timing ops s rs at_ blocks)
    (hs : s = after image version timing ops) (op : Op) :
    ∃ rs' at' blocks',
      History image version timing (ops ++ [op]) (s.apply op).2 rs' at' blocks' := by
  have hcases := apply_cases s op
  generalize hr : s.apply op = res at hcases ⊢
  cases hcases with
  | ignored => exact ⟨rs, at_, blocks, h.ignore (wire_silent hs (by rw [hr]))⟩
  | rejected now w hfail _ _ =>
      exact ⟨rs, at_, blocks, h.stop (wire_silent hs (by rw [hr])) rfl rfl rfl rfl rfl
        (fun hf => nomatch hf)⟩
  | @moved e now sm' c' htrigger hfail hrow =>
      cases h.effect hfail hrow with
      | asks r hasks hreached hwait hm _ =>
          exact ⟨_, _, _, h.ask hs hfail htrigger hasks hreached hwait hm (by rw [hr]; rfl)⟩
      | repeats hwait hcan hcause =>
          have htiming : (s.seen e now).timing = timing := h.timing_eq
          rw [htiming] at hcan
          have he : e ≠ .rebootDone := by
            rcases hcause with rfl | rfl
            · intro he; cases he
            · intro he; cases he
          obtain ⟨blocks', h'⟩ := h.repeat_ hs now hfail hwait hcan he (by rw [hr]; rfl)
          exact ⟨rs, at_, blocks', h'⟩
      | @rests _ v st up w d hwait hreached hkind =>
          have hwire : wire image version timing (ops ++ [op]) = wire image version timing ops :=
            wire_silent hs (by rw [hr])
          refine ⟨rs, sm', blocks, ?_⟩
          exact {
            image_eq := h.image_eq
            version_eq := h.version_eq
            timing_eq := h.timing_eq
            reached := hreached
            state := fun _ => rfl
            seq := h.seq
            frames := h.frames
            wire_eq := hwire.trans h.wire_eq
            budget := h.budget
            inFlight := by
              rintro - hw
              rcases hkind with ⟨rfl, _⟩ | ⟨rfl, _⟩
              · exact absurd hw not_waiting_done
              · exact absurd hw not_waiting_rebooting
            chunk := by
              rintro - rfl
              rcases hkind with ⟨hk, _⟩ | ⟨hk, _⟩ <;> cases hk
            waitingOut := by
              intro _
              rcases hkind with ⟨rfl, hw⟩ | ⟨rfl, _, hw, _⟩
              · refine ⟨fun htrue => ?_, fun hk => (nomatch hk)⟩
                have hseenw : (if e = .rebootDone then false else s.ctx.waitingOut) = true :=
                  hw.symm.trans htrue
                split at hseenw
                · cases hseenw
                · exact absurd ((h.waitingOut hfail).mp hseenw ▸ hwait) not_waiting_rebooting
              · exact ⟨fun _ => rfl, fun _ => hw⟩
            acked := fun g hg ht => (h.acked g hg ht).mono _ _ _ [op]
            committed := by
              rintro - hsm
              rcases hkind with ⟨rfl, _⟩ | ⟨_, rfl, _, _⟩
              · cases hsm
              · exact h.acked_last htrigger (h.inFlight hfail hwait) }
      | stops hwhy =>
          have hsilent := wire_silent hs (by rw [hr]; rfl)
          exact ⟨rs, at_, blocks, h.stop hsilent rfl rfl rfl rfl rfl hwhy⟩

/-- Every run of a fresh session has a history. -/
theorem history_run (image : Bytes) (version : UInt32) (timing : Timing) (ops : List Op) :
    ∃ rs at_ blocks, History image version timing ops (after image version timing ops) rs at_
      blocks :=
  Transducer.run_history OtaSession.apply
    (R := fun ops s => s = after image version timing ops →
      ∃ rs at_ blocks, History image version timing ops s rs at_ blocks)
    (fun _ => ⟨_, _, _, History.nil⟩)
    (fun ops op ih _ => by
      obtain ⟨rs, at_, blocks, h⟩ := ih rfl
      exact h.step rfl op) ops rfl

end

end Ota
