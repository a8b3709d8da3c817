import IndustrialHmi.Theory.Leads
import IndustrialHmi.Integration.OtaBoard
import IndustrialHmi.Integration.OtaRedelivery

/-!
# Delivery over a lossy line

A session and a board on the two ends of a line that loses requests and answers.
`Line` says, for each frame, which of its exchanges are lost, and when the answer
of the first one that is not lost arrives.  `System.step` is one exchange: the
board and the session turn bytes into frames with a parser each, and a lost
exchange ends with a tick at the session's deadline.

`delivery` says that an update gets through when no frame is lost more often than
the session resends it.  Its proof is the script of an update: `Asking` is one
request in flight, `Asking.answered` brings it over the line, and the script is a
chain of such facts.
-/

namespace Ota

open LittleEndian Flash Iteration

/-! ## The line and the two ends -/

/-- Which half of an exchange is lost. -/
inductive Loss where
  | request
  | answer

/-- A line: what it loses of each frame, and when the answer to it arrives. -/
structure Line where
  losses : Nat → List Loss
  arrival : Nat → Int

/-- A session and a board, with the bytes that are waiting for an answer. -/
structure System where
  session : OtaSession
  board : Board
  air : Bytes
  /-- How many frames have been answered. -/
  answered : Nat
  /-- How many exchanges of the frame in flight have been lost. -/
  lost : Nat

/-- The session decodes bytes from the line. -/
def OtaSession.onBytes (s : OtaSession) (bytes : Bytes) (now : Int) : Bytes × OtaSession :=
  (decoded bytes).foldl
    (fun (out, s) f => (out ++ (s.apply (.onFrame f now)).1, (s.apply (.onFrame f now)).2)) ([], s)

theorem OtaSession.onBytes_frame (s : OtaSession) (w : WireFrame) (now : Int) :
    s.onBytes w.bytes now = s.apply (.onFrame w.frame now) := by
  rw [OtaSession.onBytes, w.decoded_bytes]
  rfl

/-- A tick at the session's deadline. -/
def OtaSession.due (s : OtaSession) : Bytes × OtaSession := s.apply (.onTick s.ctx.deadline)

/-- One exchange. -/
def System.step (line : Line) (sys : System) : System :=
  if sys.session.stage = .done ∨ sys.session.stage = .failed then sys
  else if sys.air = [] then
    { sys with session := sys.session.due.2, air := sys.session.due.1 }
  else
    match (line.losses sys.answered)[sys.lost]? with
    | some .request =>
        { sys with session := sys.session.due.2, air := sys.session.due.1, lost := sys.lost + 1 }
    | some .answer =>
        { sys with
          session := sys.session.due.2
          board := (sys.board.onBytes sys.air).2
          air := sys.session.due.1
          lost := sys.lost + 1 }
    | none =>
        let answer := sys.board.onBytes sys.air
        let heard := sys.session.onBytes answer.1 (line.arrival sys.answered)
        { session := heard.2, board := answer.2, air := heard.1, answered := sys.answered + 1,
          lost := 0 }

/-- A fresh session that has just been started, and a board. -/
def System.initial (image : Bytes) (version : UInt32) (timing : Timing) (board : Board)
    (now : Int) : System :=
  let started := (OtaSession.new image version timing).apply (.start now)
  { session := started.2, board := board, air := started.1, answered := 0, lost := 0 }

/-! ## A request in flight -/

section

variable {image : Bytes} {version : UInt32} {timing : Timing} {s : OtaSession} {sm sm' : TableState}
  {sent chunk sent' chunk' : Nat} {w : WireFrame} {r : Nat} {line : Line}

/-- The session stands in `sm` with the frame `w` in flight, resent `r` times. -/
structure Standing (image : Bytes) (version : UInt32) (timing : Timing) (sm : TableState)
    (sent chunk : Nat) (w : WireFrame) (r : Nat) (s : OtaSession) : Prop where
  failure : s.ctx.failure = .none
  sm : s.sm = sm
  image : s.ctx.image = image
  version : s.ctx.version = version
  timing : s.ctx.timing = timing
  sent : s.ctx.sentBytes = sent
  chunk : s.ctx.chunkBytes = chunk
  inFlight : s.ctx.inFlight = w.bytes
  seq : s.ctx.seq = w.frame.seq
  waitingOut : s.ctx.waitingOut = false
  resends : s.ctx.resends = (r : Nat)

theorem Standing.live (h : Standing image version timing sm sent chunk w r s) (hw : sm.Waiting) :
    s.Live := by
  have hstage : s.stage = sm.shown := by rw [OtaSession.stage_of_ok h.failure, h.sm]
  rcases hw with rfl | rfl | rfl | rfl | rfl | rfl <;>
    refine ⟨?_, ?_, ?_⟩ <;> rw [hstage] <;> decide

theorem otaTable_timeout (hw : sm.Waiting) (c : Context) :
    otaTable c sm .timeout = timeoutRows sm c := by
  rcases hw with rfl | rfl | rfl | rfl | rfl | rfl <;> rfl

/-- At its deadline the session sends the frame in flight again. -/
theorem Standing.due (h : Standing image version timing sm sent chunk w r s) (hw : sm.Waiting)
    (hr : (r : Int) < timing.resends) :
    s.due.1 = w.bytes ∧ Standing image version timing sm sent chunk w (r + 1) s.due.2 := by
  have hcan : kCanResend { s.ctx with now := s.ctx.deadline, outbox := [] } = true := by
    refine decide_eq_true ?_
    rw [h.resends, h.timing]
    exact hr
  have hrow : otaTable { s.ctx with now := s.ctx.deadline, outbox := [] } s.sm .timeout =
      some (s.sm, kResendInFlight { s.ctx with now := s.ctx.deadline, outbox := [] }) := by
    rw [h.sm, otaTable_timeout hw, timeoutRows, if_pos hcan]
  have hdue : s.due = _ :=
    (OtaSession.apply_timeout (h.live hw) (Int.le_refl _) h.waitingOut).trans
      (OtaSession.dispatch_row hrow)
  rw [hdue]
  exact ⟨h.inFlight,
    { h with
      inFlight := h.inFlight
      resends := congrArg (· + 1) h.resends }⟩

/-- A context that has just sent a frame. -/
theorem standing_send {c : Context} {type : UInt8} {payload : Payload} {within : Int}
    (hfail : c.failure = .none) (himage : c.image = image) (hversion : c.version = version)
    (htiming : c.timing = timing) :
    Standing image version timing sm c.sentBytes c.chunkBytes
      ((⟨type, payload⟩ : Request).frame (c.seq + 1)) 0 ⟨c.send type payload within, sm⟩ where
  failure := hfail
  sm := rfl
  image := himage
  version := hversion
  timing := htiming
  sent := rfl
  chunk := rfl
  inFlight := rfl
  seq := rfl
  waitingOut := rfl
  resends := rfl

/-- The system with the request `q` in flight under the number `seq`, not lost so far. -/
structure Asking (image : Bytes) (version : UInt32) (timing : Timing) (sm : TableState)
    (sent chunk : Nat) (q : Request) (seq : UInt16) (B : Board → Prop) (sys : System) : Prop where
  standing : Standing image version timing sm sent chunk (q.frame seq) 0 sys.session
  air : sys.air = (q.frame seq).bytes
  lost : sys.lost = 0
  board : B sys.board

/-- The system after the answer to `w` has come over the line: `b` is the board
before, and the session heard the answer while it stood as before. -/
structure Answered (image : Bytes) (version : UInt32) (timing : Timing) (sm : TableState)
    (sent chunk : Nat) (w : WireFrame) (b : Board) (sys : System) : Prop where
  board : sys.board = (b.receive w.frame).2
  lost : sys.lost = 0
  heard : ∃ s r now, Standing image version timing sm sent chunk w r s ∧
    (sys.air, sys.session) = s.apply (.onFrame (b.receive w.frame).1.frame now)

/-- A frame gets over the line, whatever is lost of it within the budget. -/
theorem leads_answered (hline : ∀ k, ((line.losses k).length : Int) ≤ timing.resends)
    (hw : sm.Waiting) (b : Board) (k : Nat) (left : Nat) :
    ∀ r, r + left = (line.losses k).length →
      Leads (System.step line)
        (fun sys => Standing image version timing sm sent chunk w r sys.session ∧
          sys.air = w.bytes ∧ sys.answered = k ∧ sys.lost = r ∧
          (sys.board = b ∨ sys.board = (b.receive w.frame).2))
        (Answered image version timing sm sent chunk w b) := by
  induction left with
  | zero =>
      intro r hr
      refine Leads.of_step ?_
      rintro sys ⟨hstand, hair, hk, hlost, hboard⟩
      have hlive := hstand.live hw
      have hrunning : ¬ (sys.session.stage = .done ∨ sys.session.stage = .failed) :=
        not_or.mpr hlive.2
      have hnext : (line.losses sys.answered)[sys.lost]? = none := by
        rw [hk, hlost]
        exact List.getElem?_eq_none (by omega)
      have hreceive : sys.board.receive w.frame = b.receive w.frame := by
        rcases hboard with h | h
        · rw [h]
        · rw [h, Board.receive_again]
      have hbusy : sys.air ≠ [] := by
        rw [hair]
        exact frameBytes_ne_nil _
      rw [System.step, if_neg hrunning, if_neg hbusy, hnext]
      dsimp only
      rw [hair, Board.onBytes_frame, OtaSession.onBytes_frame, hreceive]
      exact ⟨rfl, rfl, _, _, _, hstand, rfl⟩
  | succ left ih =>
      intro r hr
      have hresends : (r : Int) < timing.resends := by
        have := hline k
        omega
      refine Leads.trans (Leads.of_step ?_) (ih (r + 1) (by omega))
      rintro sys ⟨hstand, hair, hk, hlost, hboard⟩
      have hlive := hstand.live hw
      have hrunning : ¬ (sys.session.stage = .done ∨ sys.session.stage = .failed) :=
        not_or.mpr hlive.2
      obtain ⟨hagain, hstand'⟩ := hstand.due hw hresends
      obtain ⟨loss, hnext⟩ : ∃ loss, (line.losses sys.answered)[sys.lost]? = some loss := by
        rw [hk, hlost]
        exact ⟨_, List.getElem?_eq_getElem (by omega)⟩
      have hbusy : sys.air ≠ [] := by
        rw [hair]
        exact frameBytes_ne_nil _
      rw [System.step, if_neg hrunning, if_neg hbusy, hnext]
      cases loss with
      | request => exact ⟨hstand', hagain, hk, congrArg (· + 1) hlost, hboard⟩
      | answer =>
          refine ⟨hstand', hagain, hk, congrArg (· + 1) hlost, .inr ?_⟩
          change (sys.board.onBytes sys.air).2 = _
          rw [hair, Board.onBytes_frame]
          rcases hboard with h | h
          · rw [h]
          · rw [h, Board.receive_again]

/-- One request gets over the line, and its answer makes the session ask the next one. -/
theorem Asking.answered {B B' : Board → Prop} {q q' : Request} {seq : UInt16}
    (hline : ∀ k, ((line.losses k).length : Int) ≤ timing.resends) (hw : sm.Waiting)
    (hboard : ∀ b, B b → B' (b.receive (q.frame seq).frame).2)
    (hreact : ∀ b, B b → ∀ s r now, Standing image version timing sm sent chunk (q.frame seq) r s →
      ∃ s', s.apply (.onFrame (b.receive (q.frame seq).frame).1.frame now) =
          ((q'.frame (seq + 1)).bytes, s') ∧
        Standing image version timing sm' sent' chunk' (q'.frame (seq + 1)) 0 s') :
    Leads (System.step line) (Asking image version timing sm sent chunk q seq B)
      (Asking image version timing sm' sent' chunk' q' (seq + 1) B') := by
  intro sys h
  obtain ⟨n, hn⟩ := leads_answered hline hw sys.board sys.answered _ 0 (Nat.zero_add _) sys
    ⟨h.standing, h.air, rfl, h.lost, .inl rfl⟩
  obtain ⟨s, r, now, hstand, hheard⟩ := hn.heard
  obtain ⟨s', happly, hstand'⟩ := hreact sys.board h.board s r now hstand
  rw [happly] at hheard
  obtain ⟨hair, hsession⟩ := Prod.mk.inj hheard
  exact ⟨n, hsession ▸ hstand', hair, hn.lost, hn.board ▸ hboard _ h.board⟩

/-! ## What the session makes of an answer -/

/-- An `ACK` of the frame in flight. -/
theorem Standing.ack {q : Request} {seq : UInt16}
    (h : Standing image version timing sm sent chunk (q.frame seq) r s) (hw : sm.Waiting)
    (now : Int) :
    s.apply (.onFrame (Reply.ack.frame seq).frame now) = s.dispatch .ack now :=
  OtaSession.apply_ack (h.live hw) rfl h.seq.symm

theorem infoOf_reply (v : UInt32) (bank state : UInt8) (seq : UInt16) :
    infoOf ((Reply.info v bank state).frame seq).frame.payload =
      { version := v, state := state } := by
  have hstate : (leBytes 4 v.toNat ++ [bank, state]).getD kInfoStateAt 0 = state := by
    rw [List.getD_append_right _ _ _ _ (by rw [leBytes_length]; decide), leBytes_length]
    rfl
  change EvInfo.mk (readLittleEndian32 (leBytes 4 v.toNat ++ [bank, state])) _ = _
  rw [readLittleEndian32_leBytes]
  exact congrArg (EvInfo.mk v) hstate

/-- An `INFO`. -/
theorem Standing.info {v : UInt32} {bank state : UInt8} {seq : UInt16}
    (h : Standing image version timing sm sent chunk w r s) (hw : sm.Waiting) (now : Int) :
    s.apply (.onFrame ((Reply.info v bank state).frame seq).frame now) =
      s.dispatch (.info { version := v, state := state }) now := by
  have hlen : ((Reply.info v bank state).frame seq).frame.payload.length = kInfoPayloadBytes := by
    change (leBytes 4 v.toNat ++ [bank, state]).length = _
    rw [List.length_append, leBytes_length]
    rfl
  rw [OtaSession.apply_info (h.live hw) rfl hlen, infoOf_reply]

/-- A row that sends the next request. -/
theorem Standing.asks {q : Request} {e : Event} {now : Int} {c : Context} {within : Int}
    (h : Standing image version timing sm sent chunk w r s)
    (hrow : otaTable { s.ctx with now := now, outbox := [] } sm e =
      some (sm', c.send q.type q.payload within))
    (hkeep : c.failure = s.ctx.failure ∧ c.image = s.ctx.image ∧ c.version = s.ctx.version ∧
      c.timing = s.ctx.timing ∧ c.seq = s.ctx.seq)
    (hsent : c.sentBytes = sent') (hchunk : c.chunkBytes = chunk') :
    ∃ s', s.dispatch e now = ((q.frame (w.frame.seq + 1)).bytes, s') ∧
      Standing image version timing sm' sent' chunk' (q.frame (w.frame.seq + 1)) 0 s' := by
  obtain ⟨hfail, himage, hversion, htiming, hseq⟩ := hkeep
  rw [← h.sm] at hrow
  have hstand : Standing image version timing sm' c.sentBytes c.chunkBytes (q.frame (c.seq + 1)) 0
      ⟨c.send q.type q.payload within, sm'⟩ :=
    standing_send (hfail.trans h.failure) (himage.trans h.image) (hversion.trans h.version)
      (htiming.trans h.timing)
  rw [hsent, hchunk, hseq, h.seq] at hstand
  refine ⟨_, ?_, hstand⟩
  rw [OtaSession.dispatch_row hrow, ← h.seq, ← hseq]
  rfl

/-! ## What the board makes of a request -/

/-- A board with `P` that has not seen the number `seq`. -/
def Next (P : Board → Prop) (seq : UInt16) (b : Board) : Prop := b.Unseen seq ∧ P b

/-- A property that does not look at the memory of numbers. -/
def Forgetful (P : Board → Prop) : Prop := ∀ b last, P b → P { b with last := last }

theorem forgetful_written (n : Nat) : Forgetful (Board.Written image version n) :=
  fun _ _ h => ⟨h.update, h.length, h.content⟩

theorem forgetful_installed (image : Bytes) (version : UInt32) (state : UInt8) :
    Forgetful (Board.Installed image version state) :=
  fun _ _ h => ⟨h.version, h.state, h.content⟩

/-- A request under a new number is carried out once. -/
theorem Next.receive {P P' : Board → Prop} {q : Request} {seq : UInt16} {b : Board} {reply : Reply}
    (h : Next P seq b) (hP' : Forgetful P') (hreply : (b.execute q.type q.payload.1).1 = reply)
    (heffect : P' (b.execute q.type q.payload.1).2) :
    (b.receive (q.frame seq).frame).1 = reply.frame seq ∧
      Next P' (seq + 1) (b.receive (q.frame seq).frame).2 := by
  have hseen : b.Unseen (q.frame seq).frame.seq := h.1
  rw [Board.receive_unseen hseen]
  refine ⟨congrArg (Reply.frame seq) hreply, ?_, hP' _ _ heffect⟩
  exact Board.unseen_of_last rfl (seq_succ_ne seq).symm

/-! ## The script of an update -/

/-- The system with the `k`-th chunk in flight. -/
def SendingChunk (image : Bytes) (version : UInt32) (timing : Timing) (k : Nat)
    (sys : System) : Prop :=
  Asking image version timing .sending (kDataChunkBytes * k)
    (chunkLength image (kDataChunkBytes * k)) (dataReq image k) (UInt16.ofNat (k + 3))
    (Next (Board.Written image version k) (UInt16.ofNat (k + 3))) sys

/-- The system with `COMMIT` in flight. -/
def Committing (image : Bytes) (version : UInt32) (timing : Timing) (seq : UInt16) (sys : System) :
    Prop :=
  Asking image version timing .committing image.length 0 commitReq seq
    (Next (Board.Written image version (chunkCount image)) seq) sys

/-- The board that a session finds: it runs another version, and an answer it keeps for number 1
does not report the target. -/
structure Board.Found (version : UInt32) (b : Board) : Prop where
  version_ne : b.version ≠ version
  memory : ∀ a, b.last = some (1, a) →
    ∃ v bank state, v ≠ version ∧ a = (Reply.info v bank state).frame 1

theorem Board.Found.receive {b : Board} (h : b.Found version) :
    (∃ v bank state, v ≠ version ∧
        (b.receive (infoReq.frame 1).frame).1 = (Reply.info v bank state).frame 1) ∧
      (b.receive (infoReq.frame 1).frame).2.Unseen 2 := by
  by_cases hseen : b.Unseen 1
  · have hreceive := Board.receive_unseen (f := (infoReq.frame 1).frame) hseen
    rw [hreceive]
    exact ⟨⟨b.version, b.bank, b.state, h.version_ne, rfl⟩, Board.unseen_of_last rfl (by decide)⟩
  · obtain ⟨⟨seq, a⟩, hlast, hseq⟩ : ∃ a, b.last = some a ∧ a.1 = 1 := by
      simpa [Board.Unseen] using hseen
    obtain rfl : seq = 1 := hseq
    rw [Board.receive_last (f := (infoReq.frame 1).frame) hlast]
    exact ⟨h.memory a hlast, Board.unseen_of_last hlast (by decide)⟩

/-- From the probe to `BEGIN`. -/
theorem leads_begin (hline : ∀ k, ((line.losses k).length : Int) ≤ timing.resends) :
    Leads (System.step line)
      (Asking image version timing .probing 0 0 infoReq 1 (Board.Found version))
      (Asking image version timing .beginning 0 0 (beginReq image version) 2
        (Board.Unseen · 2)) := by
  refine Asking.answered hline (.inl rfl) (fun b hb => hb.receive.2) ?_
  intro b hb s r now h
  obtain ⟨v, bank, state, hv, hanswer⟩ := hb.receive.1
  rw [hanswer, h.info (.inl rfl)]
  have hneeds : otaTable { s.ctx with now := now, outbox := [] } .probing
      (.info { version := v, state := state }) =
      some (.beginning, kSendBegin { s.ctx with now := now, outbox := [] }
        { version := v, state := state }) := by
    have hne : (v == s.ctx.version) = false := by
      rw [h.version]
      exact beq_eq_false_iff_ne.mpr hv
    simp [otaTable, kIsConfirmedTarget, kIsTrialTarget, kNeedsUpdate, bne, hne]
  have hasks := h.asks (q := beginReq s.ctx.image s.ctx.version) hneeds
    ⟨rfl, rfl, rfl, rfl, rfl⟩ h.sent h.chunk
  rw [h.image, h.version] at hasks
  exact hasks

/-- From `BEGIN` to the first chunk. -/
theorem leads_first_chunk (hne : image ≠ []) (hsize : image.length ≤ kBankBytes)
    (hline : ∀ k, ((line.losses k).length : Int) ≤ timing.resends) :
    Leads (System.step line)
      (Asking image version timing .beginning 0 0 (beginReq image version) 2 (Board.Unseen · 2))
      (SendingChunk image version timing 0) := by
  have hreceive : ∀ b : Board, b.Unseen 2 →
      (b.receive ((beginReq image version).frame 2).frame).1 = Reply.ack.frame 2 ∧
        Next (Board.Written image version 0) (2 + 1)
          (b.receive ((beginReq image version).frame 2).frame).2 := by
    intro b hb
    obtain ⟨hreply, heffect⟩ : (b.execute kBegin (beginPayload image version).1).1 = .ack ∧
        (b.execute kBegin (beginPayload image version).1).2.Written image version 0 :=
      Board.execute_begin hne hsize
    exact Next.receive (P := fun _ => True) ⟨hb, trivial⟩ (forgetful_written 0) hreply heffect
  refine Asking.answered hline (.inr (.inl rfl)) (fun b hb => (hreceive b hb).2) ?_
  intro b hb s r now h
  rw [(hreceive b hb).1, h.ack (.inr (.inl rfl))]
  have hrow : otaTable { s.ctx with now := now, outbox := [] } .beginning .ack =
      some (.sending, kSendFirstChunk { s.ctx with now := now, outbox := [] }) := rfl
  have hasks := h.asks (q := dataReq s.ctx.image 0) hrow ⟨rfl, rfl, rfl, rfl, rfl⟩ rfl rfl
  rw [h.image] at hasks
  exact hasks

theorem next_number (k : Nat) : UInt16.ofNat (k + 3) + 1 = UInt16.ofNat (k + 1 + 3) := by
  rw [show k + 1 + 3 = (k + 3) + 1 from by omega, UInt16.ofNat_add (k + 3)]
  rfl

/-- The board writes the chunk in flight and acknowledges it. -/
theorem written_receive (hsize : image.length ≤ kBankBytes) {k : Nat}
    (hk : kDataChunkBytes * k < image.length) (b : Board)
    (hb : Next (Board.Written image version k) (UInt16.ofNat (k + 3)) b) :
    (b.receive ((dataReq image k).frame (UInt16.ofNat (k + 3))).frame).1 =
        Reply.ack.frame (UInt16.ofNat (k + 3)) ∧
      Next (Board.Written image version (k + 1)) (UInt16.ofNat (k + 3) + 1)
        (b.receive ((dataReq image k).frame (UInt16.ofNat (k + 3))).frame).2 := by
  obtain ⟨hreply, heffect⟩ := Board.execute_data hb.2 hsize hk
  exact hb.receive (forgetful_written (k + 1)) hreply heffect

/-- From one chunk to the next. -/
theorem leads_next_chunk (hsize : image.length ≤ kBankBytes)
    (hline : ∀ k, ((line.losses k).length : Int) ≤ timing.resends) {k : Nat}
    (hk : kDataChunkBytes * (k + 1) < image.length) :
    Leads (System.step line) (SendingChunk image version timing k)
      (SendingChunk image version timing (k + 1)) := by
  have hwait : TableState.sending.Waiting := .inr (.inr (.inl rfl))
  have hthis : kDataChunkBytes * k < image.length := by
    simp only [kDataChunkBytes] at *
    omega
  have hchunk : kDataChunkBytes * k + chunkLength image (kDataChunkBytes * k) =
      kDataChunkBytes * (k + 1) := by
    simp only [chunkLength, kDataChunkBytes] at *
    omega
  unfold SendingChunk
  rw [← next_number]
  refine Asking.answered hline hwait (fun b hb => (written_receive hsize hthis b hb).2) ?_
  intro b hb s r now h
  rw [(written_receive hsize hthis b hb).1, h.ack hwait]
  have hsent : s.ctx.sentBytes + s.ctx.chunkBytes = kDataChunkBytes * (k + 1) := by
    rw [h.sent, h.chunk, hchunk]
  have hrow : otaTable { s.ctx with now := now, outbox := [] } .sending .ack =
      some (.sending, kAckChunkAndSendNext { s.ctx with now := now, outbox := [] }) := by
    have hmore : kMoreToSend { s.ctx with now := now, outbox := [] } = true := by
      refine decide_eq_true ?_
      change s.ctx.sentBytes + s.ctx.chunkBytes < s.ctx.image.length
      rw [hsent, h.image]
      exact hk
    simp only [otaTable, hmore, if_true]
  have hasks := h.asks (q := dataReqAt s.ctx.image (s.ctx.sentBytes + s.ctx.chunkBytes)) hrow
    ⟨rfl, rfl, rfl, rfl, rfl⟩ rfl rfl
  rw [h.image, hsent] at hasks
  exact hasks

/-- From the last chunk to `COMMIT`. -/
theorem leads_commit (hsize : image.length ≤ kBankBytes)
    (hline : ∀ k, ((line.losses k).length : Int) ≤ timing.resends) {k : Nat}
    (hk : kDataChunkBytes * k < image.length) (hlast : chunkCount image = k + 1) :
    Leads (System.step line) (SendingChunk image version timing k)
      (Committing image version timing (UInt16.ofNat (k + 3) + 1)) := by
  have hwait : TableState.sending.Waiting := .inr (.inr (.inl rfl))
  have hchunk : kDataChunkBytes * k + chunkLength image (kDataChunkBytes * k) = image.length := by
    simp only [chunkLength, chunkCount, kDataChunkBytes] at *
    omega
  unfold SendingChunk Committing
  rw [hlast]
  refine Asking.answered hline hwait (fun b hb => (written_receive hsize hk b hb).2) ?_
  intro b hb s r now h
  rw [(written_receive hsize hk b hb).1, h.ack hwait]
  have hsent : s.ctx.sentBytes + s.ctx.chunkBytes = image.length := by
    rw [h.sent, h.chunk, hchunk]
  have hrow : otaTable { s.ctx with now := now, outbox := [] } .sending .ack =
      some (.committing, kAckChunkAndCommit { s.ctx with now := now, outbox := [] }) := by
    have hmore : kMoreToSend { s.ctx with now := now, outbox := [] } = false := by
      refine decide_eq_false ?_
      change ¬ s.ctx.sentBytes + s.ctx.chunkBytes < s.ctx.image.length
      rw [hsent, h.image]
      exact Nat.lt_irrefl _
    have hall : kAllSent { s.ctx with now := now, outbox := [] } = true := by
      refine decide_eq_true ?_
      change s.ctx.image.length ≤ s.ctx.sentBytes + s.ctx.chunkBytes
      rw [hsent, h.image]
    simp [otaTable, hmore, hall]
  exact h.asks (q := commitReq) hrow ⟨rfl, rfl, rfl, rfl, rfl⟩ hsent rfl

/-- The system in the reboot wait: nothing is in flight, and `seq` was the last number. -/
structure Rebooting (image : Bytes) (version : UInt32) (timing : Timing) (seq : UInt16)
    (sys : System) : Prop where
  failure : sys.session.ctx.failure = .none
  sm : sys.session.sm = .rebooting
  image_eq : sys.session.ctx.image = image
  version_eq : sys.session.ctx.version = version
  timing_eq : sys.session.ctx.timing = timing
  sent : sys.session.ctx.sentBytes = image.length
  chunk : sys.session.ctx.chunkBytes = 0
  seq_eq : sys.session.ctx.seq = seq
  waitingOut : sys.session.ctx.waitingOut = true
  air : sys.air = []
  lost : sys.lost = 0
  board : Next (Board.Installed image version kStateTrial) (seq + 1) sys.board

/-- From `COMMIT` to the reboot wait. -/
theorem leads_rebooting (hline : ∀ k, ((line.losses k).length : Int) ≤ timing.resends)
    (seq : UInt16) :
    Leads (System.step line) (Committing image version timing seq)
      (Rebooting image version timing seq) := by
  have hwait : TableState.committing.Waiting := .inr (.inr (.inr (.inl rfl)))
  intro sys h
  obtain ⟨n, hn⟩ := leads_answered hline hwait sys.board sys.answered _ 0 (Nat.zero_add _) sys
    ⟨h.standing, h.air, rfl, h.lost, .inl rfl⟩
  obtain ⟨hreply, heffect⟩ := Board.execute_commit h.board.2
  obtain ⟨hanswer, hboard⟩ := h.board.receive (q := commitReq)
    (forgetful_installed image version kStateTrial) hreply heffect
  obtain ⟨s, r, now, hstand, hheard⟩ := hn.heard
  have hrow : otaTable { s.ctx with now := now, outbox := [] } s.sm .ack =
      some (.rebooting, kWaitOutReboot { s.ctx with now := now, outbox := [] }) := by
    rw [hstand.sm]
    rfl
  rw [hanswer, hstand.ack hwait, OtaSession.dispatch_row hrow] at hheard
  obtain ⟨hair, hsession⟩ := Prod.mk.inj hheard
  refine ⟨n, ?_⟩
  exact {
    failure := by rw [hsession]; exact hstand.failure
    sm := by rw [hsession]
    image_eq := by rw [hsession]; exact hstand.image
    version_eq := by rw [hsession]; exact hstand.version
    timing_eq := by rw [hsession]; exact hstand.timing
    sent := by rw [hsession]; exact hstand.sent
    chunk := by rw [hsession]; exact hstand.chunk
    seq_eq := by rw [hsession]; exact hstand.seq
    waitingOut := by rw [hsession]; rfl
    air := hair
    lost := hn.lost
    board := hn.board ▸ hboard }

/-- The context in which the end of the reboot wait is dispatched. -/
def Context.rebootOver (c : Context) : Context :=
  { c with waitingOut := false, now := c.deadline, outbox := [] }

/-- From the reboot wait to the second probe. -/
theorem leads_recheck (seq : UInt16) :
    Leads (System.step line) (Rebooting image version timing seq)
      (Asking image version timing .rechecking image.length 0 infoReq (seq + 1)
        (Next (Board.Installed image version kStateTrial) (seq + 1))) := by
  refine Leads.of_step fun sys h => ?_
  have hstage : sys.session.stage = .rebooting := by
    rw [OtaSession.stage_of_ok h.failure, h.sm]
    rfl
  have hlive : sys.session.Live := by
    refine ⟨?_, ?_, ?_⟩ <;> rw [hstage] <;> decide
  have hrow : otaTable sys.session.ctx.rebootOver sys.session.sm .rebootDone =
      some (.rechecking, kSendInfoReq sys.session.ctx.rebootOver) := by
    rw [h.sm]
    rfl
  have hdue : sys.session.due = ((kSendInfoReq sys.session.ctx.rebootOver).outbox,
      ⟨kSendInfoReq sys.session.ctx.rebootOver, .rechecking⟩) :=
    (OtaSession.apply_rebootDone hlive (Int.le_refl _) h.waitingOut).trans
      (OtaSession.dispatch_row
        (s := { sys.session with ctx := { sys.session.ctx with waitingOut := false } }) hrow)
  have hstand : Standing image version timing .rechecking sys.session.ctx.sentBytes
      sys.session.ctx.chunkBytes (infoReq.frame (sys.session.ctx.seq + 1)) 0 sys.session.due.2 := by
    rw [hdue]
    exact standing_send (c := sys.session.ctx.rebootOver) h.failure h.image_eq h.version_eq
      h.timing_eq
  have hair : sys.session.due.1 = (infoReq.frame (sys.session.ctx.seq + 1)).bytes := by
    rw [hdue]
    rfl
  rw [h.sent, h.chunk, h.seq_eq] at hstand
  rw [h.seq_eq] at hair
  rw [System.step, if_neg (not_or.mpr hlive.2), if_pos h.air]
  exact ⟨hstand, hair, h.lost, h.board⟩

/-- From the second probe to `CONFIRM`. -/
theorem leads_confirm (hline : ∀ k, ((line.losses k).length : Int) ≤ timing.resends)
    (seq : UInt16) :
    Leads (System.step line)
      (Asking image version timing .rechecking image.length 0 infoReq seq
        (Next (Board.Installed image version kStateTrial) seq))
      (Asking image version timing .confirming image.length 0 confirmReq (seq + 1)
        (Next (Board.Installed image version kStateTrial) (seq + 1))) := by
  have hwait : TableState.rechecking.Waiting := .inr (.inr (.inr (.inr (.inl rfl))))
  have hreceive : ∀ b : Board, Next (Board.Installed image version kStateTrial) seq b →
      (b.receive (infoReq.frame seq).frame).1 = (Reply.info b.version b.bank b.state).frame seq ∧
        Next (Board.Installed image version kStateTrial) (seq + 1)
          (b.receive (infoReq.frame seq).frame).2 := by
    intro b hb
    exact hb.receive (q := infoReq) (forgetful_installed image version kStateTrial) rfl hb.2
  refine Asking.answered hline hwait (fun b hb => (hreceive b hb).2) ?_
  intro b hb s r now h
  rw [(hreceive b hb).1, h.info hwait]
  have hrow : otaTable { s.ctx with now := now, outbox := [] } .rechecking
      (.info { version := b.version, state := b.state }) =
      some (.confirming, kSendConfirm { s.ctx with now := now, outbox := [] }
        { version := b.version, state := b.state }) := by
    have htarget : (b.version == s.ctx.version) = true := by
      rw [h.version, hb.2.version]
      exact beq_self_eq_true version
    simp [otaTable, kIsTargetVersion, htarget]
  exact h.asks (q := confirmReq) hrow ⟨rfl, rfl, rfl, rfl, rfl⟩ h.sent h.chunk

/-- The update has gone through. -/
def Delivered (image : Bytes) (version : UInt32) (sys : System) : Prop :=
  sys.session.stage = .done ∧ sys.board.Installed image version kStateConfirmed

/-- From `CONFIRM` to the end. -/
theorem leads_delivered (hline : ∀ k, ((line.losses k).length : Int) ≤ timing.resends)
    (seq : UInt16) :
    Leads (System.step line)
      (Asking image version timing .confirming image.length 0 confirmReq seq
        (Next (Board.Installed image version kStateTrial) seq))
      (Delivered image version) := by
  have hwait : TableState.confirming.Waiting := .inr (.inr (.inr (.inr (.inr rfl))))
  intro sys h
  obtain ⟨n, hn⟩ := leads_answered hline hwait sys.board sys.answered _ 0 (Nat.zero_add _) sys
    ⟨h.standing, h.air, rfl, h.lost, .inl rfl⟩
  obtain ⟨hreply, heffect⟩ := Board.execute_confirm h.board.2
  obtain ⟨hanswer, hboard⟩ := h.board.receive (q := confirmReq)
    (forgetful_installed image version kStateConfirmed) hreply heffect
  obtain ⟨s, r, now, hstand, hheard⟩ := hn.heard
  have hrow : otaTable { s.ctx with now := now, outbox := [] } s.sm .ack =
      some (.done, kFinish { s.ctx with now := now, outbox := [] }) := by
    rw [hstand.sm]
    rfl
  rw [hanswer, hstand.ack hwait, OtaSession.dispatch_row hrow] at hheard
  obtain ⟨-, hsession⟩ := Prod.mk.inj hheard
  refine ⟨n, ?_, hn.board ▸ hboard.2⟩
  rw [hsession]
  exact OtaSession.stage_of_ok hstand.failure

/-- The started session has its first probe in flight. -/
theorem asking_initial (hne : image ≠ []) {board : Board} (hboard : board.Found version)
    (now : Int) :
    Asking image version timing .probing 0 0 infoReq 1 (Board.Found version)
      (System.initial image version timing board now) := by
  have hstart : (OtaSession.new image version timing).apply (.start now) =
      ((kSendInfoReq { image := image, version := version, timing := timing, now := now }).outbox,
        ⟨kSendInfoReq { image := image, version := version, timing := timing, now := now },
          .probing⟩) := by
    cases image with
    | nil => exact absurd rfl hne
    | cons _ _ => rfl
  have hstand : Standing image version timing .probing 0 0 (infoReq.frame 1) 0
      (System.initial image version timing board now).session := by
    rw [System.initial, hstart]
    exact standing_send (c := { image := image, version := version, timing := timing, now := now })
      rfl rfl rfl rfl
  refine ⟨hstand, ?_, rfl, hboard⟩
  rw [System.initial, hstart]
  rfl

/-- A system whose session has finished stays as it is. -/
theorem step_done {sys : System} (h : sys.session.stage = .done) : sys.step line = sys :=
  if_pos (.inl h)

theorem step_failed {sys : System} (h : sys.session.stage = .failed) : sys.step line = sys :=
  if_pos (.inr h)

end

/-- End-to-end delivery.  Over a line that loses at most `timing.resends`
exchanges of each frame, the session and a board that runs another version end
with the session done, the image confirmed under its version, and the bank that
holds it equal to the image up to the announced size. -/
theorem delivery (image : Bytes) (version : UInt32) (timing : Timing) (board : Board) (line : Line)
    (now : Int) (hne : image ≠ []) (hsize : image.length ≤ kBankBytes)
    (hboard : board.Found version)
    (hline : ∀ k, ((line.losses k).length : Int) ≤ timing.resends) :
    ∃ n, ∀ m, n ≤ m →
      ((System.step line)^[m] (System.initial image version timing board now)).session.stage =
          .done ∧
        ((System.step line)^[m] (System.initial image version timing board now)).board.Installed
          image version kStateConfirmed := by
  obtain ⟨k, hk⟩ : ∃ k, chunkCount image = k + 1 := by
    have hpos := List.length_pos_iff.mpr hne
    refine ⟨chunkCount image - 1, ?_⟩
    simp only [chunkCount, kDataChunkBytes]
    omega
  have hlast : kDataChunkBytes * k < image.length := lt_of_lt_chunkCount (by omega)
  have hchunks : Leads (System.step line) (SendingChunk image version timing 0)
      (SendingChunk image version timing k) := by
    refine Leads.loop k fun i hi => leads_next_chunk hsize hline ?_
    exact Nat.lt_of_le_of_lt (Nat.mul_le_mul_left _ hi) hlast
  have hscript := (leads_begin hline).trans <| (leads_first_chunk hne hsize hline).trans <|
    hchunks.trans <| (leads_commit hsize hline hlast hk).trans <|
    (leads_rebooting hline _).trans <| (leads_recheck _).trans <|
    (leads_confirm hline _).trans (leads_delivered hline _)
  obtain ⟨n, hn⟩ := hscript _ (asking_initial hne hboard now)
  refine ⟨n, fun m hm => ?_⟩
  obtain ⟨d, rfl⟩ := Nat.exists_eq_add_of_le' hm
  rw [Function.iterate_add_apply, Function.iterate_fixed (step_done hn.1)]
  exact hn

/-- One byte for a board that runs version 1, over a line that loses the third
request and then the answer to it. -/
theorem delivery_one_byte :
    ∃ n, ∀ m, n ≤ m →
      ((System.step ⟨fun k => if k = 2 then [.request, .answer] else [], fun k => 10 * k⟩)^[m]
          (System.initial [0x11] 2 {}
            ⟨1, 1, kStateConfirmed, [], [], none, none⟩ 0)).session.stage = .done ∧
        ((System.step ⟨fun k => if k = 2 then [.request, .answer] else [], fun k => 10 * k⟩)^[m]
          (System.initial [0x11] 2 {}
            ⟨1, 1, kStateConfirmed, [], [], none, none⟩ 0)).board.Installed
              [0x11] 2 kStateConfirmed :=
  delivery [0x11] 2 {} ⟨1, 1, kStateConfirmed, [], [], none, none⟩
    ⟨fun k => if k = 2 then [.request, .answer] else [], fun k => 10 * k⟩ 0 (by decide) (by decide)
    ⟨by decide, fun _ h => nomatch h⟩ (fun k => by dsimp only; split <;> decide)

/-- A board on trial with version 2 has answered a probe, was never confirmed, and
has gone back to version 1. -/
def rolledBack : Board :=
  ((⟨2, 2, kStateTrial, [0x11], [], none, none⟩ : Board).receive (infoReq.frame 1).frame).2.rollBack
    1

/-- A line that loses nothing. -/
def losslessLine : Line := ⟨fun _ => [], fun k => 10 * k⟩

/-- The first probe of a new session has the number of the old one, so the board answers it
with what it reported on trial.  The session confirms an image that no longer runs, and the
board refuses. -/
theorem rolledBack_not_delivered :
    rolledBack.version ≠ 2 ∧ (∀ k, ((losslessLine.losses k).length : Int) ≤ ({} : Timing).resends) ∧
      ((System.step losslessLine)^[2]
        (System.initial [0x11] 2 {} rolledBack 0)).session.ctx.failure = .boardRefused ∧
      ¬ ∃ n, ∀ m, n ≤ m →
        ((System.step losslessLine)^[m] (System.initial [0x11] 2 {} rolledBack 0)).session.stage =
            .done ∧
          ((System.step losslessLine)^[m] (System.initial [0x11] 2 {} rolledBack 0)).board.Installed
            [0x11] 2 kStateConfirmed := by
  have hfailed : ((System.step losslessLine)^[2]
      (System.initial [0x11] 2 {} rolledBack 0)).session.stage = .failed := by
    decide +kernel
  refine ⟨by decide, fun _ => (by decide : (0 : Int) ≤ 3), by decide +kernel, ?_⟩
  rintro ⟨n, hn⟩
  have hdone := (hn (n + 2) (Nat.le_add_right n 2)).1
  rw [Function.iterate_add_apply, Function.iterate_fixed (step_failed hfailed), hfailed] at hdone
  cases hdone

end Ota
