import IndustrialHmi.Integration.OtaTransfer

/-!
# The board, as the protocol document describes it

This is not code of the repository: the board's firmware lives elsewhere.  It is
the behaviour that sections 4 to 7 of the protocol ask of the other end of the
line, as an abstract machine to run the session against.

A board runs an image from one of its two banks and keeps the other one for an
update.  `Board.execute` checks a message in the order of section 4 (its shape,
then whether it is allowed now, then its content) and carries it out.
`Board.receive` puts the memory of the last message number in front of it, which
the board keeps over its own reset: a repeated message is answered again and has no
second effect.
-/

namespace Ota

open LittleEndian Flash

/-! ## Codes and sizes of section 4 -/

def kAbort : UInt8 := 0x06

def kNakBadState : UInt8 := 0x02
def kNakTooLarge : UInt8 := 0x03
def kNakBadOffset : UInt8 := 0x04
def kNakVerifyFailed : UInt8 := 0x06
def kNakBadMessage : UInt8 := 0x07

/-- `BEGIN` payload: size u32, CRC-32 u32, version u32. -/
def kBeginPayloadBytes : Nat := 12

/-- The largest image: one bank of 512 KB less its last page. -/
def kBankBytes : Nat := 522240

/-! ## The board -/

/-- What `BEGIN` announced, and how far the writing has got. -/
structure Announced where
  size : Nat
  crc : UInt32
  version : UInt32
  written : Nat
deriving DecidableEq

/-- A board: what it runs and reports, its two banks, the update under way, and the
last message it carried out, with the answer. -/
structure Board where
  version : UInt32
  bank : UInt8
  state : UInt8
  running : Bytes
  spare : Bytes
  update : Option Announced
  last : Option (UInt16 × WireFrame)

/-- What the board says to a message. -/
inductive Reply where
  | info (version : UInt32) (bank state : UInt8)
  | ack
  | nak (code : UInt8)

/-- The frame of a reply, with the number of the message. -/
def Reply.frame (seq : UInt16) : Reply → WireFrame
  | .info version bank state =>
      ⟨{ type := kInfo, seq := seq, payload := leBytes 4 version.toNat ++ [bank, state] }, by
        rw [List.length_append, leBytes_length]
        change 6 ≤ kFlashMaxPayloadBytes
        decide⟩
  | .ack => ⟨{ type := kAck, seq := seq }, Nat.zero_le _⟩
  | .nak code => ⟨{ type := kNak, seq := seq, payload := [code] }, by
      change 1 ≤ kFlashMaxPayloadBytes
      decide⟩

/-- Erase the spare bank for an announced image. -/
def Board.begin_ (b : Board) (payload : Bytes) : Reply × Board :=
  let size := (readLittleEndian32 payload).toNat
  if payload.length ≠ kBeginPayloadBytes ∨ size = 0 then (.nak kNakBadMessage, b)
  else if size > kBankBytes then (.nak kNakTooLarge, b)
  else
    (.ack, { b with
      spare := List.replicate kBankBytes kErasedByte
      update := some
        { size := size
          crc := readLittleEndian32 (payload.drop 4)
          version := readLittleEndian32 (payload.drop 8)
          written := 0 } })

/-- Write bytes at their offset, unless they leave a gap or do not belong to the image. -/
def Board.data (b : Board) (payload : Bytes) : Reply × Board :=
  let offset := (readLittleEndian32 payload).toNat
  let bytes := payload.drop 4
  if bytes = [] ∨ bytes.length % kFlashWordBytes ≠ 0 then (.nak kNakBadMessage, b)
  else
    match b.update with
    | none => (.nak kNakBadState, b)
    | some u =>
        if offset ≠ u.written ∨ u.size + paddingBytes u.size < offset + bytes.length then
          (.nak kNakBadOffset, b)
        else
          (.ack, { b with
            spare := b.spare.take offset ++ bytes ++ b.spare.drop (offset + bytes.length)
            update := some { u with written := offset + bytes.length } })

/-- Check the image and start it on trial from the bank it was written to. -/
def Board.commit (b : Board) (payload : Bytes) : Reply × Board :=
  if payload ≠ [] then (.nak kNakBadMessage, b)
  else
    match b.update with
    | none => (.nak kNakBadState, b)
    | some u =>
        if crc32IsoHdlc (b.spare.take u.size) ≠ u.crc then
          (.nak kNakVerifyFailed, { b with update := none })
        else
          (.ack, { b with
            version := u.version
            bank := if b.bank = 1 then 2 else 1
            state := kStateTrial
            running := b.spare
            spare := b.running
            update := none })

/-- Keep the image on trial. -/
def Board.confirm (b : Board) (payload : Bytes) : Reply × Board :=
  if payload ≠ [] then (.nak kNakBadMessage, b)
  else if b.state ≠ kStateTrial then (.nak kNakBadState, b)
  else (.ack, { b with state := kStateConfirmed })

/-- No `CONFIRM` arrived in time: back to the old bank, which holds `version`, by itself.  The
memory of numbers stays. -/
def Board.rollBack (b : Board) (version : UInt32) : Board :=
  { b with
    version := version
    bank := if b.bank = 1 then 2 else 1
    state := kStateConfirmed
    running := b.spare
    spare := b.running }

/-- Carry out a message. -/
def Board.execute (b : Board) (type : UInt8) (payload : Bytes) : Reply × Board :=
  if type = kInfoReq then
    if payload ≠ [] then (.nak kNakBadMessage, b) else (.info b.version b.bank b.state, b)
  else if type = kBegin then b.begin_ payload
  else if type = kData then b.data payload
  else if type = kCommit then b.commit payload
  else if type = kConfirm then b.confirm payload
  else if type = kAbort then (.ack, { b with update := none })
  else (.nak kNakBadMessage, b)

theorem Board.execute_kBegin (b : Board) (payload : Bytes) :
    b.execute kBegin payload = b.begin_ payload := by
  rw [Board.execute, if_neg (by decide), if_pos rfl]

theorem Board.execute_kData (b : Board) (payload : Bytes) :
    b.execute kData payload = b.data payload := by
  rw [Board.execute, if_neg (by decide), if_neg (by decide), if_pos rfl]

theorem Board.execute_kCommit (b : Board) (payload : Bytes) :
    b.execute kCommit payload = b.commit payload := by
  rw [Board.execute, if_neg (by decide), if_neg (by decide), if_neg (by decide), if_pos rfl]

theorem Board.execute_kConfirm (b : Board) (payload : Bytes) :
    b.execute kConfirm payload = b.confirm payload := by
  rw [Board.execute, if_neg (by decide), if_neg (by decide), if_neg (by decide),
    if_neg (by decide), if_pos rfl]

/-- Carry out a message under a new number. -/
def Board.receiveNew (b : Board) (f : FlashFrame) : WireFrame × Board :=
  let r := b.execute f.type f.payload
  (r.1.frame f.seq, { r.2 with last := some (f.seq, r.1.frame f.seq) })

/-- Answer a message, again if its number is the last one carried out. -/
def Board.receive (b : Board) (f : FlashFrame) : WireFrame × Board :=
  match b.last with
  | some (seq, answer) => if seq = f.seq then (answer, b) else b.receiveNew f
  | none => b.receiveNew f

/-- Bytes from the line: the answers to the frames in them. -/
def Board.onBytes (b : Board) (bytes : Bytes) : Bytes × Board :=
  (decoded bytes).foldl
    (fun (out, b) f => (out ++ (b.receive f).1.bytes, (b.receive f).2)) ([], b)

theorem Board.onBytes_frame (b : Board) (w : WireFrame) :
    b.onBytes w.bytes = ((b.receive w.frame).1.bytes, (b.receive w.frame).2) := by
  rw [Board.onBytes, w.decoded_bytes]
  rfl

/-! ## The memory of numbers -/

section

variable {b : Board} {f : FlashFrame}

/-- The board has not carried out a message under this number. -/
def Board.Unseen (b : Board) (seq : UInt16) : Prop := ∀ a, b.last = some a → a.1 ≠ seq

theorem Board.receive_unseen (h : b.Unseen f.seq) : b.receive f = b.receiveNew f := by
  unfold Board.receive
  split
  · next seq answer hlast => exact if_neg (h _ hlast)
  · rfl

theorem Board.receive_last {answer : WireFrame} (h : b.last = some (f.seq, answer)) :
    b.receive f = (answer, b) := by
  unfold Board.receive
  rw [h]
  exact if_pos rfl

/-- A message that is repeated is answered again, without a second effect. -/
theorem Board.receive_again (b : Board) (f : FlashFrame) :
    (b.receive f).2.receive f = b.receive f := by
  by_cases h : b.Unseen f.seq
  · rw [Board.receive_unseen h]
    exact Board.receive_last rfl
  · obtain ⟨⟨seq, answer⟩, hlast, hseq⟩ : ∃ a, b.last = some a ∧ a.1 = f.seq := by
      simpa [Board.Unseen] using h
    obtain rfl : seq = f.seq := hseq
    rw [Board.receive_last hlast, Board.receive_last hlast]

/-- The next number is unseen by a board that has carried out the last one. -/
theorem Board.unseen_of_last {seq seq' : UInt16} {answer : WireFrame}
    (h : b.last = some (seq, answer)) (hne : seq ≠ seq') : b.Unseen seq' := by
  intro a ha
  obtain rfl := Option.some.inj (h.symm.trans ha)
  exact hne

end

/-! ## The requests of an update -/

section

variable {image : Bytes} {version : UInt32} {b : Board}

/-- Bytes written behind the first `n` chunks, padding included. -/
def writtenAfter (image : Bytes) (n : Nat) : Nat :=
  min (kDataChunkBytes * n) (image.length + paddingBytes image.length)

/-- The update to this image is under way, and its first `n` chunks are in the spare bank. -/
structure Board.Written (image : Bytes) (version : UInt32) (n : Nat) (b : Board) : Prop where
  update : b.update = some
    { size := image.length
      crc := crc32IsoHdlc image
      version := version
      written := writtenAfter image n }
  length : b.spare.length = kBankBytes
  content : b.spare.take (min (kDataChunkBytes * n) image.length) = image.take (kDataChunkBytes * n)

/-- The board runs this image under this version, in this state. -/
structure Board.Installed (image : Bytes) (version : UInt32) (state : UInt8) (b : Board) :
    Prop where
  version : b.version = version
  state : b.state = state
  content : b.running.take image.length = image

theorem beginPayload_fields :
    (beginPayload image version).1 = leBytes 4 (UInt32.ofNat image.length).toNat ++
      (leBytes 4 (crc32IsoHdlc image).toNat ++ leBytes 4 version.toNat) := by
  simp only [beginPayload, appendLittleEndian32_eq, List.nil_append, List.append_assoc]

theorem Board.execute_begin (hne : image ≠ []) (hsize : image.length ≤ kBankBytes) :
    (b.execute kBegin (beginPayload image version).1).1 = .ack ∧
      (b.execute kBegin (beginPayload image version).1).2.Written image version 0 := by
  have hlength : (UInt32.ofNat image.length).toNat = image.length := by
    rw [UInt32.toNat_ofNat']
    simp only [kBankBytes] at hsize
    omega
  have hpos := List.length_pos_iff.mpr hne
  have hsizeField : readLittleEndian32 (beginPayload image version).1 =
      UInt32.ofNat image.length := by
    rw [beginPayload_fields, readLittleEndian32_leBytes]
  have hcrcField : readLittleEndian32 ((beginPayload image version).1.drop 4) =
      crc32IsoHdlc image := by
    rw [beginPayload_fields, List.drop_left' (leBytes_length _ _), readLittleEndian32_leBytes]
  have hversionField : readLittleEndian32 ((beginPayload image version).1.drop 8) = version := by
    have hdrop : (beginPayload image version).1.drop 8 = leBytes 4 version.toNat ++ [] := by
      rw [beginPayload_fields, ← List.append_assoc, List.append_nil]
      exact List.drop_left' (by rw [List.length_append, leBytes_length, leBytes_length])
    rw [hdrop, readLittleEndian32_leBytes]
  have hshape : ¬ ((beginPayload image version).1.length ≠ kBeginPayloadBytes ∨
      (readLittleEndian32 (beginPayload image version).1).toNat = 0) := by
    rw [hsizeField, hlength, beginPayload_fields]
    simp only [List.length_append, leBytes_length, kBeginPayloadBytes]
    omega
  have hfits : ¬ (readLittleEndian32 (beginPayload image version).1).toNat > kBankBytes := by
    rw [hsizeField, hlength]
    omega
  have hexecute : b.execute kBegin (beginPayload image version).1 =
      (.ack, { b with
        spare := List.replicate kBankBytes kErasedByte
        update := some
          { size := image.length, crc := crc32IsoHdlc image, version := version,
            written := 0 } }) := by
    rw [Board.execute_kBegin]
    unfold Board.begin_
    rw [if_neg hshape, if_neg hfits, hsizeField, hlength, hcrcField, hversionField]
  rw [hexecute]
  refine ⟨rfl, ?_, List.length_replicate, rfl⟩
  simp [writtenAfter]

/-- What a bank holds after a write, up to the end of what was written. -/
theorem take_write {spare bytes : Bytes} {offset m : Nat} (hoffset : offset ≤ spare.length)
    (hm : m ≤ bytes.length) (rest : Bytes) :
    (spare.take offset ++ bytes ++ rest).take (offset + m) = spare.take offset ++ bytes.take m := by
  have hlength : (spare.take offset).length = offset := List.length_take_of_le hoffset
  rw [List.append_assoc, List.take_append, hlength, Nat.add_sub_cancel_left,
    List.take_of_length_le (by rw [hlength]; omega), List.take_append_of_le_length hm]

theorem padded_length (chunk : Bytes) :
    (padded chunk).length = chunk.length + paddingBytes chunk.length := by
  rw [padded, List.length_append, List.length_replicate]

theorem chunkAt_length (image : Bytes) (n : Nat) :
    (chunkAt image n).length = chunkLength image (kDataChunkBytes * n) := by
  rw [chunkAt, List.length_take, List.length_drop, chunkLength]

/-- The chunk at an offset ends where the next one starts, or at the padding. -/
theorem writtenAfter_succ {n : Nat} (hn : kDataChunkBytes * n < image.length) :
    kDataChunkBytes * n + (padded (chunkAt image n)).length = writtenAfter image (n + 1) := by
  rw [padded_length, chunkAt_length]
  simp only [writtenAfter, chunkLength, paddingBytes, kDataChunkBytes, kFlashWordBytes] at *
  omega

theorem writtenAfter_of_lt {n : Nat} (hn : kDataChunkBytes * n < image.length) :
    writtenAfter image n = kDataChunkBytes * n := by
  simp only [writtenAfter]
  omega

theorem Board.execute_data {n : Nat} (h : b.Written image version n)
    (hsize : image.length ≤ kBankBytes) (hn : kDataChunkBytes * n < image.length) :
    (b.execute kData (dataReq image n).payload.1).1 = .ack ∧
      (b.execute kData (dataReq image n).payload.1).2.Written image version (n + 1) := by
  have hoffset : (readLittleEndian32 (dataReq image n).payload.1).toNat = kDataChunkBytes * n := by
    rw [dataReq_payload, readLittleEndian32_leBytes, UInt32.toNat_ofNat']
    simp only [kBankBytes, kDataChunkBytes] at *
    omega
  have hbytes : (dataReq image n).payload.1.drop 4 = padded (chunkAt image n) := by
    rw [dataReq_payload]
    exact List.drop_left' (leBytes_length _ _)
  have hlength := padded_length (chunkAt image n)
  rw [chunkAt_length] at hlength
  have hshape : ¬ (padded (chunkAt image n) = [] ∨
      (padded (chunkAt image n)).length % kFlashWordBytes ≠ 0) := by
    rw [← List.length_eq_zero_iff, hlength]
    simp only [chunkLength, paddingBytes, kDataChunkBytes, kFlashWordBytes] at *
    omega
  have hnext := writtenAfter_succ hn
  have hplace : ¬ (kDataChunkBytes * n ≠ writtenAfter image n ∨
      image.length + paddingBytes image.length <
        kDataChunkBytes * n + (padded (chunkAt image n)).length) := by
    rw [hnext, writtenAfter_of_lt hn]
    simp only [writtenAfter]
    omega
  have hexecute : b.execute kData (dataReq image n).payload.1 =
      (.ack, { b with
        spare := b.spare.take (kDataChunkBytes * n) ++ padded (chunkAt image n) ++
          b.spare.drop (kDataChunkBytes * n + (padded (chunkAt image n)).length)
        update := some
          { size := image.length
            crc := crc32IsoHdlc image
            version := version
            written := writtenAfter image (n + 1) } }) := by
    rw [Board.execute_kData]
    unfold Board.data
    rw [hoffset, hbytes, if_neg hshape, h.update]
    simp only
    rw [if_neg hplace, hnext]
  rw [hexecute]
  have hbank : kDataChunkBytes * n + (padded (chunkAt image n)).length ≤ kBankBytes := by
    rw [hnext]
    simp only [writtenAfter, paddingBytes, kBankBytes, kFlashWordBytes] at *
    omega
  refine ⟨rfl, rfl, ?_, ?_⟩
  · change (_ ++ _ ++ _ : Bytes).length = _
    rw [List.length_append, List.length_append, List.length_drop, List.length_take, h.length]
    omega
  · -- what was there, then the chunk without its padding
    have hend : min (kDataChunkBytes * (n + 1)) image.length =
        kDataChunkBytes * n + (chunkAt image n).length := by
      rw [chunkAt_length]
      simp only [chunkLength, kDataChunkBytes] at *
      omega
    have hbefore : b.spare.take (kDataChunkBytes * n) = image.take (kDataChunkBytes * n) := by
      have hcontent := h.content
      rw [Nat.min_eq_left (Nat.le_of_lt hn)] at hcontent
      exact hcontent
    change (_ ++ _ ++ _ : Bytes).take _ = _
    rw [hend, take_write (by rw [h.length]; omega) (by rw [padded_length]; omega), hbefore, padded,
      List.take_left, Nat.mul_succ, List.take_add, chunkAt]

theorem Board.execute_commit (h : b.Written image version (chunkCount image)) :
    (b.execute kCommit []).1 = .ack ∧
      (b.execute kCommit []).2.Installed image version kStateTrial := by
  have hlength := length_le_chunkCount image
  have hcontent : b.spare.take image.length = image := by
    have hcontent := h.content
    rw [Nat.min_eq_right hlength, List.take_of_length_le hlength] at hcontent
    exact hcontent
  have hexecute : b.execute kCommit [] =
      (.ack, { b with
        version := version
        bank := if b.bank = 1 then 2 else 1
        state := kStateTrial
        running := b.spare
        spare := b.running
        update := none }) := by
    rw [Board.execute_kCommit]
    unfold Board.commit
    rw [if_neg (not_not.mpr rfl), h.update]
    simp only
    rw [hcontent, if_neg (not_not.mpr rfl)]
  rw [hexecute]
  exact ⟨rfl, rfl, rfl, hcontent⟩

theorem Board.execute_confirm (h : b.Installed image version kStateTrial) :
    (b.execute kConfirm []).1 = .ack ∧
      (b.execute kConfirm []).2.Installed image version kStateConfirmed := by
  have hexecute : b.execute kConfirm [] = (.ack, { b with state := kStateConfirmed }) := by
    rw [Board.execute_kConfirm]
    unfold Board.confirm
    rw [if_neg (not_not.mpr rfl), if_neg (not_not.mpr h.state)]
  rw [hexecute]
  exact ⟨rfl, h.version, rfl, h.content⟩

end

end Ota
