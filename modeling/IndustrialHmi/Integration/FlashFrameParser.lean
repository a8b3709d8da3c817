import IndustrialHmi.Theory.Scanner
import IndustrialHmi.Integration.FlashFrame

/-!
# The frame parser

`FlashFrameParser.consume` splits the serial byte stream into flash frames and
the telemetry text around them.  `consumeLoop` is its loop, on the same work
buffer and position as in the source.

What the loop decides at one position depends only on the bytes from there on,
and on no more of them than it reads.  `flashScanner` states this as an
incremental scanner with three tokens: a text byte, a whole frame, and a false
start, which is the `0xA5` that the resync rule drops.  `consume_eq` says that a
call of `consume` is one run of this scanner over the held and the new bytes.
-/

namespace Flash

open LittleEndian Incremental

/-- What one `consume` call separated out of the stream. -/
structure FlashStreamOutput where
  /-- Whole frames whose CRC matched, in arrival order. -/
  frames : List FlashFrame := []
  /-- Every byte outside a frame, in arrival order. -/
  text : Bytes := []
deriving DecidableEq, Repr

/-- The parser between two calls. -/
structure FlashFrameParser where
  /-- The bytes of an unfinished frame. -/
  buffer : Bytes := []
  /-- CRC mismatches plus impossible `LEN` values so far. -/
  falseStarts : Nat := 0
deriving DecidableEq, Repr

/-- Field offsets inside a frame, counted from the start byte. -/
def kTypeOffset : Nat := 1
def kSeqOffset : Nat := 2
def kLenOffset : Nat := 4

/-- The loop of `consume`: the output, the false starts and the position at
which it ends. -/
def consumeLoop (work : Bytes) (pos : Nat) (out : FlashStreamOutput) (falseStarts : Nat) :
    FlashStreamOutput × Nat × Nat :=
  if hpos : pos < work.length then
    if work[pos] ≠ kFlashStartByte then
      -- Outside a frame every byte is telemetry text.
      consumeLoop work (pos + 1) { out with text := out.text ++ [work[pos]] } falseStarts
    else
      let available := work.length - pos
      if available < kFlashHeaderBytes then (out, falseStarts, pos)
      else
        let len := (readLittleEndian work (pos + kLenOffset)).toNat
        if len > kFlashMaxPayloadBytes then consumeLoop work (pos + 1) out (falseStarts + 1)
        else
          let total := kFlashHeaderBytes + len + kFlashTrailerBytes
          if available < total then (out, falseStarts, pos)
          else
            let crcOffset := pos + kFlashHeaderBytes + len
            let received := readLittleEndian work crcOffset
            let computed :=
              crc16CcittFalse ((work.drop (pos + kTypeOffset)).take (crcOffset - pos - 1))
            if received ≠ computed then consumeLoop work (pos + 1) out (falseStarts + 1)
            else
              let frame : FlashFrame :=
                { type := work.getD (pos + kTypeOffset) 0
                  seq := readLittleEndian work (pos + kSeqOffset)
                  payload := (work.drop (pos + kFlashHeaderBytes)).take len }
              consumeLoop work (pos + total) { out with frames := out.frames ++ [frame] }
                falseStarts
  else (out, falseStarts, pos)
termination_by work.length - pos
decreasing_by
  all_goals
    have hheader : 0 < kFlashHeaderBytes := by decide
    omega

/-- Feed a freshly read chunk. -/
def FlashFrameParser.consume (p : FlashFrameParser) (bytes : Bytes) :
    FlashStreamOutput × FlashFrameParser :=
  let work := p.buffer ++ bytes
  let (out, falseStarts, pos) := consumeLoop work 0 {} p.falseStarts
  (out, { buffer := work.drop pos, falseStarts := falseStarts })

/-! ## One turn of the loop as a scanner -/

/-- What one turn of the loop takes off the stream. -/
inductive Token where
  /-- A byte of telemetry text. -/
  | text (b : UInt8)
  /-- A whole frame. -/
  | frame (f : FlashFrame)
  /-- A start byte that did not start a frame. -/
  | falseStart
deriving DecidableEq, Repr

/-- The bytes a token stands for. -/
def Token.bytes : Token → Bytes
  | .text b => [b]
  | .frame f => frameBytes f
  | .falseStart => [kFlashStartByte]

/-- The frame whose fields stand at the front of `rest`, with a payload of `len` bytes. -/
def frameAt (rest : Bytes) (len : Nat) : FlashFrame :=
  { type := rest.getD kTypeOffset 0
    seq := readLittleEndian rest kSeqOffset
    payload := (rest.drop kFlashHeaderBytes).take len }

/-- One turn of the loop at the front of `rest`. -/
def nextToken : Bytes → Option (Token × Nat)
  | [] => none
  | b :: rest =>
      if b ≠ kFlashStartByte then some (.text b, 1)
      else if (b :: rest).length < kFlashHeaderBytes then none
      else
        let len := (readLittleEndian (b :: rest) kLenOffset).toNat
        if len > kFlashMaxPayloadBytes then some (.falseStart, 1)
        else if (b :: rest).length < kFlashHeaderBytes + len + kFlashTrailerBytes then none
        else if readLittleEndian (b :: rest) (kFlashHeaderBytes + len) ≠
            crc16CcittFalse (rest.take (kFlashHeaderBytes + len - 1)) then some (.falseStart, 1)
        else some (.frame (frameAt (b :: rest) len), kFlashHeaderBytes + len + kFlashTrailerBytes)

/-- Everything a turn of the loop can be, with the tests that led there. -/
inductive Turn : Bytes → Option (Token × Nat) → Prop where
  | done : Turn [] none
  | text {b rest} : b ≠ kFlashStartByte → Turn (b :: rest) (some (.text b, 1))
  | shortHeader {rest} : (kFlashStartByte :: rest).length < kFlashHeaderBytes →
      Turn (kFlashStartByte :: rest) none
  | badLength {rest} : ¬ (kFlashStartByte :: rest).length < kFlashHeaderBytes →
      (readLittleEndian (kFlashStartByte :: rest) kLenOffset).toNat > kFlashMaxPayloadBytes →
      Turn (kFlashStartByte :: rest) (some (.falseStart, 1))
  | shortBody {rest len} : ¬ (kFlashStartByte :: rest).length < kFlashHeaderBytes →
      (readLittleEndian (kFlashStartByte :: rest) kLenOffset).toNat = len →
      len ≤ kFlashMaxPayloadBytes →
      (kFlashStartByte :: rest).length < kFlashHeaderBytes + len + kFlashTrailerBytes →
      Turn (kFlashStartByte :: rest) none
  | badCrc {rest len} : (readLittleEndian (kFlashStartByte :: rest) kLenOffset).toNat = len →
      len ≤ kFlashMaxPayloadBytes →
      kFlashHeaderBytes + len + kFlashTrailerBytes ≤ (kFlashStartByte :: rest).length →
      readLittleEndian (kFlashStartByte :: rest) (kFlashHeaderBytes + len) ≠
        crc16CcittFalse (rest.take (kFlashHeaderBytes + len - 1)) →
      Turn (kFlashStartByte :: rest) (some (.falseStart, 1))
  | frame {rest len} : (readLittleEndian (kFlashStartByte :: rest) kLenOffset).toNat = len →
      len ≤ kFlashMaxPayloadBytes →
      kFlashHeaderBytes + len + kFlashTrailerBytes ≤ (kFlashStartByte :: rest).length →
      readLittleEndian (kFlashStartByte :: rest) (kFlashHeaderBytes + len) =
        crc16CcittFalse (rest.take (kFlashHeaderBytes + len - 1)) →
      Turn (kFlashStartByte :: rest)
        (some (.frame (frameAt (kFlashStartByte :: rest) len),
          kFlashHeaderBytes + len + kFlashTrailerBytes))

theorem turn_nextToken (rest : Bytes) : Turn rest (nextToken rest) := by
  cases rest with
  | nil => exact .done
  | cons b rest =>
      simp only [nextToken]
      split
      · next hb => exact .text hb
      · next hb =>
          obtain rfl : b = kFlashStartByte := not_not.mp hb
          split
          · next h => exact .shortHeader h
          · next hheader =>
              split
              · next h => exact .badLength hheader h
              · next hlen =>
                  split
                  · next h => exact .shortBody hheader rfl (Nat.not_lt.mp hlen) h
                  · next hbody =>
                      have hlen := Nat.not_lt.mp hlen
                      have hbody := Nat.not_lt.mp hbody
                      split
                      · next h => exact .badCrc rfl hlen hbody h
                      · next h => exact .frame rfl hlen hbody (not_not.mp h)

/-- The tests of a turn determine it. -/
theorem nextToken_of_turn {rest : Bytes} {r : Option (Token × Nat)} (h : Turn rest r) :
    nextToken rest = r := by
  cases h with
  | done => rfl
  | text hb => rw [nextToken, if_pos hb]
  | shortHeader hheader =>
      rw [nextToken, if_neg (not_not.mpr rfl), if_pos hheader]
  | badLength hheader hlen =>
      rw [nextToken, if_neg (not_not.mpr rfl), if_neg hheader]
      exact if_pos hlen
  | shortBody hheader hlen hmax hbody =>
      subst hlen
      rw [nextToken, if_neg (not_not.mpr rfl), if_neg hheader]
      exact (if_neg (Nat.not_lt.mpr hmax)).trans (if_pos hbody)
  | @badCrc rest len hlen hmax hbody hcrc =>
      subst hlen
      have hheader : ¬ (kFlashStartByte :: rest).length < kFlashHeaderBytes := by omega
      rw [nextToken, if_neg (not_not.mpr rfl), if_neg hheader]
      exact (if_neg (Nat.not_lt.mpr hmax)).trans
        ((if_neg (Nat.not_lt.mpr hbody)).trans (if_pos hcrc))
  | @frame rest len hlen hmax hbody hcrc =>
      subst hlen
      have hheader : ¬ (kFlashStartByte :: rest).length < kFlashHeaderBytes := by omega
      rw [nextToken, if_neg (not_not.mpr rfl), if_neg hheader]
      exact (if_neg (Nat.not_lt.mpr hmax)).trans
        ((if_neg (Nat.not_lt.mpr hbody)).trans (if_neg (not_not.mpr hcrc)))

theorem turn_of_nextToken {rest : Bytes} {r : Option (Token × Nat)} (h : nextToken rest = r) :
    Turn rest r := h ▸ turn_nextToken rest

/-! ## The laws of a scanner -/

theorem readLittleEndian_append {offset : Nat} (xs ys : Bytes)
    (h : offset + 1 < xs.length) :
    readLittleEndian (xs ++ ys) offset = readLittleEndian xs offset := by
  unfold readLittleEndian
  rw [List.getD_append _ _ _ _ (by omega), List.getD_append _ _ _ _ h]

theorem frameAt_append {xs : Bytes} {len : Nat} (ys : Bytes)
    (h : kFlashHeaderBytes + len + kFlashTrailerBytes ≤ xs.length) :
    frameAt (xs ++ ys) len = frameAt xs len := by
  simp only [kFlashHeaderBytes, kFlashTrailerBytes] at h
  have htype : (xs ++ ys).getD kTypeOffset 0 = xs.getD kTypeOffset 0 :=
    List.getD_append _ _ _ _ (by rw [kTypeOffset]; omega)
  have hseq : readLittleEndian (xs ++ ys) kSeqOffset = readLittleEndian xs kSeqOffset :=
    readLittleEndian_append xs ys (by rw [kSeqOffset]; omega)
  have hpayload : ((xs ++ ys).drop kFlashHeaderBytes).take len
      = (xs.drop kFlashHeaderBytes).take len := by
    rw [List.drop_append_of_le_length (by rw [kFlashHeaderBytes]; omega),
      List.take_append_of_le_length (by rw [List.length_drop, kFlashHeaderBytes]; omega)]
  simp only [frameAt, htype, hseq, hpayload]

/-- What a turn reads of a whole frame lies inside the frame. -/
theorem turn_fields_append {rest : Bytes} {len : Nat} (ys : Bytes)
    (h : kFlashHeaderBytes + len + kFlashTrailerBytes ≤ (kFlashStartByte :: rest).length) :
    readLittleEndian (kFlashStartByte :: (rest ++ ys)) kLenOffset
        = readLittleEndian (kFlashStartByte :: rest) kLenOffset ∧
      readLittleEndian (kFlashStartByte :: (rest ++ ys)) (kFlashHeaderBytes + len)
        = readLittleEndian (kFlashStartByte :: rest) (kFlashHeaderBytes + len) ∧
      (rest ++ ys).take (kFlashHeaderBytes + len - 1) = rest.take (kFlashHeaderBytes + len - 1) ∧
      kFlashHeaderBytes + len + kFlashTrailerBytes ≤ (kFlashStartByte :: (rest ++ ys)).length := by
  simp only [kFlashHeaderBytes, kFlashTrailerBytes, List.length_cons] at h
  refine ⟨?_, ?_, ?_, ?_⟩
  · exact readLittleEndian_append (kFlashStartByte :: rest) ys
      (by rw [List.length_cons, kLenOffset]; omega)
  · exact readLittleEndian_append (kFlashStartByte :: rest) ys
      (by rw [List.length_cons, kFlashHeaderBytes]; omega)
  · exact List.take_append_of_le_length (by rw [kFlashHeaderBytes]; omega)
  · rw [List.length_cons, List.length_append, kFlashHeaderBytes, kFlashTrailerBytes]
    omega

/-- Bytes that arrive later do not change a turn that did not wait. -/
theorem nextToken_stable {xs : Bytes} {r : Token × Nat} (ys : Bytes) (h : nextToken xs = some r) :
    nextToken (xs ++ ys) = some r := by
  apply nextToken_of_turn
  cases turn_of_nextToken h with
  | text hb => exact .text hb
  | @badLength rest hheader hlen =>
      change Turn (kFlashStartByte :: (rest ++ ys)) _
      have hread : readLittleEndian (kFlashStartByte :: (rest ++ ys)) kLenOffset
          = readLittleEndian (kFlashStartByte :: rest) kLenOffset :=
        readLittleEndian_append (kFlashStartByte :: rest) ys
          (by rw [kFlashHeaderBytes] at hheader; rw [kLenOffset]; omega)
      refine .badLength ?_ (by rw [hread]; exact hlen)
      rw [List.length_cons, List.length_append]
      rw [List.length_cons] at hheader
      omega
  | @badCrc rest len hlen hmax hbody hcrc =>
      change Turn (kFlashStartByte :: (rest ++ ys)) _
      obtain ⟨hread, hcrcRead, htake, hbody'⟩ := turn_fields_append ys hbody
      exact .badCrc (by rw [hread, hlen]) hmax hbody' (by rw [hcrcRead, htake]; exact hcrc)
  | @frame rest len hlen hmax hbody hcrc =>
      obtain ⟨hread, hcrcRead, htake, hbody'⟩ := turn_fields_append ys hbody
      rw [← frameAt_append ys hbody]
      change Turn (kFlashStartByte :: (rest ++ ys)) (some (.frame (frameAt (kFlashStartByte ::
        (rest ++ ys)) len), _))
      exact .frame (by rw [hread, hlen]) hmax hbody' (by rw [hcrcRead, htake]; exact hcrc)

theorem nextToken_pos {xs : Bytes} {t : Token} {n : Nat} (h : nextToken xs = some (t, n)) :
    0 < n := by
  cases turn_of_nextToken h with
  | text => exact Nat.one_pos
  | badLength => exact Nat.one_pos
  | badCrc => exact Nat.one_pos
  | frame =>
      rw [kFlashHeaderBytes]
      omega

theorem nextToken_le_length {xs : Bytes} {t : Token} {n : Nat} (h : nextToken xs = some (t, n)) :
    n ≤ xs.length := by
  cases turn_of_nextToken h with
  | text => exact Nat.succ_pos _
  | badLength => exact Nat.succ_pos _
  | badCrc => exact Nat.succ_pos _
  | frame _ _ hbody => exact hbody

/-- The loop of `consume` as a scanner. -/
def flashScanner : Scanner UInt8 Token where
  next := nextToken
  pos := nextToken_pos
  le_length := nextToken_le_length
  stable := fun ys h => nextToken_stable ys h

/-! ## Tokens stand for the bytes they take -/

theorem take_add_two {l : Bytes} {n : Nat} (h : n + 2 ≤ l.length) :
    l.take (n + 2) = l.take n ++ [l.getD n 0, l.getD (n + 1) 0] := by
  rw [List.getD_eq_getElem _ _ (show n < l.length by omega),
    List.getD_eq_getElem _ _ (show n + 1 < l.length by omega),
    List.take_add_one, List.take_add_one, List.getElem?_eq_getElem (by omega),
    List.getElem?_eq_getElem (by omega), List.append_assoc]
  rfl

/-- The body of the frame at the front is the bytes the CRC was computed over. -/
theorem frameBody_frameAt {rest : Bytes} {len : Nat}
    (hlen : (readLittleEndian (kFlashStartByte :: rest) kLenOffset).toNat = len)
    (hbody : kFlashHeaderBytes + len + kFlashTrailerBytes ≤ (kFlashStartByte :: rest).length) :
    frameBody (frameAt (kFlashStartByte :: rest) len) =
      rest.take (kFlashHeaderBytes + len - 1) := by
  simp only [kFlashHeaderBytes, kFlashTrailerBytes, List.length_cons] at hbody
  rcases rest with _ | ⟨b1, _ | ⟨b2, _ | ⟨b3, _ | ⟨b4, _ | ⟨b5, ys⟩⟩⟩⟩⟩
  iterate 5
    · simp only [List.length_cons, List.length_nil] at hbody
      omega
  simp only [List.length_cons] at hbody
  have hseq : leBytes 2 (readLittleEndian (kFlashStartByte :: b1 :: b2 :: b3 :: b4 :: b5 :: ys)
      kSeqOffset).toNat = [b2, b3] := leBytes_readLittleEndian _ _
  have hlenBytes : leBytes 2 len = [b4, b5] := by
    rw [← hlen]
    exact leBytes_readLittleEndian _ _
  have hpayload : (ys.take len).length = len := by
    rw [List.length_take]
    omega
  have hsmall : len < 65536 := by
    rw [← hlen]
    exact (readLittleEndian _ _).toNat_lt
  have hcast : (UInt16.ofNat len).toNat = len := by
    rw [UInt16.toNat_ofNat', Nat.mod_eq_of_lt hsmall]
  have htake : kFlashHeaderBytes + len - 1 = len + 1 + 1 + 1 + 1 + 1 := by
    rw [kFlashHeaderBytes]
    omega
  rw [frameBody_eq]
  simp only [frameAt, kFlashHeaderBytes, List.drop_succ_cons, List.drop_zero] at htake ⊢
  rw [hpayload, hcast, hseq, hlenBytes, htake]
  rfl

theorem nextToken_renders : flashScanner.Renders Token.bytes := by
  intro xs t n h
  cases turn_of_nextToken h with
  | text => rfl
  | badLength => rfl
  | badCrc => rfl
  | @frame rest len hlen hmax hbody hcrc =>
      have hlt : kFlashHeaderBytes + len + kFlashTrailerBytes - 1 =
          kFlashHeaderBytes + len - 1 + 2 := by
        simp only [kFlashHeaderBytes, kFlashTrailerBytes]
        omega
      have hrest : kFlashHeaderBytes + len - 1 + 2 ≤ rest.length := by
        rw [List.length_cons] at hbody
        omega
      have hcrcBytes : leBytes 2 (crc16CcittFalse (rest.take (kFlashHeaderBytes + len - 1))).toNat
          = [rest.getD (kFlashHeaderBytes + len - 1) 0,
              rest.getD (kFlashHeaderBytes + len - 1 + 1) 0] := by
        rw [← hcrc, show kFlashHeaderBytes + len = kFlashHeaderBytes + len - 1 + 1 by
          rw [kFlashHeaderBytes]; omega]
        exact leBytes_readLittleEndian (kFlashStartByte :: rest) _
      rw [Token.bytes, frameBytes_eq, frameBody_frameAt hlen hbody, hcrcBytes,
        ← take_add_two hrest, ← hlt]
      rfl

theorem readsBack_text {b : UInt8} (hb : b ≠ kFlashStartByte) :
    flashScanner.ReadsBack Token.bytes (.text b) :=
  fun _ => nextToken_of_turn (.text hb)

/-- A field is read off the bytes that were written at its offset. -/
theorem readLittleEndian_leBytes (xs zs : Bytes) (value : UInt16) :
    readLittleEndian (xs ++ (leBytes 2 value.toNat ++ zs)) xs.length = value := by
  apply readLittleEndian_of_bytes
  rw [List.getD_append_right _ _ _ _ (Nat.le_refl _),
    List.getD_append_right _ _ _ _ (Nat.le_add_right _ 1), Nat.sub_self, Nat.add_sub_cancel_left]
  rfl

theorem frameBytes_append (f : FlashFrame) (zs : Bytes) :
    frameBytes f ++ zs = kFlashStartByte ::
      (frameBody f ++ (leBytes 2 (crc16CcittFalse (frameBody f)).toNat ++ zs)) := by
  rw [frameBytes_eq, List.cons_append, List.append_assoc]

theorem readLen_frameBytes {f : FlashFrame} (hfits : f.payload.length ≤ kFlashMaxPayloadBytes)
    (zs : Bytes) :
    (readLittleEndian (frameBytes f ++ zs) kLenOffset).toNat = f.payload.length := by
  have hmax : f.payload.length < 65536 := Nat.lt_of_le_of_lt hfits (by decide)
  have hcast : (UInt16.ofNat f.payload.length).toNat = f.payload.length := by
    rw [UInt16.toNat_ofNat', Nat.mod_eq_of_lt hmax]
  rw [← hcast, frameBytes_append]
  generalize crc16CcittFalse (frameBody f) = crc
  rw [frameBody_eq]
  exact congrArg UInt16.toNat (readLittleEndian_leBytes
    (kFlashStartByte :: f.type :: leBytes 2 f.seq.toNat)
    (f.payload ++ (leBytes 2 crc.toNat ++ zs)) _)

theorem readCrc_frameBytes (f : FlashFrame) (zs : Bytes) :
    readLittleEndian (frameBytes f ++ zs) (kFlashHeaderBytes + f.payload.length) =
      crc16CcittFalse (frameBody f) := by
  have hoff : kFlashHeaderBytes + f.payload.length = (kFlashStartByte :: frameBody f).length := by
    rw [List.length_cons, frameBody_length, kFlashHeaderBytes]
    omega
  rw [frameBytes_append, hoff]
  generalize crc16CcittFalse (frameBody f) = crc
  exact readLittleEndian_leBytes (kFlashStartByte :: frameBody _) zs crc

/-- An encoded frame at the front is read back, whatever follows it. -/
theorem nextToken_frameBytes {f : FlashFrame} (hfits : f.payload.length ≤ kFlashMaxPayloadBytes)
    (zs : Bytes) :
    nextToken (frameBytes f ++ zs) = some (.frame f, (frameBytes f).length) := by
  have hlen := readLen_frameBytes hfits zs
  have hcrc := readCrc_frameBytes f zs
  rw [frameBytes_append] at hlen hcrc
  generalize hsum : crc16CcittFalse (frameBody f) = crc at hlen hcrc
  have hseq : readLittleEndian (kFlashStartByte ::
      (frameBody f ++ (leBytes 2 crc.toNat ++ zs))) kSeqOffset = f.seq := by
    rw [frameBody_eq]
    exact readLittleEndian_leBytes [kFlashStartByte, f.type] _ f.seq
  have hpayload : frameAt (kFlashStartByte ::
      (frameBody f ++ (leBytes 2 crc.toNat ++ zs))) f.payload.length
      = f := by
    rw [frameAt, hseq, frameBody_eq]
    have hleft : (f.payload ++ (leBytes 2 crc.toNat ++ zs)).take f.payload.length = f.payload :=
      List.take_left
    exact congrArg (FlashFrame.mk f.type f.seq) hleft
  have htake : (frameBody f ++ (leBytes 2 crc.toNat ++ zs)).take
      (kFlashHeaderBytes + f.payload.length - 1) = frameBody f :=
    List.take_left' (by rw [frameBody_length, kFlashHeaderBytes]; omega)
  have htotal : kFlashHeaderBytes + f.payload.length + kFlashTrailerBytes ≤ (kFlashStartByte ::
      (frameBody f ++ (leBytes 2 crc.toNat ++ zs))).length := by
    simp only [List.length_cons, List.length_append, frameBody_length, leBytes_length,
      kFlashHeaderBytes, kFlashTrailerBytes]
    omega
  have hturn := Turn.frame hlen hfits htotal (by rw [hcrc, htake, hsum])
  rw [hpayload] at hturn
  rw [frameBytes_length, frameBytes_append, hsum]
  exact nextToken_of_turn hturn

/-! ## A call of `consume` is a run of the scanner -/

/-- What a token adds to the output and to the false starts. -/
def absorb (acc : FlashStreamOutput × Nat) : Token → FlashStreamOutput × Nat
  | .text b => ({ acc.1 with text := acc.1.text ++ [b] }, acc.2)
  | .frame f => ({ acc.1 with frames := acc.1.frames ++ [f] }, acc.2)
  | .falseStart => (acc.1, acc.2 + 1)

theorem readLittleEndian_drop (work : Bytes) (pos offset : Nat) :
    readLittleEndian (work.drop pos) offset = readLittleEndian work (pos + offset) := by
  simp only [readLittleEndian, List.getD_eq_getElem?_getD, List.getElem?_drop, Nat.add_assoc]

/-- One turn of the loop is one step of the scanner. -/
theorem consumeLoop_turn (work : Bytes) (pos : Nat) (acc : FlashStreamOutput × Nat) :
    consumeLoop work pos acc.1 acc.2 =
      match nextToken (work.drop pos) with
      | none => (acc.1, acc.2, pos)
      | some (t, n) => consumeLoop work (pos + n) (absorb acc t).1 (absorb acc t).2 := by
  by_cases hpos : pos < work.length
  · have hdrop : work.drop pos = work[pos] :: work.drop (pos + 1) :=
      List.drop_eq_getElem_cons hpos
    have hlength : (work[pos] :: work.drop (pos + 1)).length = work.length - pos := by
      rw [← hdrop, List.length_drop]
    have hread : ∀ offset, readLittleEndian (work[pos] :: work.drop (pos + 1)) offset
        = readLittleEndian work (pos + offset) := by
      intro offset
      rw [← hdrop, readLittleEndian_drop]
    have hcrc : ∀ len, (work.drop (pos + 1)).take (kFlashHeaderBytes + len - 1)
        = (work.drop (pos + kTypeOffset)).take (pos + kFlashHeaderBytes + len - pos - 1) := by
      intro len
      rw [kTypeOffset, Nat.add_assoc, Nat.add_sub_cancel_left]
    have hframe : ∀ len, frameAt (work[pos] :: work.drop (pos + 1)) len =
        { type := work.getD (pos + kTypeOffset) 0
          seq := readLittleEndian work (pos + kSeqOffset)
          payload := (work.drop (pos + kFlashHeaderBytes)).take len } := by
      intro len
      rw [frameAt, hread, ← hdrop, List.drop_drop, List.getD_eq_getElem?_getD,
        List.getElem?_drop, ← List.getD_eq_getElem?_getD]
    rw [consumeLoop, dif_pos hpos, hdrop]
    simp only [nextToken, hlength, hread, hcrc, hframe, ← Nat.add_assoc]
    split
    · rfl
    · split
      · rfl
      · split
        · rfl
        · split
          · rfl
          · split
            · rfl
            · simp only [absorb, Nat.add_assoc]
  · have hdrop : work.drop pos = [] := List.drop_eq_nil_of_le (Nat.not_lt.mp hpos)
    rw [consumeLoop, dif_neg hpos, hdrop]
    rfl

/-- The loop runs the scanner from its position. -/
theorem consumeLoop_eq (work : Bytes) (pos : Nat) (acc : FlashStreamOutput × Nat) :
    (consumeLoop work pos acc.1 acc.2).1 =
        ((flashScanner.scan (work.drop pos)).1.foldl absorb acc).1 ∧
      (consumeLoop work pos acc.1 acc.2).2.1 =
        ((flashScanner.scan (work.drop pos)).1.foldl absorb acc).2 ∧
      work.drop (consumeLoop work pos acc.1 acc.2).2.2 =
        (flashScanner.scan (work.drop pos)).2 := by
  generalize hrest : work.drop pos = rest
  induction rest using flashScanner.scan_induction generalizing pos acc with
  | wait rest h =>
      have hnext : nextToken (work.drop pos) = none := hrest ▸ h
      rw [consumeLoop_turn, hnext, flashScanner.scan_of_none h]
      exact ⟨rfl, rfl, hrest⟩
  | token rest t n h ih =>
      have hnext : nextToken (work.drop pos) = some (t, n) := hrest ▸ h
      have hdrop : work.drop (pos + n) = rest.drop n := by rw [← hrest, List.drop_drop]
      rw [consumeLoop_turn, hnext, flashScanner.scan_of_some h]
      exact ih (pos + n) (absorb acc t) hdrop

/-- A call of `consume` is one run of the scanner over the held and the new bytes. -/
theorem consume_eq (p : FlashFrameParser) (bytes : Bytes) :
    p.consume bytes =
      let r := flashScanner.feed p.buffer bytes
      let acc := r.1.foldl absorb ({}, p.falseStarts)
      (acc.1, { buffer := r.2, falseStarts := acc.2 }) := by
  obtain ⟨hout, hfalse, hrest⟩ := consumeLoop_eq (p.buffer ++ bytes) 0 ({}, p.falseStarts)
  rw [List.drop_zero] at hout hfalse hrest
  simp only [FlashFrameParser.consume, hout, hfalse, hrest]
  rfl

end Flash
