import IndustrialHmi.Theory.Json
import IndustrialHmi.Theory.Scanner

/-!
# MQTT packets

A packet is a fixed header byte, a remaining length of one to four bytes, and as many bytes as
the length says.  A byte of the length has its high bit set when there is one more to come.

`packetScanner` cuts a byte stream into packets.  `parsePublish` is given a packet that was put
together again from its three parts, and finds the same parts in it (`parsePublish_bytes`).
-/

namespace Mqtt

open Incremental

def kContinuationBit : UInt8 := 0x80
def kRemainingLengthValueMask : UInt8 := 0x7F
def kMaxRemainingLengthBytes : Nat := 4
def kRemainingLengthShift : Nat := 128
def kFixedHeaderTypeMask : UInt8 := 0xF0
def kPublishFlagsMask : UInt8 := 0x0F
def kPublishQosShift : UInt8 := 1
def kPublishQosMask : UInt8 := 0x03
def kMaxRemainingLength : Nat := 268435455
def kMaxStringLength : Nat := 65535

/-- The packet types, by the high half of the fixed header byte. -/
def PacketType.Publish : UInt8 := 0x30
def PacketType.Subscribe : UInt8 := 0x80

/-! ## The parser -/

/-- The quality of service that a fixed header byte asks for. -/
def qos (fixedHeader : UInt8) : UInt8 :=
  ((fixedHeader &&& kPublishFlagsMask) >>> kPublishQosShift) &&& kPublishQosMask

/-- The bytes of a number, and two hexadecimal digits. -/
def number (n : Nat) : Text := ascii (toString n)
def hexByte (b : UInt8) : Text :=
  ascii (String.ofList [Nat.digitChar (b.toNat / 16), Nat.digitChar (b.toNat % 16)])

/-- The word at the cursor, and the cursor behind it. -/
def readUint16BigEndian (bytes : List UInt8) (cursor : Nat) : Except Text (Nat × Nat) :=
  if cursor + 1 ≥ bytes.length then .error (ascii "MQTT: truncated buffer reading 2-byte field")
  else
    let high := (bytes.getD cursor 0).toNat
    let low := (bytes.getD (cursor + 1) 0).toNat
    .ok (high <<< 8 ||| low, cursor + 2)

def readString (bytes : List UInt8) (cursor : Nat) : Except Text (Text × Nat) :=
  match readUint16BigEndian bytes cursor with
  | .error e => .error e
  | .ok (len, cursor) =>
      if cursor + len > bytes.length then
        .error (ascii "MQTT: truncated string field (need " ++ number len ++
          ascii " bytes, have " ++ number (bytes.length - cursor) ++ ascii ")")
      else .ok ((bytes.drop cursor).take len, cursor + len)

/-- The loop of `decodeRemainingLength`, by how many bytes it may still take.  No value exceeds
28 bits. -/
def decodeLoop (bytes : List UInt8) : Nat → Nat → Nat → Nat → Except Text (Nat × Nat)
  | 0, _, _, _ =>
      .error (ascii "MQTT remaining length: continuation bit set after max bytes")
  | i + 1, cursor, multiplier, value =>
      match bytes[cursor]? with
      | none => .error (ascii "MQTT remaining length: truncated buffer")
      | some byte =>
          let value := value + (byte &&& kRemainingLengthValueMask).toNat * multiplier
          if byte &&& kContinuationBit = 0 then .ok (value, cursor + 1)
          else decodeLoop bytes i (cursor + 1) (multiplier * kRemainingLengthShift) value

def decodeRemainingLength (bytes : List UInt8) (cursor : Nat) : Except Text (Nat × Nat) :=
  decodeLoop bytes kMaxRemainingLengthBytes cursor 1 0

structure ParsedPublish where
  topic : Text
  payload : Text
  deriving DecidableEq

def parsePublish (bytes : List UInt8) : Except Text ParsedPublish :=
  match bytes with
  | [] => .error (ascii "MQTT PUBLISH: empty buffer")
  | fixedHeader :: _ =>
      if fixedHeader &&& kFixedHeaderTypeMask ≠ PacketType.Publish then
        .error (ascii "MQTT PUBLISH: bad fixed header byte 0x" ++ hexByte fixedHeader)
      else if qos fixedHeader ≠ 0 then
        .error (ascii "MQTT PUBLISH QoS " ++ number (qos fixedHeader).toNat ++
          ascii " not supported (QoS 0 only)")
      else
        match decodeRemainingLength bytes 1 with
        | .error e => .error e
        | .ok (remaining, cursor) =>
            let bodyEnd := cursor + remaining
            if bodyEnd > bytes.length then
              .error (ascii "MQTT PUBLISH: body truncated (need " ++ number remaining ++
                ascii " bytes, have " ++ number (bytes.length - cursor) ++ ascii ")")
            else
              match readString bytes cursor with
              | .error e => .error e
              | .ok (topic, cursor) =>
                  .ok { topic, payload := (bytes.take bodyEnd).drop cursor }

/-! ## The remaining length -/

def continues (b : UInt8) : Bool := b &&& kContinuationBit ≠ 0

/-- The bytes are a remaining length: all but the last continue. -/
def IsLength : List UInt8 → Prop
  | [] => False
  | [b] => continues b = false
  | b :: bs => continues b = true ∧ IsLength bs

/-- What a remaining length says, low bits first. -/
def lengthValue : List UInt8 → Nat
  | [] => 0
  | b :: bs => b.toNat % 128 + 128 * lengthValue bs

/-- The remaining length at the front, if it is there in no more than `n` bytes. -/
def takeLength : Nat → List UInt8 → Option (List UInt8)
  | 0, _ => none
  | _, [] => none
  | n + 1, b :: bs => if continues b then (takeLength n bs).map (b :: ·) else some [b]

theorem isLength_cons {b : UInt8} {bs : List UInt8} (h : continues b = true) :
    IsLength (b :: bs) ↔ IsLength bs := by
  cases bs with
  | nil => simp [IsLength, h]
  | cons c bs => simp [IsLength, h]

/-- A remaining length is bytes that continue, and one that does not. -/
theorem isLength_concat {more : List UInt8} {last : UInt8} (hmore : ∀ b ∈ more, continues b = true)
    (hlast : continues last = false) : IsLength (more ++ [last]) := by
  induction more with
  | nil => exact hlast
  | cons b more ih =>
      rw [List.cons_append, isLength_cons (hmore b List.mem_cons_self)]
      exact ih fun c hc => hmore c (List.mem_cons_of_mem b hc)

theorem takeLength_eq_some {n : Nat} {w field : List UInt8} (h : takeLength n w = some field) :
    IsLength field ∧ field.length ≤ n ∧ ∃ rest, w = field ++ rest := by
  induction n generalizing w field with
  | zero => cases h
  | succ n ih =>
      cases w with
      | nil => cases h
      | cons b w =>
          rw [takeLength] at h
          split at h
          next hb =>
            obtain ⟨field', hfield', rfl⟩ := Option.map_eq_some_iff.mp h
            obtain ⟨hlength, hle, rest, rfl⟩ := ih hfield'
            exact ⟨(isLength_cons hb).mpr hlength, Nat.succ_le_succ hle, rest, rfl⟩
          next hb =>
            obtain rfl := Option.some.inj h
            exact ⟨Bool.eq_false_iff.mpr hb, Nat.succ_le_succ (Nat.zero_le n), w, rfl⟩

theorem takeLength_append {n : Nat} {field : List UInt8} (h : IsLength field)
    (hle : field.length ≤ n) (rest : List UInt8) : takeLength n (field ++ rest) = some field := by
  induction field generalizing n with
  | nil => exact h.elim
  | cons b field ih =>
      cases n with
      | zero => exact absurd hle (Nat.not_succ_le_zero _)
      | succ n =>
          rw [List.cons_append, takeLength]
          cases hb : continues b with
          | true =>
              rw [if_pos rfl, ih ((isLength_cons hb).mp h) (Nat.le_of_succ_le_succ hle),
                Option.map_some]
          | false =>
              cases field with
              | nil => rw [if_neg Bool.false_ne_true]
              | cons c field => exact absurd h.1 (by rw [hb]; exact Bool.false_ne_true)

/-- Bytes that all continue are no remaining length. -/
theorem takeLength_of_continues {more : List UInt8} (h : ∀ b ∈ more, continues b = true) {n : Nat}
    {rest : List UInt8} (hrest : n ≤ more.length ∨ rest = []) :
    takeLength n (more ++ rest) = none := by
  induction more generalizing n with
  | nil =>
      rcases hrest with hn | rfl
      · rw [Nat.le_zero.mp hn, takeLength]
      · cases n <;> rfl
  | cons b more ih =>
      cases n with
      | zero => rfl
      | succ n =>
          have hmore := ih (n := n) (fun c hc => h c (List.mem_cons_of_mem b hc))
            (hrest.imp_left Nat.le_of_succ_le_succ)
          rw [List.cons_append, takeLength, if_pos (h b List.mem_cons_self), hmore,
            Option.map_none]

theorem toNat_and_mask (b : UInt8) : (b &&& kRemainingLengthValueMask).toNat = b.toNat % 128 := by
  rw [UInt8.toNat_and]
  exact Nat.and_two_pow_sub_one_eq_mod b.toNat 7

/-- The loop finds the value of a remaining length that stands at the cursor. -/
theorem decodeLoop_length {field : List UInt8} (h : IsLength field) (before after : List UInt8)
    {n : Nat} (hle : field.length ≤ n) (multiplier value : Nat) :
    decodeLoop (before ++ field ++ after) n before.length multiplier value =
      .ok (value + multiplier * lengthValue field, before.length + field.length) := by
  induction field generalizing before n multiplier value with
  | nil => exact h.elim
  | cons b field ih =>
      cases n with
      | zero => exact absurd hle (Nat.not_succ_le_zero _)
      | succ n =>
          have hget : (before ++ b :: field ++ after)[before.length]? = some b := by simp
          rw [decodeLoop, hget]
          dsimp only
          rw [toNat_and_mask]
          cases hb : continues b with
          | false =>
              cases field with
              | nil =>
                  rw [if_pos (by simpa [continues] using hb)]
                  simp [lengthValue, Nat.mul_comm]
              | cons c field => exact absurd h.1 (by rw [hb]; exact Bool.false_ne_true)
          | true =>
              rw [if_neg (by simpa [continues] using hb)]
              have hbytes : before ++ b :: field ++ after = before ++ [b] ++ field ++ after := by
                simp
              have hcursor : before.length + 1 = (before ++ [b]).length := by simp
              rw [hbytes, hcursor, ih ((isLength_cons hb).mp h) (before ++ [b])
                (Nat.le_of_succ_le_succ hle), ← hcursor, lengthValue, kRemainingLengthShift]
              congr 2
              · rw [Nat.mul_add, ← Nat.mul_assoc, Nat.mul_comm multiplier (b.toNat % 128),
                  Nat.add_assoc]
              · rw [List.length_cons]
                omega

/-- What stands at the cursor decides what the loop returns: a remaining length, or none. -/
theorem decodeLoop_of_some {n : Nat} {bytes field : List UInt8} {cursor : Nat}
    (h : takeLength n (bytes.drop cursor) = some field) (multiplier value : Nat) :
    decodeLoop bytes n cursor multiplier value =
      .ok (value + multiplier * lengthValue field, cursor + field.length) := by
  obtain ⟨hfield, hle, rest, hrest⟩ := takeLength_eq_some h
  have hinside : cursor ≤ bytes.length := by
    refine Nat.le_of_not_lt fun hout => ?_
    rw [List.drop_eq_nil_of_le (Nat.le_of_lt hout)] at hrest
    rw [(List.append_eq_nil_iff.mp hrest.symm).1] at hfield
    exact hfield
  have hsplit : bytes = bytes.take cursor ++ field ++ rest := by
    rw [List.append_assoc, ← hrest, List.take_append_drop]
  have hloop := decodeLoop_length hfield (bytes.take cursor) rest hle multiplier value
  rwa [← hsplit, List.length_take_of_le hinside] at hloop

theorem decodeLoop_of_none {n : Nat} {bytes : List UInt8} {cursor : Nat}
    (h : takeLength n (bytes.drop cursor) = none) (multiplier value : Nat) :
    ∃ e, decodeLoop bytes n cursor multiplier value = .error e := by
  induction n generalizing cursor multiplier value with
  | zero => exact ⟨_, rfl⟩
  | succ n ih =>
      rw [decodeLoop]
      cases hget : bytes[cursor]? with
      | none => exact ⟨_, rfl⟩
      | some b =>
          obtain ⟨hinside, hb⟩ := List.getElem?_eq_some_iff.mp hget
          rw [List.drop_eq_getElem_cons hinside, hb, takeLength] at h
          split at h
          next hmore =>
            dsimp only
            rw [if_neg (by simpa [continues] using hmore)]
            exact ih (Option.map_eq_none_iff.mp h) _ _
          next => cases h

/-! ## Packets in a stream -/

structure Packet where
  fixedHeader : UInt8
  remainingLength : List UInt8
  body : List UInt8
  isLength : IsLength remainingLength
  length_le : remainingLength.length ≤ kMaxRemainingLengthBytes
  body_length : body.length = lengthValue remainingLength

namespace Packet

def bytes (p : Packet) : List UInt8 := p.fixedHeader :: (p.remainingLength ++ p.body)

theorem length_bytes (p : Packet) :
    p.bytes.length = 1 + p.remainingLength.length + lengthValue p.remainingLength := by
  rw [bytes, List.length_cons, List.length_append, p.body_length]
  omega

theorem drop_bytes (p : Packet) (n : Nat) :
    p.bytes.drop (1 + p.remainingLength.length + n) = p.body.drop n := by
  rw [bytes, Nat.add_comm 1, Nat.add_right_comm, List.drop_succ_cons, List.drop_append,
    Nat.add_sub_cancel_left, List.drop_eq_nil_of_le (Nat.le_add_right _ _), List.nil_append]

def isPublish (p : Packet) : Bool := p.fixedHeader &&& kFixedHeaderTypeMask = PacketType.Publish

end Packet

/-- The packet that a header byte and the bytes behind it make up, and how long it is. -/
def packetAfter (header : UInt8) (w : List UInt8) : Option (Packet × Nat) :=
  match hfield : takeLength kMaxRemainingLengthBytes w with
  | none => none
  | some field =>
      if hbody : lengthValue field ≤ (w.drop field.length).length then
        some
          ({ fixedHeader := header
             remainingLength := field
             body := (w.drop field.length).take (lengthValue field)
             isLength := (takeLength_eq_some hfield).1
             length_le := (takeLength_eq_some hfield).2.1
             body_length := List.length_take_of_le hbody },
            1 + field.length + lengthValue field)
      else none

/-- The packet at the front of a stream and how long it is, if all of it is there. -/
def nextPacket : List UInt8 → Option (Packet × Nat)
  | [] => none
  | header :: w => packetAfter header w

theorem nextPacket_append (p : Packet) (rest : List UInt8) :
    nextPacket (p.bytes ++ rest) = some (p, p.bytes.length) := by
  have hfield : takeLength kMaxRemainingLengthBytes (p.remainingLength ++ p.body ++ rest) =
      some p.remainingLength := by
    rw [List.append_assoc]
    exact takeLength_append p.isLength p.length_le _
  have hdrop : (p.remainingLength ++ p.body ++ rest).drop p.remainingLength.length =
      p.body ++ rest := by
    rw [List.append_assoc, List.drop_left]
  rw [p.length_bytes, Packet.bytes, List.cons_append, nextPacket, packetAfter]
  split
  next hnone => rw [hfield] at hnone; cases hnone
  next field hsome =>
    obtain rfl := Option.some.inj (hfield.symm.trans hsome)
    simp only [hdrop]
    rw [dif_pos (by rw [List.length_append, p.body_length]; exact Nat.le_add_right _ _)]
    simp [← p.body_length]

/-- A packet is found exactly where its bytes stand. -/
theorem nextPacket_eq_some {w : List UInt8} {p : Packet} {n : Nat} :
    nextPacket w = some (p, n) ↔ n = p.bytes.length ∧ ∃ rest, w = p.bytes ++ rest := by
  constructor
  · intro h
    cases w with
    | nil => cases h
    | cons header w =>
        rw [nextPacket, packetAfter] at h
        split at h
        · cases h
        next field hfield =>
          split at h
          next hbody =>
            obtain ⟨rfl, rfl⟩ := Prod.mk.inj (Option.some.inj h)
            obtain ⟨_, _, rest, rfl⟩ := takeLength_eq_some hfield
            rw [Packet.length_bytes]
            refine ⟨rfl, rest.drop (lengthValue field), ?_⟩
            simp [Packet.bytes]
          next => cases h
  · rintro ⟨rfl, rest, rfl⟩
    exact nextPacket_append p rest

def packetScanner : Scanner UInt8 Packet where
  next := nextPacket
  pos h := by
    rw [(nextPacket_eq_some.mp h).1, Packet.bytes]
    exact Nat.succ_pos _
  le_length h := by
    obtain ⟨rfl, rest, rfl⟩ := nextPacket_eq_some.mp h
    rw [List.length_append]
    exact Nat.le_add_right _ _
  stable {xs r} ys h := by
    obtain ⟨p, n⟩ := r
    obtain ⟨rfl, rest, rfl⟩ := nextPacket_eq_some.mp h
    rw [List.append_assoc]
    exact nextPacket_append p _

theorem packetScanner_readsBack (p : Packet) : packetScanner.ReadsBack Packet.bytes p :=
  nextPacket_append p

/-- The packets of a stream, and what is left when no more of them can be read. -/
def packets (w : List UInt8) : List Packet := (packetScanner.scan w).1
def unread (w : List UInt8) : List UInt8 := (packetScanner.scan w).2

/-- At the front there is a header byte, and behind it a length of which the fourth byte
continues. -/
def Malformed (w : List UInt8) : Prop :=
  ∃ header more rest, w = header :: (more ++ rest) ∧
    more.length = kMaxRemainingLengthBytes ∧ ∀ b ∈ more, continues b = true

/-- Without a length there is no packet. -/
theorem nextPacket_of_takeLength {header : UInt8} {w : List UInt8}
    (h : takeLength kMaxRemainingLengthBytes w = none) : nextPacket (header :: w) = none := by
  rw [nextPacket, packetAfter]
  split
  · rfl
  next field hsome => rw [h] at hsome; cases hsome

theorem nextPacket_of_malformed {w : List UInt8} (h : Malformed w) : nextPacket w = none := by
  obtain ⟨header, more, rest, rfl, hlength, hmore⟩ := h
  exact nextPacket_of_takeLength
    (takeLength_of_continues hmore (Or.inl (Nat.le_of_eq hlength.symm)))

/-- Without all of its body a packet is not there. -/
theorem nextPacket_of_lacks {header : UInt8} {field rest : List UInt8} (h : IsLength field)
    (hle : field.length ≤ kMaxRemainingLengthBytes) (hlacks : rest.length < lengthValue field) :
    nextPacket (header :: (field ++ rest)) = none := by
  rw [nextPacket, packetAfter]
  split
  · rfl
  next field' hsome =>
    obtain rfl := Option.some.inj ((takeLength_append h hle rest).symm.trans hsome)
    have hdrop : (field ++ rest).drop field.length = rest := List.drop_left
    exact dif_neg (by rw [hdrop]; exact Nat.not_le.mpr hlacks)

/-! ## Publications -/

/-- The length of the topic with which a body begins. -/
def topicLength (body : List UInt8) : Nat :=
  (body.getD 0 0).toNat <<< 8 ||| (body.getD 1 0).toNat

/-- What a packet publishes, read off its three parts: a topic with its length before it, and
the rest of the body. -/
def Packet.publication (p : Packet) : Option ParsedPublish :=
  if p.isPublish ∧ qos p.fixedHeader = 0 ∧ 2 + topicLength p.body ≤ p.body.length then
    some
      { topic := (p.body.drop 2).take (topicLength p.body)
        payload := p.body.drop (2 + topicLength p.body) }
  else none

theorem decodeRemainingLength_append (p : Packet) (rest : List UInt8) :
    decodeRemainingLength (p.bytes ++ rest) 1 =
      .ok (lengthValue p.remainingLength, 1 + p.remainingLength.length) := by
  have h := decodeLoop_length p.isLength [p.fixedHeader] (p.body ++ rest) p.length_le 1 0
  rw [Nat.zero_add, Nat.one_mul, List.append_assoc, ← List.append_assoc p.remainingLength] at h
  exact h

theorem decodeRemainingLength_bytes (p : Packet) :
    decodeRemainingLength p.bytes 1 =
      .ok (lengthValue p.remainingLength, 1 + p.remainingLength.length) := by
  have h := decodeRemainingLength_append p []
  rwa [List.append_nil] at h

/-- A word is read at the end of what is before it. -/
theorem readUint16BigEndian_append (before : List UInt8) {body : List UInt8}
    (h : 2 ≤ body.length) :
    readUint16BigEndian (before ++ body) before.length =
      .ok (topicLength body, before.length + 2) := by
  have hhigh : (before ++ body).getD before.length 0 = body.getD 0 0 := by
    simp only [List.getD_eq_getElem?_getD, List.getElem?_append_right (Nat.le_refl _), Nat.sub_self]
  have hlow : (before ++ body).getD (before.length + 1) 0 = body.getD 1 0 := by
    simp only [List.getD_eq_getElem?_getD,
      List.getElem?_append_right (Nat.le_add_right before.length 1), Nat.add_sub_cancel_left]
  rw [readUint16BigEndian, hhigh, hlow, List.length_append, if_neg (by omega)]
  rfl

/-- So is a string. -/
theorem readString_append (before body : List UInt8) :
    (readString (before ++ body) before.length).toOption =
      if 2 + topicLength body ≤ body.length then
        some ((body.drop 2).take (topicLength body), before.length + 2 + topicLength body)
      else none := by
  have hdrop : (before ++ body).drop (before.length + 2) = body.drop 2 := by
    rw [List.drop_append, Nat.add_sub_cancel_left, List.drop_eq_nil_of_le (Nat.le_add_right _ _),
      List.nil_append]
  rw [readString]
  by_cases hshort : body.length < 2
  · rw [readUint16BigEndian, List.length_append, if_pos (by omega), if_neg (by omega)]
    rfl
  · rw [readUint16BigEndian_append before (Nat.not_lt.mp hshort)]
    dsimp only
    rw [hdrop, List.length_append]
    by_cases hlong : before.length + 2 + topicLength body > before.length + body.length
    · rw [if_pos hlong, if_neg (by omega)]
      rfl
    · rw [if_neg hlong, if_pos (by omega)]
      rfl

theorem eq_ok_of_toOption {ε α : Type} {x : Except ε α} {a : α} (h : x.toOption = some a) :
    x = .ok a := by
  cases x with
  | error e => cases h
  | ok b => exact congrArg Except.ok (Option.some.inj h)

/-- The topic is read behind the remaining length, in whatever is there. -/
theorem readString_packet (p : Packet) (rest : List UInt8) :
    (readString (p.bytes ++ rest) (1 + p.remainingLength.length)).toOption =
      if 2 + topicLength (p.body ++ rest) ≤ (p.body ++ rest).length then
        some (((p.body ++ rest).drop 2).take (topicLength (p.body ++ rest)),
          1 + p.remainingLength.length + 2 + topicLength (p.body ++ rest))
      else none := by
  have h := readString_append (p.fixedHeader :: p.remainingLength) (p.body ++ rest)
  rw [List.length_cons, Nat.add_comm _ 1, ← List.append_assoc, List.cons_append,
    ← Packet.bytes] at h
  exact h

/-- Of a publication the parser reads the topic wherever it ends, and the payload up to the end of
the packet. -/
theorem parsePublish_append {p : Packet} (hpublish : p.isPublish = true)
    (hqos : qos p.fixedHeader = 0) (rest : List UInt8) :
    parsePublish (p.bytes ++ rest) =
      (readString (p.bytes ++ rest) (1 + p.remainingLength.length)).map
        fun r => { topic := r.1, payload := p.bytes.drop r.2 } := by
  have hend : ¬1 + p.remainingLength.length + lengthValue p.remainingLength >
      (p.bytes ++ rest).length := by
    rw [List.length_append, p.length_bytes]
    omega
  rw [Packet.bytes, List.cons_append, parsePublish.eq_def]
  dsimp only
  rw [← List.cons_append, ← Packet.bytes, if_neg (not_not_intro (of_decide_eq_true hpublish)),
    if_neg (not_not_intro hqos), decodeRemainingLength_append]
  dsimp only
  rw [if_neg hend, ← p.length_bytes, List.take_left]
  cases readString (p.bytes ++ rest) (1 + p.remainingLength.length) with
  | error e => rfl
  | ok r => rfl

/-- Nothing else is published. -/
theorem parsePublish_of_not_publication {p : Packet}
    (h : ¬(p.isPublish = true ∧ qos p.fixedHeader = 0)) (rest : List UInt8) :
    parsePublish (p.bytes ++ rest) = parsePublish p.bytes ∧
      ∃ e, parsePublish (p.bytes ++ rest) = .error e := by
  rw [Packet.bytes, List.cons_append, parsePublish.eq_def, parsePublish.eq_def]
  dsimp only
  by_cases hpublish : p.fixedHeader &&& kFixedHeaderTypeMask = PacketType.Publish
  · have hqos : qos p.fixedHeader ≠ 0 := fun hqos => h ⟨decide_eq_true hpublish, hqos⟩
    rw [if_neg (not_not_intro hpublish), if_pos hqos, if_neg (not_not_intro hpublish), if_pos hqos]
    exact ⟨rfl, _, rfl⟩
  · rw [if_pos hpublish, if_pos hpublish]
    exact ⟨rfl, _, rfl⟩

/-- The second parser finds in the packet what its three parts say. -/
theorem parsePublish_bytes (p : Packet) : (parsePublish p.bytes).toOption = p.publication := by
  rw [Packet.publication]
  by_cases hpublication : p.isPublish = true ∧ qos p.fixedHeader = 0
  · have hparsed := parsePublish_append hpublication.1 hpublication.2 []
    have hread := readString_packet p []
    rw [List.append_nil] at hparsed hread
    rw [List.append_nil] at hread
    rw [hparsed]
    by_cases hfits : 2 + topicLength p.body ≤ p.body.length
    · rw [if_pos hfits] at hread
      rw [eq_ok_of_toOption hread, if_pos ⟨hpublication.1, hpublication.2, hfits⟩, Except.map,
        Nat.add_assoc, p.drop_bytes]
      rfl
    · rw [if_neg hfits] at hread
      rw [if_neg fun h => hfits h.2.2]
      cases hstring : readString p.bytes (1 + p.remainingLength.length) with
      | error e => rfl
      | ok r =>
          rw [hstring] at hread
          cases hread
  · obtain ⟨-, e, herror⟩ := parsePublish_of_not_publication hpublication []
    rw [List.append_nil] at herror
    rw [herror, if_neg fun h => hpublication ⟨h.1, h.2.1⟩]
    rfl

end Mqtt
