import IndustrialHmi.Integration.MqttPacket
import Mathlib.Data.List.GetD
import IndustrialHmi.Theory.Access

/-!
# What `parsePublish` reads

The parser of the previous module with the parts of its buffer that it forms.  Its remaining length
says where the packet ends, and the topic is checked against the end of the buffer instead.

So a topic that does not fit in its packet is read on behind it.  Then the payload begins behind the
end of the packet, which is no range.  For every other packet the parser stays inside
(`bounded_iff`).
-/

namespace Mqtt

namespace Traced

def readUint16BigEndian (bytes : List UInt8) (cursor : Nat) : Access Text (Nat × Nat) :=
  if cursor + 1 ≥ bytes.length then .fail (ascii "MQTT: truncated buffer reading 2-byte field")
  else do
    let high ← Access.get bytes 0 cursor
    let low ← Access.get bytes 0 (cursor + 1)
    pure (high.toNat <<< 8 ||| low.toNat, cursor + 2)

/-- The loop takes one byte after the other. -/
def readString (bytes : List UInt8) (cursor : Nat) : Access Text (Text × Nat) := do
  let (len, cursor) ← readUint16BigEndian bytes cursor
  if cursor + len > bytes.length then
    .fail (ascii "MQTT: truncated string field (need " ++ number len ++
      ascii " bytes, have " ++ number (bytes.length - cursor) ++ ascii ")")
  else do
    let s ← Access.collect (fun i => Access.get bytes 0 (cursor + i)) (List.range len)
    pure (s, cursor + len)

def decodeLoop (bytes : List UInt8) : Nat → Nat → Nat → Nat → Access Text (Nat × Nat)
  | 0, _, _, _ => .fail (ascii "MQTT remaining length: continuation bit set after max bytes")
  | i + 1, cursor, multiplier, value =>
      if cursor ≥ bytes.length then .fail (ascii "MQTT remaining length: truncated buffer")
      else do
        let byte ← Access.get bytes 0 cursor
        let value := value + (byte &&& kRemainingLengthValueMask).toNat * multiplier
        if byte &&& kContinuationBit = 0 then pure (value, cursor + 1)
        else decodeLoop bytes i (cursor + 1) (multiplier * kRemainingLengthShift) value

def decodeRemainingLength (bytes : List UInt8) (cursor : Nat) : Access Text (Nat × Nat) :=
  decodeLoop bytes kMaxRemainingLengthBytes cursor 1 0

def parsePublish (bytes : List UInt8) : Access Text ParsedPublish :=
  if bytes = [] then .fail (ascii "MQTT PUBLISH: empty buffer")
  else do
    let fixedHeader ← Access.get bytes 0 0
    if fixedHeader &&& kFixedHeaderTypeMask ≠ PacketType.Publish then
      .fail (ascii "MQTT PUBLISH: bad fixed header byte 0x" ++ hexByte fixedHeader)
    else if qos fixedHeader ≠ 0 then
      .fail (ascii "MQTT PUBLISH QoS " ++ number (qos fixedHeader).toNat ++
        ascii " not supported (QoS 0 only)")
    else do
      let (remaining, cursor) ← decodeRemainingLength bytes 1
      let bodyEnd := cursor + remaining
      if bodyEnd > bytes.length then
        .fail (ascii "MQTT PUBLISH: body truncated (need " ++ number remaining ++
          ascii " bytes, have " ++ number (bytes.length - cursor) ++ ascii ")")
      else do
        let (topic, cursor) ← readString bytes cursor
        let payload ← Access.range bytes cursor bodyEnd
        pure { topic, payload }

/-! ## The same results -/

theorem result_readUint16BigEndian (bytes : List UInt8) (cursor : Nat) :
    (readUint16BigEndian bytes cursor).result = Mqtt.readUint16BigEndian bytes cursor := by
  rw [readUint16BigEndian, Mqtt.readUint16BigEndian]
  split <;> rfl

theorem map_getD_range {bytes : List UInt8} {cursor len : Nat} (h : cursor + len ≤ bytes.length) :
    (List.range len).map (fun i => bytes.getD (cursor + i) 0) = (bytes.drop cursor).take len := by
  refine List.ext_getElem ?_ fun i hi _ => ?_
  · rw [List.length_map, List.length_range, List.length_take, List.length_drop]
    omega
  · rw [List.length_map, List.length_range] at hi
    rw [List.getElem_map, List.getElem_range, List.getElem_take, List.getElem_drop,
      List.getD_eq_getElem _ _ (by omega)]

theorem result_readString (bytes : List UInt8) (cursor : Nat) :
    (readString bytes cursor).result = Mqtt.readString bytes cursor := by
  have hlength := result_readUint16BigEndian bytes cursor
  rw [readString, Mqtt.readString]
  cases h : Mqtt.readUint16BigEndian bytes cursor with
  | error e => exact Access.result_bind_error (hlength.trans h) _
  | ok r =>
      obtain ⟨len, cursor'⟩ := r
      rw [Access.result_bind_ok (hlength.trans h)]
      dsimp only
      split
      next => rfl
      next hfits =>
        rw [Access.result_bind_ok (Access.result_collect (fun _ => rfl) _),
          map_getD_range (Nat.not_lt.mp hfits)]
        rfl

theorem result_decodeLoop (bytes : List UInt8) (n cursor multiplier value : Nat) :
    (decodeLoop bytes n cursor multiplier value).result =
      Mqtt.decodeLoop bytes n cursor multiplier value := by
  induction n generalizing cursor multiplier value with
  | zero => rfl
  | succ n ih =>
      rw [decodeLoop, Mqtt.decodeLoop]
      split
      next hpast =>
        rw [List.getElem?_eq_none hpast]
        rfl
      next hinside =>
        have hlt := Nat.not_le.mp hinside
        rw [Access.result_bind_ok rfl, List.getElem?_eq_getElem hlt, List.getD_eq_getElem _ _ hlt]
        dsimp only
        split
        next => rfl
        next => exact ih ..

theorem result_parsePublish (bytes : List UInt8) :
    (parsePublish bytes).result = Mqtt.parsePublish bytes := by
  cases bytes with
  | nil => rfl
  | cons fixedHeader w =>
      have hremaining := result_decodeLoop (fixedHeader :: w) kMaxRemainingLengthBytes 1 1 0
      rw [parsePublish, if_neg (List.cons_ne_nil _ _), Access.result_bind_ok rfl,
        List.getD_cons_zero, Mqtt.parsePublish.eq_def]
      dsimp only
      by_cases hpublish : fixedHeader &&& kFixedHeaderTypeMask = PacketType.Publish
      · by_cases hqos : qos fixedHeader = 0
        · rw [if_neg (not_not_intro hpublish), if_neg (not_not_intro hqos),
            if_neg (not_not_intro hpublish), if_neg (not_not_intro hqos), decodeRemainingLength,
            Mqtt.decodeRemainingLength]
          cases h : Mqtt.decodeLoop (fixedHeader :: w) kMaxRemainingLengthBytes 1 1 0 with
          | error e => exact Access.result_bind_error (hremaining.trans h) _
          | ok r =>
              obtain ⟨remaining, cursor⟩ := r
              rw [Access.result_bind_ok (hremaining.trans h)]
              dsimp only
              by_cases hbody : cursor + remaining > (fixedHeader :: w).length
              · rw [if_pos hbody, if_pos hbody]
                rfl
              · rw [if_neg hbody, if_neg hbody]
                have hstring := result_readString (fixedHeader :: w) cursor
                cases h' : Mqtt.readString (fixedHeader :: w) cursor with
                | error e => exact Access.result_bind_error (hstring.trans h') _
                | ok r => exact Access.result_bind_ok (hstring.trans h') _
        · rw [if_neg (not_not_intro hpublish), if_pos hqos, if_neg (not_not_intro hpublish),
            if_pos hqos]
          rfl
      · rw [if_pos hpublish, if_pos hpublish]
        rfl

/-! ## Inside the buffer -/

theorem inBounds_readString (bytes : List UInt8) (cursor : Nat) :
    (readString bytes cursor).InBounds bytes.length := by
  refine Access.inBounds_bind (Access.inBounds_guard fun hinside => ?_) fun r _ => ?_
  · have hlt := Nat.not_le.mp hinside
    rw [Access.inBounds_bind_ok (Access.result_get ..),
      Access.inBounds_bind_ok (Access.result_get ..), Access.inBounds_get, Access.inBounds_get]
    exact ⟨Nat.lt_of_succ_lt hlt, hlt, Access.inBounds_pure _ _⟩
  · refine Access.inBounds_guard fun hfits => ?_
    refine Access.inBounds_bind ?_ fun _ _ => Access.inBounds_pure _ _
    rw [Access.inBounds_collect fun _ => Access.result_get ..]
    intro i hi
    have hlt := List.mem_range.mp hi
    rw [Access.inBounds_get]
    omega

theorem inBounds_decodeLoop (bytes : List UInt8) (n cursor multiplier value : Nat) :
    (decodeLoop bytes n cursor multiplier value).InBounds bytes.length := by
  induction n generalizing cursor multiplier value with
  | zero => exact Access.inBounds_fail _ _
  | succ n ih =>
      refine Access.inBounds_guard fun hinside => ?_
      rw [Access.inBounds_bind_ok (Access.result_get ..), Access.inBounds_get]
      refine ⟨Nat.not_le.mp hinside, ?_⟩
      dsimp only
      split
      next => exact Access.inBounds_pure _ _
      next => exact ih _ _ _

end Traced

/-! ## A packet at the front of the buffer -/

/-- What the loop decodes is a remaining length that stands at the cursor. -/
theorem exists_of_decodeLoop_eq_ok {n : Nat} {bytes : List UInt8} {cursor multiplier value : Nat}
    {r : Nat × Nat} (h : decodeLoop bytes n cursor multiplier value = .ok r) :
    ∃ field rest, IsLength field ∧ field.length ≤ n ∧ bytes.drop cursor = field ++ rest := by
  cases hfield : takeLength n (bytes.drop cursor) with
  | none =>
      obtain ⟨e, he⟩ := decodeLoop_of_none hfield multiplier value
      cases he.symm.trans h
  | some field =>
      obtain ⟨hlength, hle, rest, hrest⟩ := takeLength_eq_some hfield
      exact ⟨field, rest, hlength, hle, hrest⟩

/-- A remaining length whose bytes are all there delimits a packet. -/
theorem exists_packet {fixedHeader : UInt8} {w : List UInt8} {remaining cursor : Nat}
    (h : decodeRemainingLength (fixedHeader :: w) 1 = .ok (remaining, cursor))
    (hbody : cursor + remaining ≤ (fixedHeader :: w).length) :
    ∃ (p : Packet) (rest : List UInt8), fixedHeader :: w = p.bytes ++ rest ∧
      p.fixedHeader = fixedHeader ∧ cursor = 1 + p.remainingLength.length ∧
      remaining = lengthValue p.remainingLength := by
  obtain ⟨field, rest, hfield, hle, hdrop⟩ := exists_of_decodeLoop_eq_ok h
  obtain rfl : w = field ++ rest := hdrop
  have hvalue := decodeLoop_length hfield [fixedHeader] rest hle 1 0
  rw [Nat.zero_add, Nat.one_mul] at hvalue
  obtain ⟨rfl, rfl⟩ := Prod.mk.inj (Except.ok.inj (h.symm.trans hvalue))
  have hrest : lengthValue field ≤ rest.length := by
    simp only [List.length_cons, List.length_nil, List.length_append] at hbody
    omega
  refine ⟨⟨fixedHeader, field, rest.take (lengthValue field), hfield, hle,
    List.length_take_of_le hrest⟩, rest.drop (lengthValue field), ?_, rfl, rfl, rfl⟩
  simp [Packet.bytes]

/-! ## Topics that fit -/

/-- A publication at the front of the buffer has room for its topic. -/
def TopicFits (bytes : List UInt8) : Prop :=
  ∀ (p : Packet) (rest : List UInt8), bytes = p.bytes ++ rest → p.isPublish = true →
    qos p.fixedHeader = 0 → 2 + topicLength p.body ≤ p.body.length

theorem topicLength_lt (body : List UInt8) : topicLength body < 2 ^ 16 := by
  refine Nat.or_lt_two_pow ?_ (Nat.lt_trans (UInt8.toNat_lt _) (by decide))
  rw [Nat.shiftLeft_eq]
  have hhigh := (body.getD 0 0).toNat_lt
  omega

theorem topicLength_append {body : List UInt8} (h : 2 ≤ body.length) (rest : List UInt8) :
    topicLength (body ++ rest) = topicLength body := by
  rw [topicLength, List.getD_append _ _ _ _ (Nat.lt_of_succ_lt h), List.getD_append _ _ _ _ h]
  rfl

/-- A topic that fits in its packet is read there, whatever is behind the packet. -/
theorem readString_of_fits {p : Packet} (h : 2 + topicLength p.body ≤ p.body.length)
    (rest : List UInt8) :
    readString (p.bytes ++ rest) (1 + p.remainingLength.length) =
      .ok ((p.body.drop 2).take (topicLength p.body),
        1 + p.remainingLength.length + 2 + topicLength p.body) := by
  have htwo : 2 ≤ p.body.length := Nat.le_of_add_right_le h
  have hread := readString_packet p rest
  rw [topicLength_append htwo, List.length_append,
    if_pos (Nat.le_trans h (Nat.le_add_right _ _)), List.drop_append_of_le_length htwo,
    List.take_append_of_le_length (by rw [List.length_drop]; omega)] at hread
  exact eq_ok_of_toOption hread

theorem parsePublish_of_fits {p : Packet} (hpublish : p.isPublish = true)
    (hqos : qos p.fixedHeader = 0) (h : 2 + topicLength p.body ≤ p.body.length)
    (rest : List UInt8) :
    parsePublish (p.bytes ++ rest) =
      .ok { topic := (p.body.drop 2).take (topicLength p.body)
            payload := p.body.drop (2 + topicLength p.body) } := by
  rw [parsePublish_append hpublish hqos, readString_of_fits h, Except.map, Nat.add_assoc,
    p.drop_bytes]

/-- A topic that does not fit is missing from its packet, and found where enough follows. -/
theorem parsePublish_of_not_fits {p : Packet} (hpublish : p.isPublish = true)
    (hqos : qos p.fixedHeader = 0) (h : ¬2 + topicLength p.body ≤ p.body.length) :
    (parsePublish p.bytes).toOption = none ∧
      ∃ rest, (parsePublish (p.bytes ++ rest)).toOption ≠ none := by
  constructor
  · rw [parsePublish_bytes, Packet.publication, if_neg fun hp => h hp.2.2]
  · refine ⟨List.replicate (2 + 2 ^ 16) 0, ?_⟩
    have hlt := topicLength_lt (p.body ++ List.replicate (2 + 2 ^ 16) 0)
    have hread := readString_packet p (List.replicate (2 + 2 ^ 16) 0)
    rw [if_pos (by rw [List.length_append, List.length_replicate]; omega)] at hread
    rw [parsePublish_append hpublish hqos, eq_ok_of_toOption hread]
    exact Option.some_ne_none _

/-! ## Bounded by the packet -/

/-- What is read of a buffer is in it, what is returned is the body of the packet at its front,
and what is behind that packet does not matter. -/
structure Bounded (bytes : List UInt8) : Prop where
  inBounds : (Traced.parsePublish bytes).InBounds bytes.length
  inPacket : ∀ r, parsePublish bytes = .ok r →
    ∃ (p : Packet) (rest : List UInt8) (high low : UInt8), bytes = p.bytes ++ rest ∧
      p.body = high :: low :: (r.topic ++ r.payload) ∧ topicLength p.body = r.topic.length
  independent : ∀ (p : Packet) (rest rest' : List UInt8), bytes = p.bytes ++ rest →
    parsePublish (p.bytes ++ rest') = parsePublish bytes

/-- A body with room for its topic is the two length bytes, the topic and the payload. -/
theorem body_eq {body : List UInt8} (h : 2 + topicLength body ≤ body.length) :
    (∃ high low, body = high :: low ::
      ((body.drop 2).take (topicLength body) ++ body.drop (2 + topicLength body))) ∧
      topicLength body = ((body.drop 2).take (topicLength body)).length := by
  constructor
  · rw [← List.drop_drop, List.take_append_drop]
    obtain ⟨high, body', rfl⟩ := List.exists_cons_of_length_pos
      (Nat.lt_of_lt_of_le Nat.zero_lt_two (Nat.le_of_add_right_le h))
    obtain ⟨low, body'', rfl⟩ := List.exists_cons_of_length_pos (l := body') (by
      rw [List.length_cons] at h
      omega)
    exact ⟨high, low, rfl⟩
  · rw [List.length_take, List.length_drop]
    omega

namespace Traced

/-- With a topic that fits, the payload ends where it begins or later. -/
theorem inBounds_parsePublish {bytes : List UInt8} (h : TopicFits bytes) :
    (parsePublish bytes).InBounds bytes.length := by
  cases bytes with
  | nil => exact Access.inBounds_fail _ _
  | cons fixedHeader w =>
      rw [parsePublish, if_neg (List.cons_ne_nil _ _), Access.inBounds_bind_ok rfl,
        Access.inBounds_get, List.getD_cons_zero]
      refine ⟨Nat.succ_pos _, Access.inBounds_guard fun hpublish =>
        Access.inBounds_guard fun hqos => ?_⟩
      refine Access.inBounds_bind (inBounds_decodeLoop _ _ _ _ _) fun r hr => ?_
      obtain ⟨remaining, cursor⟩ := r
      refine Access.inBounds_guard fun hbody => ?_
      refine Access.inBounds_bind (inBounds_readString _ _) fun r hread => ?_
      obtain ⟨topic, cursor'⟩ := r
      -- Both cursors are those of the packet at the front.
      rw [decodeRemainingLength, result_decodeLoop] at hr
      rw [result_readString] at hread
      obtain ⟨p, rest, hbytes, rfl, rfl, rfl⟩ := exists_packet hr (Nat.not_lt.mp hbody)
      have hfits := h p rest hbytes (decide_eq_true (not_not.mp hpublish)) (not_not.mp hqos)
      rw [hbytes, readString_of_fits hfits] at hread
      obtain ⟨rfl, rfl⟩ := Prod.mk.inj (Except.ok.inj hread)
      dsimp only
      rw [Access.inBounds_bind_ok (Access.result_range ..), Access.inBounds_range]
      refine ⟨⟨?_, Nat.not_lt.mp hbody⟩, Access.inBounds_pure _ _⟩
      rw [← p.body_length]
      omega

end Traced

/-- What is returned comes from a publication at the front. -/
theorem exists_packet_of_parsePublish {bytes : List UInt8} {r : ParsedPublish}
    (h : parsePublish bytes = .ok r) :
    ∃ (p : Packet) (rest : List UInt8), bytes = p.bytes ++ rest ∧ p.isPublish = true ∧
      qos p.fixedHeader = 0 := by
  cases bytes with
  | nil => cases h
  | cons fixedHeader w =>
      rw [parsePublish.eq_def] at h
      dsimp only at h
      obtain ⟨hpublish, h⟩ := Access.guard_eq_ok.mp h
      obtain ⟨hqos, h⟩ := Access.guard_eq_ok.mp h
      cases hr : decodeRemainingLength (fixedHeader :: w) 1 with
      | error e => rw [hr] at h; cases h
      | ok r =>
          obtain ⟨remaining, cursor⟩ := r
          rw [hr] at h
          obtain ⟨hbody, -⟩ := Access.guard_eq_ok.mp h
          obtain ⟨p, rest, hbytes, rfl, -, -⟩ := exists_packet hr (Nat.not_lt.mp hbody)
          exact ⟨p, rest, hbytes, decide_eq_true (not_not.mp hpublish), not_not.mp hqos⟩

/-- The parser is bounded by the packet at the front of the buffer exactly if that is no
publication with a topic that does not fit. -/
theorem bounded_iff (bytes : List UInt8) : Bounded bytes ↔ TopicFits bytes := by
  constructor
  · intro h p rest hbytes hpublish hqos
    by_contra hfits
    obtain ⟨hnone, rest', hsome⟩ := parsePublish_of_not_fits hpublish hqos hfits
    have hempty := h.independent p rest [] hbytes
    rw [List.append_nil] at hempty
    rw [h.independent p rest rest' hbytes, ← hempty] at hsome
    exact hsome hnone
  · intro h
    refine ⟨Traced.inBounds_parsePublish h, fun r hr => ?_, fun p rest rest' hbytes => ?_⟩
    · obtain ⟨p, rest, rfl, hpublish, hqos⟩ := exists_packet_of_parsePublish hr
      have hfits := h p rest rfl hpublish hqos
      rw [parsePublish_of_fits hpublish hqos hfits] at hr
      obtain rfl := Except.ok.inj hr
      obtain ⟨⟨high, low, hbody⟩, hlength⟩ := body_eq hfits
      exact ⟨p, rest, high, low, rfl, hbody, hlength⟩
    · subst hbytes
      by_cases hpublication : p.isPublish = true ∧ qos p.fixedHeader = 0
      · have hfits := h p rest rfl hpublication.1 hpublication.2
        rw [parsePublish_of_fits hpublication.1 hpublication.2 hfits,
          parsePublish_of_fits hpublication.1 hpublication.2 hfits]
      · rw [(parsePublish_of_not_publication hpublication rest').1,
          (parsePublish_of_not_publication hpublication rest).1]

/-- Two bytes of body announce a topic of one, and the byte behind the packet is taken for it:
the payload begins at 5 and ends at 4. -/
theorem not_bounded_topic_behind_packet : ¬Bounded [0x30, 0x02, 0x00, 0x01, 0x61] := by
  intro h
  have hpayload := h.inBounds ⟨5, 4⟩ (by decide)
  exact absurd hpayload.1 (by decide)

end Mqtt
