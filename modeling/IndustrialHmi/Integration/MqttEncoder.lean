import IndustrialHmi.Integration.MqttPacket

/-!
# The packets that the client builds

A packet is built from its body: the length of the body is encoded in front of it, seven bits to
a byte, and the fixed header in front of that.  What is built is a packet of the parser's own kind
(`buildPublish_eq_ok`), so the parser finds the topic and the payload again.

The length is cast to 32 bits before it is compared with the longest that the encoding has.  A
payload of 4 GiB comes round to a small length, and then nothing is thrown (`roundTrips_iff`).
-/

namespace Mqtt

def kBitsPerByte : Nat := 7
def kPublishFlagsQos0Transient : UInt8 := 0x00
def kSubscribeFixedHeaderFlags : UInt8 := 0x02
def kSubscribeRequestedQos0 : UInt8 := 0x00

def appendUint16BigEndian (out : List UInt8) (v : Nat) : List UInt8 :=
  out ++ [UInt8.ofNat (v >>> 8 &&& 0xFF), UInt8.ofNat (v &&& 0xFF)]

/-- The loop of `encodeRemainingLength`. -/
def encodeLoop (value : Nat) : List UInt8 :=
  let byte := UInt8.ofNat value &&& kRemainingLengthValueMask
  if value >>> kBitsPerByte > 0 then
    (byte ||| kContinuationBit) :: encodeLoop (value >>> kBitsPerByte)
  else [byte]
termination_by value
decreasing_by
  rw [Nat.shiftRight_eq_div_pow, kBitsPerByte] at *
  omega

/-- The value is a number of 32 bits. -/
def encodeRemainingLength (value : Nat) : Except Text (List UInt8) :=
  if value > kMaxRemainingLength then
    .error (ascii "MQTT remaining length " ++ number value ++ ascii " exceeds protocol max " ++
      number kMaxRemainingLength)
  else .ok (encodeLoop value)

def encodeString (s : Text) : Except Text (List UInt8) :=
  if s.length > kMaxStringLength then
    .error (ascii "MQTT string length " ++ number s.length ++
      ascii " exceeds 16-bit prefix max " ++ number kMaxStringLength)
  else .ok (appendUint16BigEndian [] (s.length % 2 ^ 16) ++ s)

def buildPublish (topic payload : Text) : Except Text (List UInt8) := do
  let topicBytes ← encodeString topic
  let remaining := (topicBytes.length + payload.length) % 2 ^ 32
  let remainingBytes ← encodeRemainingLength remaining
  return (PacketType.Publish ||| kPublishFlagsQos0Transient) ::
    (remainingBytes ++ topicBytes ++ payload)

def buildSubscribe (packetId : Nat) (topic : Text) : Except Text (List UInt8) := do
  let variableHeader := appendUint16BigEndian [] packetId
  let topicBytes ← encodeString topic
  let payload := topicBytes ++ [kSubscribeRequestedQos0]
  let remaining := (variableHeader.length + payload.length) % 2 ^ 32
  let remainingBytes ← encodeRemainingLength remaining
  return (PacketType.Subscribe ||| kSubscribeFixedHeaderFlags) ::
    (remainingBytes ++ variableHeader ++ payload)

/-! ## The remaining length -/

theorem toNat_lengthByte (value : Nat) :
    (UInt8.ofNat value &&& kRemainingLengthValueMask).toNat = value % 128 := by
  rw [toNat_and_mask, UInt8.toNat_ofNat']
  exact Nat.mod_mod_of_dvd value (by decide)

theorem continues_or (b : UInt8) : continues (b ||| kContinuationBit) = true := by
  obtain ⟨b⟩ := b
  revert b
  decide

theorem continues_and (b : UInt8) : continues (b &&& kRemainingLengthValueMask) = false := by
  obtain ⟨b⟩ := b
  revert b
  decide

theorem or_and_mask (b : UInt8) :
    (b &&& kRemainingLengthValueMask ||| kContinuationBit) &&& kRemainingLengthValueMask =
      b &&& kRemainingLengthValueMask := by
  obtain ⟨b⟩ := b
  revert b
  decide

theorem isLength_encodeLoop (value : Nat) : IsLength (encodeLoop value) := by
  induction value using encodeLoop.induct with
  | case1 value hmore ih =>
      rw [encodeLoop, if_pos hmore]
      exact (isLength_cons (continues_or _)).mpr ih
  | case2 value hlast =>
      rw [encodeLoop, if_neg hlast]
      exact continues_and _

/-- The bytes say what was encoded. -/
theorem lengthValue_encodeLoop (value : Nat) : lengthValue (encodeLoop value) = value := by
  induction value using encodeLoop.induct with
  | case1 value hmore ih =>
      rw [encodeLoop, if_pos hmore, lengthValue, ih, ← toNat_and_mask, or_and_mask,
        toNat_lengthByte, Nat.shiftRight_eq_div_pow]
      exact Nat.mod_add_div value 128
  | case2 value hlast =>
      rw [Nat.shiftRight_eq_div_pow, kBitsPerByte] at hlast
      rw [encodeLoop, Nat.shiftRight_eq_div_pow, kBitsPerByte, if_neg hlast, lengthValue,
        lengthValue, ← toNat_and_mask, toNat_and_mask, toNat_lengthByte]
      omega

theorem length_encodeLoop_le {n value : Nat} (h : value < 128 ^ (n + 1)) :
    (encodeLoop value).length ≤ n + 1 := by
  induction n generalizing value with
  | zero =>
      rw [encodeLoop, Nat.shiftRight_eq_div_pow, kBitsPerByte, if_neg (by omega)]
      exact Nat.le_refl 1
  | succ n ih =>
      rw [encodeLoop]
      split
      next =>
        refine Nat.succ_le_succ (ih ?_)
        rw [Nat.shiftRight_eq_div_pow, kBitsPerByte]
        exact Nat.div_lt_of_lt_mul (by rw [Nat.pow_succ'] at h; exact h)
      next => exact Nat.succ_le_succ (Nat.zero_le _)

/-- The packet of a body that is not too long. -/
def Packet.ofBody (fixedHeader : UInt8) (body : List UInt8)
    (h : body.length ≤ kMaxRemainingLength) : Packet where
  fixedHeader := fixedHeader
  remainingLength := encodeLoop body.length
  body := body
  isLength := isLength_encodeLoop _
  length_le := length_encodeLoop_le (n := 3) (Nat.lt_of_le_of_lt h (by decide))
  body_length := (lengthValue_encodeLoop _).symm

theorem Packet.bytes_ofBody {fixedHeader : UInt8} {body : List UInt8}
    (h : body.length ≤ kMaxRemainingLength) :
    (ofBody fixedHeader body h).bytes = fixedHeader :: (encodeLoop body.length ++ body) := rfl

theorem encodeRemainingLength_eq_ok {value : Nat} (h : value ≤ kMaxRemainingLength) :
    encodeRemainingLength (value % 2 ^ 32) = .ok (encodeLoop value) := by
  rw [Nat.mod_eq_of_lt (Nat.lt_of_le_of_lt h (by decide)), encodeRemainingLength,
    if_neg (Nat.not_lt.mpr h)]

/-! ## Strings -/

theorem length_appendUint16BigEndian (v : Nat) : (appendUint16BigEndian [] v).length = 2 := rfl

/-- A word in front of a body is what is read there. -/
theorem topicLength_appendUint16BigEndian {v : Nat} (h : v < 2 ^ 16) (rest : List UInt8) :
    topicLength (appendUint16BigEndian [] v ++ rest) = v := by
  have hlow : (UInt8.ofNat (v &&& 0xFF)).toNat = v % 256 := by
    rw [Nat.and_two_pow_sub_one_eq_mod v 8, UInt8.toNat_ofNat']
    exact Nat.mod_mod v 256
  have hhigh : (UInt8.ofNat (v >>> 8 &&& 0xFF)).toNat = v / 256 := by
    rw [Nat.and_two_pow_sub_one_eq_mod _ 8, UInt8.toNat_ofNat', Nat.shiftRight_eq_div_pow]
    omega
  show (UInt8.ofNat (v >>> 8 &&& 0xFF)).toNat <<< 8 ||| (UInt8.ofNat (v &&& 0xFF)).toNat = v
  rw [hhigh, hlow, ← Nat.shiftLeft_add_eq_or_of_lt (Nat.mod_lt v (by decide)), Nat.shiftLeft_eq]
  omega

theorem encodeString_eq_ok {s : Text} (h : s.length ≤ kMaxStringLength) :
    encodeString s = .ok (appendUint16BigEndian [] s.length ++ s) := by
  rw [encodeString, if_neg (Nat.not_lt.mpr h),
    Nat.mod_eq_of_lt (Nat.lt_of_le_of_lt h (by decide))]

theorem encodeString_eq_error {s : Text} (h : kMaxStringLength < s.length) :
    ∃ e, encodeString s = .error e := by
  rw [encodeString, if_pos h]
  exact ⟨_, rfl⟩

/-! ## Publications -/

/-- What is counted in the remaining length of a publication. -/
def publishLength (topic payload : Text) : Nat := 2 + topic.length + payload.length

theorem buildPublish_of_le {topic : Text} (h : topic.length ≤ kMaxStringLength) (payload : Text) :
    buildPublish topic payload =
      (encodeRemainingLength (publishLength topic payload % 2 ^ 32)).map fun remainingBytes =>
        PacketType.Publish :: (remainingBytes ++ (appendUint16BigEndian [] topic.length ++ topic) ++
          payload) := by
  rw [buildPublish, encodeString_eq_ok h]
  show (encodeRemainingLength _ >>= _) = _
  rw [List.length_append, length_appendUint16BigEndian, ← publishLength]
  cases encodeRemainingLength (publishLength topic payload % 2 ^ 32) with
  | error e => rfl
  | ok remainingBytes => rfl

/-- It throws for a topic that is too long, and for a length that is when it has been cast. -/
theorem buildPublish_throws_iff (topic payload : Text) :
    (∃ e, buildPublish topic payload = .error e) ↔
      kMaxStringLength < topic.length ∨
        kMaxRemainingLength < publishLength topic payload % 2 ^ 32 := by
  by_cases htopic : kMaxStringLength < topic.length
  · obtain ⟨e, he⟩ := encodeString_eq_error htopic
    rw [buildPublish, he]
    exact iff_of_true ⟨e, rfl⟩ (Or.inl htopic)
  · rw [buildPublish_of_le (Nat.not_lt.mp htopic), encodeRemainingLength]
    by_cases hlength : kMaxRemainingLength < publishLength topic payload % 2 ^ 32
    · rw [if_pos hlength]
      exact iff_of_true ⟨_, rfl⟩ (Or.inr hlength)
    · rw [if_neg hlength]
      refine iff_of_false ?_ (not_or.mpr ⟨htopic, hlength⟩)
      rintro ⟨e, he⟩
      cases he

/-- What is built is a packet: its body is the topic with its length before it, and the
payload. -/
theorem buildPublish_eq_ok {topic payload : Text} (htopic : topic.length ≤ kMaxStringLength)
    (h : publishLength topic payload ≤ kMaxRemainingLength) :
    ∃ p : Packet, buildPublish topic payload = .ok p.bytes ∧ p.fixedHeader = PacketType.Publish ∧
      p.body = appendUint16BigEndian [] topic.length ++ (topic ++ payload) := by
  have hlength : (appendUint16BigEndian [] topic.length ++ (topic ++ payload)).length =
      publishLength topic payload := by
    rw [List.length_append, List.length_append, length_appendUint16BigEndian, ← Nat.add_assoc]
    rfl
  refine ⟨.ofBody PacketType.Publish _ ((Nat.le_of_eq hlength).trans h), ?_, rfl, rfl⟩
  rw [buildPublish_of_le htopic, encodeRemainingLength_eq_ok h, Packet.bytes_ofBody, hlength,
    Except.map, List.append_assoc, List.append_assoc]

/-- The parser finds in such a packet what went into it. -/
theorem parsePublish_of_body {p : Packet} {topic payload : Text}
    (hheader : p.fixedHeader = PacketType.Publish) (htopic : topic.length ≤ kMaxStringLength)
    (hbody : p.body = appendUint16BigEndian [] topic.length ++ (topic ++ payload)) :
    parsePublish p.bytes = .ok { topic, payload } := by
  have hlength : topicLength p.body = topic.length := by
    rw [hbody]
    exact topicLength_appendUint16BigEndian (Nat.lt_of_le_of_lt htopic (by decide)) _
  have hpublish : p.isPublish = true := by
    rw [Packet.isPublish, hheader]
    rfl
  have hqos : qos p.fixedHeader = 0 := by
    rw [hheader]
    rfl
  have hfits : 2 + topic.length ≤ p.body.length := by
    rw [hbody, List.length_append, List.length_append]
    exact Nat.add_le_add_left (Nat.le_add_right _ _) 2
  have hdrop : p.body.drop 2 = topic ++ payload := by
    rw [hbody]
    rfl
  refine eq_ok_of_toOption ?_
  rw [parsePublish_bytes, Packet.publication, hlength, if_pos ⟨hpublish, hqos, hfits⟩,
    ← List.drop_drop, hdrop, List.take_left, List.drop_left]

/-! ## The round trip -/

/-- What is built is parsed again, and exactly what cannot be a packet is not built. -/
structure RoundTrips (topic payload : Text) : Prop where
  parsed : ∀ packet, buildPublish topic payload = .ok packet →
    parsePublish packet = .ok { topic, payload }
  counted : ∀ packet, buildPublish topic payload = .ok packet →
    ∃ remaining cursor, decodeRemainingLength packet 1 = .ok (remaining, cursor) ∧
      cursor + remaining = packet.length
  throws_iff : (∃ e, buildPublish topic payload = .error e) ↔
    kMaxStringLength < topic.length ∨ kMaxRemainingLength < publishLength topic payload

/-- A publication that is too long has a length that comes round to one that is not. -/
def ComesRound (topic payload : Text) : Prop :=
  topic.length ≤ kMaxStringLength ∧ kMaxRemainingLength < publishLength topic payload ∧
    publishLength topic payload % 2 ^ 32 ≤ kMaxRemainingLength

/-- Nothing is thrown for a length that comes round. -/
theorem not_roundTrips {topic payload : Text} (h : ComesRound topic payload) :
    ¬RoundTrips topic payload := by
  intro hround
  have hthrows := hround.throws_iff.mpr (Or.inr h.2.1)
  rcases (buildPublish_throws_iff topic payload).mp hthrows with htopic | hlength
  · exact Nat.not_lt.mpr h.1 htopic
  · exact Nat.not_lt.mpr h.2.2 hlength

theorem roundTrips_iff (topic payload : Text) :
    RoundTrips topic payload ↔ ¬ComesRound topic payload := by
  refine ⟨fun h hcomes => not_roundTrips hcomes h, fun h => ?_⟩
  have hthrows : (∃ e, buildPublish topic payload = .error e) ↔
      kMaxStringLength < topic.length ∨ kMaxRemainingLength < publishLength topic payload := by
    rw [buildPublish_throws_iff]
    refine or_congr_right' fun htopic => ⟨fun hlength => ?_, fun hlength => ?_⟩
    · exact Nat.lt_of_lt_of_le hlength (Nat.mod_le _ _)
    · by_contra hcast
      exact h ⟨Nat.not_lt.mp htopic, hlength, Nat.not_lt.mp hcast⟩
  -- What is returned is a packet whose parts are known.
  have hpacket : ∀ packet, buildPublish topic payload = .ok packet →
      topic.length ≤ kMaxStringLength ∧
        ∃ p : Packet, packet = p.bytes ∧ p.fixedHeader = PacketType.Publish ∧
          p.body = appendUint16BigEndian [] topic.length ++ (topic ++ payload) := by
    intro packet hpacket
    have hreturns : ¬∃ e, buildPublish topic payload = .error e := by
      rintro ⟨e, he⟩
      cases hpacket.symm.trans he
    have hnone := not_or.mp (hthrows.not.mp hreturns)
    obtain ⟨p, hbuilt, hheader, hbody⟩ :=
      buildPublish_eq_ok (Nat.not_lt.mp hnone.1) (Nat.not_lt.mp hnone.2)
    exact ⟨Nat.not_lt.mp hnone.1, p, Except.ok.inj (hpacket.symm.trans hbuilt), hheader, hbody⟩
  refine ⟨fun packet hbuilt => ?_, fun packet hbuilt => ?_, hthrows⟩
  · obtain ⟨htopic, p, rfl, hheader, hbody⟩ := hpacket packet hbuilt
    exact parsePublish_of_body hheader htopic hbody
  · obtain ⟨-, p, rfl, -, -⟩ := hpacket packet hbuilt
    refine ⟨_, _, decodeRemainingLength_bytes p, ?_⟩
    rw [p.length_bytes]

/-- The body of an empty topic and `2 ^ 32 - 2` bytes is counted as empty. -/
theorem not_roundTrips_four_gibibytes :
    ¬RoundTrips [] (List.replicate (2 ^ 32 - 2) 0) := by
  have hlength : publishLength [] (List.replicate (2 ^ 32 - 2) 0) = 2 ^ 32 := by
    rw [publishLength, List.length_replicate]
    rfl
  refine not_roundTrips ⟨Nat.zero_le _, ?_, ?_⟩
  · rw [hlength]
    decide
  · rw [hlength]
    decide

end Mqtt
