import IndustrialHmi.Integration.MqttEncoder

/-!
# The remaining length there and back

The encoder bounds the value and the decoder counts bytes.  Four bytes of seven bits hold exactly
the values that the encoder takes, so the two limits agree: whatever is encoded is decoded again,
and whatever is decoded could have been encoded, in no more bytes (`remainingLength_codec`).

The encoder masks and shifts to the right.  What the decoder multiplies and adds stays far below
32 bits, the multiplier that no byte uses any more included.
-/

namespace Mqtt

/-! ## Bounds -/

theorem lengthValue_lt (field : List UInt8) : lengthValue field < 128 ^ field.length := by
  induction field with
  | nil => exact Nat.one_pos
  | cons b field ih =>
      rw [lengthValue, List.length_cons, Nat.pow_succ']
      have hlow : b.toNat % 128 < 128 := Nat.mod_lt _ (by decide)
      omega

/-- No bytes with the same value are fewer than those of the encoder. -/
theorem length_encodeLoop_lengthValue_le {field : List UInt8} (h : IsLength field) :
    (encodeLoop (lengthValue field)).length ≤ field.length := by
  cases field with
  | nil => exact h.elim
  | cons b bs => exact length_encodeLoop_le (lengthValue_lt (b :: bs))

theorem length_encodeLoop_pos (value : Nat) : 1 ≤ (encodeLoop value).length := by
  rw [encodeLoop]
  split
  next => exact Nat.succ_le_succ (Nat.zero_le _)
  next => exact Nat.le_refl 1

theorem length_encodeLoop_le_max {value : Nat} (h : value ≤ kMaxRemainingLength) :
    (encodeLoop value).length ≤ kMaxRemainingLengthBytes :=
  length_encodeLoop_le (n := 3) (Nat.lt_of_le_of_lt h (by decide))

/-- A field that the decoder takes says a value that the encoder takes. -/
theorem lengthValue_le_max {field : List UInt8} (h : field.length ≤ kMaxRemainingLengthBytes) :
    lengthValue field ≤ kMaxRemainingLength := by
  have hpow : 128 ^ field.length ≤ 128 ^ kMaxRemainingLengthBytes :=
    Nat.pow_le_pow_right (by decide) h
  exact Nat.le_of_lt_succ (Nat.lt_of_lt_of_le (lengthValue_lt field) hpow)

/-! ## Where the decoder throws -/

/-- The bytes end before one that does not continue, or the first `n` all continue. -/
def LacksLength (n : Nat) (w : List UInt8) : Prop :=
  (∀ b ∈ w, continues b = true) ∨ (n ≤ w.length ∧ ∀ b ∈ w.take n, continues b = true)

theorem takeLength_eq_none_iff {n : Nat} {w : List UInt8} :
    takeLength n w = none ↔ LacksLength n w := by
  constructor
  · intro h
    induction n generalizing w with
    | zero => exact Or.inr ⟨Nat.zero_le _, fun b hb => absurd hb List.not_mem_nil⟩
    | succ n ih =>
        cases w with
        | nil => exact Or.inl fun b hb => absurd hb List.not_mem_nil
        | cons b w =>
            rw [takeLength] at h
            split at h
            next hmore =>
              rcases ih (Option.map_eq_none_iff.mp h) with hall | ⟨hle, hfirst⟩
              · exact Or.inl (List.forall_mem_cons.mpr ⟨hmore, hall⟩)
              · exact Or.inr ⟨Nat.succ_le_succ hle, List.forall_mem_cons.mpr ⟨hmore, hfirst⟩⟩
            next => cases h
  · rintro (hall | ⟨hle, hfirst⟩)
    · have h := takeLength_of_continues hall (n := n) (Or.inr rfl)
      rwa [List.append_nil] at h
    · have h := @takeLength_of_continues _ hfirst n (w.drop n)
        (Or.inl (Nat.le_of_eq (List.length_take_of_le hle).symm))
      rwa [List.take_append_drop] at h

/-- The decoder returns what a field at the cursor says. -/
theorem decodeRemainingLength_of_some {bytes field : List UInt8} {cursor : Nat}
    (h : takeLength kMaxRemainingLengthBytes (bytes.drop cursor) = some field) :
    decodeRemainingLength bytes cursor = .ok (lengthValue field, cursor + field.length) := by
  rw [decodeRemainingLength, decodeLoop_of_some h, Nat.zero_add, Nat.one_mul]

/-- And returns nothing else. -/
theorem exists_field_of_decode {bytes : List UInt8} {cursor value next : Nat}
    (h : decodeRemainingLength bytes cursor = .ok (value, next)) :
    ∃ field, IsLength field ∧ field.length ≤ kMaxRemainingLengthBytes ∧
      value = lengthValue field ∧ next = cursor + field.length := by
  cases hfield : takeLength kMaxRemainingLengthBytes (bytes.drop cursor) with
  | none =>
      obtain ⟨e, he⟩ := decodeLoop_of_none hfield 1 0
      cases he.symm.trans h
  | some field =>
      obtain ⟨hlength, hle, -⟩ := takeLength_eq_some hfield
      obtain ⟨rfl, rfl⟩ :=
        Prod.mk.inj (Except.ok.inj (h.symm.trans (decodeRemainingLength_of_some hfield)))
      exact ⟨field, hlength, hle, rfl, rfl⟩

/-! ## Words -/

namespace Checked

/-- A word of 32 bits, or nothing where it overflows. -/
def word (n : Nat) : Option Nat := if n < 2 ^ 32 then some n else none

/-- The loop of `decodeRemainingLength` with every sum and product checked. -/
def decodeLoop (bytes : List UInt8) : Nat → Nat → Nat → Nat → Option (Except Text (Nat × Nat))
  | 0, _, _, _ =>
      some (.error (ascii "MQTT remaining length: continuation bit set after max bytes"))
  | i + 1, cursor, multiplier, value =>
      match bytes[cursor]? with
      | none => some (.error (ascii "MQTT remaining length: truncated buffer"))
      | some byte => do
          let product ← word ((byte &&& kRemainingLengthValueMask).toNat * multiplier)
          let value ← word (value + product)
          if byte &&& kContinuationBit = 0 then some (.ok (value, cursor + 1))
          else do
            let multiplier ← word (multiplier * kRemainingLengthShift)
            decodeLoop bytes i (cursor + 1) multiplier value

def decodeRemainingLength (bytes : List UInt8) (cursor : Nat) : Option (Except Text (Nat × Nat)) :=
  decodeLoop bytes kMaxRemainingLengthBytes cursor 1 0

theorem word_of_le {n : Nat} (h : n ≤ 2 ^ 28) : word n = some n :=
  if_pos (Nat.lt_of_le_of_lt h (by decide))

/-- The value is below the multiplier, and the multiplier has a byte to go for each round that is
left. -/
theorem decodeLoop_eq_some (bytes : List UInt8) {n cursor multiplier value : Nat}
    (hmultiplier : multiplier * 128 ^ n ≤ 2 ^ 28) (hvalue : value < multiplier) :
    decodeLoop bytes n cursor multiplier value =
      some (Mqtt.decodeLoop bytes n cursor multiplier value) := by
  induction n generalizing cursor multiplier value with
  | zero => rfl
  | succ n ih =>
      rw [decodeLoop, Mqtt.decodeLoop]
      cases bytes[cursor]? with
      | none => rfl
      | some b =>
          have hnext : multiplier * kRemainingLengthShift * 128 ^ n ≤ 2 ^ 28 := by
            rw [Nat.pow_succ', ← Nat.mul_assoc] at hmultiplier
            exact hmultiplier
          have hmore : multiplier * kRemainingLengthShift ≤ 2 ^ 28 :=
            (Nat.le_mul_of_pos_right _ (Nat.pow_pos (by decide))).trans hnext
          have hlow : (b &&& kRemainingLengthValueMask).toNat ≤ 127 := by
            rw [toNat_and_mask]
            exact Nat.le_of_lt_succ (Nat.mod_lt _ (by decide))
          have hproduct := Nat.mul_le_mul_right multiplier hlow
          have hsum : value + (b &&& kRemainingLengthValueMask).toNat * multiplier <
              multiplier * kRemainingLengthShift := by
            rw [kRemainingLengthShift]
            omega
          dsimp only
          rw [word_of_le (by omega), Option.bind_eq_bind, Option.bind_some,
            word_of_le (by omega), Option.bind_some]
          split
          next => rfl
          next =>
            rw [word_of_le hmore]
            exact ih hnext hsum

theorem decodeRemainingLength_eq_some (bytes : List UInt8) (cursor : Nat) :
    decodeRemainingLength bytes cursor = some (Mqtt.decodeRemainingLength bytes cursor) :=
  decodeLoop_eq_some bytes (by decide) Nat.one_pos

end Checked

/-! ## The codec -/

/-- A value is encoded in one to four bytes, they are decoded wherever they stand, and no fewer
bytes are decoded to the same value. -/
structure Encoded (value : Nat) (field : List UInt8) : Prop where
  encoded : encodeRemainingLength value = .ok field
  length_pos : 1 ≤ field.length
  length_le : field.length ≤ 4
  decoded : ∀ (bytes : List UInt8) (cursor : Nat), field <+: bytes.drop cursor →
    decodeRemainingLength bytes cursor = .ok (value, cursor + field.length)
  shortest : ∀ (bytes : List UInt8) (cursor next : Nat),
    decodeRemainingLength bytes cursor = .ok (value, next) → cursor + field.length ≤ next

/-- The decoder throws exactly where no length of four bytes stands.  Elsewhere it returns a value
that the encoder has no more bytes for, and nothing overflows on the way. -/
structure Decoded (bytes : List UInt8) (cursor : Nat) : Prop where
  throws_iff : (∃ e, decodeRemainingLength bytes cursor = .error e) ↔
    LacksLength 4 (bytes.drop cursor)
  canonical : ∀ value next, decodeRemainingLength bytes cursor = .ok (value, next) →
    value < 2 ^ 28 ∧
      ∃ field, encodeRemainingLength value = .ok field ∧ cursor + field.length ≤ next
  words : Checked.decodeRemainingLength bytes cursor = some (decodeRemainingLength bytes cursor)

theorem encodeRemainingLength_of_le {value : Nat} (h : value ≤ kMaxRemainingLength) :
    encodeRemainingLength value = .ok (encodeLoop value) :=
  if_neg (Nat.not_lt.mpr h)

theorem encoded_encodeLoop {value : Nat} (h : value ≤ kMaxRemainingLength) :
    Encoded value (encodeLoop value) where
  encoded := encodeRemainingLength_of_le h
  length_pos := length_encodeLoop_pos value
  length_le := length_encodeLoop_le_max h
  decoded bytes cursor hprefix := by
    obtain ⟨rest, hrest⟩ := hprefix
    have hfield : takeLength kMaxRemainingLengthBytes (bytes.drop cursor) =
        some (encodeLoop value) := by
      rw [← hrest]
      exact takeLength_append (isLength_encodeLoop value) (length_encodeLoop_le_max h) rest
    rw [decodeRemainingLength_of_some hfield, lengthValue_encodeLoop]
  shortest bytes cursor next hdecode := by
    obtain ⟨field, hlength, -, rfl, rfl⟩ := exists_field_of_decode hdecode
    exact Nat.add_le_add_left (length_encodeLoop_lengthValue_le hlength) cursor

theorem decodeRemainingLength_throws_iff (bytes : List UInt8) (cursor : Nat) :
    (∃ e, decodeRemainingLength bytes cursor = .error e) ↔
      LacksLength kMaxRemainingLengthBytes (bytes.drop cursor) := by
  rw [← takeLength_eq_none_iff]
  constructor
  · rintro ⟨e, he⟩
    cases hfield : takeLength kMaxRemainingLengthBytes (bytes.drop cursor) with
    | none => rfl
    | some field => cases he.symm.trans (decodeRemainingLength_of_some hfield)
  · intro hnone
    exact decodeLoop_of_none hnone 1 0

theorem decoded_decodeRemainingLength (bytes : List UInt8) (cursor : Nat) :
    Decoded bytes cursor where
  throws_iff := decodeRemainingLength_throws_iff bytes cursor
  canonical value next hdecode := by
    obtain ⟨field, hlength, hle, rfl, rfl⟩ := exists_field_of_decode hdecode
    have hvalue := lengthValue_le_max hle
    exact ⟨Nat.lt_of_le_of_lt hvalue (by decide), encodeLoop (lengthValue field),
      encodeRemainingLength_of_le hvalue,
      Nat.add_le_add_left (length_encodeLoop_lengthValue_le hlength) cursor⟩
  words := Checked.decodeRemainingLength_eq_some bytes cursor

/-- What is encoded is decoded, and what is decoded can be encoded. -/
theorem remainingLength_codec :
    (∀ value ≤ kMaxRemainingLength, ∃ field, Encoded value field) ∧
      ∀ (bytes : List UInt8) (cursor : Nat), Decoded bytes cursor :=
  ⟨fun value h => ⟨encodeLoop value, encoded_encodeLoop h⟩, decoded_decodeRemainingLength⟩

end Mqtt
