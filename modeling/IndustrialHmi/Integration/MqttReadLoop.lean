import IndustrialHmi.Integration.MqttPacket
import IndustrialHmi.Theory.FirstMatch

/-!
# The MQTT read loop

Three reads take turns: the header byte, one more byte of the remaining length, the body.  Each
arms the next when it completes, and `readFrameBody` ends by starting over.

A `Connection` is the client with the bytes that have reached its socket and those that are still
to come.  How many bytes arrive at a time, and how much later a read completes, is up to the
`Turn`s.  Whatever they are, the client does with the stream what its packets say
(`implements_stream`).  Nobody stops the client, changes the subscriptions or throws from a
callback.
-/

namespace Mqtt

open Incremental

variable {κ : Type}

/-! ## The client -/

/-- The scratch buffers of a session. -/
structure Session where
  readFixedHeader : UInt8 := 0
  readLengthByte : UInt8 := 0
  readRemainingLengthBytes : List UInt8 := []
  readBody : List UInt8 := []

/-- A read that is armed. -/
inductive Read where
  | fixedHeader
  | lengthByte
  | body (bodyLen : Nat)
  deriving DecidableEq

/-- The bytes without which a read does not complete. -/
def Read.size : Read → Nat
  | .fixedHeader => 1
  | .lengthByte => 1
  | .body bodyLen => bodyLen

/-- A callback that was called. -/
structure Call (κ : Type) where
  callback : κ
  topic : Text
  payload : Text
  deriving DecidableEq

structure Client (κ : Type) where
  running : Bool := true
  receivedCount : BitVec 64
  /-- A topic may be subscribed with an empty callback. -/
  subscriptions : List (Text × Option κ)
  session : Session := {}
  armed : Option Read := none
  calls : List (Call κ) := []

namespace Client

def startReadLoop (c : Client κ) : Client κ :=
  { c with
    session := { c.session with readRemainingLengthBytes := [], readBody := [] }
    armed := some .fixedHeader }

def readRemainingLengthByte (c : Client κ) : Client κ := { c with armed := some .lengthByte }

def readFrameBody (c : Client κ) (bodyLen : Nat) : Client κ :=
  { c with
    session := { c.session with readBody := List.replicate bodyLen 0 }
    armed := some (.body bodyLen) }

/-- The connection is given up, with no read armed. -/
def giveUp (c : Client κ) : Client κ := { c with running := false, armed := none }

def deliverInboundPublish (c : Client κ) (topic payload : Text) : Client κ :=
  match (FirstMatch.find Prod.fst c.subscriptions topic).bind Prod.snd with
  | none => c
  | some callback => { c with calls := c.calls ++ [{ callback, topic, payload }] }

def dispatchFrame (c : Client κ) (fixedHeader : UInt8) (remainingLength body : List UInt8) :
    Client κ :=
  if fixedHeader &&& kFixedHeaderTypeMask = PacketType.Publish then
    match parsePublish (fixedHeader :: (remainingLength ++ body)) with
    | .error _ => c
    | .ok parsed =>
        let c := c.deliverInboundPublish parsed.topic parsed.payload
        { c with receivedCount := c.receivedCount + 1 }
  else c

def onFixedHeader (c : Client κ) (byte : UInt8) : Client κ :=
  { c with session := { c.session with readFixedHeader := byte } }.readRemainingLengthByte

def onLengthByte (c : Client κ) (byte : UInt8) : Client κ :=
  let lengthBytes := c.session.readRemainingLengthBytes ++ [byte]
  let c :=
    { c with
      session :=
        { c.session with readLengthByte := byte, readRemainingLengthBytes := lengthBytes } }
  if continues byte then
    if lengthBytes.length ≥ kMaxRemainingLengthBytes then c.giveUp
    else c.readRemainingLengthByte
  else
    match decodeRemainingLength lengthBytes 0 with
    | .error _ => c.giveUp
    | .ok (bodyLen, _) => c.readFrameBody bodyLen

def onBody (c : Client κ) (body : List UInt8) : Client κ :=
  let c := { c with session := { c.session with readBody := body } }
  (c.dispatchFrame c.session.readFixedHeader c.session.readRemainingLengthBytes
    c.session.readBody).startReadLoop

/-- The handler of a read that has completed. -/
def onRead (c : Client κ) (bytes : List UInt8) : Read → Client κ
  | .fixedHeader => c.onFixedHeader (bytes.headD 0)
  | .lengthByte => c.onLengthByte (bytes.headD 0)
  | .body _ => c.onBody bytes

end Client

/-! ## The connection -/

structure Connection (κ : Type) where
  client : Client κ
  /-- The bytes that have arrived and were not read. -/
  held : List UInt8 := []
  /-- The bytes that have not arrived. -/
  coming : List UInt8
  /-- The broker has closed its end, and the client knows. -/
  closed : Bool := false

/-- The connection when the client starts to read. -/
def connect (subscriptions : List (Text × Option κ)) (receivedCount : BitVec 64)
    (stream : List UInt8) : Connection κ where
  client := Client.startReadLoop { receivedCount, subscriptions }
  coming := stream

inductive Turn where
  /-- The next so many bytes arrive. -/
  | arrive (n : Nat)
  /-- The end of the stream arrives. -/
  | close
  /-- The worker runs the handler of the armed read, if that has completed. -/
  | complete
  deriving DecidableEq

namespace Connection

def step (s : Connection κ) : Turn → Connection κ
  | .arrive n => { s with held := s.held ++ s.coming.take n, coming := s.coming.drop n }
  | .close => if s.coming = [] then { s with closed := true } else s
  | .complete =>
      match s.client.armed with
      | none => s
      | some read =>
          if read.size ≤ s.held.length then
            { s with
              client := { s.client with armed := none }.onRead (s.held.take read.size) read
              held := s.held.drop read.size }
          -- A read that the end of the stream cuts short; its bytes are of no use any more.
          else if s.closed then { s with client := s.client.giveUp }
          else s

def run (s : Connection κ) (turns : List Turn) : Connection κ := turns.foldl step s

end Connection

/-! ## What the packets say -/

/-- The parser of publications takes the packet. -/
def Packet.accepted (p : Packet) : Bool := p.isPublish && (parsePublish p.bytes).isOk

/-- The callback that a packet is for, with what it is to be called with. -/
def Packet.delivery (subscriptions : List (Text × Option κ)) (p : Packet) : Option (Call κ) :=
  p.publication.bind fun parsed =>
    ((FirstMatch.find Prod.fst subscriptions parsed.topic).bind Prod.snd).map fun callback =>
      { callback, topic := parsed.topic, payload := parsed.payload }

theorem Packet.accepted_eq (p : Packet) : p.accepted = p.publication.isSome := by
  rw [accepted, ← parsePublish_bytes]
  cases hparsed : parsePublish p.bytes with
  | error e => exact Bool.and_false _
  | ok parsed =>
      have hpub : p.publication = some parsed := by
        rw [← parsePublish_bytes, hparsed]
        rfl
      have hpublish : p.isPublish = true := by
        rw [publication] at hpub
        split at hpub
        next h => exact h.1
        next => cases hpub
      rw [hpublish]
      rfl

/-- All that the dispatch of a packet does: its call, if there is one, and one more accepted. -/
theorem dispatchFrame_packet (c : Client κ) (p : Packet) :
    c.dispatchFrame p.fixedHeader p.remainingLength p.body =
      { c with
        calls := c.calls ++ (p.delivery c.subscriptions).toList
        receivedCount := c.receivedCount + BitVec.ofNat 64 p.accepted.toNat } := by
  have hpub := parsePublish_bytes p
  rw [Client.dispatchFrame, ← Packet.bytes, p.accepted_eq, Packet.delivery]
  by_cases hpublish : p.fixedHeader &&& kFixedHeaderTypeMask = PacketType.Publish
  · rw [if_pos hpublish]
    cases hparsed : parsePublish p.bytes with
    | error e =>
        rw [hparsed] at hpub
        rw [← hpub]
        simp [Except.toOption]
    | ok parsed =>
        rw [hparsed] at hpub
        rw [← hpub]
        dsimp only [Except.toOption, Option.bind_some, Client.deliverInboundPublish]
        cases (FirstMatch.find Prod.fst c.subscriptions parsed.topic).bind Prod.snd with
        | none => simp
        | some callback => rfl
  · have hnone : p.publication = none := by
      rw [Packet.publication, if_neg fun h => hpublish (of_decide_eq_true h.1)]
    rw [if_neg hpublish, hnone]
    simp

/-- The client has dealt with these packets and no others. -/
structure Dealt (subscriptions : List (Text × Option κ)) (count : BitVec 64) (ps : List Packet)
    (c : Client κ) : Prop where
  subscribed : c.subscriptions = subscriptions
  called : c.calls = ps.filterMap (Packet.delivery subscriptions)
  counted : c.receivedCount = count + BitVec.ofNat 64 (ps.countP Packet.accepted)

variable {subscriptions : List (Text × Option κ)} {count : BitVec 64}

theorem Dealt.dispatchFrame {ps : List Packet} {c : Client κ} (h : Dealt subscriptions count ps c)
    (p : Packet) :
    Dealt subscriptions count (ps ++ [p])
      (c.dispatchFrame p.fixedHeader p.remainingLength p.body) := by
  rw [dispatchFrame_packet]
  refine ⟨h.subscribed, ?_, ?_⟩
  · rw [List.filterMap_append, h.called, h.subscribed]
    cases hcall : p.delivery subscriptions with
    | none => simp [hcall]
    | some call => simp [hcall]
  · rw [List.countP_append, h.counted]
    cases haccepted : p.accepted with
    | false => simp [haccepted]
    | true => simp [haccepted, BitVec.ofNat_add, BitVec.add_assoc]

/-! ## Where in a packet the client is -/

/-- What the client has read of the packet it is in. -/
inductive Reading (s : Connection κ) : List UInt8 → Prop where
  | fixedHeader (running : s.client.running = true) (armed : s.client.armed = some .fixedHeader)
      (none_yet : s.client.session.readRemainingLengthBytes = []) : Reading s []
  | lengthByte (running : s.client.running = true) (armed : s.client.armed = some .lengthByte)
      (more : ∀ b ∈ s.client.session.readRemainingLengthBytes, continues b = true)
      (length_lt : s.client.session.readRemainingLengthBytes.length < kMaxRemainingLengthBytes) :
      Reading s (s.client.session.readFixedHeader :: s.client.session.readRemainingLengthBytes)
  | body (running : s.client.running = true)
      (armed : s.client.armed =
        some (.body (lengthValue s.client.session.readRemainingLengthBytes)))
      (isLength : IsLength s.client.session.readRemainingLengthBytes)
      (length_le : s.client.session.readRemainingLengthBytes.length ≤ kMaxRemainingLengthBytes) :
      Reading s (s.client.session.readFixedHeader :: s.client.session.readRemainingLengthBytes)
  /-- The fourth byte of the length was one that continues. -/
  | malformed (stopped : s.client.running = false) (armed : s.client.armed = none)
      (more : ∀ b ∈ s.client.session.readRemainingLengthBytes, continues b = true)
      (length_eq : s.client.session.readRemainingLengthBytes.length = kMaxRemainingLengthBytes) :
      Reading s (s.client.session.readFixedHeader :: s.client.session.readRemainingLengthBytes)
  /-- The stream ended before the packet did. -/
  | ended (stopped : s.client.running = false) (armed : s.client.armed = none)
      (closed : s.closed = true) {part : List UInt8}
      (incomplete : nextPacket (part ++ s.held) = none)
      (wellFormed : ¬Malformed (part ++ s.held)) : Reading s part

/-- Bytes with fewer than four continuing length bytes behind the header are not malformed. -/
theorem not_malformed_of_length {header : UInt8} {w : List UInt8}
    (h : w.length < kMaxRemainingLengthBytes) : ¬Malformed (header :: w) := by
  rintro ⟨_, more, rest, heq, hlength, _⟩
  rw [(List.cons.inj heq).2, List.length_append, hlength] at h
  exact absurd h (Nat.not_lt.mpr (Nat.le_add_right _ _))

theorem not_malformed_of_isLength {header : UInt8} {field : List UInt8} (h : IsLength field)
    (hle : field.length ≤ kMaxRemainingLengthBytes) (rest : List UInt8) :
    ¬Malformed (header :: (field ++ rest)) := by
  rintro ⟨_, more, rest', heq, hlength, hmore⟩
  have hfield := takeLength_append h hle rest
  rw [(List.cons.inj heq).2,
    takeLength_of_continues hmore (Or.inl (Nat.le_of_eq hlength.symm))] at hfield
  cases hfield

/-- A read that lacks bytes is in the middle of a packet, and nothing is wrong with it yet. -/
theorem Reading.lacks {s : Connection κ} {part : List UInt8} (h : Reading s part) {read : Read}
    (harmed : s.client.armed = some read) (hlacks : s.held.length < read.size) :
    nextPacket (part ++ s.held) = none ∧ ¬Malformed (part ++ s.held) := by
  cases h with
  | fixedHeader _ armed =>
      obtain rfl := Option.some.inj (armed.symm.trans harmed)
      have hheld : s.held = [] := List.eq_nil_of_length_eq_zero (Nat.lt_one_iff.mp hlacks)
      rw [hheld]
      refine ⟨rfl, ?_⟩
      rintro ⟨header, more, rest, heq, _⟩
      cases heq
  | lengthByte _ armed more length_lt =>
      obtain rfl := Option.some.inj (armed.symm.trans harmed)
      have hheld : s.held = [] := List.eq_nil_of_length_eq_zero (Nat.lt_one_iff.mp hlacks)
      rw [hheld, List.append_nil]
      refine ⟨?_, not_malformed_of_length length_lt⟩
      have hnone := takeLength_of_continues more (n := kMaxRemainingLengthBytes) (Or.inr rfl)
      rw [List.append_nil] at hnone
      exact nextPacket_of_takeLength hnone
  | body _ armed isLength length_le =>
      obtain rfl := Option.some.inj (armed.symm.trans harmed)
      exact ⟨nextPacket_of_lacks isLength length_le hlacks,
        not_malformed_of_isLength isLength length_le s.held⟩
  | malformed _ armed => rw [armed] at harmed; cases harmed
  | ended _ armed => rw [armed] at harmed; cases harmed

/-- The client is somewhere in the stream: the packets it has dealt with and what it has read of
the next make up the bytes that were read. -/
def Position (subscriptions : List (Text × Option κ)) (count : BitVec 64) (read : List UInt8)
    (s : Connection κ) : Prop :=
  ∃ ps part, read = ps.flatMap Packet.bytes ++ part ∧
    Dealt subscriptions count ps s.client ∧ Reading s part

section Completes

variable {s : Connection κ} {ps : List Packet} {c : Client κ} {held : List UInt8}

theorem position_onFixedHeader (hdealt : Dealt subscriptions count ps c)
    (hrunning : c.running = true) (hnone : c.session.readRemainingLengthBytes = [])
    (byte : UInt8) :
    Position subscriptions count (ps.flatMap Packet.bytes ++ [byte])
      { s with client := c.onFixedHeader byte, held } := by
  have hreading : Reading { s with client := c.onFixedHeader byte, held }
      (byte :: c.session.readRemainingLengthBytes) := by
    refine Reading.lengthByte hrunning rfl ?_ ?_
    · show ∀ b ∈ c.session.readRemainingLengthBytes, continues b = true
      rw [hnone]
      intro b hb
      cases hb
    · show c.session.readRemainingLengthBytes.length < kMaxRemainingLengthBytes
      rw [hnone]
      decide
  rw [hnone] at hreading
  exact ⟨ps, [byte], rfl, ⟨hdealt.subscribed, hdealt.called, hdealt.counted⟩, hreading⟩

theorem decodeRemainingLength_of_isLength {field : List UInt8} (h : IsLength field)
    (hle : field.length ≤ kMaxRemainingLengthBytes) :
    decodeRemainingLength field 0 = .ok (lengthValue field, field.length) := by
  have hloop := decodeLoop_length h [] [] hle 1 0
  rw [List.nil_append, List.append_nil, List.length_nil, Nat.zero_add, Nat.zero_add,
    Nat.one_mul] at hloop
  exact hloop

theorem position_onLengthByte (hdealt : Dealt subscriptions count ps c)
    (hrunning : c.running = true)
    (hmore : ∀ b ∈ c.session.readRemainingLengthBytes, continues b = true)
    (hlt : c.session.readRemainingLengthBytes.length < kMaxRemainingLengthBytes) (byte : UInt8) :
    Position subscriptions count
      (ps.flatMap Packet.bytes ++
        (c.session.readFixedHeader :: (c.session.readRemainingLengthBytes ++ [byte])))
      { s with client := c.onLengthByte byte, held } := by
  have hlength : (c.session.readRemainingLengthBytes ++ [byte]).length ≤
      kMaxRemainingLengthBytes := by
    rw [List.length_append]
    exact hlt
  unfold Client.onLengthByte
  dsimp only
  split
  next hbyte =>
    have hall : ∀ b ∈ c.session.readRemainingLengthBytes ++ [byte], continues b = true := by
      intro b hb
      rcases List.mem_append.mp hb with h | h
      · exact hmore b h
      · rw [List.mem_singleton.mp h]
        exact hbyte
    split
    next hmax =>
      exact ⟨ps, _, rfl, ⟨hdealt.subscribed, hdealt.called, hdealt.counted⟩,
        Reading.malformed rfl rfl hall (Nat.le_antisymm hlength hmax)⟩
    next hmax =>
      exact ⟨ps, _, rfl, ⟨hdealt.subscribed, hdealt.called, hdealt.counted⟩,
        Reading.lengthByte hrunning rfl hall (Nat.not_le.mp hmax)⟩
  next hbyte =>
    have hfield := isLength_concat hmore (Bool.eq_false_iff.mpr hbyte)
    rw [decodeRemainingLength_of_isLength hfield hlength]
    exact ⟨ps, _, rfl, ⟨hdealt.subscribed, hdealt.called, hdealt.counted⟩,
      Reading.body hrunning rfl hfield hlength⟩

theorem position_onBody (hdealt : Dealt subscriptions count ps c) (hrunning : c.running = true)
    (hfield : IsLength c.session.readRemainingLengthBytes)
    (hle : c.session.readRemainingLengthBytes.length ≤ kMaxRemainingLengthBytes)
    {body : List UInt8} (hbody : body.length = lengthValue c.session.readRemainingLengthBytes) :
    Position subscriptions count
      (ps.flatMap Packet.bytes ++
        (c.session.readFixedHeader :: (c.session.readRemainingLengthBytes ++ body)))
      { s with client := c.onBody body, held } := by
  let p : Packet := ⟨c.session.readFixedHeader, _, body, hfield, hle, hbody⟩
  have hdispatch := Dealt.dispatchFrame (c := { c with
    session := { c.session with readBody := body } })
    ⟨hdealt.subscribed, hdealt.called, hdealt.counted⟩ p
  refine ⟨ps ++ [p], [], ?_, ⟨hdispatch.subscribed, hdispatch.called, hdispatch.counted⟩,
    Reading.fixedHeader ?_ rfl rfl⟩
  · rw [List.flatMap_append, List.append_nil, List.flatMap_singleton]
    rfl
  · show (Client.dispatchFrame _ p.fixedHeader p.remainingLength p.body).running = true
    rw [dispatchFrame_packet]
    exact hrunning

end Completes

/-- The bytes read, the bytes held and the bytes to come are the stream. -/
structure Follows (subscriptions : List (Text × Option κ)) (count : BitVec 64)
    (stream : List UInt8) (s : Connection κ) : Prop where
  position : ∃ read, stream = read ++ (s.held ++ s.coming) ∧
    Position subscriptions count read s
  closed : s.closed = true → s.coming = []

section Run

variable {stream : List UInt8} {s : Connection κ}

theorem follows_connect (stream : List UInt8) :
    Follows subscriptions count stream (connect subscriptions count stream) :=
  ⟨⟨[], rfl, [], [], rfl, ⟨rfl, rfl, (BitVec.add_zero count).symm⟩,
    Reading.fixedHeader rfl rfl rfl⟩, fun h => absurd h Bool.false_ne_true⟩

/-- The read that is armed has all its bytes. -/
theorem Position.complete {read : List UInt8} {ps : List Packet} {part : List UInt8}
    (hread : read = ps.flatMap Packet.bytes ++ part)
    (hdealt : Dealt subscriptions count ps s.client) (hreading : Reading s part) {armed : Read}
    (harmed : s.client.armed = some armed) (hsize : armed.size ≤ s.held.length) :
    Position subscriptions count (read ++ s.held.take armed.size)
      { s with
        client := { s.client with armed := none }.onRead (s.held.take armed.size) armed
        held := s.held.drop armed.size } := by
  have hdealt' : Dealt subscriptions count ps { s.client with armed := none } :=
    ⟨hdealt.subscribed, hdealt.called, hdealt.counted⟩
  cases hreading with
  | fixedHeader hrunning harmed' hnone =>
      obtain rfl := Option.some.inj (harmed'.symm.trans harmed)
      cases hheld : s.held with
      | nil => rw [hheld] at hsize; cases hsize
      | cons byte held =>
          rw [hread, List.append_nil]
          exact position_onFixedHeader hdealt' hrunning hnone byte
  | lengthByte hrunning harmed' hmore hlt =>
      obtain rfl := Option.some.inj (harmed'.symm.trans harmed)
      cases hheld : s.held with
      | nil => rw [hheld] at hsize; cases hsize
      | cons byte held =>
          rw [hread, List.append_assoc]
          exact position_onLengthByte hdealt' hrunning hmore hlt byte
  | body hrunning harmed' hfield hle =>
      obtain rfl := Option.some.inj (harmed'.symm.trans harmed)
      rw [hread, List.append_assoc]
      exact position_onBody hdealt' hrunning hfield hle (List.length_take_of_le hsize)
  | malformed _ harmed' => rw [harmed'] at harmed; cases harmed
  | ended _ harmed' => rw [harmed'] at harmed; cases harmed

/-- Bytes that arrive change nothing about what was read. -/
theorem Reading.arrive {part : List UInt8} (h : Reading s part) (hclosed : s.closed = true →
    s.coming = []) (n : Nat) : Reading (s.step (.arrive n)) part := by
  cases h with
  | fixedHeader hrunning harmed hnone => exact .fixedHeader hrunning harmed hnone
  | lengthByte hrunning harmed hmore hlt => exact .lengthByte hrunning harmed hmore hlt
  | body hrunning harmed hfield hle => exact .body hrunning harmed hfield hle
  | malformed hstopped harmed hmore heq => exact .malformed hstopped harmed hmore heq
  | ended hstopped harmed hend hnone hwell =>
      have hheld : (s.step (.arrive n)).held = s.held := by
        show s.held ++ s.coming.take n = s.held
        rw [hclosed hend, List.take_nil, List.append_nil]
      refine Reading.ended (s := s.step (.arrive n)) hstopped harmed hend ?_ ?_
      · rw [hheld]
        exact hnone
      · rw [hheld]
        exact hwell

theorem Reading.close {part : List UInt8} (h : Reading s part) :
    Reading { s with closed := true } part := by
  cases h with
  | fixedHeader hrunning harmed hnone => exact .fixedHeader hrunning harmed hnone
  | lengthByte hrunning harmed hmore hlt => exact .lengthByte hrunning harmed hmore hlt
  | body hrunning harmed hfield hle => exact .body hrunning harmed hfield hle
  | malformed hstopped harmed hmore heq => exact .malformed hstopped harmed hmore heq
  | ended hstopped harmed _ hnone hwell =>
      exact Reading.ended (s := { s with closed := true }) hstopped harmed rfl hnone hwell

theorem follows_step (h : Follows subscriptions count stream s) (turn : Turn) :
    Follows subscriptions count stream (s.step turn) := by
  obtain ⟨⟨read, hstream, ps, part, hread, hdealt, hreading⟩, hclosed⟩ := h
  cases turn with
  | arrive n =>
      refine ⟨⟨read, ?_, ps, part, hread, hdealt, hreading.arrive hclosed n⟩, fun hend => ?_⟩
      · show stream = read ++ (s.held ++ s.coming.take n ++ s.coming.drop n)
        rw [List.append_assoc, List.take_append_drop]
        exact hstream
      · show s.coming.drop n = []
        rw [hclosed hend, List.drop_nil]
  | close =>
      rw [Connection.step]
      split
      next hcoming =>
        exact ⟨⟨read, hstream, ps, part, hread, hdealt, hreading.close⟩, fun _ => hcoming⟩
      next => exact ⟨⟨read, hstream, ps, part, hread, hdealt, hreading⟩, hclosed⟩
  | complete =>
      rw [Connection.step]
      split
      next => exact ⟨⟨read, hstream, ps, part, hread, hdealt, hreading⟩, hclosed⟩
      next armed harmed =>
        split
        next hsize =>
          refine ⟨⟨_, ?_, Position.complete hread hdealt hreading harmed hsize⟩, hclosed⟩
          show stream = read ++ s.held.take armed.size ++ (s.held.drop armed.size ++ s.coming)
          rw [List.append_assoc, ← List.append_assoc (s.held.take armed.size),
            List.take_append_drop]
          exact hstream
        next hlacks =>
          split
          next hend =>
            obtain ⟨hnone, hwell⟩ := hreading.lacks harmed (Nat.not_le.mp hlacks)
            exact ⟨⟨read, hstream, ps, part, hread,
              ⟨hdealt.subscribed, hdealt.called, hdealt.counted⟩,
              Reading.ended (s := { s with client := s.client.giveUp }) rfl rfl hend hnone hwell⟩,
              hclosed⟩
          next => exact ⟨⟨read, hstream, ps, part, hread, hdealt, hreading⟩, hclosed⟩

theorem follows_run (turns : List Turn) (h : Follows subscriptions count stream s) :
    Follows subscriptions count stream (s.run turns) := by
  induction turns generalizing s with
  | nil => exact h
  | cons turn turns ih => exact ih (follows_step h turn)

/-! ## The stream, when all of it has come -/

theorem scan_position (ps : List Packet) (tail : List UInt8) :
    packets (ps.flatMap Packet.bytes ++ tail) = ps ++ packets tail ∧
      unread (ps.flatMap Packet.bytes ++ tail) = unread tail := by
  rw [packets, unread, packetScanner.scan_render ps fun p _ => packetScanner_readsBack p]
  exact ⟨rfl, rfl⟩

theorem scan_none {w : List UInt8} (h : nextPacket w = none) : packets w = [] ∧ unread w = w := by
  rw [packets, unread, packetScanner.scan_of_none h]
  exact ⟨rfl, rfl⟩

/-- Where the client stopped at a malformed length, the rest of the stream begins with it. -/
theorem malformed_append {more : List UInt8} (hmore : ∀ b ∈ more, continues b = true)
    (hlength : more.length = kMaxRemainingLengthBytes) (header : UInt8) (rest : List UInt8) :
    Malformed (header :: more ++ rest) :=
  ⟨header, more, rest, rfl, hlength, hmore⟩

/-- A client that has stopped has dealt with all the packets of the stream, and stands behind a
malformed length or at the end. -/
theorem dealt_of_stopped (h : Follows subscriptions count stream s)
    (hstopped : s.client.running = false) :
    Dealt subscriptions count (packets stream) s.client ∧
      (Malformed (unread stream) ∧
          s.held ++ s.coming = (unread stream).drop (1 + kMaxRemainingLengthBytes) ∨
        ¬Malformed (unread stream) ∧ s.closed = true ∧ s.coming = []) := by
  obtain ⟨⟨read, hstream, ps, part, hread, hdealt, hreading⟩, hclosed⟩ := h
  rw [hread, List.append_assoc] at hstream
  obtain ⟨hpackets, hunread⟩ := scan_position ps (part ++ (s.held ++ s.coming))
  rw [← hstream] at hpackets hunread
  cases hreading with
  | fixedHeader hrunning => rw [hrunning] at hstopped; cases hstopped
  | lengthByte hrunning => rw [hrunning] at hstopped; cases hstopped
  | body hrunning => rw [hrunning] at hstopped; cases hstopped
  | malformed _ _ hmore hlength =>
      have hmalformed := malformed_append hmore hlength s.client.session.readFixedHeader
        (s.held ++ s.coming)
      obtain ⟨hnone, hrest⟩ := scan_none (nextPacket_of_malformed hmalformed)
      rw [hnone, List.append_nil] at hpackets
      rw [hrest] at hunread
      rw [hpackets, hunread]
      refine ⟨hdealt, Or.inl ⟨hmalformed, ?_⟩⟩
      rw [← hlength, Nat.add_comm, List.cons_append, List.drop_succ_cons, List.drop_left]
  | ended _ _ hend hincomplete hwell =>
      rw [hclosed hend, List.append_nil] at hpackets hunread
      obtain ⟨hnone, hrest⟩ := scan_none hincomplete
      rw [hnone, List.append_nil] at hpackets
      rw [hrest] at hunread
      rw [hpackets, hunread]
      exact ⟨hdealt, Or.inr ⟨hwell, hend, hclosed hend⟩⟩

/-- No read is armed that could complete or fail. -/
def Quiet (s : Connection κ) : Prop :=
  ∀ armed, s.client.armed = some armed → s.held.length < armed.size ∧ s.closed = false

/-- All that has come is dealt with, and the client has stopped if it should. -/
structure Settled (subscriptions : List (Text × Option κ)) (count : BitVec 64)
    (stream : List UInt8) (s : Connection κ) : Prop where
  dealt : Dealt subscriptions count (packets stream) s.client
  stopped : s.client.running = false ↔ s.closed = true ∨ Malformed (unread stream)

theorem settled_of_quiet (h : Follows subscriptions count stream s) (hcoming : s.coming = [])
    (hquiet : Quiet s) : Settled subscriptions count stream s := by
  by_cases hstopped : s.client.running = false
  · obtain ⟨hdealt, hwhere⟩ := dealt_of_stopped h hstopped
    refine ⟨hdealt, iff_of_true hstopped ?_⟩
    rcases hwhere with ⟨hmalformed, _⟩ | ⟨_, hend, _⟩
    · exact Or.inr hmalformed
    · exact Or.inl hend
  · obtain ⟨⟨read, hstream, ps, part, hread, hdealt, hreading⟩, _⟩ := h
    obtain ⟨armed, harmed⟩ : ∃ armed, s.client.armed = some armed := by
      cases hreading with
      | fixedHeader _ harmed => exact ⟨_, harmed⟩
      | lengthByte _ harmed => exact ⟨_, harmed⟩
      | body _ harmed => exact ⟨_, harmed⟩
      | malformed hfalse => exact absurd hfalse hstopped
      | ended hfalse => exact absurd hfalse hstopped
    obtain ⟨hlacks, hopen⟩ := hquiet armed harmed
    obtain ⟨hincomplete, hwell⟩ := hreading.lacks harmed hlacks
    obtain ⟨hpackets, hunread⟩ := scan_position ps (part ++ s.held)
    obtain ⟨hnone, hrest⟩ := scan_none hincomplete
    rw [hread, hcoming, List.append_nil, List.append_assoc] at hstream
    rw [← hstream, hnone, List.append_nil] at hpackets
    rw [← hstream, hrest] at hunread
    rw [← hpackets] at hdealt
    refine ⟨hdealt, iff_of_false hstopped ?_⟩
    rw [hunread, hopen]
    exact not_or_intro Bool.false_ne_true hwell

/-! ## The client gets through with what has come -/

/-- A bound on how many more reads complete with the bytes that are held. -/
def pending (s : Connection κ) : Nat :=
  match s.client.armed with
  | none => 0
  | some (.body _) => 2 * s.held.length + 2
  | some _ => 2 * s.held.length + 1

theorem pending_le (s : Connection κ) : pending s ≤ 2 * s.held.length + 2 := by
  unfold pending
  split
  · exact Nat.zero_le _
  · exact Nat.le_refl _
  · exact Nat.le_succ _

theorem pending_complete (hquiet : ¬Quiet s) : pending (s.step .complete) < pending s := by
  obtain ⟨armed, hcan⟩ := not_forall.mp hquiet
  obtain ⟨harmed, hcan⟩ := Classical.not_imp.mp hcan
  rw [Connection.step, harmed]
  dsimp only
  split
  next hsize =>
    rw [pending.eq_def s, harmed]
    cases armed with
    | fixedHeader =>
        have hle := pending_le { s with
          client := { s.client with armed := none }.onRead (s.held.take 1) .fixedHeader
          held := s.held.drop 1 }
        simp only [Read.size, List.length_drop] at *
        omega
    | lengthByte =>
        have hle := pending_le { s with
          client := { s.client with armed := none }.onRead (s.held.take 1) .lengthByte
          held := s.held.drop 1 }
        simp only [Read.size, List.length_drop] at *
        omega
    | body bodyLen =>
        show 2 * (s.held.drop bodyLen).length + 1 < 2 * s.held.length + 2
        rw [List.length_drop]
        omega
  next hlacks =>
    split
    next hend =>
      show 0 < pending s
      rw [pending.eq_def, harmed]
      cases armed <;> exact Nat.succ_pos _
    next hopen => exact absurd ⟨Nat.not_le.mp hlacks, Bool.eq_false_iff.mpr hopen⟩ hcan

theorem complete_of_quiet (hquiet : Quiet s) : s.step .complete = s := by
  rw [Connection.step]
  split
  next => rfl
  next armed harmed =>
    obtain ⟨hlacks, hopen⟩ := hquiet armed harmed
    rw [if_neg (Nat.not_le.mpr hlacks), hopen]
    rfl

theorem quiet_of_pending (n : Nat) (h : pending s ≤ n) :
    Quiet (s.run (List.replicate n .complete)) := by
  induction n generalizing s with
  | zero =>
      by_contra hquiet
      have hless := pending_complete (s := s) hquiet
      omega
  | succ n ih =>
      by_cases hquiet : Quiet s
      · have hstay : ∀ n, s.run (List.replicate n .complete) = s := by
          intro n
          induction n with
          | zero => rfl
          | succ n ih =>
              rw [List.replicate_succ, Connection.run, List.foldl_cons,
                complete_of_quiet hquiet]
              exact ih
        rw [hstay]
        exact hquiet
      · rw [List.replicate_succ, Connection.run, List.foldl_cons]
        exact ih (Nat.le_of_lt_succ (Nat.lt_of_lt_of_le (pending_complete hquiet) h))

theorem coming_of_completes (n : Nat) :
    (s.run (List.replicate n .complete)).coming = s.coming := by
  induction n generalizing s with
  | zero => rfl
  | succ n ih =>
      rw [List.replicate_succ, Connection.run, List.foldl_cons]
      refine (ih (s := s.step .complete)).trans ?_
      rw [Connection.step]
      split
      · rfl
      · split
        · rfl
        · split <;> rfl

end Run

/-- The client does with the stream what its packets say. -/
structure Implements (subscriptions : List (Text × Option κ)) (count : BitVec 64)
    (stream : List UInt8) (s : Connection κ) : Prop where
  /-- It deals with the packets one after the other. -/
  in_order : ∃ ps, ps <+: packets stream ∧ Dealt subscriptions count ps s.client
  /-- It stops nowhere but behind the first malformed length and at the end. -/
  stopped : s.client.running = false →
    Dealt subscriptions count (packets stream) s.client ∧
      (Malformed (unread stream) ∧
          s.held ++ s.coming = (unread stream).drop (1 + kMaxRemainingLengthBytes) ∨
        ¬Malformed (unread stream) ∧ s.closed = true ∧ s.coming = [])
  /-- Once all has arrived it gets through, and stops if it should. -/
  settles : s.coming = [] → ∃ n, ∀ m ≥ n,
    Settled subscriptions count stream (s.run (List.replicate m .complete))

theorem implements_stream (subscriptions : List (Text × Option κ)) (count : BitVec 64)
    (stream : List UInt8) (turns : List Turn) :
    Implements subscriptions count stream ((connect subscriptions count stream).run turns) := by
  have hfollows : Follows subscriptions count stream
      ((connect subscriptions count stream).run turns) :=
    follows_run turns (follows_connect stream)
  refine ⟨?_, dealt_of_stopped hfollows, fun hcoming => ?_⟩
  · obtain ⟨read, hstream, ps, part, hread, hdealt, _⟩ := hfollows.position
    rw [hread, List.append_assoc] at hstream
    refine ⟨ps, ?_, hdealt⟩
    rw [hstream, (scan_position _ _).1]
    exact List.prefix_append ps _
  · refine ⟨pending ((connect subscriptions count stream).run turns), fun m hm => ?_⟩
    refine settled_of_quiet (follows_run _ hfollows) ?_ (quiet_of_pending m hm)
    rw [coming_of_completes]
    exact hcoming

/-- A publication with `hi` for the topic `t` is delivered, with an acknowledgement and a packet
of a higher quality of service around it, however the bytes are cut. -/
example :
    (((connect [(ascii "t", some 7)] 0
      [0x90, 3, 0, 1, 0, 0x30, 5, 0, 1, 0x74, 0x68, 0x69, 0x32, 3, 0, 1, 0x74]).run
        ([.arrive 1, .complete, .arrive 6] ++ List.replicate 4 .complete ++ [.arrive 99, .close] ++
          List.replicate 9 .complete)).client.calls =
      [{ callback := 7, topic := ascii "t", payload := ascii "hi" }]) := by decide

end Mqtt
