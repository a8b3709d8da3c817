import IndustrialHmi.Integration.MqttLifecycle
import Mathlib.Data.List.Nodup

/-!
# The identifiers of SUBSCRIBE frames

A frame takes its packet identifier from a counter of 16 bits that begins at 1 and is never set
back: sessions come and go, and the replay of the subscriptions goes on counting.

So 65535 frames in a row have different identifiers, wherever they begin.  The frame after the
first 65535 has the identifier 0, which no SUBSCRIBE may have (`validIdentifiers_iff`).
-/

namespace Mqtt

/-- The word with which the body of a frame begins. -/
def packetIdentifier (frame : List UInt8) : Except Text Nat := do
  let (_, cursor) ← decodeRemainingLength frame 1
  let (identifier, _) ← readUint16BigEndian frame cursor
  return identifier

theorem packetIdentifier_bytes {p : Packet} (h : 2 ≤ p.body.length) :
    packetIdentifier p.bytes = .ok (topicLength p.body) := by
  have hword := readUint16BigEndian_append (p.fixedHeader :: p.remainingLength) h
  rw [List.cons_append, ← Packet.bytes, List.length_cons, Nat.add_comm _ 1] at hword
  rw [packetIdentifier, decodeRemainingLength_bytes]
  show (readUint16BigEndian p.bytes (1 + p.remainingLength.length) >>= _) = _
  rw [hword]
  rfl

/-- A filter that is not too long is put into a frame that carries the identifier. -/
theorem buildSubscribe_eq_ok {packetId : Nat} (hid : packetId < 2 ^ 16) {topic : Text}
    (h : topic.length ≤ kMaxStringLength) :
    ∃ frame, buildSubscribe packetId topic = .ok frame ∧
      packetIdentifier frame = .ok packetId := by
  obtain ⟨payload, hpayload⟩ : ∃ payload,
      payload = appendUint16BigEndian [] topic.length ++ topic ++ [kSubscribeRequestedQos0] :=
    ⟨_, rfl⟩
  have hlength : (appendUint16BigEndian [] packetId ++ payload).length = 2 + payload.length := by
    rw [List.length_append, length_appendUint16BigEndian]
  have hle : 2 + payload.length ≤ kMaxRemainingLength := by
    rw [hpayload, List.length_append, List.length_append, length_appendUint16BigEndian,
      List.length_singleton, kMaxRemainingLength]
    rw [kMaxStringLength] at h
    omega
  refine ⟨(Packet.ofBody (PacketType.Subscribe ||| kSubscribeFixedHeaderFlags)
    (appendUint16BigEndian [] packetId ++ payload) ((Nat.le_of_eq hlength).trans hle)).bytes,
    ?_, ?_⟩
  · rw [buildSubscribe, encodeString_eq_ok h]
    show (encodeRemainingLength ((2 + (_ ++ _ ++ _ : List UInt8).length) % 2 ^ 32) >>= _) = _
    rw [← hpayload, encodeRemainingLength_eq_ok hle, Packet.bytes_ofBody, hlength,
      ← List.append_assoc]
    rfl
  · rw [packetIdentifier_bytes ((Nat.le_add_right 2 _).trans (Nat.le_of_eq hlength.symm))]
    exact congrArg Except.ok (topicLength_appendUint16BigEndian hid payload)

namespace MqttClient

/-! ## What is written -/

/-- The frame that `sendSubscribeFrame` hands to the socket. -/
def subscribeFrame (c : MqttClient) (topicFilter : Text) : List (List UInt8) :=
  if c.session = none ∨ c.running = false then []
  else (buildSubscribe c.nextPacketId.toNat topicFilter).toOption.toList

def replayFrames (written : Text → Bool) : MqttClient → List Text → List (List UInt8)
  | _, [] => []
  | c, topic :: topics =>
      c.subscribeFrame topic ++
        replayFrames written (c.sendSubscribeFrame (written topic)) topics

def invokeFrames (c : MqttClient) : Handler → List (List UInt8)
  | .subscribe topicFilter => c.subscribeFrame topicFilter
  | _ => []

def runOneFrames (c : MqttClient) (i : Nat) : List (List UInt8) :=
  match c.io.runOne i with
  | (none, _) => []
  | (some handler, io) => { c with io := io }.invokeFrames handler

def connectFrames (c : MqttClient) : Answer → List (List UInt8)
  | .unreachable => []
  | .replied _ drained _ =>
      let c := { c with io := c.io.post .deadline }
      c.runOneFrames (min drained (c.io.outstanding.length - 1))

def startFrames (c : MqttClient) (a : Answer) (written : Text → Bool) : List (List UInt8) :=
  if c.running then []
  else
    c.renewed.connectFrames a ++
      match c.renewed.connectToBroker a with
      | (_, false) => []
      | (c', true) =>
          replayFrames written c'.scheduleHeartbeat.startReadLoop
            c'.scheduleHeartbeat.startReadLoop.subscriptions

def stepFrames (c : MqttClient) : Event → List (List UInt8)
  | .start a written => if c.Joining then [] else c.startFrames a written
  | .handler worker i _ => if worker ∈ c.workers then c.runOneFrames i else []
  | _ => []

def framesFrom (c : MqttClient) : List Event → List (List UInt8)
  | [] => []
  | e :: events => c.stepFrames e ++ (c.step e).framesFrom events

/-- The SUBSCRIBE frames of a run of a new client. -/
def frames (events : List Event) : List (List UInt8) := framesFrom {} events

/-! ## How they are numbered -/

/-- The frames that are written from one state to another are numbered on from the first. -/
structure Numbers (c c' : MqttClient) (frames : List (List UInt8)) : Prop where
  next : c'.nextPacketId = c.nextPacketId + BitVec.ofNat 16 frames.length
  identifiers : frames.map packetIdentifier =
    (List.range frames.length).map fun i => .ok (c.nextPacketId + BitVec.ofNat 16 i).toNat

theorem numbers_nil {c c' : MqttClient} (h : c'.nextPacketId = c.nextPacketId) :
    Numbers c c' [] :=
  ⟨h.trans (BitVec.add_zero _).symm, rfl⟩

theorem Numbers.trans {c c' c'' : MqttClient} {frames frames' : List (List UInt8)}
    (h : Numbers c c' frames) (h' : Numbers c' c'' frames') :
    Numbers c c'' (frames ++ frames') := by
  constructor
  · rw [h'.next, h.next, List.length_append, BitVec.ofNat_add, BitVec.add_assoc]
  · rw [List.map_append, h.identifiers, h'.identifiers, List.length_append, List.range_add,
      List.map_append, List.map_map, h.next]
    refine congrArg (_ ++ ·) (List.map_congr_left fun i _ => ?_)
    rw [Function.comp_apply, BitVec.ofNat_add, BitVec.add_assoc]

/-- Such a part of a run, in which nothing is subscribed. -/
structure Sends (c c' : MqttClient) (frames : List (List UInt8)) : Prop
    extends Numbers c c' frames where
  subscriptions : c'.subscriptions = c.subscriptions
  outstanding : ∀ t, Handler.subscribe t ∈ c'.io.outstanding →
    Handler.subscribe t ∈ c.io.outstanding

theorem Sends.trans {c c' c'' : MqttClient} {frames frames' : List (List UInt8)}
    (h : Sends c c' frames) (h' : Sends c' c'' frames') : Sends c c'' (frames ++ frames') :=
  ⟨h.toNumbers.trans h'.toNumbers, h'.subscriptions.trans h.subscriptions,
    fun t ht => h.outstanding t (h'.outstanding t ht)⟩

/-- Nothing is sent, and no handler is added that would send. -/
theorem sends_nil {c c' : MqttClient} (hnext : c'.nextPacketId = c.nextPacketId)
    (hsubscriptions : c'.subscriptions = c.subscriptions)
    (houtstanding : ∀ t, Handler.subscribe t ∈ c'.io.outstanding →
      Handler.subscribe t ∈ c.io.outstanding) :
    Sends c c' [] :=
  ⟨numbers_nil hnext, hsubscriptions, houtstanding⟩

theorem subscribe_mem_arm {io : IoContext Handler} {handler : Handler}
    (h : ∀ t, handler ≠ .subscribe t) (t : Text)
    (ht : Handler.subscribe t ∈ (io.arm handler).outstanding) :
    Handler.subscribe t ∈ io.outstanding := by
  rw [IoContext.outstanding_arm] at ht
  exact (List.mem_append.mp ht).resolve_right fun hlast => h t (List.mem_singleton.mp hlast).symm

theorem subscribe_mem_post {io : IoContext Handler} {handler : Handler}
    (h : ∀ t, handler ≠ .subscribe t) (t : Text)
    (ht : Handler.subscribe t ∈ (io.post handler).outstanding) :
    Handler.subscribe t ∈ io.outstanding :=
  (io.mem_outstanding_post.mp ht).resolve_right fun hlast => h t hlast.symm

theorem sends_scheduleHeartbeat (c : MqttClient) : Sends c c.scheduleHeartbeat [] := by
  rw [scheduleHeartbeat]
  split
  next => exact sends_nil rfl rfl fun _ => id
  next => exact sends_nil rfl rfl (subscribe_mem_arm fun _ h => by cases h)

theorem sends_startReadLoop (c : MqttClient) : Sends c c.startReadLoop [] := by
  rw [startReadLoop]
  split
  next => exact sends_nil rfl rfl fun _ => id
  next => exact sends_nil rfl rfl (subscribe_mem_arm fun _ h => by cases h)

/-- Nothing is sent when the io_context runs out. -/
theorem sends_runOut (c : MqttClient) : Sends c c.runOut [] := by
  rw [runOut]
  split <;> exact sends_nil rfl rfl fun _ => id

/-- The frame carries the number that the counter had. -/
theorem sends_sendSubscribeFrame (c : MqttClient) {topicFilter : Text}
    (h : topicFilter.length ≤ kMaxStringLength) (written : Bool) :
    Sends c (c.sendSubscribeFrame written) (c.subscribeFrame topicFilter) := by
  rw [sendSubscribeFrame, subscribeFrame]
  split
  next => exact sends_nil rfl rfl fun _ => id
  next =>
    obtain ⟨frame, hframe, hid⟩ := buildSubscribe_eq_ok c.nextPacketId.isLt h
    rw [hframe]
    have hids : [frame].map packetIdentifier =
        [.ok (c.nextPacketId + BitVec.ofNat 16 0).toNat] := by
      rw [List.map_singleton, hid, BitVec.add_zero]
    cases written with
    | false => exact ⟨⟨rfl, hids⟩, rfl, fun _ => id⟩
    | true => exact ⟨⟨rfl, hids⟩, rfl, fun _ => id⟩

theorem sends_replay (written : Text → Bool) {topics : List Text}
    (h : ∀ t ∈ topics, t.length ≤ kMaxStringLength) (c : MqttClient) :
    Sends c (topics.foldl (fun c topic => c.sendSubscribeFrame (written topic)) c)
      (replayFrames written c topics) := by
  induction topics generalizing c with
  | nil => exact sends_nil rfl rfl fun _ => id
  | cons topic topics ih =>
      have hfirst := sends_sendSubscribeFrame c (h topic List.mem_cons_self) (written topic)
      exact hfirst.trans (ih (fun t ht => h t (List.mem_cons_of_mem topic ht)) _)

theorem sends_invoke (c : MqttClient) (found : Found) {handler : Handler}
    (h : ∀ t, handler = .subscribe t → t.length ≤ kMaxStringLength) :
    Sends c (c.invoke found handler).1 (c.invokeFrames handler) := by
  have hkept : ∀ running publishedCount,
      Sends c { c with running := running, publishedCount := publishedCount } [] :=
    fun _ _ => sends_nil rfl rfl fun _ => id
  cases handler with
  | deadline => exact hkept _ _
  | heartbeat =>
      rw [invoke]
      split
      next => exact hkept _ _
      next =>
        split
        next => exact hkept _ _
        next => exact c.sends_scheduleHeartbeat
  | read =>
      rw [invoke]
      split
      next => exact hkept _ _
      next =>
        split
        next => exact hkept _ _
        next => exact c.sends_startReadLoop
  | publish topic payload =>
      rw [invoke]
      split
      next => exact hkept _ _
      next =>
        split
        next => exact hkept _ _
        next => split <;> exact hkept _ _
  | subscribe topicFilter => exact c.sends_sendSubscribeFrame (h topicFilter rfl) _

/-! ## Filters -/

/-- The filters that are known and those that wait are short enough for a frame. -/
structure FiltersFit (c : MqttClient) : Prop where
  subscriptions : ∀ t ∈ c.subscriptions, t.length ≤ kMaxStringLength
  outstanding : ∀ t, Handler.subscribe t ∈ c.io.outstanding → t.length ≤ kMaxStringLength

theorem FiltersFit.sends {c c' : MqttClient} {frames : List (List UInt8)} (h : c.FiltersFit)
    (hsends : Sends c c' frames) : c'.FiltersFit := by
  refine ⟨?_, fun t ht => h.outstanding t (hsends.outstanding t ht)⟩
  rw [hsends.subscriptions]
  exact h.subscriptions

theorem FiltersFit.subscribe {c : MqttClient} (h : c.FiltersFit) (topicFilter : Text) :
    (c.subscribe topicFilter).FiltersFit := by
  rw [MqttClient.subscribe]
  split
  next => exact h
  next hfits =>
    have hlength := Nat.not_lt.mp (not_or.mp hfits).2
    have hknown : ∀ t ∈ c.subscriptions.insert topicFilter, t.length ≤ kMaxStringLength := by
      intro t ht
      rcases List.mem_insert_iff.mp ht with rfl | ht
      · exact hlength
      · exact h.subscriptions t ht
    dsimp only
    split
    next => exact ⟨hknown, h.outstanding⟩
    next =>
      refine ⟨hknown, fun t ht => ?_⟩
      rcases c.io.mem_outstanding_post.mp ht with ht | ht
      · exact h.outstanding t ht
      · obtain rfl := Handler.subscribe.inj ht
        exact hlength

theorem FiltersFit.runOne {c : MqttClient} (h : c.FiltersFit) (i : Nat) (found : Found) :
    Sends c (c.runOne i found).1 (c.runOneFrames i) := by
  have htaken : Sends c { c with io := (c.io.runOne i).2 } [] :=
    sends_nil rfl rfl fun _ => c.io.mem_outstanding_runOne
  have hwas := c.io.fst_runOne i
  rw [MqttClient.runOne, runOneFrames]
  revert htaken hwas
  generalize c.io.runOne i = r
  obtain ⟨handler, io⟩ := r
  intro htaken hwas
  cases handler with
  | none => exact htaken
  | some handler =>
      refine htaken.trans (sends_invoke _ found fun t ht => ?_)
      have hmem : handler ∈ c.io.outstanding := by
        dsimp only at hwas
        split at hwas
        next => cases hwas
        next => exact List.mem_of_getElem? hwas.symm
      exact h.outstanding t (ht ▸ hmem)

theorem FiltersFit.connectToBroker {c : MqttClient} (h : c.FiltersFit) (a : Answer) :
    Sends c (c.connectToBroker a).1 (c.connectFrames a) := by
  cases a with
  | unreachable => exact sends_nil rfl rfl fun _ => id
  | replied accepted drained found =>
      have hdeadline : Sends c { c with io := c.io.post .deadline } [] :=
        sends_nil rfl rfl (subscribe_mem_post fun _ h => by cases h)
      exact hdeadline.trans ((h.sends hdeadline).runOne _ found)

theorem FiltersFit.start {c : MqttClient} (h : c.FiltersFit) (a : Answer)
    (written : Text → Bool) : Sends c (c.start a written) (c.startFrames a written) := by
  rw [MqttClient.start, startFrames]
  cases hrunning : c.running with
  | true => exact sends_nil rfl rfl fun _ => id
  | false =>
      have hrenewed : Sends c c.renewed [] := sends_nil rfl rfl fun _ => id
      have hconnect := hrenewed.trans ((h.sends hrenewed).connectToBroker a)
      rw [if_neg Bool.false_ne_true, if_neg Bool.false_ne_true]
      revert hconnect
      generalize c.renewed.connectToBroker a = r
      obtain ⟨c', accepted⟩ := r
      intro hconnect
      cases accepted with
      | false =>
          have hrolledBack : Sends c' { c' with session := none, running := false } [] :=
            sends_nil rfl rfl fun _ => id
          have hstopped := hconnect.trans (hrolledBack.trans (sends_runOut _))
          rw [List.append_nil] at hstopped
          exact hstopped
      | true =>
          have harmed := hconnect.trans ((c'.sends_scheduleHeartbeat).trans
            c'.scheduleHeartbeat.sends_startReadLoop)
          rw [List.append_nil, List.append_nil] at harmed
          have hreplay := harmed.trans (sends_replay written (h.sends harmed).subscriptions _)
          refine ⟨⟨hreplay.next, hreplay.identifiers⟩, hreplay.subscriptions, hreplay.outstanding⟩

theorem FiltersFit.handler {c : MqttClient} (h : c.FiltersFit) (worker i : Nat) (found : Found) :
    Sends c (c.step (.handler worker i found)) (c.stepFrames (.handler worker i found)) := by
  rw [MqttClient.step, MqttClient.runIoLoop, stepFrames]
  split
  next =>
    have hone := h.runOne i found
    revert hone
    generalize c.runOne i found = r
    obtain ⟨c', threw⟩ := r
    intro hone
    cases threw with
    | false =>
        have hrun := hone.trans (sends_runOut _)
        rwa [List.append_nil] at hrun
    | true =>
        have hended : Sends c' { c' with
            running := false
            workers := c'.workers.erase worker } [] :=
          sends_nil rfl rfl fun _ => id
        have hrun := hone.trans (hended.trans (sends_runOut _))
        simp only [List.append_nil] at hrun
        exact hrun
  next => exact sends_nil rfl rfl fun _ => id

theorem FiltersFit.step {c : MqttClient} (h : c.FiltersFit) (e : Event) :
    (c.step e).FiltersFit ∧ Numbers c (c.step e) (c.stepFrames e) := by
  -- All but a subscription send what they send, and add no filter.
  have hof : ∀ {c' : MqttClient} {frames : List (List UInt8)}, Sends c c' frames →
      c'.FiltersFit ∧ Numbers c c' frames :=
    fun hsends => ⟨h.sends hsends, hsends.toNumbers⟩
  cases e with
  | start a written =>
      rw [MqttClient.step, stepFrames]
      split
      next => exact hof (sends_nil rfl rfl fun _ => id)
      next => exact hof (h.start a written)
  | stop =>
      rw [MqttClient.step, MqttClient.stop]
      split
      next => exact hof (sends_nil rfl rfl fun _ => id)
      next =>
        split
        next => exact hof (sends_nil rfl rfl fun _ h => by cases h)
        next => exact hof (sends_nil rfl rfl fun _ => id)
  | publish topic payload =>
      rw [MqttClient.step, MqttClient.publish]
      split
      next => exact hof (sends_nil rfl rfl fun _ => id)
      next => exact hof (sends_nil rfl rfl (subscribe_mem_post fun _ h => by cases h))
  | subscribe topicFilter =>
      refine ⟨h.subscribe topicFilter, numbers_nil ?_⟩
      rw [MqttClient.step, MqttClient.subscribe]
      split
      next => rfl
      next =>
        dsimp only
        split <;> rfl
  | handler worker i found => exact hof (h.handler worker i found)

theorem FiltersFit.run {c : MqttClient} (h : c.FiltersFit) (events : List Event) :
    Numbers c (events.foldl MqttClient.step c) (c.framesFrom events) := by
  induction events generalizing c with
  | nil => exact numbers_nil rfl
  | cons e events ih =>
      obtain ⟨hfits, hnumbers⟩ := h.step e
      exact hnumbers.trans (ih hfits)

/-! ## The identifiers of a run -/

/-- The identifier of a frame, by how many were written before it. -/
def identifier (i : Nat) : Nat := (1 + i) % 2 ^ 16

/-- The frames of a run are numbered from 1, modulo the range of the counter. -/
theorem identifiers_frames (events : List Event) :
    (frames events).map packetIdentifier =
      (List.range (frames events).length).map fun i => .ok (identifier i) := by
  have hfits : FiltersFit {} := ⟨nofun, nofun⟩
  refine (hfits.run events).identifiers.trans (List.map_congr_left fun i _ => ?_)
  rw [BitVec.toNat_add, BitVec.toNat_ofNat, Nat.add_mod_mod]
  rfl

/-- No frame has the identifier 0, and 65535 frames in a row have different ones. -/
structure ValidIdentifiers (frames : List (List UInt8)) : Prop where
  nonzero : ∀ frame ∈ frames, ∃ id, packetIdentifier frame = .ok id ∧ id ≠ 0
  distinct : ∀ window, window <:+: frames → window.length ≤ 65535 →
    (window.map packetIdentifier).Nodup

/-- Frames in a row have different identifiers, as far as the counter reaches. -/
theorem nodup_window (events : List Event) {window : List (List UInt8)}
    (h : window <:+: frames events) (hle : window.length ≤ 2 ^ 16) :
    (window.map packetIdentifier).Nodup := by
  obtain ⟨before, rest, hsplit⟩ := h
  have hids := identifiers_frames events
  rw [← hsplit, List.map_append, List.map_append, List.length_append, List.length_append,
    List.range_add, List.range_add, List.map_append, List.map_append] at hids
  have hfront := (List.append_inj hids (by
    simp only [List.length_append, List.length_map, List.length_range])).1
  rw [(List.append_inj hfront (by simp only [List.length_map, List.length_range])).2,
    List.map_map]
  refine List.Nodup.map_on (fun i hi j hj hij => ?_) List.nodup_range
  have hmod : (1 + (before.length + i)) % 2 ^ 16 = (1 + (before.length + j)) % 2 ^ 16 :=
    Except.ok.inj hij
  have hi' := List.mem_range.mp hi
  have hj' := List.mem_range.mp hj
  omega

/-- The frame after the first 65535 has the identifier 0. -/
theorem not_validIdentifiers {events : List Event} (h : 65535 < (frames events).length) :
    ¬ValidIdentifiers (frames events) := by
  intro hvalid
  have hget : ((frames events).map packetIdentifier)[65535]? = some (.ok 0) := by
    rw [identifiers_frames, List.getElem?_map, List.getElem?_range h]
    rfl
  rw [List.getElem?_map, List.getElem?_eq_getElem h, Option.map_some] at hget
  obtain ⟨id, hid, hne⟩ := hvalid.nonzero _ (List.getElem_mem h)
  exact hne (Except.ok.inj (hid.symm.trans (Option.some.inj hget)))

/-- The identifiers of a run are valid exactly as long as it writes no more than 65535 frames. -/
theorem validIdentifiers_iff (events : List Event) :
    ValidIdentifiers (frames events) ↔ (frames events).length ≤ 65535 := by
  refine ⟨fun h => Nat.not_lt.mp fun hlt => not_validIdentifiers hlt h, fun h => ?_⟩
  refine ⟨fun frame hframe => ?_, fun window hwindow hle => ?_⟩
  · have hmem := List.mem_map_of_mem (f := packetIdentifier) hframe
    rw [identifiers_frames] at hmem
    obtain ⟨i, hi, hid⟩ := List.mem_map.mp hmem
    refine ⟨identifier i, hid.symm, ?_⟩
    have hlt := List.mem_range.mp hi
    rw [identifier]
    omega
  · exact nodup_window events hwindow (hle.trans (by decide))

/-- A client that is connected, and `n` times a subscription that the worker sends. -/
def subscribing (n : Nat) : List Event :=
  .start accepted (fun _ => true) ::
    (List.replicate n [Event.subscribe (ascii "line/1"), .handler 0 0 .ok]).flatten

theorem length_frames_subscribing (n : Nat) : (frames (subscribing n)).length = n := by
  have hloop : ∀ id subscriptions,
      (framesFrom
        { running := true
          session := some 0
          sessions := 1
          io := { pending := [.heartbeat, .read] }
          workers := [0]
          nextPacketId := id
          subscriptions := subscriptions }
        (List.replicate n [Event.subscribe (ascii "line/1"), .handler 0 0 .ok]).flatten).length =
      n := by
    induction n with
    | zero => exact fun _ _ => rfl
    | succ n ih =>
        intro id subscriptions
        have hline : (ascii "line/1").length ≤ kMaxStringLength := by decide
        obtain ⟨frame, hframe, -⟩ := buildSubscribe_eq_ok id.isLt hline
        rw [List.replicate_succ, List.flatten_cons]
        show ((buildSubscribe id.toNat (ascii "line/1")).toOption.toList ++
          framesFrom _ _).length = n + 1
        rw [hframe, List.length_append, Nat.add_comm n]
        exact congrArg (1 + ·) (ih (id + 1) _)
  exact hloop 1 []

/-- The 65536th frame. -/
theorem not_validIdentifiers_subscribing : ¬ValidIdentifiers (frames (subscribing 65536)) :=
  not_validIdentifiers (by rw [length_frames_subscribing]; decide)

end MqttClient

end Mqtt
