import IndustrialHmi.Integration.FlashStream
import IndustrialHmi.Integration.SensorIngestBridge
import IndustrialHmi.Integration.SerialFrameParser

/-!
# Equipment states on the serial line

A reading of the serial line becomes the same setter as a message on the state topic of the same
equipment.  The words are the same and so is the way their case is treated.  The bridge reads a
payload without the white space around it, and the serial side reads it as it is
(`sameCommand_iff`).

A line may arrive in any reads, and it may be longer than the parser's buffer.
-/

namespace Serial

open CType Numeral Incremental Production

structure EquipmentStateCommand where
  equipmentId : Nat
  enabled : Bool
  deriving DecidableEq

def toEquipmentStateCommand (reading : SerialReading) : Option EquipmentStateCommand :=
  let kPrefix := ascii "equipment/"
  let kSuffix := ascii "/state"
  let id := reading.sensorId
  if id.length ≤ kPrefix.length + kSuffix.length then none
  else if id.take kPrefix.length ≠ kPrefix ∨
      id.drop (id.length - kSuffix.length) ≠ kSuffix then none
  else
    let number := (id.drop kPrefix.length).take (id.length - kPrefix.length - kSuffix.length)
    match fromCharsUnsigned 4294967296 number with
    | none => none
    | some (equipmentId, rest) =>
        if rest ≠ [] then none
        else
          let value := reading.value.map toLower
          if value = ascii "on" ∨ value = ascii "1" ∨ value = ascii "true" then
            some { equipmentId, enabled := true }
          else if value = ascii "off" ∨ value = ascii "0" ∨ value = ascii "false" then
            some { equipmentId, enabled := false }
          else none

/-! ## The backend -/

/-- The parsers of a session. -/
structure SerialBackend where
  flashParser : Flash.FlashFrameParser := {}
  parser : SerialFrameParser := {}

namespace SerialBackend

def routeChunk (b : SerialBackend) (chunk : Text) : List SerialReading × SerialBackend :=
  let (split, flashParser) := b.flashParser.consume chunk
  let (readings, parser) := b.parser.consume split.text
  (readings, { flashParser, parser })

/-- The setter that the sink calls for a reading. -/
def sink (reading : SerialReading) : Option SimulatedModel.Op :=
  (toEquipmentStateCommand reading).map fun command =>
    .setEquipmentEnabled command.equipmentId command.enabled

/-- The setters called for one read after the other. -/
def receive (b : SerialBackend) : List Text → List SimulatedModel.Op
  | [] => []
  | chunk :: chunks =>
      (b.routeChunk chunk).1.filterMap sink ++ receive (b.routeChunk chunk).2 chunks

/-- Neither parser holds anything. -/
def Idle (b : SerialBackend) : Prop := b.flashParser.buffer = [] ∧ b.parser.buffer = []

end SerialBackend

/-! ## A line of text through both parsers -/

theorem scan_text {bytes : Text} (h : Flash.kFlashStartByte ∉ bytes) :
    Flash.flashScanner.scan bytes = (bytes.map .text, []) := by
  induction bytes with
  | nil => exact Flash.flashScanner.scan_of_none rfl
  | cons b bytes ih =>
      obtain ⟨hb, hbytes⟩ := not_or.mp fun hor => h (List.mem_cons.mpr hor)
      have hnext : Flash.flashScanner.next (b :: bytes) = some (.text b, 1) :=
        Flash.nextToken_of_turn (.text fun he => hb he.symm)
      rw [Flash.flashScanner.scan_of_some hnext, List.drop_one, List.tail_cons, ih hbytes]
      rfl

/-- Bytes that are no start of a frame go through to the text. -/
theorem consume_text {p : Flash.FlashFrameParser} (hp : p.buffer = []) {bytes : Text}
    (h : Flash.kFlashStartByte ∉ bytes) :
    (p.consume bytes).1.text = bytes ∧ (p.consume bytes).2.buffer = [] := by
  have hcall := Flash.consume_outputOf p bytes
  rw [Scanner.feed, hp, List.nil_append, scan_text h] at hcall
  rw [hcall]
  refine ⟨?_, rfl⟩
  show (bytes.map Flash.Token.text).filterMap Flash.Token.text? = bytes
  rw [List.filterMap_map]
  exact List.filterMap_some

/-- What is called for reads without a start of a frame is called for their readings. -/
theorem receive_text {b : SerialBackend} (hb : b.flashParser.buffer = []) {reads : List Text}
    (h : Flash.kFlashStartByte ∉ reads.flatten) :
    b.receive reads = (b.parser.consumeAll reads).filterMap SerialBackend.sink := by
  induction reads generalizing b with
  | nil => rfl
  | cons chunk reads ih =>
      rw [List.flatten_cons, List.mem_append, not_or] at h
      obtain ⟨htext, hbuffer⟩ := consume_text hb h.1
      have hchunk : b.routeChunk chunk =
          ((b.parser.consume chunk).1,
            { flashParser := (b.flashParser.consume chunk).2
              parser := (b.parser.consume chunk).2 }) := by
        simp only [SerialBackend.routeChunk, htext]
      rw [SerialBackend.receive, SerialFrameParser.consumeAll, List.filterMap_append, hchunk]
      exact congrArg _ (ih hbuffer h.2)

/-! ## The words -/

/-- The words for a state, in lower case. -/
def vocabulary (lower : Text) : Option Bool :=
  if lower = ascii "on" ∨ lower = ascii "1" ∨ lower = ascii "true" then some true
  else if lower = ascii "off" ∨ lower = ascii "0" ∨ lower = ascii "false" then some false
  else none

theorem vocabulary_mem {lower : Text} {enabled : Bool} (h : vocabulary lower = some enabled) :
    lower ∈ [ascii "on", ascii "1", ascii "true", ascii "off", ascii "0", ascii "false"] := by
  simp only [vocabulary] at h
  split at h
  · next hon => rcases hon with rfl | rfl | rfl <;> decide
  · split at h
    · next hoff => rcases hoff with rfl | rfl | rfl <;> decide
    · cases h

/-- A word has no white space at its ends, and at most five letters. -/
theorem word_spec {t : Text} {enabled : Bool} (h : vocabulary (t.map toLower) = some enabled) :
    trim t = t ∧ t.length ≤ 5 := by
  have hmem := vocabulary_mem h
  have hwords : ∀ w ∈ [ascii "on", ascii "1", ascii "true", ascii "off", ascii "0", ascii "false"],
      w.head?.all (!isSpace ·) = true ∧ w.getLast?.all (!isSpace ·) = true ∧
        w.length ≤ 5 := by decide
  obtain ⟨hfirst, hlast, hlength⟩ := hwords _ hmem
  simp only [Option.all_eq_true, Bool.not_eq_true'] at hfirst hlast
  refine ⟨trim_eq_self ?_ ?_, by rwa [List.length_map] at hlength⟩
  · intro b hb
    rw [← isSpace_toLower]
    exact hfirst _ (by rw [List.head?_map]; exact Option.mem_map_of_mem _ hb)
  · intro b hb
    rw [← isSpace_toLower]
    exact hlast _ (by rw [List.getLast?_map]; exact Option.mem_map_of_mem _ hb)

theorem parseOnOffPayload_eq (payload : Text) :
    Sensor.parseOnOffPayload payload = vocabulary ((trim payload).map toLower) := by
  rw [Sensor.parseOnOffPayload]
  by_cases h : trim payload = []
  · rw [if_pos h, h]
    rfl
  · rw [if_neg h]
    rfl

/-! ## The two commands -/

/-- A line that says the state of an equipment. -/
def stateLine (id : Nat) (payload : Text) : Text :=
  (ascii "equipment/" ++ (ascii (toString id) ++ ascii "/state")) ++ kFieldDelimiter :: payload

theorem toEquipmentStateCommand_state {id : Nat} (hid : id < 4294967296) (value : Text) :
    toEquipmentStateCommand
        { sensorId := ascii "equipment/" ++ (ascii (toString id) ++ ascii "/state"), value } =
      (vocabulary (value.map toLower)).map fun enabled => { equipmentId := id, enabled } := by
  have hne := nat_ne_nil id
  have hnumber := @fromChars_nat id 4294967296 hid [] fun b hb => by cases hb
  rw [List.append_nil] at hnumber
  generalize ascii (toString id) = number at hne hnumber
  have hpos : 0 < number.length := List.length_pos_iff.mpr hne
  have hp : (ascii "equipment/").length = 10 := by decide
  have hs : (ascii "/state").length = 6 := by decide
  have hlength : (ascii "equipment/" ++ (number ++ ascii "/state")).length =
      10 + (number.length + 6) := by
    rw [List.length_append, List.length_append, hp, hs]
  have htake : (ascii "equipment/" ++ (number ++ ascii "/state")).take 10 = ascii "equipment/" :=
    List.take_left' hp
  have hdrop : (ascii "equipment/" ++ (number ++ ascii "/state")).drop 10 =
      number ++ ascii "/state" := List.drop_left' hp
  have hend : (ascii "equipment/" ++ (number ++ ascii "/state")).drop (10 + number.length) =
      ascii "/state" := by
    rw [← List.drop_drop, hdrop, List.drop_left]
  have hlast : 10 + (number.length + 6) - 6 = 10 + number.length := by omega
  have hmiddle : 10 + (number.length + 6) - 10 - 6 = number.length := by omega
  simp only [toEquipmentStateCommand, hlength, hp, hs, htake, hdrop, hlast, hmiddle, hend,
    List.take_left, hnumber]
  rw [if_neg (by omega), if_neg (by simp), if_neg (by simp)]
  simp only [vocabulary]
  split_ifs <;> rfl

theorem notMem_stateLine {c : UInt8} (hc : c ∉ ascii "equipment/" ++ ascii "/state")
    (hdigit : isDigit c = false) (hcomma : c ≠ kFieldDelimiter) (id : Nat) {payload : Text}
    (hpayload : c ∉ payload) : c ∉ stateLine id payload := by
  rw [List.mem_append, not_or] at hc
  have hnumber : c ∉ ascii (toString id) := by
    intro hmem
    exact absurd (hdigit.symm.trans (nat_digits id c hmem)) (by decide)
  simp only [stateLine, List.mem_append, List.mem_cons, not_or]
  exact ⟨⟨hc.1, hnumber, hc.2⟩, hcomma, hpayload⟩

/-- What stands before the payload is shorter than the buffer. -/
theorem length_stateLine {id : Nat} (hid : id < 4294967296) (payload : Text) :
    (ascii "equipment/" ++ (ascii (toString id) ++ ascii "/state")).length ≤ 26 ∧
      (stateLine id payload).length ≤ payload.length + 27 := by
  have hdigits : (ascii (toString id)).length ≤ 10 := by
    rw [ascii_nat, List.length_map]
    exact (Nat.length_toDigits_le_iff (by decide) (by decide)).mpr (Nat.lt_trans hid (by decide))
  have hp : (ascii "equipment/").length = 10 := by decide
  have hs : (ascii "/state").length = 6 := by decide
  have hfront : (ascii "equipment/" ++ (ascii (toString id) ++ ascii "/state")).length ≤ 26 := by
    rw [List.length_append, List.length_append, hp, hs]
    omega
  refine ⟨hfront, ?_⟩
  rw [stateLine, List.length_append, List.length_cons]
  omega

/-- A payload that goes on a line of text. -/
def OneLine (payload : Text) : Prop :=
  payload.All fun b =>
    b ≠ kFieldDelimiter ∧ b ≠ kFrameDelimiter ∧ b ≠ kCarriageReturn ∧ b ≠ Flash.kFlashStartByte

section

variable {id : Nat} {payload : Text}

theorem trimmed_stateLine (hpayload : OneLine payload) :
    trimmed (stateLine id payload) = stateLine id payload := by
  have hfree : kCarriageReturn ∉ stateLine id payload :=
    notMem_stateLine (by decide) (by decide) (by decide) id fun h => (hpayload _ h).2.2.1 rfl
  rw [trimmed, if_neg]
  intro hlast
  exact hfree (List.mem_of_getLast? hlast)

/-- The whole line gives a reading, if there is a payload. -/
theorem parseLine_stateLine (hpayload : OneLine payload) :
    parseLine (stateLine id payload) =
      if payload = [] then none
      else some
        { sensorId := ascii "equipment/" ++ (ascii (toString id) ++ ascii "/state")
          value := payload } := by
  have hfront :
      kFieldDelimiter ∉ ascii "equipment/" ++ (ascii (toString id) ++ ascii "/state") := by
    have hnumber : kFieldDelimiter ∉ ascii (toString id) :=
      fun hmem => absurd (nat_digits id _ hmem) (by decide)
    simp only [List.mem_append, not_or]
    exact ⟨by decide, hnumber, by decide⟩
  have hvalue : kFieldDelimiter ∉ payload := fun h => (hpayload _ h).1 rfl
  have hne : ascii "equipment/" ++ (ascii (toString id) ++ ascii "/state") ≠ [] :=
    List.append_ne_nil_of_left_ne_nil (by decide) _
  rw [parseLine_of_fields (trimmed_stateLine hpayload) hfront]
  simp only [hvalue, hne, false_or]

/-- What is left of a line that lost more than the buffer gives none. -/
theorem parseLine_drop_stateLine (hid : id < 4294967296) (hpayload : OneLine payload) {k : Nat}
    (hk : kMaxBufferBytes < k) : parseLine ((stateLine id payload).drop k) = none := by
  have hfront := (length_stateLine hid payload).1
  have hbuffer : 26 < kMaxBufferBytes := by decide
  have hmem : kFieldDelimiter ∉ (stateLine id payload).drop k := by
    intro h
    rw [stateLine, List.drop_append, List.drop_eq_nil_of_le (by omega), List.nil_append,
      List.drop_cons (by omega)] at h
    exact (hpayload _ (List.mem_of_mem_drop h)).1 rfl
  refine parseLine_of_notMem ?_
  rw [trimmed]
  split
  · exact fun h => hmem (List.mem_of_mem_dropLast h)
  · exact hmem

/-- However the line is cut into reads, one line is found: the whole one, or what is left of it when
it does not fit. -/
theorem linesOfAll_stateLine (hpayload : OneLine payload) {reads : List Text}
    (hreads : reads.flatten = stateLine id payload ++ [kFrameDelimiter]) :
    ∃ k ≤ (stateLine id payload).length, (k = 0 ∨ kMaxBufferBytes < k) ∧
      ({} : SerialFrameParser).linesOfAll reads = [(stateLine id payload).drop k] := by
  have hnewline : kFrameDelimiter ∉ stateLine id payload :=
    notMem_stateLine (by decide) (by decide) (by decide) id fun h => (hpayload _ h).2.1 rfl
  have hended : endedLines kFrameDelimiter (stateLine id payload ++ [kFrameDelimiter]) =
      [stateLine id payload] :=
    congrArg List.dropLast (List.splitOn_append_cons_self_of_not_mem hnewline [])
  have hcut := SerialFrameParser.linesOfAll_cut hreads
  rw [hended] at hcut
  cases hlines : ({} : SerialFrameParser).linesOfAll reads with
  | nil =>
      rw [hlines] at hcut
      cases hcut
  | cons seen others =>
      rw [hlines] at hcut
      obtain ⟨hseen, hothers⟩ := List.forall₂_cons.mp hcut
      obtain rfl : others = [] := List.forall₂_nil_right_iff.mp hothers
      obtain ⟨k, hk, hlost, rfl⟩ := hseen
      exact ⟨k, hk, hlost, rfl⟩

/-- What the whole line calls. -/
theorem sink_stateLine (hid : id < 4294967296) (hpayload : OneLine payload) :
    ([stateLine id payload].filterMap parseLine).filterMap SerialBackend.sink =
      ((vocabulary (payload.map toLower)).map (.setEquipmentEnabled id)).toList := by
  by_cases hempty : payload = []
  · have hnone := (@parseLine_stateLine id _ hpayload).trans (if_pos hempty)
    rw [List.filterMap_cons_none hnone, hempty]
    rfl
  · have hsome := (@parseLine_stateLine id _ hpayload).trans (if_neg hempty)
    have hcommand := toEquipmentStateCommand_state hid payload
    rw [List.filterMap_cons_some hsome, List.filterMap_nil]
    cases hword : vocabulary (payload.map toLower) with
    | none =>
        rw [hword] at hcommand
        exact List.filterMap_cons_none (congrArg (Option.map _) hcommand)
    | some enabled =>
        rw [hword] at hcommand
        exact List.filterMap_cons_some (congrArg (Option.map _) hcommand)

/-- However the line is cut into reads, the setter is called that its payload names. -/
theorem receive_stateLine (hid : id < 4294967296) (hpayload : OneLine payload) {b : SerialBackend}
    (hb : b.Idle) {reads : List Text}
    (hreads : reads.flatten = stateLine id payload ++ [kFrameDelimiter]) :
    b.receive reads =
      ((vocabulary (payload.map toLower)).map (.setEquipmentEnabled id)).toList := by
  obtain ⟨hflash, hheld⟩ := hb
  have hstart : Flash.kFlashStartByte ∉ reads.flatten := by
    rw [hreads, List.mem_append, not_or]
    exact ⟨notMem_stateLine (by decide) (by decide) (by decide) id
      fun h => (hpayload _ h).2.2.2 rfl, by decide⟩
  have hparser : b.parser = {} := congrArg SerialFrameParser.mk hheld
  obtain ⟨k, hk, rfl | hlong, hlines⟩ := linesOfAll_stateLine hpayload hreads
  · rw [receive_text hflash hstart, hparser, SerialFrameParser.consumeAll_eq, hlines,
      List.drop_zero]
    exact sink_stateLine hid hpayload
  · have hnone := parseLine_drop_stateLine hid hpayload hlong
    have hlength := (length_stateLine hid payload).2
    have hbuffer : 32 < kMaxBufferBytes := by decide
    rw [receive_text hflash hstart, hparser, SerialFrameParser.consumeAll_eq, hlines,
      List.filterMap_cons_none hnone]
    cases hword : vocabulary (payload.map toLower) with
    | none => rfl
    | some enabled =>
        have hshort := (word_spec hword).2
        omega

end

/-- The line and the message lead to the same calls of the model. -/
def SameCommand [Lconv] (config : Sensor.Config) (id : Nat) (payload : Text) : Prop :=
  ∀ (b : SerialBackend) (reads : List Text), b.Idle →
    reads.flatten = stateLine id payload ++ [kFrameDelimiter] →
    b.receive reads =
      Sensor.publish config ((Sensor.Callback.state id).topic config.topicPrefix) payload

/-- The message is read without the white space around it, and the line is not. -/
theorem sameCommand_of_word [Lconv] {config : Sensor.Config} {id : Nat}
    (hid : id < config.equipmentCount.toNat) {payload : Text} (hpayload : OneLine payload) :
    SameCommand config id payload ↔
      vocabulary (payload.map toLower) = vocabulary ((trim payload).map toLower) := by
  have hbound : id < 4294967296 := Nat.lt_trans hid config.equipmentCount.toNat_lt
  have hpublish := Sensor.publish_topic (Sensor.state_mem_callbacks hid) payload
  rw [Sensor.Callback.command, parseOnOffPayload_eq] at hpublish
  constructor
  · intro h
    have hsame := h {} [stateLine id payload ++ [kFrameDelimiter]] ⟨rfl, rfl⟩
      (List.append_nil _)
    rw [receive_stateLine hbound hpayload ⟨rfl, rfl⟩ (List.append_nil _), hpublish] at hsame
    cases hline : vocabulary (payload.map toLower) with
    | none =>
        cases hmessage : vocabulary ((trim payload).map toLower) with
        | none => rfl
        | some _ => rw [hline, hmessage] at hsame; cases hsame
    | some _ =>
        cases hmessage : vocabulary ((trim payload).map toLower) with
        | none => rw [hline, hmessage] at hsame; cases hsame
        | some _ => rw [hline, hmessage] at hsame; cases hsame; rfl
  · intro h b reads hb hreads
    rw [receive_stateLine hbound hpayload hb hreads, hpublish, h]

/-- The line and the message lead to the same calls exactly when there is no white space around
the payload, or the payload without it is no word. -/
theorem sameCommand_iff [Lconv] (config : Sensor.Config) {id : Nat}
    (hid : id < config.equipmentCount.toNat) {payload : Text} (hpayload : OneLine payload) :
    SameCommand config id payload ↔
      trim payload = payload ∨ vocabulary ((trim payload).map toLower) = none := by
  rw [sameCommand_of_word hid hpayload]
  constructor
  · intro h
    by_cases hword : vocabulary ((trim payload).map toLower) = none
    · exact Or.inr hword
    · obtain ⟨enabled, henabled⟩ := Option.ne_none_iff_exists'.mp hword
      exact Or.inl (word_spec (h.trans henabled)).1
  · rintro (h | h)
    · rw [h]
    · rw [h]
      cases hword : vocabulary (payload.map toLower) with
      | none => rfl
      | some enabled =>
          rw [(word_spec hword).1, hword] at h
          cases h

/-- A state with a space in front of it is taken from MQTT and not from the serial line. -/
theorem not_sameCommand_padded : ¬@SameCommand Lconv.c {} 0 (ascii " on") := by
  rw [@sameCommand_of_word Lconv.c _ _ (by decide) _ (by unfold OneLine; decide)]
  decide

theorem sameCommand_iff_upper_case :
    @SameCommand Lconv.c {} 2 (ascii "TRUE") ↔
      trim (ascii "TRUE") = ascii "TRUE" ∨
        vocabulary ((trim (ascii "TRUE")).map toLower) = none :=
  @sameCommand_iff Lconv.c {} _ (by decide) _ (by unfold OneLine; decide)

end Serial
