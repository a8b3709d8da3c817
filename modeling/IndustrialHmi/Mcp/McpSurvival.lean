import IndustrialHmi.Mcp.McpServer

/-!
# Which input the server survives

`Answerable` says of a line that no exception but the parse error comes up at it: the
request, the parameters and the arguments have the types that they are read with, as far as
they are read, and the alarms can be written.  The server gets through its input, with one
response to each request in it, exactly if each line is answerable when it comes up
(`survives_iff`).
-/

namespace Mcp

open JsonText Historian

variable {σ : Type} (S : Services σ)

/-! ## Responses -/

/-- The id a line is to be answered with. -/
def requestId : Parsed → Option Json
  | .value request => request.find (ascii "id")
  | .parseError => some .null
  | .outOfRange => none

def requestIds (lines : List Text) : List Json :=
  (lines.filter fun line => !line.isEmpty).filterMap fun line =>
    requestId (S.library.parse line)

/-- The output is one line for each id, a response with that id. -/
def Answers (ids : List Json) (output : Text) : Prop :=
  ∃ responses : List (Json × Text),
    responses.map (fun r => r.1.find (ascii "id")) = ids.map some ∧
      (∀ r ∈ responses, S.library.dump r.1 = some r.2 ∧ newline ∉ r.2) ∧
        output = responses.flatMap fun r => r.2 ++ [newline]

/-- The server gets to the end of the input, with one response to each request. -/
structure Survives (writeEnabled : Bool) (lines : List Text) (w : σ) : Prop where
  returned : (run S writeEnabled lines w).returned = true
  answers : Answers S (requestIds S lines) (run S writeEnabled lines w).output

theorem Answers.append {ids ids' : List Json} {output output' : Text}
    (h : Answers S ids output) (h' : Answers S ids' output') :
    Answers S (ids ++ ids') (output ++ output') := by
  obtain ⟨responses, hids, hlines, rfl⟩ := h
  obtain ⟨responses', hids', hlines', rfl⟩ := h'
  refine ⟨responses ++ responses', ?_, ?_, ?_⟩
  · rw [List.map_append, List.map_append, hids, hids']
  · exact fun r hr => (List.mem_append.mp hr).elim (hlines r) (hlines' r)
  · rw [List.flatMap_append]

/-! ## The condition -/

/-- The member of a name is a text, or there is none. -/
def TextOrAbsent (name : Text) (j : Json) : Prop :=
  ∀ j', j.find name = some j' → ∃ s, j' = .string s

/-- The member of a name is a number, or there is none.  The conversion to 32 bits takes a
boolean for a number. -/
def NumberOrAbsent (booleans : Bool) (name : Text) (j : Json) : Prop :=
  ∀ j', j.find name = some j' → (∃ i, j' = .integer i) ∨ (∃ n, j' = .unsigned n) ∨
    (∃ d, j' = .float d) ∨ (booleans = true ∧ ∃ b, j' = .boolean b)

def textOf (name : Text) (j : Json) : Text :=
  match j.find name with
  | some (.string s) => s
  | _ => []

def IsObject (j : Json) : Prop := ∃ members, j = .object members

/-- The arguments of a query that is carried out have their types. -/
def HistorianArgsRead (args : Json) : Prop :=
  IsObject args → TextOrAbsent (ascii "field") args ∧
    ((fieldFromName (textOf (ascii "field") args)).isSome = true →
      NumberOrAbsent true (ascii "entityId") args ∧ NumberOrAbsent false (ascii "fromMs") args ∧
        NumberOrAbsent false (ascii "toMs") args ∧ NumberOrAbsent false (ascii "limit") args)

/-- Every text of an alert that comes from outside the server is well encoded. -/
structure AlertViewModel.WellEncoded (alert : AlertViewModel) : Prop where
  key : alert.key.WellEncoded
  title : alert.title.WellEncoded
  message : alert.message.WellEncoded
  timestamp : alert.timestamp.WellEncoded

/-- The parameters of a call have their types, and what is to be answered can be written. -/
structure Callable (params : Json) (writeEnabled : Bool) (w : σ) : Prop where
  object : IsObject params
  name : TextOrAbsent (ascii "name") params
  alarms : textOf (ascii "name") params = kAlarmsSnapshotTool →
    ∀ alert ∈ (S.snapshot w).1, alert.WellEncoded
  historian : textOf (ascii "name") params = kHistorianQueryTool →
    HistorianArgsRead (argumentsOf params)
  equipment : textOf (ascii "name") params = kEquipmentCommandTool → writeEnabled = true →
    IsObject (argumentsOf params) → TextOrAbsent kArgCommand (argumentsOf params)

/-- The request of a line has the types that are expected of it, as far as it is read. -/
def Answerable (line : Text) (writeEnabled : Bool) (w : σ) : Prop :=
  S.library.parse line ≠ .outOfRange ∧
    ∀ request id, S.library.parse line = .value request → request.find (ascii "id") = some id →
      TextOrAbsent (ascii "method") request ∧
        (textOf (ascii "method") request = kMethodToolsCall →
          Callable S (paramsOf request) writeEnabled w)

/-- Every line is answerable when it comes up. -/
def AllAnswerable (writeEnabled : Bool) : List Text → σ → Prop
  | [], _ => True
  | line :: lines, w =>
      if line.isEmpty then AllAnswerable writeEnabled lines w
      else Answerable S line writeEnabled w ∧
        AllAnswerable writeEnabled lines (processLine S line writeEnabled w).2

/-! ## Access -/

theorem value_asText {j : Json} (hj : IsObject j) (name : Text) :
    (TextOrAbsent name j ∧ j.value Json.asText name [] = some (textOf name j)) ∨
      (¬ TextOrAbsent name j ∧ j.value Json.asText name [] = none) := by
  obtain ⟨members, rfl⟩ := hj
  have hfind : (Json.object members).find name = members.lookup name := rfl
  cases hlookup : members.lookup name with
  | none =>
      refine .inl ⟨fun j' h => ?_, by simp only [Json.value, textOf, hfind, hlookup]⟩
      rw [hfind, hlookup] at h
      cases h
  | some j' =>
      rw [hlookup] at hfind
      cases j' with
      | string s =>
          refine .inl ⟨fun j' h => ⟨s, ?_⟩, by
            simp only [Json.value, textOf, hfind, hlookup, Json.asText]⟩
          exact (Option.some.inj (hfind.symm.trans h)).symm
      | _ =>
          refine .inr ⟨fun h => ?_, by simp only [Json.value, hlookup, Json.asText]⟩
          obtain ⟨s, hs⟩ := h _ hfind
          cases hs

theorem isSome_asInteger {α : Type} (booleans : Bool) (wrap : ℤ → α) (holds : ℤ → Bool)
    (outside : Double → α) (j : Json) :
    (j.asInteger booleans wrap holds outside).isSome = true ↔
      (∃ i, j = .integer i) ∨ (∃ n, j = .unsigned n) ∨
        (∃ d, j = .float d) ∨ (booleans = true ∧ ∃ b, j = .boolean b) := by
  cases j with
  | boolean b => cases booleans <;> simp [Json.asInteger]
  | _ => simp [Json.asInteger]

/-- A number is read exactly if it is one, whatever it is converted to. -/
theorem isSome_value {α : Type} (booleans : Bool) (wrap : ℤ → α) (holds : ℤ → Bool)
    (outside : Double → α) {j : Json} (hj : IsObject j) (name : Text) (default : α) :
    (j.value (Json.asInteger booleans wrap holds outside) name default).isSome = true ↔
      NumberOrAbsent booleans name j := by
  obtain ⟨members, rfl⟩ := hj
  have hfind : (Json.object members).find name = members.lookup name := rfl
  rw [NumberOrAbsent, hfind]
  cases hlookup : members.lookup name with
  | none => simp [Json.value, hlookup]
  | some j' => simp [Json.value, hlookup, isSome_asInteger]

/-! ## Arguments -/

theorem parseHistorianArgs_not_object {j : Json} (hj : ¬ IsObject j) :
    parseHistorianArgs S j = some (.error .InvalidParams) := by
  cases j with
  | object members => exact absurd ⟨members, rfl⟩ hj
  | _ => rfl

theorem parseEquipmentCommandArgs_not_object {j : Json} (hj : ¬ IsObject j) :
    parseEquipmentCommandArgs j = some (.error .InvalidParams) := by
  cases j with
  | object members => exact absurd ⟨members, rfl⟩ hj
  | _ => rfl

theorem isSome_parseHistorianArgs (args : Json) :
    (parseHistorianArgs S args).isSome = true ↔ HistorianArgsRead args := by
  by_cases hobject : IsObject args
  · have hread : HistorianArgsRead args ↔ TextOrAbsent (ascii "field") args ∧
        ((fieldFromName (textOf (ascii "field") args)).isSome = true →
          (args.value (Json.asUInt32 S.casts) (ascii "entityId") 0).isSome = true ∧
            (args.value (Json.asInt64 S.casts) (ascii "fromMs") 0).isSome = true ∧
              (args.value (Json.asInt64 S.casts) (ascii "toMs") 0).isSome = true ∧
                (args.value (Json.asUInt64 S.casts) (ascii "limit") kDefaultLimit).isSome =
                  true) := by
      rw [Json.asUInt32, isSome_value true _ _ _ hobject, Json.asInt64,
        isSome_value false _ _ _ hobject, isSome_value false _ _ _ hobject, Json.asUInt64,
        isSome_value false _ _ _ hobject]
      exact ⟨fun h => h hobject, fun h _ => h⟩
    rw [hread]
    rcases value_asText hobject (ascii "field") with ⟨htext, hvalue⟩ | ⟨htext, hvalue⟩
    · obtain ⟨members, rfl⟩ := hobject
      rw [parseHistorianArgs, hvalue, Option.bind_eq_bind, Option.bind_some]
      cases hfield : fieldFromName (textOf (ascii "field") (.object members)) with
      | none => simp [htext]
      | some field =>
          simp only [htext, true_and, Option.isSome_some, true_imp_iff]
          generalize (Json.object members).value (Json.asUInt32 S.casts) (ascii "entityId") 0 = a
          generalize (Json.object members).value (Json.asInt64 S.casts) (ascii "fromMs") 0 = b
          generalize (Json.object members).value (Json.asInt64 S.casts) (ascii "toMs") 0 = c
          generalize (Json.object members).value (Json.asUInt64 S.casts) (ascii "limit")
            kDefaultLimit = d
          cases a <;> cases b <;> cases c <;> cases d <;> simp
    · obtain ⟨members, rfl⟩ := hobject
      rw [parseHistorianArgs, hvalue]
      exact iff_of_false Bool.false_ne_true fun h => htext h.1
  · rw [parseHistorianArgs_not_object S hobject]
    exact iff_of_true rfl fun h => absurd h hobject

theorem isSome_parseEquipmentCommandArgs (args : Json) :
    (parseEquipmentCommandArgs args).isSome = true ↔
      (IsObject args → TextOrAbsent kArgCommand args) := by
  by_cases hobject : IsObject args
  · rcases value_asText hobject kArgCommand with ⟨htext, hvalue⟩ | ⟨htext, hvalue⟩
    · obtain ⟨members, rfl⟩ := hobject
      refine iff_of_true ?_ fun _ => htext
      rw [parseEquipmentCommandArgs, hvalue, Option.bind_eq_bind, Option.bind_some]
      split <;> rfl
    · obtain ⟨members, rfl⟩ := hobject
      refine iff_of_false ?_ fun h => htext (h ⟨members, rfl⟩)
      rw [parseEquipmentCommandArgs, hvalue]
      exact Bool.false_ne_true
  · rw [parseEquipmentCommandArgs_not_object hobject]
    exact iff_of_true rfl fun h => absurd h hobject

/-! ## Encoding -/

theorem wellEncoded_alert (alert : AlertViewModel) :
    alert.json.wellEncoded = true ↔ alert.WellEncoded := by
  have hseverity : (severityName alert.severity).WellEncoded := by
    cases alert.severity <;> exact wellEncoded_ascii _
  have hstate : (stateName alert.state).WellEncoded := by
    cases alert.state <;> exact wellEncoded_ascii _
  simp only [AlertViewModel.json, Json.wellEncoded_object, List.forall_mem_cons,
    Json.wellEncoded_string, wellEncoded_ascii, hseverity, hstate, true_and]
  exact ⟨fun ⟨hkey, _, htitle, hmessage, htimestamp, _⟩ => ⟨hkey, htitle, hmessage, htimestamp⟩,
    fun h => ⟨h.key, rfl, h.title, h.message, h.timestamp, by simp⟩⟩

theorem wellEncoded_runAlarmsSnapshot (w : σ) :
    (runAlarmsSnapshot S w).1.wellEncoded = true ↔
      ∀ alert ∈ (S.snapshot w).1, alert.WellEncoded := by
  rw [runAlarmsSnapshot, Json.wellEncoded_array]
  simp only [List.forall_mem_map, wellEncoded_alert]

/-! ## Calls -/

theorem isSome_callHistorianQuery (arguments : Json) (w : σ) :
    (callHistorianQuery S arguments w).1.isSome = true ↔ HistorianArgsRead arguments := by
  rw [← isSome_parseHistorianArgs, callHistorianQuery]
  rcases parseHistorianArgs S arguments with _ | e | args
  · rfl
  · rfl
  · simp only [(answered_spec S).1, wellEncoded_runHistorianQuery, Option.isSome_some]

theorem isSome_callEquipmentCommand (arguments : Json) (writeEnabled : Bool) (w : σ) :
    (callEquipmentCommand S arguments writeEnabled w).1.isSome = true ↔
      (writeEnabled = true → IsObject arguments → TextOrAbsent kArgCommand arguments) := by
  rw [← isSome_parseEquipmentCommandArgs, callEquipmentCommand]
  cases writeEnabled with
  | false => exact iff_of_true rfl fun h => absurd h Bool.false_ne_true
  | true =>
      rcases parseEquipmentCommandArgs arguments with _ | e | command
      · simp
      · simp
      · rcases hrun : runEquipmentCommand S command w with ⟨e | payload, w'⟩
        · simp [hrun]
        · have hpayload := wellEncoded_runEquipmentCommand S (by rw [hrun])
          simp [hrun, (answered_spec S).1, hpayload]

theorem value_of_not_object {j : Json} (hj : ¬ IsObject j) (name : Text) :
    j.value Json.asText name [] = none := by
  cases j with
  | object members => exact absurd ⟨members, rfl⟩ hj
  | _ => rfl

/-- A call goes through without an exception exactly if it is callable. -/
theorem isSome_handleToolsCall (params : Json) (writeEnabled : Bool) (w : σ) :
    (handleToolsCall S params writeEnabled w).1.isSome = true ↔
      Callable S params writeEnabled w := by
  by_cases hobject : IsObject params
  · rcases value_asText hobject (ascii "name") with ⟨htext, hvalue⟩ | ⟨htext, hvalue⟩
    · simp only [handleToolsCall, hvalue]
      generalize hname : textOf (ascii "name") params = name
      have hother : ∀ {tool other : Text}, name = tool → tool ≠ other →
          textOf (ascii "name") params = other → False :=
        fun htool hne h => hne (htool ▸ hname ▸ h)
      by_cases halarms : name = kAlarmsSnapshotTool
      · rw [if_pos halarms, (answered_spec S).1, wellEncoded_runAlarmsSnapshot]
        exact ⟨fun h => ⟨hobject, htext, fun _ => h,
          fun h => (hother halarms (by decide) h).elim,
          fun h => (hother halarms (by decide) h).elim⟩, fun h => h.alarms (hname.trans halarms)⟩
      rw [if_neg halarms]
      by_cases hproduction : name = kProductionMetricsTool
      · rw [if_pos hproduction, (answered_spec S).1, wellEncoded_runProductionMetrics]
        exact iff_of_true rfl ⟨hobject, htext,
          fun h => (hother hproduction (by decide) h).elim,
          fun h => (hother hproduction (by decide) h).elim,
          fun h => (hother hproduction (by decide) h).elim⟩
      rw [if_neg hproduction]
      by_cases hhistorian : name = kHistorianQueryTool
      · rw [if_pos hhistorian, isSome_callHistorianQuery]
        exact ⟨fun h => ⟨hobject, htext, fun h => (hother hhistorian (by decide) h).elim,
          fun _ => h, fun h => (hother hhistorian (by decide) h).elim⟩,
          fun h => h.historian (hname.trans hhistorian)⟩
      rw [if_neg hhistorian]
      by_cases hequipment : name = kEquipmentCommandTool
      · rw [if_pos hequipment, isSome_callEquipmentCommand]
        exact ⟨fun h => ⟨hobject, htext, fun h => (hother hequipment (by decide) h).elim,
          fun h => (hother hequipment (by decide) h).elim, fun _ => h⟩,
          fun h => h.equipment (hname.trans hequipment)⟩
      · rw [if_neg hequipment]
        exact iff_of_true rfl ⟨hobject, htext, fun h => (halarms (hname ▸ h)).elim,
          fun h => (hhistorian (hname ▸ h)).elim, fun h => (hequipment (hname ▸ h)).elim⟩
    · simp only [handleToolsCall, hvalue]
      exact iff_of_false Bool.false_ne_true fun h => htext h.name
  · simp only [handleToolsCall, value_of_not_object hobject]
    exact iff_of_false Bool.false_ne_true fun h => hobject h.object

theorem wellEncoded_handleToolsCall {params result : Json} {writeEnabled : Bool} {w : σ}
    (h : (handleToolsCall S params writeEnabled w).1 = some (.ok result)) :
    result.wellEncoded = true := by
  rw [handleToolsCall] at h
  split at h
  · cases h
  split at h
  · exact (answered_spec S).2 result h
  split at h
  · exact (answered_spec S).2 result h
  split at h
  · rw [callHistorianQuery] at h
    split at h
    · cases h
    · cases h
    · exact (answered_spec S).2 result h
  split at h
  · rw [callEquipmentCommand] at h
    split at h
    · cases h
    split at h
    · cases h
    · cases h
    split at h
    · cases h
    · exact (answered_spec S).2 result h
  · cases h

/-! ## Lines -/

theorem wellEncoded_errorEnvelope {id : Json} (h : id.wellEncoded = true)
    (code : McpErrorCode) : (errorEnvelope id code).wellEncoded = true := by
  have hmessage : code.defaultMessage.WellEncoded := by
    cases code <;> exact wellEncoded_ascii _
  have hinteger : ∀ i, (Json.integer i).wellEncoded = true := fun _ => rfl
  simp [errorEnvelope, Json.wellEncoded_object, Json.wellEncoded_string, wellEncoded_ascii,
    kJsonRpcVersion, hmessage, hinteger, h]

theorem wellEncoded_successEnvelope {id result : Json} (hid : id.wellEncoded = true)
    (hresult : result.wellEncoded = true) : (successEnvelope id result).wellEncoded = true := by
  simp [successEnvelope, Json.wellEncoded_object, Json.wellEncoded_string, wellEncoded_ascii,
    kJsonRpcVersion, hid, hresult]

/-- What is written for a response is one line, and it has the id. -/
theorem writeResponse_spec {response id : Json} (hencoded : response.wellEncoded = true)
    (hid : response.find (ascii "id") = some id) :
    ∃ written, writeResponse S response = some written ∧ Answers S [id] written := by
  obtain ⟨text, htext⟩ := Option.isSome_iff_exists.mp ((S.library.isSome_dump _).trans hencoded)
  refine ⟨text ++ [newline], by rw [writeResponse, htext, Option.map_some],
    [(response, text)], ?_, ?_, ?_⟩
  · rw [List.map_singleton, hid, List.map_singleton]
  · exact List.forall_mem_singleton.mpr ⟨htext, S.library.newline_not_mem_dump htext⟩
  · rw [List.flatMap_singleton]

theorem isSome_respond {request : Json} (hobject : IsObject request) (id : Json)
    (writeEnabled : Bool) (w : σ) :
    (respond S request id writeEnabled w).1.isSome = true ↔
      TextOrAbsent (ascii "method") request ∧
        (textOf (ascii "method") request = kMethodToolsCall →
          Callable S (paramsOf request) writeEnabled w) := by
  rcases value_asText hobject (ascii "method") with ⟨htext, hvalue⟩ | ⟨htext, hvalue⟩
  · simp only [respond, hvalue, ← isSome_handleToolsCall, htext, true_and]
    by_cases hinitialize : textOf (ascii "method") request = kMethodInitialize
    · rw [if_pos hinitialize, hinitialize]
      exact iff_of_true rfl fun h => absurd h (by decide)
    rw [if_neg hinitialize]
    by_cases hlist : textOf (ascii "method") request = kMethodToolsList
    · rw [if_pos hlist, hlist]
      exact iff_of_true rfl fun h => absurd h (by decide)
    rw [if_neg hlist]
    by_cases hcall : textOf (ascii "method") request = kMethodToolsCall
    · rw [if_pos hcall]
      rcases handleToolsCall S (paramsOf request) writeEnabled w with ⟨_ | e | result, w'⟩
      · simp [hcall]
      · simp
      · simp
    · rw [if_neg hcall]
      exact iff_of_true rfl fun h => absurd h hcall
  · simp only [respond, hvalue]
    exact iff_of_false Bool.false_ne_true fun h => htext h.1

/-- A response can be written, and has the id of the request. -/
theorem respond_encoded {request id response : Json} (hid : id.wellEncoded = true)
    {writeEnabled : Bool} {w : σ}
    (h : (respond S request id writeEnabled w).1 = some response) :
    response.wellEncoded = true ∧ response.find (ascii "id") = some id := by
  rw [respond] at h
  split at h
  · cases h
  split at h
  · cases h
    exact ⟨wellEncoded_successEnvelope hid wellEncoded_handleInitialize, rfl⟩
  split at h
  · cases h
    exact ⟨wellEncoded_successEnvelope hid (wellEncoded_handleToolsList writeEnabled), rfl⟩
  split at h
  · split at h
    · cases h
    next hcall =>
      cases h
      exact ⟨wellEncoded_successEnvelope hid (wellEncoded_handleToolsCall S (by rw [hcall])), rfl⟩
    · cases h
      exact ⟨wellEncoded_errorEnvelope hid _, rfl⟩
  · cases h
    exact ⟨wellEncoded_errorEnvelope hid _, rfl⟩

/-- An answerable line is answered if it is a request, and another one is not got over. -/
theorem processLine_spec (line : Text) (writeEnabled : Bool) (w : σ) :
    (Answerable S line writeEnabled w ∧ ∃ written,
      (processLine S line writeEnabled w).1 = some written ∧
        Answers S (requestId (S.library.parse line)).toList written) ∨
      (¬ Answerable S line writeEnabled w ∧ (processLine S line writeEnabled w).1 = none) := by
  cases hparse : S.library.parse line with
  | parseError =>
      have hanswerable : Answerable S line writeEnabled w := by
        refine ⟨by rw [hparse]; exact Parsed.noConfusion, fun request id h => ?_⟩
        rw [hparse] at h
        cases h
      refine .inl ⟨hanswerable, ?_⟩
      simp only [processLine, hparse]
      exact writeResponse_spec S
        (wellEncoded_errorEnvelope (show Json.null.wellEncoded = true from rfl) _) rfl
  | outOfRange =>
      refine .inr ⟨fun h => h.1 hparse, ?_⟩
      simp only [processLine, hparse]
  | value request =>
      cases hid : request.find (ascii "id") with
      | none =>
          refine .inl ⟨⟨by rw [hparse]; exact Parsed.noConfusion, fun request' id h h' => ?_⟩, ?_⟩
          · rw [hparse, Parsed.value.injEq] at h
            rw [← h, hid] at h'
            cases h'
          · simp only [processLine, hparse, hid, requestId]
            exact ⟨[], rfl, [], rfl, fun _ h => absurd h List.not_mem_nil, rfl⟩
      | some id =>
          have hrequest := S.library.wellEncoded_parse hparse
          have hobject : IsObject request := by
            cases request with
            | object members => exact ⟨members, rfl⟩
            | _ => cases hid
          have hanswerable : Answerable S line writeEnabled w ↔
              (respond S request id writeEnabled w).1.isSome = true := by
            rw [isSome_respond S hobject, Answerable, hparse]
            refine ⟨fun h => h.2 request id rfl hid, fun h => ⟨Parsed.noConfusion, ?_⟩⟩
            rintro _ _ ⟨rfl⟩ -
            exact h
          rw [hanswerable]
          simp only [processLine, hparse, hid, requestId, Option.toList_some]
          rcases hrespond : respond S request id writeEnabled w with ⟨_ | response, w'⟩
          · exact .inr ⟨Bool.false_ne_true, rfl⟩
          · obtain ⟨hencoded, hfind⟩ := respond_encoded S (Json.find_wellEncoded hrequest hid)
              (by rw [hrespond])
            exact .inl ⟨rfl, writeResponse_spec S hencoded hfind⟩

/-! ## Runs -/

theorem run_empty {line : Text} (h : line.isEmpty = true) (writeEnabled : Bool)
    (lines : List Text) (w : σ) :
    run S writeEnabled (line :: lines) w = run S writeEnabled lines w ∧
      requestIds S (line :: lines) = requestIds S lines ∧
        (AllAnswerable S writeEnabled (line :: lines) w ↔
          AllAnswerable S writeEnabled lines w) := by
  refine ⟨by rw [run, if_pos h], by simp [requestIds, h], by rw [AllAnswerable, if_pos h]⟩

/-- The server gets to the end of its input exactly if each line is answerable when it comes
up. -/
theorem returned_iff (writeEnabled : Bool) (lines : List Text) (w : σ) :
    (run S writeEnabled lines w).returned = true ↔ AllAnswerable S writeEnabled lines w := by
  induction lines generalizing w with
  | nil => exact iff_of_true rfl trivial
  | cons line lines ih =>
      by_cases hempty : line.isEmpty = true
      · obtain ⟨hrun, -, hanswerable⟩ := run_empty S hempty writeEnabled lines w
        rw [hrun, hanswerable, ih]
      · rw [run, if_neg hempty, AllAnswerable, if_neg hempty, ← ih]
        rcases hline : processLine S line writeEnabled w with ⟨written, w'⟩
        have hspec := processLine_spec S line writeEnabled w
        rw [hline] at hspec
        rcases hspec with ⟨hanswerable, _, rfl, -⟩ | ⟨hanswerable, rfl⟩
        · simp [hanswerable]
        · simp [hanswerable]

theorem answers_of_allAnswerable {writeEnabled : Bool} {lines : List Text} {w : σ}
    (h : AllAnswerable S writeEnabled lines w) :
    Answers S (requestIds S lines) (run S writeEnabled lines w).output := by
  induction lines generalizing w with
  | nil => exact ⟨[], rfl, fun _ h => absurd h List.not_mem_nil, rfl⟩
  | cons line lines ih =>
      by_cases hempty : line.isEmpty = true
      · obtain ⟨hrun, hids, hanswerable⟩ := run_empty S hempty writeEnabled lines w
        rw [hrun, hids]
        exact ih (hanswerable.mp h)
      · have hids : requestIds S (line :: lines) =
            (requestId (S.library.parse line)).toList ++ requestIds S lines := by
          cases hid : requestId (S.library.parse line) <;> simp [requestIds, hempty, hid]
        rw [AllAnswerable, if_neg hempty] at h
        rcases processLine_spec S line writeEnabled w with ⟨-, written, hline, hanswers⟩ | hspec
        · have hrun : (run S writeEnabled (line :: lines) w).output = written ++
              (run S writeEnabled lines (processLine S line writeEnabled w).2).output := by
            rw [run, if_neg hempty]
            rcases hprocess : processLine S line writeEnabled w with ⟨_, w'⟩
            rw [hprocess] at hline
            cases hline
            rfl
          rw [hids, hrun]
          exact hanswers.append S (ih h.2)
        · exact absurd h.1 hspec.1

/-- The server gets through its input, and answers every request in it, exactly if each line
is answerable when it comes up. -/
theorem survives_iff (writeEnabled : Bool) (lines : List Text) (w : σ) :
    Survives S writeEnabled lines w ↔ AllAnswerable S writeEnabled lines w :=
  ⟨fun h => (returned_iff S writeEnabled lines w).mp h.returned,
    fun h => ⟨(returned_iff S writeEnabled lines w).mpr h, answers_of_allAnswerable S h⟩⟩

/-- A method that is no text ends the run. -/
theorem null_method_ends_run : ¬ ∀ lines, Survives quiet false lines () := by
  intro h
  have hreturned := (h [ascii "\x7b\"id\":\"1\",\"method\":null\x7d",
    ascii "\x7b\"id\":\"2\"\x7d"]).returned
  exact absurd hreturned (by decide)

end Mcp
