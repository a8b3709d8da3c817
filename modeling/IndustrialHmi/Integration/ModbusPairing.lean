import IndustrialHmi.Integration.ModbusClient

/-!
# Requests and their responses

A client that calls a slave again and again.  The slave answers every request with one
response, and one more frame stands somewhere in the stream.  The call that reads that
frame refuses it and leaves the socket open, with the response of its own request unread:
the next call reads that one and refuses it too, and so does every call after it.
-/

namespace Modbus

/-! ## Exchanges -/

/-- The response of a slave to the bytes of a request: it echoes the transaction id, the
unit id and the function code. -/
def respond (request : Bytes) (registers : List (BitVec 16)) : Bytes :=
  writeBe16 (readBe16 request 0) ++ writeBe16 kModbusTcpProtocolId ++
    writeBe16 (BitVec.ofNat 16 (3 + registers.length * 2)) ++ [request.getD 6 0] ++
    [request.getD 7 0, BitVec.ofNat 8 (registers.length * 2)] ++ registers.flatMap writeBe16

/-- Where the additional frame stands, if it is next to this response. -/
inductive Stray where
  | none
  | before (adu : Adu)
  | after (adu : Adu)

def Stray.around (stray : Stray) (response : Bytes) : Bytes :=
  match stray with
  | .none => response
  | .before adu => adu.bytes ++ response
  | .after adu => response ++ adu.bytes

/-- A call within the bounds of the protocol, the values of its registers in the slave, and
what else arrives. -/
structure Exchange where
  request : Request
  registers : List (BitVec 16)
  stray : Stray := .none
  positive : request.quantity ≠ 0
  bounded : request.quantity ≤ kMaxRegistersPerRead
  full : registers.length = request.quantity.toNat

/-- The network of an exchange: it works. -/
def Exchange.network (e : Exchange) (tid : BitVec 16) : Network where
  write := .written (e.request.encode tid).length
  arrives := e.stray.around (respond (e.request.encode tid) e.registers)

abbrev Outcome := Exchange × Except IoError (List (BitVec 16))

/-- The calls one after the other, each with what it returns. -/
def outcomes : Client → List Exchange → List Outcome
  | _, [] => []
  | c, e :: exchanges =>
      let (c, result) := c.readImpl e.request (e.network c.nextTid)
      (e, result) :: outcomes c exchanges

/-- The transaction id is one of those of the next calls. -/
def Used (tid : BitVec 16) (calls : Nat) (id : BitVec 16) : Prop :=
  ∃ k < calls, id = tid + BitVec.ofNat 16 k

/-- The additional frame does not carry the id of a call whose response comes after it. -/
def Fresh : BitVec 16 → List Exchange → Prop
  | _, [] => True
  | tid, e :: exchanges =>
      (∀ adu, e.stray = .before adu →
        ¬ Used tid (exchanges.length + 1) adu.transactionId) ∧
      (∀ adu, e.stray = .after adu → ¬ Used (tid + 1) exchanges.length adu.transactionId) ∧
      Fresh (tid + 1) exchanges

/-- The calls of one client, with at most one additional frame. -/
structure Session where
  exchanges : List Exchange
  fewer : exchanges.length < 65536
  oneStray : exchanges.Pairwise fun e e' => e.stray = .none ∨ e'.stray = .none
  fresh : Fresh ({} : Client).nextTid exchanges

/-- No call returns registers but its own, at most one fails, and those after it return
their own. -/
structure Recovers (outcomes : List Outcome) : Prop where
  paired : ∀ p ∈ outcomes, ∀ registers, p.2 = .ok registers → registers = p.1.registers
  oneFailure : (outcomes.filter fun p => !p.2.isOk).length ≤ 1
  later : outcomes.Pairwise fun p q => ∀ error, p.2 = .error error → q.2 = .ok q.1.registers

/-- The number of responses behind the additional frame. -/
def responsesBehind : List Exchange → Nat
  | [] => 0
  | e :: exchanges =>
      match e.stray with
      | .none => responsesBehind exchanges
      | .before _ => exchanges.length + 1
      | .after _ => exchanges.length

/-! ## One call -/

/-- The response is a frame. -/
def Exchange.response (e : Exchange) (tid : BitVec 16) : Adu :=
  readResponse tid e.request.unitId e.request.functionCode e.registers
    (e.full ▸ BitVec.le_def.mp e.bounded)

theorem Exchange.respond_eq (e : Exchange) (tid : BitVec 16) :
    respond (e.request.encode tid) e.registers = (e.response tid).bytes := by
  have htid : readBe16 (e.request.encode tid) 0 = tid := BigEndian.or_halves _
  have hcount : 3 + e.registers.length * 2 = 1 + (e.response tid).pdu.length := by
    rw [Exchange.response, length_pdu_readResponse]
    omega
  rw [respond, htid, hcount]
  simp only [Adu.bytes, Adu.header, List.append_assoc]
  rfl

/-- What a call finds on the socket, if it need not connect. -/
def Client.unread (c : Client) : Bytes := if c.connected then c.socket.getD [] else []

theorem Client.ensureConnected_unread (c : Client) :
    c.ensureConnected .connected =
      .ok { c with connected := true, socket := some c.unread } := by
  obtain ⟨nextTid, connected, socket, lastExceptionCode⟩ := c
  cases connected with
  | false => rfl
  | true => cases socket <;> rfl

/-- A call reads one frame of what is on the socket. -/
theorem Client.readImpl_frame {c : Client} {e : Exchange} {adu : Adu} {rest : Bytes}
    (h : c.unread ++ e.stray.around (e.response c.nextTid).bytes = adu.bytes ++ rest) :
    c.readImpl e.request (e.network c.nextTid) =
      ({ c with nextTid := c.nextTid + 1, connected := true, socket := some rest } :
        Client).settle (decodeReadResponse adu.bytes (e.request.context c.nextTid)) := by
  have hbounded : ¬ kMaxRegistersPerRead < e.request.quantity := BitVec.not_lt.mpr e.bounded
  have harrives : (e.network c.nextTid).arrives =
      e.stray.around (e.response c.nextTid).bytes := by
    rw [Exchange.network, e.respond_eq]
  have hconnect : (e.network c.nextTid).connect = .connected := rfl
  have hwrite : (e.network c.nextTid).write =
      .written (e.request.encode c.nextTid).length := rfl
  simp only [readImpl, e.positive, hbounded, hconnect, ensureConnected_unread, hwrite, harrives,
    Option.map_some, h, decide_false, Bool.or_false, Bool.false_eq_true, if_false, ne_eq,
    not_true_eq_false]
  exact receive_frame rfl _ rfl rfl

/-- A call that finds a frame of another transaction fails, and reads nothing else. -/
theorem Client.readImpl_foreign {c : Client} {e : Exchange} {adu : Adu} (rest : Bytes)
    (h : c.unread ++ e.stray.around (e.response c.nextTid).bytes = adu.bytes ++ rest)
    (hforeign : adu.transactionId ≠ c.nextTid) :
    c.readImpl e.request (e.network c.nextTid) =
      ({ c with nextTid := c.nextTid + 1, connected := true, socket := some rest },
        .error .DecodeFailed) := by
  have hrefused : ∃ error, decodeReadResponse adu.bytes (e.request.context c.nextTid) =
      .error error := decodeReadResponse_foreign adu hforeign
  obtain ⟨error, hdecode⟩ := hrefused
  rw [readImpl_frame h, hdecode]
  rfl

/-- A call that finds its response returns the registers, and reads nothing else. -/
theorem Client.readImpl_own {c : Client} {e : Exchange} (rest : Bytes)
    (h : c.unread ++ e.stray.around (e.response c.nextTid).bytes =
      (e.response c.nextTid).bytes ++ rest) :
    c.readImpl e.request (e.network c.nextTid) =
      ({ nextTid := c.nextTid + 1, connected := true, socket := some rest },
        .ok e.registers) := by
  have hdecode := decodeReadResponse_readResponse (e.request.context c.nextTid)
    (e.full ▸ BitVec.le_def.mp e.bounded) e.full.symm
  have hnonempty : e.registers.isEmpty = false := by
    cases hregisters : e.registers with
    | cons r registers => rfl
    | nil =>
        have hfull := e.full
        rw [hregisters] at hfull
        exact absurd (BitVec.eq_of_toNat_eq hfull.symm) e.positive
  rw [readImpl_frame h]
  refine (congrArg _ hdecode).trans ?_
  simp only [settle, hnonempty, Bool.false_eq_true, if_false]

/-! ## Runs -/

def answered (e : Exchange) : Outcome := (e, .ok e.registers)

def refused (e : Exchange) : Outcome := (e, .error .DecodeFailed)

theorem Client.unread_open (nextTid : BitVec 16) (unread : Bytes)
    (code : Option ExceptionCode) :
    ({ nextTid := nextTid, connected := true, socket := some unread, lastExceptionCode := code } :
      Client).unread = unread := rfl

/-- The ids of fewer than 65536 calls are distinct. -/
theorem not_used_succ {tid : BitVec 16} {calls : Nat} (h : calls < 65536) :
    ¬ Used (tid + 1) (calls - 1) tid := by
  rintro ⟨k, hk, htid⟩
  have hnat := congrArg BitVec.toNat htid
  have hone : (1 : BitVec 16).toNat = 1 := rfl
  rw [BitVec.toNat_add, BitVec.toNat_add, hone, BitVec.toNat_ofNat] at hnat
  have hlt := tid.isLt
  omega

theorem not_used_tail {tid id : BitVec 16} {calls : Nat} (h : ¬ Used tid (calls + 1) id) :
    id ≠ tid ∧ ¬ Used (tid + 1) calls id := by
  constructor
  · rintro rfl
    exact h ⟨0, Nat.succ_pos calls, (BitVec.add_zero _).symm⟩
  · rintro ⟨k, hk, rfl⟩
    refine h ⟨k + 1, Nat.succ_lt_succ hk, ?_⟩
    rw [BitVec.add_assoc, BitVec.add_comm 1, BitVec.ofNat_add]
    rfl

/-- A call without its own frame in front fails, and leaves its own frame for the next. -/
theorem outcomes_lagging {c : Client} (adu : Adu) {exchanges : List Exchange}
    (hunread : c.unread = adu.bytes) (hsteady : ∀ e ∈ exchanges, e.stray = .none)
    (hfewer : exchanges.length < 65536)
    (hforeign : ¬ Used c.nextTid exchanges.length adu.transactionId) :
    outcomes c exchanges = exchanges.map refused := by
  induction exchanges generalizing c adu with
  | nil => rfl
  | cons e exchanges ih =>
      obtain ⟨hnow, hlater⟩ := not_used_tail hforeign
      have hcall := Client.readImpl_foreign (e := e) (e.response c.nextTid).bytes
        (by rw [hunread, hsteady e List.mem_cons_self]; rfl) hnow
      have hrest := ih (e.response c.nextTid)
        (Client.unread_open (c.nextTid + 1) _ c.lastExceptionCode)
        (fun e' he' => hsteady e' (List.mem_cons_of_mem e he'))
        (Nat.lt_of_succ_lt hfewer) (not_used_succ hfewer)
      rw [outcomes, hcall, List.map_cons]
      exact congrArg (refused e :: ·) hrest

/-- The calls in front of the additional frame succeed, and those behind it fail. -/
theorem outcomes_eq {c : Client} {exchanges : List Exchange} (hunread : c.unread = [])
    (honeStray : exchanges.Pairwise fun e e' => e.stray = .none ∨ e'.stray = .none)
    (hfewer : exchanges.length < 65536) (hfresh : Fresh c.nextTid exchanges) :
    ∃ early late, exchanges = early ++ late ∧ late.length = responsesBehind exchanges ∧
      outcomes c exchanges = early.map answered ++ late.map refused := by
  induction exchanges generalizing c with
  | nil => exact ⟨[], [], rfl, rfl, rfl⟩
  | cons e exchanges ih =>
      obtain ⟨hbefore, hafter, hfresh⟩ := hfresh
      rw [List.pairwise_cons] at honeStray
      have hfewer' : exchanges.length < 65536 := Nat.lt_of_succ_lt hfewer
      -- behind a stray frame there is no other
      have hsteady : e.stray ≠ .none → ∀ e' ∈ exchanges, e'.stray = .none :=
        fun hne e' he' => (honeStray.1 e' he').resolve_left hne
      cases hstray : e.stray with
      | none =>
          have hcall := Client.readImpl_own (c := c) (e := e) []
            (by rw [hunread, hstray, List.append_nil]; rfl)
          obtain ⟨early, late, hsplit, hlength, hrest⟩ :=
            ih (Client.unread_open (c.nextTid + 1) [] none) honeStray.2 hfewer' hfresh
          refine ⟨e :: early, late, by rw [hsplit, List.cons_append], ?_, ?_⟩
          · rw [responsesBehind, hstray, hlength]
          · rw [outcomes, hcall, List.map_cons, List.cons_append]
            exact congrArg (answered e :: ·) hrest
      | before adu =>
          obtain ⟨hnow, -⟩ := not_used_tail (hbefore adu hstray)
          have hcall := Client.readImpl_foreign (c := c) (e := e)
            (e.response c.nextTid).bytes (by rw [hunread, hstray]; rfl) hnow
          have hrest := outcomes_lagging (e.response c.nextTid)
            (Client.unread_open (c.nextTid + 1) _ c.lastExceptionCode)
            (hsteady (by simp [hstray])) hfewer' (not_used_succ hfewer)
          refine ⟨[], e :: exchanges, rfl, ?_, ?_⟩
          · rw [responsesBehind, hstray, List.length_cons]
          · rw [outcomes, hcall, List.map_nil, List.nil_append, List.map_cons]
            exact congrArg (refused e :: ·) hrest
      | after adu =>
          have hcall := Client.readImpl_own (c := c) (e := e) adu.bytes
            (by rw [hunread, hstray]; rfl)
          have hrest := outcomes_lagging adu
            (Client.unread_open (c.nextTid + 1) adu.bytes none) (hsteady (by simp [hstray]))
            hfewer' (hafter adu hstray)
          refine ⟨[e], exchanges, rfl, ?_, ?_⟩
          · rw [responsesBehind, hstray]
          · rw [outcomes, hcall, List.map_singleton, List.singleton_append]
            exact congrArg (answered e :: ·) hrest

/-- A session recovers exactly when at most one response stands behind the additional
frame. -/
theorem recovers_iff (s : Session) :
    Recovers (outcomes {} s.exchanges) ↔ responsesBehind s.exchanges ≤ 1 := by
  obtain ⟨early, late, -, hlength, houtcomes⟩ :=
    outcomes_eq (c := {}) rfl s.oneStray s.fewer s.fresh
  have hfailed : ((early.map answered ++ late.map refused).filter fun p => !p.2.isOk).length =
      late.length := by
    have hearly : (early.map answered).filter (fun p => !p.2.isOk) = [] := by
      simp [List.filter_eq_nil_iff, answered, Except.isOk, Except.toBool]
    have hlate : (late.map refused).filter (fun p => !p.2.isOk) = late.map refused := by
      simp [List.filter_eq_self, refused, Except.isOk, Except.toBool]
    rw [List.filter_append, hearly, hlate, List.nil_append, List.length_map]
  rw [houtcomes, ← hlength]
  constructor
  · intro h
    rw [← hfailed]
    exact h.oneFailure
  · intro h
    constructor
    case paired =>
      intro p hp registers hregisters
      rcases List.mem_append.mp hp with hp | hp
      · obtain ⟨e, -, rfl⟩ := List.mem_map.mp hp
        exact (Except.ok.inj hregisters).symm
      · obtain ⟨e, -, rfl⟩ := List.mem_map.mp hp
        cases hregisters
    case oneFailure => rw [hfailed]; exact h
    case later =>
      refine List.pairwise_append.mpr ⟨?_, ?_, ?_⟩
      · refine List.pairwise_map.mpr (List.pairwise_of_forall fun e e' error herror => ?_)
        cases herror
      · cases late with
        | nil => exact List.Pairwise.nil
        | cons e late =>
            have hnil : late = [] := List.length_eq_zero_iff.mp (by simpa using h)
            rw [hnil]
            exact List.pairwise_singleton _ _
      · intro p hp q hq error herror
        obtain ⟨e, -, rfl⟩ := List.mem_map.mp hp
        cases herror

/-- A late frame stands in front of the first of two responses. -/
def lateFrame : Session where
  exchanges :=
    [{ request := .readHoldingRegisters 1 0 1, registers := [7],
       stray := .before ⟨0, 1, [3, 2, 0, 5], by decide, by decide⟩,
       positive := by decide, bounded := by decide, full := rfl },
     { request := .readHoldingRegisters 1 1 1, registers := [8],
       positive := by decide, bounded := by decide, full := rfl }]
  fewer := by decide
  oneStray := by simp
  fresh := by
    refine ⟨fun adu hadu => ?_, fun adu hadu => ?_, fun adu hadu => ?_, fun adu hadu => ?_, trivial⟩
    · obtain rfl := Stray.before.inj hadu
      rintro ⟨k, hk, hid⟩
      have hnat := congrArg BitVec.toNat hid
      simp at hnat hk
      omega
    all_goals cases hadu

theorem late_frame_fails_twice : ¬ Recovers (outcomes {} lateFrame.exchanges) := by
  intro h
  exact absurd h.oneFailure (by decide +kernel)

end Modbus
