import Mathlib.Data.List.GetD
import IndustrialHmi.Integration.ProductStream
import IndustrialHmi.Integration.TcpBackend
import IndustrialHmi.Model.SimulatedModel
import IndustrialHmi.Theory.JsonWriter
import IndustrialHmi.Theory.Lines

/-!
# What TCP clients are answered

The backend serves the production model and the products.  Its commands run between those of other
callers of the model, and several clients may be connected at once, with whatever they send cut
into whatever pieces.

Of every client it is known at any moment which of its lines were handled and what it was written:
its commands in order up to the first that ends the connection, and of every command but the last
the whole answer (`service_law`).
-/

namespace Tcp

open Incremental Production Production.SimulatedModel

/-! ## The model behind a command -/

def callsEq : List Text → List Op
  | [id, state] =>
      match parseId id with
      | none => []
      | some id =>
          if state = ascii "on" then [.setEquipmentEnabled id true]
          else if state = ascii "off" then [.setEquipmentEnabled id false]
          else []
  | _ => []

def callsProduction : List Text → List Op
  | [verb] =>
      if verb = ascii "start" then [.startProduction]
      else if verb = ascii "stop" then [.stopProduction]
      else if verb = ascii "reset" then [.resetSystem]
      else []
  | _ => []

/-- The operations of the model that a command calls. -/
def modelCalls (line : Text) : List Op :=
  match tokenize line with
  | [] => []
  | cmd :: args =>
      if cmd = ascii "eq" then callsEq args
      else if cmd = ascii "production" then callsProduction args
      else []

def systemStateName : SystemState → Text
  | .IDLE => ascii "idle"
  | .RUNNING => ascii "running"
  | .ERROR => ascii "error"
  | .CALIBRATION => ascii "calibration"

/-- The members stand in the order of their names. -/
def buildStatusJson (production : SimulatedModel) : Json :=
  let state := production.stateMachine.state
  .object [(ascii "running", .boolean (state = .RUNNING)),
    (ascii "state", .string (systemStateName state))]

/-- The command asks the repository, which may throw. -/
def asksProducts (line : Text) : Bool := (tokenize line).head? = some (ascii "products")

/-! ## What an event tells of a client -/

/-- A command that was read from a connection, and the answer to it, if the repository did not
throw. -/
structure Handled where
  client : Nat
  command : Text
  answer : Option (Text × Bool)

/-- The connection stays open. -/
def Handled.goesOn (h : Handled) : Bool := h.answer.any Prod.snd

def Handled.text (h : Handled) : Text := (h.answer.map Prod.fst).getD []

namespace State

/-- The command that the worker reads next, if there is a line. -/
def commandRead (s : State) : Option (Nat × Text) :=
  match s.worker with
  | .reading client =>
      match nextLine (s.peer client).sent with
      | some (line, _) => if command line = [] then none else some (client, command line)
      | none => none
  | _ => none

def handled (s : State) : Event → Option Handled
  | .read snapshot throws => s.commandRead.map fun r =>
      { client := r.1
        command := r.2
        answer := if throws then none else some (dispatchCommand snapshot r.2) }
  | _ => none

/-- What the event puts on the connection of the client. -/
def written (s : State) (i : Nat) : Event → Text
  | .write =>
      match s.worker with
      | .writing client rest _ =>
          if client = i ∧ (s.peer i).closed = false then rest.take (s.peer i).room else []
      | _ => []
  | _ => []

/-- What the client sends with the event. -/
def sentWith (s : State) (i : Nat) : Event → Text
  | .send client bytes => if client = i ∧ i < s.peers.length then bytes else []
  | _ => []

end State

/-- The commands of what a client has sent. -/
def commandsOf (sent : Text) : List Text :=
  ((endedLines newline sent).map command).filter (· ≠ [])

/-! ## The service -/

structure Service where
  net : State := {}
  production : SimulatedModel := {}
  products : List (Export.Product (BitVec 32)) := []

inductive ServiceEvent where
  /-- Of a `read` only whether the repository throws if it is asked. -/
  | net (e : Event)
  /-- Another caller of the model. -/
  | model (op : Op)
  | stored (products : List (Export.Product (BitVec 32)))

namespace Service

def snapshot (s : Service) : Snapshot where
  status := JsonText.write (buildStatusJson s.production) false 0
  products := s.products.map ProductStream.productToJsonLine

/-- The event as the backend has it: commands see the model of their moment. -/
def seen (s : Service) : Event → Event
  | .read _ throws => .read s.snapshot (throws && s.net.commandRead.any (asksProducts ·.2))
  | e => e

def handled (s : Service) : ServiceEvent → Option Handled
  | .net e => s.net.handled (s.seen e)
  | _ => none

def written (s : Service) (i : Nat) : ServiceEvent → Text
  | .net e => s.net.written i (s.seen e)
  | _ => []

def sentWith (s : Service) (i : Nat) : ServiceEvent → Text
  | .net e => s.net.sentWith i (s.seen e)
  | _ => []

def calls (s : Service) : ServiceEvent → List Op
  | .net e => (s.handled (.net e)).toList.flatMap (modelCalls ·.command)
  | .model op => [op]
  | .stored _ => []

def step (s : Service) (e : ServiceEvent) : Service where
  net := match e with
    | .net e => s.net.step (s.seen e)
    | _ => s.net
  production := s.production.after (s.calls e)
  products := match e with
    | .stored products => products
    | _ => s.products

def after (s : Service) (run : List ServiceEvent) : Service := run.foldl step s

/-- The events of a run, each with the state it finds. -/
def trace : Service → List ServiceEvent → List (Service × ServiceEvent)
  | _, [] => []
  | s, e :: run => (s, e) :: trace (s.step e) run

def allHandled (s : Service) (run : List ServiceEvent) : List Handled :=
  (s.trace run).filterMap fun t => t.1.handled t.2

def handledOf (s : Service) (run : List ServiceEvent) (i : Nat) : List Handled :=
  (s.allHandled run).filter (·.client = i)

def writtenTo (s : Service) (run : List ServiceEvent) (i : Nat) : Text :=
  (s.trace run).flatMap fun t => t.1.written i t.2

def sentBy (s : Service) (run : List ServiceEvent) (i : Nat) : Text :=
  (s.trace run).flatMap fun t => t.1.sentWith i t.2

end Service

/-- The service before any client. -/
def fresh (production : SimulatedModel) (products : List (Export.Product (BitVec 32))) :
    Service := { production, products }

/-! ## The law -/

/-- What is known of a client after a run. -/
structure ClientLaw (s : Service) (run : List ServiceEvent) (i : Nat) : Prop where
  /-- What was handled and what is unread make up the commands of the client, in order. -/
  commands : (s.handledOf run i).map (·.command) ++ commandsOf ((s.after run).net.peer i).sent =
    commandsOf (s.sentBy run i)
  /-- Nothing is handled behind what ends the connection. -/
  last : ∀ h ∈ (s.handledOf run i).dropLast, h.goesOn
  /-- Nothing else is written, and nothing out of order. -/
  inOrder : s.writtenTo run i <+: (s.handledOf run i).flatMap Handled.text
  /-- An answer that is being written lacks what is still to come. -/
  writing : ∀ rest keepOpen, (s.after run).net.worker = .writing i rest keepOpen →
    s.writtenTo run i ++ rest = (s.handledOf run i).flatMap Handled.text
  /-- To a client that has not closed every answer is written whole. -/
  whole : (∀ rest keepOpen, (s.after run).net.worker ≠ .writing i rest keepOpen) →
    ((s.after run).net.peer i).closed = false →
      s.writtenTo run i = (s.handledOf run i).flatMap Handled.text

structure ServiceLaw (s : Service) (run : List ServiceEvent) : Prop where
  clients : ∀ i, ClientLaw s run i
  /-- A client is served to its end before another. -/
  oneByOne : ∀ before h between h' later,
    s.allHandled run = before ++ h :: between ++ h' :: later → h.client = h'.client →
      ∀ g ∈ between, g.client = h.client
  /-- Clients reach no other operations than these. -/
  vocabulary : ∀ h ∈ s.allHandled run, ∀ op ∈ modelCalls h.command,
    op = .startProduction ∨ op = .stopProduction ∨ op = .resetSystem ∨
      ∃ id < 2 ^ 32, ∃ enabled, op = .setEquipmentEnabled id enabled

/-! ## Lines -/

theorem nextLine_eq_some {sent line rest : Text} (h : nextLine sent = some (line, rest)) :
    sent = ended line ++ rest ∧ newline ∉ line := by
  rw [nextLine] at h
  split at h
  next hmem =>
    obtain ⟨hline, hrest⟩ := Prod.mk.inj (Option.some.inj h)
    obtain ⟨front, back, hsent, hfront⟩ := List.eq_append_cons_of_mem hmem
    have hnot : ∀ b ∈ front, decide (b ≠ newline) = true := fun b hb =>
      decide_eq_true fun heq => hfront (heq ▸ hb)
    have htake : sent.takeWhile (· ≠ newline) = front := by
      rw [hsent, List.takeWhile_append_of_pos hnot, List.takeWhile_cons_of_neg (by simp),
        List.append_nil]
    have hdrop : sent.dropWhile (· ≠ newline) = newline :: back := by
      rw [hsent, List.dropWhile_append_of_pos hnot, List.dropWhile_cons_of_neg (by simp)]
    rw [htake] at hline
    rw [hdrop, List.drop_one, List.tail_cons] at hrest
    rw [← hline, ← hrest, hsent]
    exact ⟨by rw [ended, List.append_assoc]; rfl, hfront⟩
  next => cases h

/-- Whole lines and what comes behind them have the commands of both. -/
theorem commandsOf_append {ls : List Text} (hls : ∀ l ∈ ls, newline ∉ l) (xs : Text) :
    commandsOf (ls.flatMap ended ++ xs) =
      (ls.map command).filter (· ≠ []) ++ commandsOf xs := by
  have hscan := scan_terminated hls xs
  rw [scan_lineScanner, scan_lineScanner] at hscan
  have hlines : endedLines newline (ls.flatMap ended ++ xs) = ls ++ endedLines newline xs :=
    congrArg Prod.fst hscan
  rw [commandsOf, hlines, List.map_append, List.filter_append]
  rfl

/-! ## One client -/

/-- What is known of a client at any moment, of what was handled for it, what it was written and
what it has sent. -/
structure ClientInv (s : State) (i : Nat) (handled : List Handled) (written sent : Text) :
    Prop where
  lines : ∃ ls : List Text, (∀ l ∈ ls, newline ∉ l) ∧
    sent = ls.flatMap ended ++ (s.peer i).sent ∧
    handled.map (·.command) = (ls.map command).filter (· ≠ [])
  unknown : s.peers.length ≤ i → handled = [] ∧ written = [] ∧ sent = []
  waiting : i ∈ s.backlog → handled = []
  last : ∀ h ∈ handled.dropLast, h.goesOn
  served : s.worker = .looping i ∨ s.worker = .reading i →
    written = handled.flatMap Handled.text ∧ ∀ h ∈ handled, h.goesOn
  inOrder : written <+: handled.flatMap Handled.text
  writing : ∀ rest keepOpen, s.worker = .writing i rest keepOpen →
    written ++ rest = handled.flatMap Handled.text ∧ (keepOpen → ∀ h ∈ handled, h.goesOn)
  whole : (∀ rest keepOpen, s.worker ≠ .writing i rest keepOpen) →
    (s.peer i).closed = false → written = handled.flatMap Handled.text

/-- A step in which nothing is handled, written or sent, and the worker goes on with the client
only where it was, or begins with it. -/
theorem ClientInv.frame {s s' : State} {i : Nat} {handled : List Handled} {written sent : Text}
    (h : ClientInv s i handled written sent)
    (hsent : (s'.peer i).sent = (s.peer i).sent)
    (hclosed : (s'.peer i).closed = false → (s.peer i).closed = false ∨ s.peers.length ≤ i)
    (hpeers : s.peers.length ≤ s'.peers.length)
    (hbacklog : i ∈ s'.backlog → i ∈ s.backlog ∨ s.peers.length ≤ i)
    (hserved : s'.worker = .looping i ∨ s'.worker = .reading i →
      s.worker = .looping i ∨ s.worker = .reading i ∨ i ∈ s.backlog)
    (hwriting : ∀ rest keepOpen, s'.worker = .writing i rest keepOpen ↔
      s.worker = .writing i rest keepOpen) : ClientInv s' i handled written sent where
  lines := hsent ▸ h.lines
  unknown := fun hi => h.unknown (hpeers.trans hi)
  waiting := fun hi => (hbacklog hi).elim h.waiting fun hi => (h.unknown hi).1
  last := h.last
  served := fun hworker => by
    obtain hlooping | hreading | hwaiting := hserved hworker
    · exact h.served (.inl hlooping)
    · exact h.served (.inr hreading)
    · have hnone := h.waiting hwaiting
      have hwritten := h.inOrder
      rw [hnone] at hwritten ⊢
      exact ⟨List.prefix_nil.mp hwritten, fun _ hmem => absurd hmem List.not_mem_nil⟩
  inOrder := h.inOrder
  writing := fun rest keepOpen hworker =>
    h.writing rest keepOpen ((hwriting rest keepOpen).mp hworker)
  whole := fun hnot hopen => by
    rcases hclosed hopen with hopen | hunknown
    · exact h.whole (fun rest keepOpen hworker =>
        hnot rest keepOpen ((hwriting rest keepOpen).mpr hworker)) hopen
    · obtain ⟨hhandled, hwritten, -⟩ := h.unknown hunknown
      rw [hhandled, hwritten]
      rfl

/-- Which clients wait and which is served. -/
structure Queue (s : State) : Prop where
  core : s.Core
  nodup : (s.backlog ++ s.worker.client.toList).Nodup

theorem peer_of_length_le {s : State} {i : Nat} (h : s.peers.length ≤ i) :
    s.peer i = { closed := true } := by
  rw [State.peer, List.getD_eq_getElem?_getD, List.getElem?_eq_none h]
  rfl

theorem peer_withPeer_ne {s : State} {client i : Nat} (h : client ≠ i) (f : Peer → Peer) :
    (s.withPeer client f).peer i = s.peer i := by
  rw [State.peer, State.peer, State.withPeer, List.getD_eq_getElem?_getD,
    List.getD_eq_getElem?_getD]
  exact congrArg (Option.getD · _) (List.getElem?_modify_ne f s.peers h)

theorem peer_withPeer_eq {s : State} {i : Nat} (h : i < s.peers.length) (f : Peer → Peer) :
    (s.withPeer i f).peer i = f (s.peer i) := by
  rw [State.peer, State.peer, State.withPeer, List.getD_eq_getElem?_getD,
    List.getD_eq_getElem?_getD, List.getElem?_modify_eq, List.getElem?_eq_getElem h]
  rfl

@[simp] theorem length_withPeer (s : State) (client : Nat) (f : Peer → Peer) :
    (s.withPeer client f).peers.length = s.peers.length := List.length_modify _ _ _

@[simp] theorem backlog_withPeer (s : State) (client : Nat) (f : Peer → Peer) :
    (s.withPeer client f).backlog = s.backlog := rfl

@[simp] theorem worker_withPeer (s : State) (client : Nat) (f : Peer → Peer) :
    (s.withPeer client f).worker = s.worker := rfl

/-- A step for another client. -/
theorem ClientInv.other {s s' : State} {i : Nat} {handled : List Handled} {written sent : Text}
    (h : ClientInv s i handled written sent) (hpeer : s'.peer i = s.peer i)
    (hpeers : s'.peers.length = s.peers.length) (hbacklog : s'.backlog = s.backlog)
    (hbefore : s.worker.client ≠ some i) (hafter : s'.worker.client ≠ some i) :
    ClientInv s' i handled written sent := by
  refine h.frame (by rw [hpeer]) (fun hopen => .inl (hpeer ▸ hopen)) hpeers.ge
    (fun hi => .inl (hbacklog ▸ hi)) (fun hserved => ?_)
    fun rest keepOpen => ⟨fun hw => ?_, fun hw => ?_⟩
  · rcases hserved with hw | hw <;> exact absurd (by rw [hw]; rfl) hafter
  · exact absurd (by rw [hw]; rfl) hafter
  · exact absurd (by rw [hw]; rfl) hbefore

/-- The events that only change what a client could be written or whether it is there. -/
theorem ClientInv.withPeer {s : State} {i : Nat} {handled : List Handled} {written sent : Text}
    (h : ClientInv s i handled written sent) (client : Nat) {f : Peer → Peer}
    (hsent : ∀ p, (f p).sent = p.sent) (hclosed : ∀ p, (f p).closed = false → p.closed = false) :
    ClientInv (s.withPeer client f) i handled written sent := by
  refine h.frame ?_ ?_ (by simp) .inl (fun hworker => hworker.imp_right .inl) (by simp)
  · rcases s.peer_withPeer client i f with heq | heq
    · rw [heq]
    · rw [heq, hsent]
  · intro hopen
    rcases s.peer_withPeer client i f with heq | heq
    · exact .inl (heq ▸ hopen)
    · exact .inl (hclosed _ (heq ▸ hopen))

theorem ClientInv.send {s : State} {i : Nat} {handled : List Handled} {written sent : Text}
    (h : ClientInv s i handled written sent) (client : Nat) (bytes : Text) :
    ClientInv (s.withPeer client fun p => { p with sent := p.sent ++ bytes }) i handled written
      (sent ++ s.sentWith i (.send client bytes)) := by
  rw [State.sentWith]
  split
  next hself =>
    obtain ⟨rfl, hi⟩ := hself
    obtain ⟨ls, hls, hlines, hcommands⟩ := h.lines
    have hpeer := peer_withPeer_eq (s := s) hi fun p => { p with sent := p.sent ++ bytes }
    refine ⟨⟨ls, hls, ?_, hcommands⟩, fun hunknown => ?_, h.waiting, h.last, h.served, h.inOrder,
      h.writing, fun hnot hopen => h.whole hnot ?_⟩
    · rw [hpeer, hlines, List.append_assoc]
    · rw [length_withPeer] at hunknown
      exact absurd hi hunknown.not_gt
    · rw [hpeer] at hopen
      exact hopen
  next hother =>
    rw [List.append_nil]
    have hpeer : (s.withPeer client fun p => { p with sent := p.sent ++ bytes }).peer i =
        s.peer i := by
      by_cases hclient : client = i
      · have hi := not_lt.mp fun hi => hother ⟨hclient, hi⟩
        rw [peer_of_length_le hi, peer_of_length_le (by simpa using hi)]
      · exact peer_withPeer_ne hclient _
    refine h.frame (by rw [hpeer]) (by rw [hpeer]; exact .inl) (by simp) .inl
      (fun hworker => hworker.imp_right .inl) (by simp)

/-- A line is read of the client that is served. -/
theorem ClientInv.readLine {s : State} {i : Nat} {handled : List Handled} {written sent : Text}
    (h : ClientInv s i handled written sent) {line rest : Text}
    (hline : nextLine (s.peer i).sent = some (line, rest)) :
    i < s.peers.length ∧
      ∃ ls : List Text, (∀ l ∈ ls, newline ∉ l) ∧ sent = ls.flatMap ended ++ rest ∧
        handled.map (·.command) ++ [command line].filter (· ≠ []) =
          (ls.map command).filter (· ≠ []) := by
  obtain ⟨ls, hls, hlines, hcommands⟩ := h.lines
  obtain ⟨hsent, hfree⟩ := nextLine_eq_some hline
  have hi : i < s.peers.length := by
    by_contra hunknown
    rw [peer_of_length_le (not_lt.mp hunknown)] at hline
    cases hline
  refine ⟨hi, ls ++ [line], ?_, ?_, ?_⟩
  · intro l hl
    rcases List.mem_append.mp hl with hl | hl
    · exact hls l hl
    · exact List.mem_singleton.mp hl ▸ hfree
  · rw [hlines, hsent, List.flatMap_append, List.flatMap_singleton, List.append_assoc]
  · rw [List.map_append, List.filter_append, hcommands]
    rfl

/-- A blank line is passed over. -/
theorem ClientInv.skip {s s' : State} {i : Nat} {handled : List Handled} {written sent : Text}
    (h : ClientInv s i handled written sent) (hworker : s.worker = .reading i) {line rest : Text}
    (hline : nextLine (s.peer i).sent = some (line, rest)) (hempty : command line = [])
    (hpeers : s'.peers.length = s.peers.length) (hbacklog : s'.backlog = s.backlog)
    (hpeer : s'.peer i = { s.peer i with sent := rest }) (hworker' : s'.worker = .looping i) :
    ClientInv s' i handled written sent := by
  obtain ⟨hi, ls, hls, hlines, hcommands⟩ := h.readLine hline
  have hserved := h.served (.inr hworker)
  refine ⟨⟨ls, hls, ?_, ?_⟩, fun hunknown => ?_, fun hwaiting => ?_, h.last, fun _ => hserved,
    h.inOrder, fun text keepOpen hwriting => ?_, fun _ _ => hserved.1⟩
  · rw [hpeer, hlines]
  · simpa [hempty] using hcommands
  · exact absurd (hpeers ▸ hunknown) hi.not_ge
  · exact h.waiting (hbacklog ▸ hwaiting)
  · rw [hworker'] at hwriting
    cases hwriting

/-- A command is handled, and its answer is on the way if there is one. -/
theorem ClientInv.handle {s s' : State} {i : Nat} {handled : List Handled} {written sent : Text}
    (h : ClientInv s i handled written sent) (hworker : s.worker = .reading i)
    (hnot : i ∉ s.backlog) {line rest : Text}
    (hline : nextLine (s.peer i).sent = some (line, rest)) (hcommand : command line ≠ [])
    {answer : Option (Text × Bool)} (hpeers : s'.peers.length = s.peers.length)
    (hbacklog : s'.backlog = s.backlog) (hpeer : s'.peer i = { s.peer i with sent := rest })
    (hworker' : s'.worker = match answer with
      | none => .absent
      | some (response, keepOpen) => .writing i response keepOpen) :
    ClientInv s' i (handled ++ [Handled.mk i (command line) answer]) written sent := by
  obtain ⟨hi, ls, hls, hlines, hcommands⟩ := h.readLine hline
  obtain ⟨hwritten, hgoesOn⟩ := h.served (.inr hworker)
  refine ⟨⟨ls, hls, ?_, ?_⟩, fun hunknown => ?_, fun hwaiting => ?_, ?_, fun hserved => ?_, ?_,
    fun text keepOpen hwriting => ?_, fun hidle hopen => ?_⟩
  · rw [hpeer, hlines]
  · rw [List.map_append, ← hcommands]
    simp [hcommand]
  · exact absurd (hpeers ▸ hunknown) hi.not_ge
  · exact absurd (hbacklog ▸ hwaiting) hnot
  · rw [List.dropLast_concat]
    exact hgoesOn
  · rw [hworker'] at hserved
    cases answer <;> simp at hserved
  · rw [List.flatMap_append, hwritten]
    exact List.prefix_append _ _
  · rw [hworker'] at hwriting
    cases answer with
    | none => cases hwriting
    | some answer =>
        cases hwriting
        rw [List.flatMap_append, List.flatMap_singleton, hwritten]
        refine ⟨rfl, fun hkeep handled' hmem => ?_⟩
        rcases List.mem_append.mp hmem with hearlier | hlast
        · exact hgoesOn handled' hearlier
        · rw [List.mem_singleton.mp hlast]
          exact hkeep
  · cases answer with
    | none => simp [hwritten, Handled.text]
    | some answer => exact absurd hworker' (hidle _ _)

theorem commandRead_reading {s : State} {client : Nat} (hworker : s.worker = .reading client) :
    s.commandRead = (nextLine (s.peer client).sent).bind fun r =>
      if command r.1 = [] then none else some (client, command r.1) := by
  rw [State.commandRead, hworker]
  dsimp only
  cases nextLine (s.peer client).sent with
  | none => rfl
  | some r => rfl

theorem Queue.notMem {s : State} (h : Queue s) {client : Nat}
    (hclient : s.worker.client = some client) : client ∉ s.backlog := by
  intro hmem
  have hnodup := h.nodup
  rw [hclient] at hnodup
  exact (List.nodup_append.mp hnodup).2.2 client hmem client List.mem_cons_self rfl

theorem ClientInv.read {s s' : State} {i client : Nat} {handled : List Handled}
    {written sent : Text} (h : ClientInv s i handled written sent) (hqueue : Queue s)
    (hworker : s.worker = .reading client) {snapshot : Snapshot} {throws : Bool}
    (hread : State.Reads s client snapshot throws s') :
    ClientInv s' i
      (handled ++ (s.handled (.read snapshot throws)).toList.filter (·.client = i))
      written sent := by
  rw [State.handled, commandRead_reading hworker]
  by_cases hclient : client = i
  · obtain rfl := hclient
    have hnot : client ∉ s.backlog := hqueue.notMem (by rw [hworker]; rfl)
    cases hread with
    | gone hline =>
        rw [hline, Option.bind_none, Option.map_none, Option.toList_none, List.filter_nil,
          List.append_nil]
        exact h.frame rfl .inl le_rfl .inl (by simp) (by simp [hworker])
    | @empty line rest hline hempty =>
        have hi := (h.readLine hline).1
        simp only [hline, Option.bind_some, hempty, if_true, Option.map_none, Option.toList_none,
          List.filter_nil, List.append_nil]
        exact h.skip hworker hline hempty (length_withPeer _ _ _) rfl (peer_withPeer_eq hi _) rfl
    | @threw line rest hline hcommand hthrows =>
        have hi := (h.readLine hline).1
        simp only [hline, Option.bind_some, hcommand, if_false, Option.map_some, hthrows, if_true,
          Option.toList_some, List.filter_cons, decide_true, List.filter_nil]
        exact h.handle hworker hnot hline hcommand (length_withPeer _ _ _) rfl
          (peer_withPeer_eq hi _) rfl
    | @answered line rest hline hcommand hthrows =>
        have hi := (h.readLine hline).1
        simp only [hline, Option.bind_some, hcommand, if_false, Option.map_some, hthrows,
          Bool.false_eq_true, Option.toList_some, List.filter_cons, decide_true, if_true,
          List.filter_nil]
        exact h.handle hworker hnot hline hcommand (length_withPeer _ _ _) rfl
          (peer_withPeer_eq hi _) rfl
  · -- Another client is served.
    have hnone : ((((nextLine (s.peer client).sent).bind fun r =>
        if command r.1 = [] then none else some (client, command r.1)).map fun r =>
          (Handled.mk r.1 r.2 (if throws then none else
            some (dispatchCommand snapshot r.2)))).toList.filter (·.client = i)) = [] := by
      refine List.filter_eq_nil_iff.mpr fun handled' hmem => ?_
      obtain ⟨r, hr, rfl⟩ := Option.map_eq_some_iff.mp (Option.mem_toList.mp hmem)
      obtain ⟨line, -, hline⟩ := Option.bind_eq_some_iff.mp hr
      split at hline
      · cases hline
      · obtain rfl := Option.some.inj hline
        simpa using hclient
    rw [hnone, List.append_nil]
    have hbefore : s.worker.client ≠ some i := by rw [hworker]; simpa [Worker.client] using hclient
    cases hread with
    | gone hline => exact h.other rfl rfl rfl hbefore (by simpa [Worker.client] using hclient)
    | empty hline hempty =>
        exact h.other (peer_withPeer_ne hclient _) (length_withPeer _ _ _) rfl hbefore
          (by simpa [Worker.client] using hclient)
    | threw hline hcommand hthrows =>
        exact h.other (peer_withPeer_ne hclient _) (length_withPeer _ _ _) rfl hbefore
          (by simp [Worker.client])
    | answered hline hcommand hthrows =>
        exact h.other (peer_withPeer_ne hclient _) (length_withPeer _ _ _) rfl hbefore
          (by simpa [Worker.client] using hclient)

theorem ClientInv.write {s s' : State} {i client : Nat} {handled : List Handled}
    {written sent : Text} (h : ClientInv s i handled written sent)
    {rest : Text} {keepOpen : Bool} (hworker : s.worker = .writing client rest keepOpen)
    (hwrite : State.Writes s client rest keepOpen s') :
    ClientInv s' i handled (written ++ s.written i .write) sent := by
  rw [State.written, hworker]
  dsimp only
  by_cases hclient : client = i
  · obtain rfl := hclient
    obtain ⟨hwritten, hgoesOn⟩ := h.writing rest keepOpen hworker
    cases hwrite with
    | done hrest =>
        rw [hrest, List.append_nil] at hwritten
        rw [hrest, List.take_nil, ite_self, List.append_nil]
        refine ⟨h.lines, h.unknown, h.waiting, h.last, fun hserved => ⟨hwritten, ?_⟩, h.inOrder, ?_,
          fun _ _ => hwritten⟩
        · cases keepOpen with
          | true => exact hgoesOn rfl
          | false => simp at hserved
        · intro text keepOpen' hwriting
          cases keepOpen <;> cases hwriting
    | closed hclosed =>
        rw [if_neg (by simp [hclosed]), List.append_nil]
        refine ⟨h.lines, h.unknown, h.waiting, h.last, fun hserved => by simp at hserved,
          h.inOrder, fun text keepOpen' hwriting => (by cases hwriting), fun _ hopen => ?_⟩
        exact absurd (hclosed.symm.trans hopen) (by simp)
    | wrote hclosed =>
        have hi : client < s.peers.length := by
          by_contra hunknown
          rw [peer_of_length_le (not_lt.mp hunknown)] at hclosed
          exact hclosed rfl
        have hpeer := peer_withPeer_eq hi fun p => { p with room := p.room - rest.length }
        have htext : (written ++ rest.take (s.peer client).room) ++ rest.drop (s.peer client).room =
            handled.flatMap Handled.text := by
          rw [List.append_assoc, List.take_append_drop, hwritten]
        rw [if_pos ⟨rfl, Bool.eq_false_iff.mpr hclosed⟩]
        refine ⟨?_, fun hunknown => ?_, h.waiting, h.last, fun hserved => by simp at hserved,
          htext ▸ List.prefix_append _ _, fun text keepOpen' hwriting => ?_, fun hidle _ => ?_⟩
        · obtain ⟨ls, hls, hlines, hcommands⟩ := h.lines
          refine ⟨ls, hls, ?_, hcommands⟩
          exact hlines.trans (congrArg (ls.flatMap ended ++ ·) (congrArg Peer.sent hpeer).symm)
        · exact absurd (length_withPeer s client _ ▸ hunknown) hi.not_ge
        · cases hwriting
          exact ⟨htext, hgoesOn⟩
        · exact absurd rfl (hidle _ _)
  · -- Another client is served.
    rw [if_neg fun hboth => hclient hboth.1, List.append_nil]
    have hbefore : s.worker.client ≠ some i := by rw [hworker]; simpa [Worker.client] using hclient
    cases hwrite with
    | done hrest =>
        refine h.other rfl rfl rfl hbefore ?_
        cases keepOpen <;> simpa [Worker.client] using hclient
    | closed hclosed => exact h.other rfl rfl rfl hbefore (by simpa [Worker.client] using hclient)
    | wrote hclosed =>
        exact h.other (peer_withPeer_ne hclient _) (length_withPeer _ _ _) rfl hbefore
          (by simpa [Worker.client] using hclient)

theorem peer_connect (s : State) (room i : Nat) {s' : State}
    (hpeers : s'.peers = s.peers ++ [{ room := room }]) :
    (s'.peer i).sent = (s.peer i).sent ∧
      ((s'.peer i).closed = false → (s.peer i).closed = false ∨ s.peers.length ≤ i) := by
  rcases lt_or_ge i s.peers.length with hi | hi
  · have hpeer : s'.peer i = s.peer i := by
      rw [State.peer, State.peer, hpeers, List.getD_append _ _ _ _ hi]
    rw [hpeer]
    exact ⟨rfl, .inl⟩
  · refine ⟨?_, fun _ => .inr hi⟩
    rw [peer_of_length_le hi, State.peer, hpeers, List.getD_append_right _ _ _ _ hi]
    cases i - s.peers.length with
    | zero => rfl
    | succ n => rfl

/-- What an event makes of a client. -/
theorem ClientInv.moves {s s' : State} {i : Nat} {handled : List Handled} {written sent : Text}
    (h : ClientInv s i handled written sent) (hqueue : Queue s) {e : Event}
    (hmoves : State.Moves s e s') :
    ClientInv s' i (handled ++ (s.handled e).toList.filter (·.client = i))
      (written ++ s.written i e) (sent ++ s.sentWith i e) := by
  cases hmoves with
  | connect room hlistening =>
      have hstep : ClientInv { s with
          peers := s.peers ++ [{ room }], backlog := s.backlog ++ [s.peers.length] }
          i handled written sent := by
        refine h.frame (peer_connect s room i rfl).1 (peer_connect s room i rfl).2 (by simp)
          (fun hi => ?_) (fun hserved => hserved.imp_right .inl) (fun rest keepOpen => Iff.rfl)
        rcases List.mem_append.mp hi with hwaits | hnew
        · exact .inl hwaits
        · exact .inr (List.mem_singleton.mp hnew).ge
      simpa [State.handled, State.written, State.sentWith] using hstep
  | send client bytes =>
      simpa [State.handled, State.written] using h.send client bytes
  | drain client bytes =>
      simpa [State.handled, State.written, State.sentWith] using
        h.withPeer client (f := fun p => { p with room := p.room + bytes }) (fun _ => rfl)
          fun _ hopen => hopen
  | close client =>
      simpa [State.handled, State.written, State.sentWith] using
        h.withPeer client (f := fun p => { p with closed := true }) (fun _ => rfl)
          fun _ hopen => by cases hopen
  | start binds hidle =>
      have hstart : ClientInv (s.start binds) i handled written sent := by
        rw [State.start]
        split
        next => exact h
        next hrunning =>
          split
          next =>
            have habsent := hqueue.core.idle hidle (Bool.eq_false_iff.mpr hrunning)
            exact h.frame rfl .inl le_rfl (fun hi => by simp at hi) (by simp) (by simp [habsent])
          next => exact h
      simpa [State.handled, State.written, State.sentWith] using hstart
  | stop hidle =>
      have hstop : ClientInv s.stop i handled written sent := by
        rw [State.stop]
        split
        · exact h.frame rfl .inl le_rfl .inl (fun hserved => hserved.imp_right .inl)
            (fun rest keepOpen => Iff.rfl)
        · exact h
      simpa [State.handled, State.written, State.sentWith] using hstop
  | stopIo hstopping =>
      have hstep : ClientInv { s with ioStopped := true, caller := .joining }
          i handled written sent :=
        h.frame rfl .inl le_rfl .inl (fun hserved => hserved.imp_right .inl)
          (fun rest keepOpen => Iff.rfl)
      simpa [State.handled, State.written, State.sentWith] using hstep
  | join hjoining habsent =>
      have hstep : ClientInv { s with
          caller := .idle, ioStopped := false, listening := false, backlog := [] }
          i handled written sent :=
        h.frame rfl .inl le_rfl (fun hi => by simp at hi) (fun hserved => hserved.imp_right .inl)
          (fun rest keepOpen => Iff.rfl)
      simpa [State.handled, State.written, State.sentWith] using hstep
  | @accept client rest hworker hbacklog hio =>
      have hstep : ClientInv { s with
          worker := .looping client, backlog := rest, activeClients := s.activeClients + 1 }
          i handled written sent := by
        refine h.frame rfl .inl le_rfl (fun hi => .inl (hbacklog ▸ List.mem_cons_of_mem _ hi))
          (fun hserved => ?_) (by simp [hworker])
        obtain rfl : client = i := by simpa using hserved
        exact .inr (.inr (hbacklog ▸ List.mem_cons_self))
      simpa [State.handled, State.written, State.sentWith] using hstep
  | acceptFails hworker hio =>
      have hstep : ClientInv { s with worker := .absent } i handled written sent :=
        h.frame rfl .inl le_rfl .inl (by simp) (by simp [hworker])
      simpa [State.handled, State.written, State.sentWith] using hstep
  | leaveRun hworker hio =>
      have hstep : ClientInv { s with worker := .absent } i handled written sent :=
        h.frame rfl .inl le_rfl .inl (by simp) (by simp [hworker])
      simpa [State.handled, State.written, State.sentWith] using hstep
  | @check client hworker =>
      have hstep : ClientInv { s with
          worker := if s.running then .reading client else .leaving client }
          i handled written sent := by
        refine h.frame rfl .inl le_rfl .inl (fun hserved => ?_) (fun rest keepOpen => ?_)
        · refine .inl (hworker.trans (congrArg Worker.looping ?_))
          cases hrunning : s.running <;> simp_all
        · cases hrunning : s.running <;> simp [hworker]
      simpa [State.handled, State.written, State.sentWith] using hstep
  | read hworker hread =>
      simpa [State.written, State.sentWith] using
        h.read hqueue hworker (State.reads_of_read hread)
  | write hworker hwrite =>
      simpa [State.handled, State.sentWith] using
        h.write hworker (State.writes_of_write hwrite)
  | @leave client hworker =>
      have hstep : ClientInv { s with
          worker := .accepting, activeClients := s.activeClients - 1 } i handled written sent :=
        h.frame rfl .inl le_rfl .inl (by simp) (by simp [hworker])
      simpa [State.handled, State.written, State.sentWith] using hstep

/-! ## Who waits and who is served -/

theorem reads_client {s s' : State} {client : Nat} {snapshot : Snapshot} {throws : Bool}
    (h : State.Reads s client snapshot throws s') : s'.backlog = s.backlog ∧
      (s'.worker.client = some client ∨ s'.worker = .absent) := by
  cases h with
  | threw => exact ⟨rfl, .inr rfl⟩
  | _ => exact ⟨rfl, .inl rfl⟩

theorem writes_client {s s' : State} {client : Nat} {rest : Text} {keepOpen : Bool}
    (h : State.Writes s client rest keepOpen s') :
    s'.backlog = s.backlog ∧ s'.worker.client = some client := by
  cases h with
  | done => cases keepOpen <;> exact ⟨rfl, rfl⟩
  | _ => exact ⟨rfl, rfl⟩

/-- After an event the worker serves whom it did before, nobody, or who waited first. -/
theorem served_moves {s s' : State} {e : Event} (h : State.Moves s e s') :
    (s'.worker.client = s.worker.client ∨ s'.worker.client = none) ∧
        (s'.backlog.Sublist s.backlog ∨ s'.backlog = s.backlog ++ [s.peers.length]) ∨
      ∃ client, s.worker.client = none ∧ s.backlog = client :: s'.backlog ∧
        s'.worker.client = some client := by
  cases h with
  | connect room hlistening => exact .inl ⟨.inl rfl, .inr rfl⟩
  | start binds hidle =>
      rw [State.start]
      split
      · exact .inl ⟨.inl rfl, .inl (List.Sublist.refl _)⟩
      · split
        · exact .inl ⟨.inr rfl, .inl (List.nil_sublist _)⟩
        · exact .inl ⟨.inl rfl, .inl (List.Sublist.refl _)⟩
  | stop hidle =>
      rw [State.stop]
      split <;> exact .inl ⟨.inl rfl, .inl (List.Sublist.refl _)⟩
  | join hjoining habsent => exact .inl ⟨.inl rfl, .inl (List.nil_sublist _)⟩
  | accept hworker hbacklog hio => exact .inr ⟨_, by rw [hworker]; rfl, hbacklog, rfl⟩
  | acceptFails hworker hio => exact .inl ⟨.inr rfl, .inl (List.Sublist.refl _)⟩
  | leaveRun hworker hio => exact .inl ⟨.inr rfl, .inl (List.Sublist.refl _)⟩
  | check hworker =>
      refine .inl ⟨.inl ?_, .inl (List.Sublist.refl _)⟩
      rw [hworker]
      cases s.running <;> rfl
  | read hworker hread =>
      obtain ⟨hbacklog, hclient | habsent⟩ := reads_client (State.reads_of_read hread)
      · exact .inl ⟨.inl (by rw [hclient, hworker]; rfl), .inl (hbacklog ▸ List.Sublist.refl _)⟩
      · exact .inl ⟨.inr (by rw [habsent]; rfl), .inl (hbacklog ▸ List.Sublist.refl _)⟩
  | write hworker hwrite =>
      obtain ⟨hbacklog, hclient⟩ := writes_client (State.writes_of_write hwrite)
      exact .inl ⟨.inl (by rw [hclient, hworker]; rfl), .inl (hbacklog ▸ List.Sublist.refl _)⟩
  | leave hworker => exact .inl ⟨.inr rfl, .inl (List.Sublist.refl _)⟩
  | _ => exact .inl ⟨.inl rfl, .inl (List.Sublist.refl _)⟩

theorem Queue.moves {s s' : State} (h : Queue s) {e : Event} (hmoves : State.Moves s e s') :
    Queue s' := by
  refine ⟨h.core.moves hmoves, ?_⟩
  have hnodup := h.nodup
  rcases served_moves hmoves with ⟨hclient, hbacklog⟩ | ⟨client, hnone, hbacklog, hclient⟩
  · have hserved : s'.worker.client.toList.Sublist s.worker.client.toList := by
      rcases hclient with hsame | hnone
      · rw [hsame]
      · rw [hnone]
        exact List.nil_sublist _
    rcases hbacklog with hsub | hnew
    · exact hnodup.sublist (hsub.append hserved)
    · -- Who connects has a number nobody has had.
      refine List.Nodup.sublist (List.Sublist.append (List.Sublist.refl _) hserved) ?_
      rw [hnew, List.append_assoc, List.singleton_append]
      refine List.perm_middle.nodup_iff.mpr (List.nodup_cons.mpr ⟨fun hmem => ?_, hnodup⟩)
      exact (h.core.known _ hmem).false
  · rw [hclient]
    rw [hnone, hbacklog, Option.toList_none, List.append_nil] at hnodup
    exact (List.perm_append_singleton client s'.backlog).nodup_iff.mpr hnodup

/-! ## One client after another -/

/-- The commands of a client stand together. -/
def Blocks (clients : List Nat) : Prop :=
  ∀ before i between later, clients = before ++ i :: between ++ i :: later →
    ∀ j ∈ between, j = i

/-- The commands of the client that is served stand at the end. -/
def AtEnd (clients : List Nat) (i : Nat) : Prop :=
  ∃ earlier n, clients = earlier ++ List.replicate n i ∧ i ∉ earlier

theorem AtEnd.concat {clients : List Nat} {i : Nat} (h : AtEnd clients i) :
    AtEnd (clients ++ [i]) i := by
  obtain ⟨earlier, n, rfl, hnot⟩ := h
  exact ⟨earlier, n + 1, by rw [List.append_assoc, List.replicate_succ'], hnot⟩

theorem Blocks.concat {clients : List Nat} {i : Nat} (h : Blocks clients) (hend : AtEnd clients i) :
    Blocks (clients ++ [i]) := by
  intro before k between later hsplit j hj
  rcases List.eq_nil_or_concat later with rfl | ⟨later, last, rfl⟩
  · -- The second of the two is the new one.
    have hsplit' : clients ++ [i] = (before ++ k :: between) ++ [k] := by simpa using hsplit
    obtain ⟨hclients, rfl⟩ := List.append_singleton_inj.mp hsplit'
    obtain ⟨earlier, n, hclients', hnot⟩ := hend
    have hmem : ∀ x ∈ between, x = i := by
      have hwhole := hclients.symm.trans hclients'
      rcases List.append_eq_append_iff.mp hwhole with ⟨front, hearlier, hrest⟩ | ⟨front, -, hrest⟩
      · -- The first of the two would stand before the block.
        cases front with
        | nil =>
            intro x hx
            rw [List.nil_append] at hrest
            exact List.eq_of_mem_replicate (hrest ▸ List.mem_cons_of_mem _ hx)
        | cons first front =>
            obtain ⟨rfl, -⟩ := List.cons.inj hrest
            exact absurd (hearlier ▸ List.mem_append_right _ List.mem_cons_self) hnot
      · intro x hx
        refine List.eq_of_mem_replicate (n := n) (hrest ▸ ?_)
        exact List.mem_append_right _ (List.mem_cons_of_mem _ hx)
    exact hmem j hj
  · rw [List.concat_eq_append] at hsplit
    have hsplit' : clients ++ [i] = (before ++ k :: between ++ k :: later) ++ [last] := by
      simpa using hsplit
    exact h before k between later (List.append_singleton_inj.mp hsplit').1 j hj

structure Served (s : State) (clients : List Nat) : Prop where
  blocks : Blocks clients
  atEnd : ∀ i, s.worker.client = some i → AtEnd clients i
  waiting : ∀ i ∈ s.backlog, i ∉ clients
  known : ∀ i ∈ clients, i < s.peers.length

theorem length_moves {s s' : State} {e : Event} (h : State.Moves s e s') :
    s.peers.length ≤ s'.peers.length := by
  cases h with
  | connect => simp
  | send => simp
  | drain => simp
  | close => simp
  | start binds =>
      rw [State.start]
      split_ifs <;> exact le_rfl
  | stop =>
      rw [State.stop]
      split_ifs <;> exact le_rfl
  | read hworker hread => cases State.reads_of_read hread <;> simp
  | write hworker hwrite => cases State.writes_of_write hwrite <;> simp
  | _ => exact le_rfl

/-- A command is handled for the client that is served. -/
theorem client_of_handled {s : State} {e : Event} {h : Handled} (hhandled : s.handled e = some h) :
    s.worker.client = some h.client := by
  cases e with
  | read snapshot throws =>
      obtain ⟨r, hr, rfl⟩ := Option.map_eq_some_iff.mp hhandled
      rw [State.commandRead] at hr
      split at hr
      next client hworker =>
        rw [hworker]
        split at hr
        next =>
          split at hr
          · cases hr
          · obtain rfl := Option.some.inj hr
            rfl
        next => cases hr
      next => cases hr
  | _ => cases hhandled

theorem Served.moves {s s' : State} {clients : List Nat} (h : Served s clients) (hqueue : Queue s)
    {e : Event} (hmoves : State.Moves s e s') :
    Served s' (clients ++ (s.handled e).toList.map (·.client)) := by
  have hlength := length_moves hmoves
  cases hhandled : s.handled e with
  | none =>
      rw [Option.toList_none, List.map_nil, List.append_nil]
      rcases served_moves hmoves with ⟨hclient, hbacklog⟩ | ⟨client, -, hbacklog, hclient⟩
      · refine ⟨h.blocks, fun i hi => ?_, fun i hi => ?_,
          fun i hi => (h.known i hi).trans_le hlength⟩
        · rcases hclient with hsame | hnone
          · exact h.atEnd i (hsame ▸ hi)
          · rw [hnone] at hi
            cases hi
        · rcases hbacklog with hsub | hnew
          · exact h.waiting i (hsub.subset hi)
          · rw [hnew] at hi
            rcases List.mem_append.mp hi with hwaits | hconnects
            · exact h.waiting i hwaits
            · exact fun hmem => (h.known i hmem).ne (List.mem_singleton.mp hconnects)
      · refine ⟨h.blocks, fun i hi => ?_,
          fun i hi => h.waiting i (hbacklog ▸ List.mem_cons_of_mem _ hi),
          fun i hi => (h.known i hi).trans_le hlength⟩
        obtain rfl := Option.some.inj (hclient.symm.trans hi)
        exact ⟨clients, 0, (List.append_nil _).symm,
          h.waiting client (hbacklog ▸ List.mem_cons_self)⟩
  | some handled =>
      have hserved := client_of_handled hhandled
      have hend := h.atEnd _ hserved
      rw [Option.toList_some, List.map_cons, List.map_nil]
      have hknown : handled.client < s.peers.length := hqueue.core.known _ (by simp [hserved])
      rcases served_moves hmoves with ⟨hclient, hbacklog⟩ | ⟨client, hnone, -⟩
      · refine ⟨h.blocks.concat hend, fun i hi => ?_, fun i hi hmem => ?_, fun i hi => ?_⟩
        · rcases hclient with hsame | hnone
          · obtain rfl := Option.some.inj (hserved.symm.trans (hsame ▸ hi))
            exact hend.concat
          · rw [hnone] at hi
            cases hi
        · rcases hbacklog with hsub | hnew
          · rcases List.mem_append.mp hmem with hearlier | hlast
            · exact h.waiting i (hsub.subset hi) hearlier
            · obtain rfl := List.mem_singleton.mp hlast
              exact hqueue.notMem hserved (hsub.subset hi)
          · rw [hnew] at hi
            have hlt : i < s.peers.length := by
              rcases List.mem_append.mp hmem with hearlier | hlast
              · exact h.known i hearlier
              · exact List.mem_singleton.mp hlast ▸ hknown
            rcases List.mem_append.mp hi with hwaits | hconnects
            · rcases List.mem_append.mp hmem with hearlier | hlast
              · exact h.waiting i hwaits hearlier
              · obtain rfl := List.mem_singleton.mp hlast
                exact hqueue.notMem hserved hwaits
            · exact hlt.ne (List.mem_singleton.mp hconnects)
        · rcases List.mem_append.mp hi with hearlier | hlast
          · exact (h.known i hearlier).trans_le hlength
          · exact List.mem_singleton.mp hlast ▸ hknown.trans_le hlength
      · rw [hserved] at hnone
        cases hnone

/-! ## Runs -/

theorem commandRead_of_not_reading {s : State} (h : ∀ client, s.worker ≠ .reading client) :
    s.commandRead = none := by
  rw [State.commandRead]
  split
  next client hreading => exact absurd hreading (h client)
  next => rfl

/-- An event that cannot happen tells nothing. -/
theorem quiet_of_next {s : State} {e : Event} (h : s.next e = none) (i : Nat) :
    s.handled e = none ∧ s.written i e = [] ∧ s.sentWith i e = [] := by
  cases e with
  | read snapshot throws =>
      refine ⟨?_, rfl, rfl⟩
      have hnone : s.commandRead = none := by
        rw [State.next] at h
        split at h
        next client hworker => rw [commandRead_reading hworker, (State.read_eq_none.mp h).1]; rfl
        next hworker => exact commandRead_of_not_reading hworker
      rw [State.handled, hnone]
      rfl
  | write =>
      refine ⟨rfl, ?_, rfl⟩
      rw [State.written]
      split
      next client rest keepOpen hworker =>
        have hnone : s.write client rest keepOpen = none := by
          simpa only [State.next, hworker] using h
        obtain ⟨-, hroom, -⟩ := State.write_eq_none.mp hnone
        split
        next hself => rw [← hself.1, hroom, List.take_zero]
        next => rfl
      next => rfl
  | send client bytes => cases h
  | _ => exact ⟨rfl, rfl, rfl⟩

theorem Queue.step {s : State} (h : Queue s) (e : Event) : Queue (s.step e) := by
  obtain ⟨-, hsame⟩ | hmoves := s.step_cases e
  · rwa [hsame]
  · exact h.moves hmoves

theorem ClientInv.step {s : State} {i : Nat} {handled : List Handled} {written sent : Text}
    (h : ClientInv s i handled written sent) (hqueue : Queue s) (e : Event) :
    ClientInv (s.step e) i (handled ++ (s.handled e).toList.filter (·.client = i))
      (written ++ s.written i e) (sent ++ s.sentWith i e) := by
  obtain ⟨hnext, hsame⟩ | hmoves := s.step_cases e
  · obtain ⟨hhandled, hwritten, hsent⟩ := quiet_of_next hnext i
    rw [hsame, hhandled, hwritten, hsent, List.append_nil, List.append_nil]
    simpa using h
  · exact h.moves hqueue hmoves

theorem Served.step {s : State} {clients : List Nat} (h : Served s clients) (hqueue : Queue s)
    (e : Event) : Served (s.step e) (clients ++ (s.handled e).toList.map (·.client)) := by
  obtain ⟨hnext, hsame⟩ | hmoves := s.step_cases e
  · rw [hsame, (quiet_of_next hnext 0).1]
    simpa using h
  · exact h.moves hqueue hmoves

namespace Service

variable {s : Service} {run : List ServiceEvent}

theorem after_concat (s : Service) (run : List ServiceEvent) (e : ServiceEvent) :
    s.after (run ++ [e]) = (s.after run).step e := List.foldl_append

theorem trace_concat (s : Service) (run : List ServiceEvent) (e : ServiceEvent) :
    s.trace (run ++ [e]) = s.trace run ++ [(s.after run, e)] := by
  induction run generalizing s with
  | nil => rfl
  | cons first run ih => exact congrArg ((s, first) :: ·) (ih _)

theorem allHandled_concat (s : Service) (run : List ServiceEvent) (e : ServiceEvent) :
    s.allHandled (run ++ [e]) = s.allHandled run ++ ((s.after run).handled e).toList := by
  rw [allHandled, trace_concat, List.filterMap_append]
  cases h : (s.after run).handled e <;> simp [h, allHandled]

theorem writtenTo_concat (s : Service) (run : List ServiceEvent) (e : ServiceEvent) (i : Nat) :
    s.writtenTo (run ++ [e]) i = s.writtenTo run i ++ (s.after run).written i e := by
  rw [writtenTo, trace_concat, List.flatMap_append, List.flatMap_singleton]
  rfl

theorem sentBy_concat (s : Service) (run : List ServiceEvent) (e : ServiceEvent) (i : Nat) :
    s.sentBy (run ++ [e]) i = s.sentBy run i ++ (s.after run).sentWith i e := by
  rw [sentBy, trace_concat, List.flatMap_append, List.flatMap_singleton]
  rfl

/-- What holds of all clients after a run. -/
structure Inv (s : Service) (run : List ServiceEvent) : Prop where
  queue : Queue (s.after run).net
  served : Served (s.after run).net ((s.allHandled run).map (·.client))
  client : ∀ i, ClientInv (s.after run).net i (s.handledOf run i) (s.writtenTo run i)
    (s.sentBy run i)

/-- An event beside the connections. -/
theorem Inv.quiet (h : Inv s run) {e : ServiceEvent}
    (hnet : ((s.after run).step e).net = (s.after run).net)
    (hhandled : (s.after run).handled e = none)
    (hwritten : ∀ i, (s.after run).written i e = [])
    (hsent : ∀ i, (s.after run).sentWith i e = []) : Inv s (run ++ [e]) := by
  have hall : s.allHandled (run ++ [e]) = s.allHandled run := by
    rw [allHandled_concat, hhandled]
    exact List.append_nil _
  refine ⟨?_, ?_, fun i => ?_⟩
  · rw [after_concat, hnet]
    exact h.queue
  · rw [after_concat, hnet, hall]
    exact h.served
  · rw [after_concat, hnet, handledOf, hall, writtenTo_concat, sentBy_concat, hwritten, hsent,
      List.append_nil, List.append_nil]
    exact h.client i

theorem Inv.step (h : Inv s run) (e : ServiceEvent) : Inv s (run ++ [e]) := by
  cases e with
  | net e =>
      have hnet : (s.after (run ++ [.net e])).net =
          (s.after run).net.step ((s.after run).seen e) := by
        rw [after_concat]
        rfl
      refine ⟨?_, ?_, fun i => ?_⟩
      · rw [hnet]
        exact h.queue.step _
      · rw [hnet, allHandled_concat, List.map_append]
        exact h.served.step h.queue _
      · have hstep := (h.client i).step h.queue ((s.after run).seen e)
        rw [hnet, handledOf, allHandled_concat, List.filter_append, writtenTo_concat, sentBy_concat]
        exact hstep
  | model op => exact h.quiet rfl rfl (fun _ => rfl) fun _ => rfl
  | stored products => exact h.quiet rfl rfl (fun _ => rfl) fun _ => rfl

theorem inv_after (production : SimulatedModel) (products : List (Export.Product (BitVec 32)))
    (run : List ServiceEvent) : Inv (fresh production products) run := by
  induction run using List.reverseRecOn with
  | nil =>
      refine ⟨⟨⟨fun _ _ => rfl, fun h => absurd rfl h, nofun, rfl, nofun⟩, List.nodup_nil⟩,
        ⟨?_, ?_, ?_, ?_⟩, fun i => ?_⟩
      · intro before i between later h
        exact absurd h (by simp [allHandled, trace])
      · exact fun i hi => nomatch hi
      · exact fun i hi => absurd hi List.not_mem_nil
      · exact fun i hi => absurd hi List.not_mem_nil
      · exact ⟨⟨[], by simp, rfl, rfl⟩, fun _ => ⟨rfl, rfl, rfl⟩, fun _ => rfl, by simp [handledOf,
          allHandled, trace], fun _ => ⟨rfl, by simp [handledOf, allHandled, trace]⟩,
          List.prefix_rfl, fun _ _ hw => (by cases hw), fun _ _ => rfl⟩
  | append_singleton run e ih => exact ih.step e

end Service

/-! ## What a command calls -/

theorem parseId_lt {t : Text} {id : Nat} (h : parseId t = some id) : id < 2 ^ 32 := by
  rw [parseId] at h
  split at h
  next => cases h
  next =>
    dsimp only at h
    split at h
    next hlt => exact Option.some.inj h ▸ hlt
    next => cases h

theorem modelCalls_vocabulary {line : Text} {op : Op} (h : op ∈ modelCalls line) :
    op = .startProduction ∨ op = .stopProduction ∨ op = .resetSystem ∨
      ∃ id < 2 ^ 32, ∃ enabled, op = .setEquipmentEnabled id enabled := by
  rw [modelCalls] at h
  split at h
  next => cases h
  next cmd args =>
    split at h
    next =>
      unfold callsEq at h
      split at h
      next id state =>
        split at h
        next => cases h
        next id hid =>
          have hlt := parseId_lt hid
          split_ifs at h with hon hoff
          · exact .inr (.inr (.inr ⟨id, hlt, true, List.mem_singleton.mp h⟩))
          · exact .inr (.inr (.inr ⟨id, hlt, false, List.mem_singleton.mp h⟩))
          · cases h
      next => cases h
    next =>
      split at h
      next =>
        unfold callsProduction at h
        split at h
        next verb =>
          split_ifs at h
          · exact .inl (List.mem_singleton.mp h)
          · exact .inr (.inl (List.mem_singleton.mp h))
          · exact .inr (.inr (.inl (List.mem_singleton.mp h)))
          · cases h
        next => cases h
      next => cases h

/-! ## The law holds -/

theorem clientLaw_of_inv {s : Service} {run : List ServiceEvent} (h : Service.Inv s run) (i : Nat) :
    ClientLaw s run i := by
  have hclient := h.client i
  refine ⟨?_, hclient.last, hclient.inOrder, fun rest keepOpen hworker =>
    (hclient.writing rest keepOpen hworker).1, hclient.whole⟩
  obtain ⟨ls, hls, hlines, hcommands⟩ := hclient.lines
  rw [hlines, commandsOf_append hls, hcommands]

theorem oneByOne_of_blocks {handled : List Handled} (h : Blocks (handled.map (·.client)))
    {before between later : List Handled} {a b : Handled}
    (hsplit : handled = before ++ a :: between ++ b :: later) (hsame : a.client = b.client) :
    ∀ g ∈ between, g.client = a.client := by
  intro g hg
  refine h (before.map (·.client)) a.client (between.map (·.client)) (later.map (·.client)) ?_
    g.client (List.mem_map_of_mem hg)
  rw [hsplit, List.map_append, List.map_append, List.map_cons, List.map_cons, hsame]

/-- Every run obeys the law. -/
theorem service_law (production : SimulatedModel) (products : List (Export.Product (BitVec 32)))
    (run : List ServiceEvent) : ServiceLaw (fresh production products) run where
  clients := clientLaw_of_inv (Service.inv_after production products run)
  oneByOne := fun _ _ _ _ _ hsplit hsame =>
    oneByOne_of_blocks (Service.inv_after production products run).served.blocks hsplit hsame
  vocabulary := fun _ _ _ hop => modelCalls_vocabulary hop

end Tcp
