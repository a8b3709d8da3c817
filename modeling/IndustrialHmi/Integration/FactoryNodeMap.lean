import Mathlib.Data.List.Induction
import IndustrialHmi.Model.SimulatedModel
import IndustrialHmi.Theory.Numerals
import IndustrialHmi.Theory.Since

/-!
# The address space of the factory

`OpcUaServer` is its documented surface: a node is added under a parent that exists and only
once, and a value is written to a variable of its type.  A top-level node stands under the folder
`Objects`.  `FactoryNodeMap` adds the fixed nodes first and those of a line or of a checkpoint
when it first publishes one of its changes.

A node under a name that the map uses has one type wherever it stands, so what was added first
does not matter (`WellNamed`).
-/

namespace OpcUa

open Production

/-! ## The server -/

inductive Kind where
  | int32
  | float
  | bool
  | string
  deriving DecidableEq

inductive Value where
  | int32 (v : ℤ)
  | float (v : Binary32)
  | bool (v : Bool)
  | string (v : String)

def Value.kind : Value → Kind
  | int32 _ => .int32
  | float _ => .float
  | bool _ => .bool
  | string _ => .string

inductive Node where
  | object
  | method
  | var (v : Value)

/-- The type of a variable. -/
def Node.kind? : Node → Option Kind
  | var v => some v.kind
  | _ => none

def splitParentLeaf (browsePath : Text) : Text × Text :=
  (((browsePath.reverse.dropWhile fun b => b ≠ 47).drop 1).reverse,
    (browsePath.reverse.takeWhile fun b => b ≠ 47).reverse)

/-- The nodes by their browse paths, and the values that were written, oldest first. -/
structure Server where
  nodes : Text → Option Node := fun _ => none
  written : List (Text × Value) := []

namespace Server

def set (s : Server) (path : Text) (node : Node) : Server :=
  { s with nodes := fun p => if p = path then some node else s.nodes p }

/-- Rejected on a duplicate or a missing parent. -/
def add (s : Server) (path : Text) (node : Node) : Server :=
  let parent := (splitParentLeaf path).1
  if (s.nodes path).isSome ∨ ¬ (parent = [] ∨ (s.nodes parent).isSome) then s
  else s.set path node

/-- Adds nodes one after the other. -/
def addAll (s : Server) (nodes : List (Text × Node)) : Server :=
  nodes.foldl (fun s added => s.add added.1 added.2) s

/-- Rejected when there is no variable of the type. -/
def write (s : Server) (path : Text) (v : Value) : Server :=
  if (s.nodes path).bind Node.kind? = some v.kind then
    { s.set path (.var v) with written := s.written ++ [(path, v)] }
  else s

end Server

/-! ## The node map -/

def kRoot : Text := ascii "Factory"
def kEquipmentRoot : Text := ascii "Factory/EquipmentLines"
def kCheckpointRoot : Text := ascii "Factory/QualityCheckpoints"
def kWorkUnitRoot : Text := ascii "Factory/WorkUnit"

def equipmentBase (id : Nat) : Text := kEquipmentRoot ++ ascii "/Line" ++ ascii (toString id)

def equipmentPath (id : Nat) (leaf : Text) : Text := equipmentBase id ++ ascii "/" ++ leaf

def checkpointBase (id : Nat) : Text :=
  kCheckpointRoot ++ ascii "/Checkpoint" ++ ascii (toString id)

def checkpointPath (id : Nat) (leaf : Text) : Text := checkpointBase id ++ ascii "/" ++ leaf

def workUnitPath (leaf : Text) : Text := kWorkUnitRoot ++ ascii "/" ++ leaf

namespace FactoryNodeMap

def kEquipmentCount : Nat := 3

def ensureEquipmentSubtree (id : Nat) (s : Server) : Server :=
  let base := equipmentBase id
  s.addAll
    [(base, .object),
      (base ++ ascii "/Status", .var (.int32 0)),
      (base ++ ascii "/SupplyLevel", .var (.int32 0)),
      (base ++ ascii "/Message", .var (.string ""))]

def ensureCheckpointSubtree (id : Nat) (s : Server) : Server :=
  let base := checkpointBase id
  s.addAll
    [(base, .object),
      (base ++ ascii "/Name", .var (.string "")),
      (base ++ ascii "/Status", .var (.int32 0)),
      (base ++ ascii "/PassRate", .var (.float (.fin 100))),
      (base ++ ascii "/UnitsInspected", .var (.int32 0)),
      (base ++ ascii "/DefectsFound", .var (.int32 0))]

def commandNodes : List (Text × Node) :=
  [(ascii "Factory/Commands", .object),
    (ascii "Factory/Commands/StartProduction", .method),
    (ascii "Factory/Commands/StopProduction", .method),
    (ascii "Factory/Commands/ResetSystem", .method),
    (ascii "Factory/Commands/StartCalibration", .method)]

/-- The methods and the writable variable of each line. -/
def registerCommandSurface (s : Server) : Server :=
  (List.range kEquipmentCount).foldl (fun s id =>
    s.addAll
      [(equipmentBase id, .object),
        (equipmentBase id ++ ascii "/Enabled", .var (.bool true))]) (s.addAll commandNodes)

def fixedNodes : List (Text × Node) :=
  [(kRoot, .object),
    (ascii "Factory/State", .var (.int32 0)),
    (kEquipmentRoot, .object),
    (kCheckpointRoot, .object),
    (kWorkUnitRoot, .object),
    (workUnitPath (ascii "Id"), .var (.string "")),
    (workUnitPath (ascii "ProductId"), .var (.string "")),
    (workUnitPath (ascii "CompletedOperations"), .var (.int32 0)),
    (workUnitPath (ascii "TotalOperations"), .var (.int32 0))]

/-- `sink` says whether the map has a command sink. -/
def registerNodes (sink : Bool) (s : Server) : Server :=
  let s := s.addAll fixedNodes
  if sink then registerCommandSurface s else s

/-- The number of an enumerator. -/
def stateCode : SystemState → ℤ
  | .IDLE => 0
  | .RUNNING => 1
  | .ERROR => 2
  | .CALIBRATION => 3

/-- What the model reports to the map. -/
inductive Change where
  | systemState (state : SystemState)
  | equipmentStatus (s : EquipmentStatus)
  | qualityCheckpoint (q : QualityCheckpoint)
  | workUnit (wu : WorkUnit)

/-- The callbacks that `wire` registers. -/
def publish (server : Server) : Change → Server
  | .systemState state => server.write (ascii "Factory/State") (.int32 (stateCode state))
  | .equipmentStatus s =>
      let server := ensureEquipmentSubtree s.equipmentId server
      let server := server.write (equipmentPath s.equipmentId (ascii "Status")) (.int32 s.status)
      let server := server.write (equipmentPath s.equipmentId (ascii "SupplyLevel"))
        (.int32 s.supplyLevel)
      server.write (equipmentPath s.equipmentId (ascii "Message")) (.string s.message)
  | .qualityCheckpoint q =>
      let server := ensureCheckpointSubtree q.checkpointId server
      let server := server.write (checkpointPath q.checkpointId (ascii "Name")) (.string q.name)
      let server := server.write (checkpointPath q.checkpointId (ascii "Status")) (.int32 q.status)
      let server := server.write (checkpointPath q.checkpointId (ascii "PassRate"))
        (.float q.passRate)
      let server := server.write (checkpointPath q.checkpointId (ascii "UnitsInspected"))
        (.int32 q.unitsInspected)
      server.write (checkpointPath q.checkpointId (ascii "DefectsFound")) (.int32 q.defectsFound)
  | .workUnit wu =>
      let server := server.write (workUnitPath (ascii "Id")) (.string wu.workUnitId)
      let server := server.write (workUnitPath (ascii "ProductId")) (.string wu.productId)
      let server := server.write (workUnitPath (ascii "CompletedOperations"))
        (.int32 wu.completedOperations)
      server.write (workUnitPath (ascii "TotalOperations")) (.int32 wu.totalOperations)

/-- The server of a map with its nodes registered, after changes. -/
def after (sink : Bool) (run : List Change) : Server := run.foldl publish (registerNodes sink {})

end FactoryNodeMap

/-! ## Paths -/

theorem split_slash (base : Text) {leaf : Text} (h : (47 : UInt8) ∉ leaf) :
    splitParentLeaf (base ++ ascii "/" ++ leaf) = (base, leaf) := by
  have hleaf : ∀ b ∈ leaf.reverse, decide (b ≠ 47) = true := fun b hb =>
    decide_eq_true fun hslash => h (hslash ▸ List.mem_reverse.mp hb)
  have hreverse : (base ++ ascii "/" ++ leaf).reverse = leaf.reverse ++ 47 :: base.reverse := by
    rw [List.reverse_append, List.reverse_append, List.append_cancel_left_eq]
    rfl
  rw [splitParentLeaf, hreverse, List.dropWhile_append_of_pos hleaf,
    List.takeWhile_append_of_pos hleaf]
  simp

theorem equipmentBase_inj {id id' : Nat} (h : equipmentBase id = equipmentBase id') : id = id' :=
  Numeral.nat_injective (List.append_cancel_left h)

theorem checkpointBase_inj {id id' : Nat} (h : checkpointBase id = checkpointBase id') :
    id = id' :=
  Numeral.nat_injective (List.append_cancel_left h)

/-- The ninth character tells lines and checkpoints apart. -/
theorem equipmentBase_ne_checkpointBase (id id' : Nat) : equipmentBase id ≠ checkpointBase id' := by
  intro h
  have hline : (equipmentBase id)[8]? = some 69 := rfl
  have hcheckpoint : (checkpointBase id')[8]? = some 81 := rfl
  rw [h, hcheckpoint] at hline
  exact absurd hline (by decide)

theorem digit_ne_slash (id : Nat) : (47 : UInt8) ∉ ascii (toString id) := by
  intro h
  exact absurd (Numeral.nat_digits id 47 h) (by decide)

/-- The path of a node that is named by a word and a number. -/
theorem split_numbered (root : Text) {name : Text} (hname : (47 : UInt8) ∉ name) (id : Nat) :
    splitParentLeaf (root ++ (ascii "/" ++ name) ++ ascii (toString id)) =
      (root, name ++ ascii (toString id)) := by
  have hleaf : (47 : UInt8) ∉ name ++ ascii (toString id) := by
    rw [List.mem_append, not_or]
    exact ⟨hname, digit_ne_slash id⟩
  rw [← split_slash root hleaf]
  simp only [List.append_assoc]

theorem split_equipmentBase (id : Nat) :
    splitParentLeaf (equipmentBase id) = (kEquipmentRoot, ascii "Line" ++ ascii (toString id)) :=
  split_numbered kEquipmentRoot (by decide) id

theorem split_checkpointBase (id : Nat) :
    splitParentLeaf (checkpointBase id) =
      (kCheckpointRoot, ascii "Checkpoint" ++ ascii (toString id)) :=
  split_numbered kCheckpointRoot (by decide) id

theorem equipmentPath_inj {id id' : Nat} {leaf leaf' : Text} (h : (47 : UInt8) ∉ leaf)
    (h' : (47 : UInt8) ∉ leaf') (heq : equipmentPath id leaf = equipmentPath id' leaf') :
    id = id' ∧ leaf = leaf' := by
  have hsplit := congrArg splitParentLeaf heq
  rw [equipmentPath, equipmentPath, split_slash _ h, split_slash _ h', Prod.mk.injEq] at hsplit
  exact ⟨equipmentBase_inj hsplit.1, hsplit.2⟩

theorem checkpointPath_inj {id id' : Nat} {leaf leaf' : Text} (h : (47 : UInt8) ∉ leaf)
    (h' : (47 : UInt8) ∉ leaf') (heq : checkpointPath id leaf = checkpointPath id' leaf') :
    id = id' ∧ leaf = leaf' := by
  have hsplit := congrArg splitParentLeaf heq
  rw [checkpointPath, checkpointPath, split_slash _ h, split_slash _ h', Prod.mk.injEq] at hsplit
  exact ⟨checkpointBase_inj hsplit.1, hsplit.2⟩

theorem equipmentPath_ne_checkpointPath {leaf leaf' : Text} (h : (47 : UInt8) ∉ leaf)
    (h' : (47 : UInt8) ∉ leaf') (id id' : Nat) :
    equipmentPath id leaf ≠ checkpointPath id' leaf' := by
  intro heq
  have hsplit := congrArg splitParentLeaf heq
  rw [equipmentPath, checkpointPath, split_slash _ h, split_slash _ h'] at hsplit
  exact equipmentBase_ne_checkpointBase id id' (congrArg Prod.fst hsplit)

/-! ## Nodes stay -/

namespace Server

variable {s : Server} {path other : Text} {node : Node} {v : Value}

def Exists (s : Server) (path : Text) : Prop := (s.nodes path).isSome

instance (s : Server) (path : Text) : Decidable (s.Exists path) :=
  inferInstanceAs (Decidable ((s.nodes path).isSome = true))

theorem nodes_set (p : Text) :
    (s.set path node).nodes p = if p = path then some node else s.nodes p := rfl

theorem exists_set (h : s.Exists path) : (s.set other node).Exists path := by
  rw [Exists, nodes_set]
  split
  · rfl
  · exact h

theorem exists_set_self : (s.set path node).Exists path := by
  rw [Exists, nodes_set, if_pos rfl]
  rfl

theorem exists_add (h : s.Exists path) : (s.add other node).Exists path := by
  rw [add]
  split
  · exact h
  · exact exists_set h

theorem exists_write (h : s.Exists path) : (s.write other v).Exists path := by
  rw [write]
  split
  · exact exists_set h
  · exact h

theorem exists_addAll (h : s.Exists path) (nodes : List (Text × Node)) :
    (s.addAll nodes).Exists path := by
  induction nodes generalizing s with
  | nil => exact h
  | cons added nodes ih => exact ih (exists_add h)

/-- Under a parent that is there, a node is there after it was added. -/
theorem exists_add_self (h : (splitParentLeaf path).1 = [] ∨ s.Exists (splitParentLeaf path).1) :
    (s.add path node).Exists path := by
  rw [add]
  split
  next hrejected =>
    rcases hrejected with hduplicate | hmissing
    · exact hduplicate
    · exact absurd h hmissing
  next => exact exists_set_self

end Server

/-! ## Names and types -/

/-- What the name at the end of a path says about a node, for those names that the ingest bridge
asks for. -/
structure Fits (published : Nat → Prop) (path : Text) (kind? : Option Kind) : Prop where
  status : (splitParentLeaf path).2 = ascii "Status" → kind? = some .int32
  passRate : (splitParentLeaf path).2 = ascii "PassRate" →
    kind? = some .float ∧ ∃ id, published id ∧ path = checkpointPath id (ascii "PassRate")
  supply : (splitParentLeaf path).2 ≠ ascii "Supply"

/-- Every node is one that its name allows, where `published` are the checkpoints of which a
change has been published. -/
def WellNamed (published : Nat → Prop) (s : Server) : Prop :=
  ∀ path node, s.nodes path = some node → Fits published path node.kind?

section WellNamed

variable {published published' : Nat → Prop} {s : Server} {path : Text}

theorem WellNamed.mono (h : WellNamed published s) (hle : ∀ id, published id → published' id) :
    WellNamed published' s := by
  intro path node hnode
  obtain ⟨hstatus, hpassRate, hsupply⟩ := h path node hnode
  refine ⟨hstatus, fun hleaf => ?_, hsupply⟩
  obtain ⟨hkind, id, hid, hpath⟩ := hpassRate hleaf
  exact ⟨hkind, id, hle id hid, hpath⟩

theorem WellNamed.set (h : WellNamed published s) {node : Node}
    (hfits : Fits published path node.kind?) : WellNamed published (s.set path node) := by
  intro path' node' hnode
  rw [Server.nodes_set] at hnode
  split at hnode
  next hpath =>
    obtain rfl := Option.some.inj hnode
    exact hpath ▸ hfits
  next => exact h path' node' hnode

theorem WellNamed.add (h : WellNamed published s) {node : Node}
    (hfits : Fits published path node.kind?) : WellNamed published (s.add path node) := by
  rw [Server.add]
  split
  · exact h
  · exact h.set hfits

theorem WellNamed.write (h : WellNamed published s) (v : Value) :
    WellNamed published (s.write path v) := by
  rw [Server.write]
  split
  next haccepted =>
    obtain ⟨node, hnode, hkind⟩ := Option.bind_eq_some_iff.mp haccepted
    have hfits := h path node hnode
    rw [hkind] at hfits
    exact h.set (show Fits published path (Node.var v).kind? from hfits)
  next => exact h

/-- A name that the ingest bridge does not ask for. -/
def Unasked (leaf : Text) : Prop :=
  leaf ≠ ascii "Status" ∧ leaf ≠ ascii "PassRate" ∧ leaf ≠ ascii "Supply"

instance (leaf : Text) : Decidable (Unasked leaf) := inferInstanceAs (Decidable (_ ∧ _ ∧ _))

theorem fits_of_unasked {kind? : Option Kind} (h : Unasked (splitParentLeaf path).2) :
    Fits published path kind? :=
  ⟨fun hleaf => absurd hleaf h.1, fun hleaf => absurd hleaf h.2.1, h.2.2⟩

theorem WellNamed.addAll (h : WellNamed published s) {nodes : List (Text × Node)}
    (hfits : ∀ added ∈ nodes, Fits published added.1 added.2.kind?) :
    WellNamed published (s.addAll nodes) := by
  induction nodes generalizing s with
  | nil => exact h
  | cons added nodes ih =>
      obtain ⟨hfirst, hrest⟩ := List.forall_mem_cons.mp hfits
      exact ih (h.add hfirst) hrest

theorem split_named (base name : Text) (h : (47 : UInt8) ∉ name) :
    splitParentLeaf (base ++ (ascii "/" ++ name)) = (base, name) := by
  rw [← List.append_assoc, split_slash base h]

/-- A node with a name that the ingest bridge does not ask for. -/
theorem fits_named (base name : Text) (hname : (47 : UInt8) ∉ name) (hunasked : Unasked name)
    (kind? : Option Kind) : Fits published (base ++ (ascii "/" ++ name)) kind? := by
  refine fits_of_unasked ?_
  rw [split_named base name hname]
  exact hunasked

theorem split_status (base : Text) :
    splitParentLeaf (base ++ ascii "/Status") = (base, ascii "Status") :=
  split_named base (ascii "Status") (by decide)

theorem split_passRate (base : Text) :
    splitParentLeaf (base ++ ascii "/PassRate") = (base, ascii "PassRate") :=
  split_named base (ascii "PassRate") (by decide)

theorem fits_status (base : Text) : Fits published (base ++ ascii "/Status") (some .int32) := by
  refine ⟨fun _ => rfl, fun hleaf => ?_, ?_⟩
  · rw [split_status] at hleaf
    exact absurd (show ascii "Status" = ascii "PassRate" from hleaf) (by decide)
  · rw [split_status]
    exact show ascii "Status" ≠ ascii "Supply" by decide

theorem fits_passRate {id : Nat} (hid : published id) :
    Fits published (checkpointBase id ++ ascii "/PassRate") (some .float) := by
  refine ⟨fun hleaf => ?_, fun _ => ⟨rfl, id, hid, ?_⟩, ?_⟩
  · rw [split_passRate] at hleaf
    exact absurd (show ascii "PassRate" = ascii "Status" from hleaf) (by decide)
  · rw [checkpointPath, List.append_assoc]
    rfl
  · rw [split_passRate]
    exact show ascii "PassRate" ≠ ascii "Supply" by decide

theorem unasked_numbered {name : Text} (id : Nat) (h : name.head? ≠ some 83 ∧ name.head? ≠ some 80)
    (hne : name ≠ []) : Unasked (name ++ ascii (toString id)) := by
  have hhead : (name ++ ascii (toString id)).head? = name.head? := by
    cases name with
    | nil => exact absurd rfl hne
    | cons b rest => rfl
  refine ⟨fun heq => ?_, fun heq => ?_, fun heq => ?_⟩
  · rw [heq] at hhead
    exact h.1 hhead.symm
  · rw [heq] at hhead
    exact h.2 hhead.symm
  · rw [heq] at hhead
    exact h.1 hhead.symm

theorem fits_equipmentBase (id : Nat) (kind? : Option Kind) :
    Fits published (equipmentBase id) kind? := by
  refine fits_of_unasked ?_
  rw [split_equipmentBase]
  exact unasked_numbered id (by decide) (by decide)

theorem fits_checkpointBase (id : Nat) (kind? : Option Kind) :
    Fits published (checkpointBase id) kind? := by
  refine fits_of_unasked ?_
  rw [split_checkpointBase]
  exact unasked_numbered id (by decide) (by decide)

/-! ### The map keeps to the names -/

theorem WellNamed.ensureEquipmentSubtree (h : WellNamed published s) (id : Nat) :
    WellNamed published (FactoryNodeMap.ensureEquipmentSubtree id s) := by
  refine h.addAll (List.forall_mem_cons.mpr ⟨fits_equipmentBase id _, ?_⟩)
  refine List.forall_mem_cons.mpr ⟨fits_status _, ?_⟩
  refine List.forall_mem_cons.mpr ⟨fits_named _ (ascii "SupplyLevel") (by decide) (by decide) _, ?_⟩
  exact List.forall_mem_singleton.mpr (fits_named _ (ascii "Message") (by decide) (by decide) _)

theorem WellNamed.ensureCheckpointSubtree (h : WellNamed published s) {id : Nat}
    (hid : published id) : WellNamed published (FactoryNodeMap.ensureCheckpointSubtree id s) := by
  refine h.addAll (List.forall_mem_cons.mpr ⟨fits_checkpointBase id _, ?_⟩)
  refine List.forall_mem_cons.mpr ⟨fits_named _ (ascii "Name") (by decide) (by decide) _, ?_⟩
  refine List.forall_mem_cons.mpr ⟨fits_status _, ?_⟩
  refine List.forall_mem_cons.mpr ⟨fits_passRate hid, ?_⟩
  refine List.forall_mem_cons.mpr
    ⟨fits_named _ (ascii "UnitsInspected") (by decide) (by decide) _, ?_⟩
  exact List.forall_mem_singleton.mpr
    (fits_named _ (ascii "DefectsFound") (by decide) (by decide) _)

theorem WellNamed.registerCommandSurface (h : WellNamed published s) :
    WellNamed published (FactoryNodeMap.registerCommandSurface s) := by
  have hunasked : ∀ added ∈ FactoryNodeMap.commandNodes, Unasked (splitParentLeaf added.1).2 := by
    decide
  have hmethods : WellNamed published (s.addAll FactoryNodeMap.commandNodes) :=
    h.addAll fun added hadded => fits_of_unasked (hunasked added hadded)
  rw [FactoryNodeMap.registerCommandSurface]
  induction List.range FactoryNodeMap.kEquipmentCount using List.reverseRecOn with
  | nil => exact hmethods
  | append_singleton ids id ih =>
      rw [List.foldl_concat]
      refine ih.addAll (List.forall_mem_cons.mpr ⟨fits_equipmentBase id _, ?_⟩)
      exact List.forall_mem_singleton.mpr (fits_named _ (ascii "Enabled") (by decide) (by decide) _)

theorem WellNamed.registerNodes (sink : Bool) :
    WellNamed published (FactoryNodeMap.registerNodes sink {}) := by
  have hempty : WellNamed published ({} : Server) := fun _ _ hnode => by cases hnode
  have hunasked : ∀ added ∈ FactoryNodeMap.fixedNodes, Unasked (splitParentLeaf added.1).2 := by
    decide
  have hfixed : WellNamed published (({} : Server).addAll FactoryNodeMap.fixedNodes) :=
    hempty.addAll fun added hadded => fits_of_unasked (hunasked added hadded)
  rw [FactoryNodeMap.registerNodes]
  split
  · exact hfixed.registerCommandSurface
  · exact hfixed

end WellNamed

/-! ## What the map has published -/

namespace FactoryNodeMap

variable {s : Server} {path : Text}

theorem exists_registerCommandSurface (h : s.Exists path) :
    (registerCommandSurface s).Exists path := by
  rw [registerCommandSurface]
  induction List.range kEquipmentCount using List.reverseRecOn with
  | nil => exact Server.exists_addAll h _
  | append_singleton ids id ih =>
      rw [List.foldl_concat]
      exact Server.exists_addAll ih _

theorem exists_registerNodes (sink : Bool)
    (h : (({} : Server).addAll fixedNodes).Exists path) : (registerNodes sink {}).Exists path := by
  rw [registerNodes]
  split
  · exact exists_registerCommandSurface h
  · exact h

theorem exists_ensureEquipmentSubtree (h : s.Exists path) (id : Nat) :
    (ensureEquipmentSubtree id s).Exists path := Server.exists_addAll h _

theorem exists_ensureCheckpointSubtree (h : s.Exists path) (id : Nat) :
    (ensureCheckpointSubtree id s).Exists path := Server.exists_addAll h _

theorem exists_publish (h : s.Exists path) (c : Change) : (publish s c).Exists path := by
  cases c with
  | systemState state =>
      simp only [publish]
      exact Server.exists_write h
  | equipmentStatus status =>
      simp only [publish]
      exact Server.exists_write (Server.exists_write (Server.exists_write
        (exists_ensureEquipmentSubtree h _)))
  | qualityCheckpoint q =>
      simp only [publish]
      exact Server.exists_write (Server.exists_write (Server.exists_write (Server.exists_write
        (Server.exists_write (exists_ensureCheckpointSubtree h _)))))
  | workUnit wu =>
      simp only [publish]
      exact Server.exists_write (Server.exists_write (Server.exists_write (Server.exists_write h)))

theorem exists_status (h : s.Exists kEquipmentRoot) (id : Nat) :
    (ensureEquipmentSubtree id s).Exists (equipmentPath id (ascii "Status")) := by
  have hbase : (s.add (equipmentBase id) .object).Exists (equipmentBase id) := by
    refine Server.exists_add_self (.inr ?_)
    rw [split_equipmentBase]
    exact h
  have hstatus : ((s.add (equipmentBase id) .object).add (equipmentBase id ++ ascii "/Status")
      (.var (.int32 0))).Exists (equipmentBase id ++ ascii "/Status") := by
    refine Server.exists_add_self (.inr ?_)
    rw [split_status]
    exact hbase
  rw [equipmentPath, List.append_assoc]
  exact Server.exists_add (Server.exists_add hstatus)

theorem exists_passRate (h : s.Exists kCheckpointRoot) (id : Nat) :
    (ensureCheckpointSubtree id s).Exists (checkpointPath id (ascii "PassRate")) := by
  have hbase : (s.add (checkpointBase id) .object).Exists (checkpointBase id) := by
    refine Server.exists_add_self (.inr ?_)
    rw [split_checkpointBase]
    exact h
  have hrate : ((((s.add (checkpointBase id) .object).add (checkpointBase id ++ ascii "/Name")
      (.var (.string ""))).add (checkpointBase id ++ ascii "/Status") (.var (.int32 0))).add
      (checkpointBase id ++ ascii "/PassRate") (.var (.float (.fin 100)))).Exists
      (checkpointBase id ++ ascii "/PassRate") := by
    refine Server.exists_add_self (.inr ?_)
    rw [split_passRate]
    exact Server.exists_add (Server.exists_add hbase)
  rw [checkpointPath, List.append_assoc]
  exact Server.exists_add (Server.exists_add hrate)

/-- A change of the checkpoint is among those of a run. -/
def Published (run : List Change) (id : Nat) : Prop :=
  ∃ q, .qualityCheckpoint q ∈ run ∧ q.checkpointId = id

/-- The nodes after a run. -/
structure Mapped (run : List Change) (s : Server) : Prop where
  named : WellNamed (Published run) s
  equipmentRoot : s.Exists kEquipmentRoot
  checkpointRoot : s.Exists kCheckpointRoot
  status : ∀ status, .equipmentStatus status ∈ run →
    s.Exists (equipmentPath status.equipmentId (ascii "Status"))
  passRate : ∀ q, .qualityCheckpoint q ∈ run →
    s.Exists (checkpointPath q.checkpointId (ascii "PassRate"))

theorem kind_of_exists {published : Nat → Prop} (h : WellNamed published s)
    (hexists : s.Exists path) {kind : Kind}
    (hkind : ∀ kind?, Fits published path kind? → kind? = some kind) :
    (s.nodes path).bind Node.kind? = some kind := by
  obtain ⟨node, hnode⟩ := Option.isSome_iff_exists.mp hexists
  rw [hnode, Option.bind_some]
  exact hkind _ (h path node hnode)

theorem kind_status {published : Nat → Prop} (h : WellNamed published s) {id : Nat}
    (hexists : s.Exists (equipmentPath id (ascii "Status"))) :
    (s.nodes (equipmentPath id (ascii "Status"))).bind Node.kind? = some .int32 := by
  refine kind_of_exists h hexists fun _ hfits => hfits.status ?_
  rw [equipmentPath, split_slash _ (by decide)]

theorem kind_passRate {published : Nat → Prop} (h : WellNamed published s) {id : Nat}
    (hexists : s.Exists (checkpointPath id (ascii "PassRate"))) :
    (s.nodes (checkpointPath id (ascii "PassRate"))).bind Node.kind? = some .float := by
  refine kind_of_exists h hexists fun _ hfits => (hfits.passRate ?_).1
  rw [checkpointPath, split_slash _ (by decide)]

theorem wellNamed_publish {published : Nat → Prop} (h : WellNamed published s) (c : Change)
    (hc : ∀ q, c = .qualityCheckpoint q → published q.checkpointId) :
    WellNamed published (publish s c) := by
  cases c with
  | systemState state => exact h.write _
  | equipmentStatus status =>
      exact (((h.ensureEquipmentSubtree status.equipmentId).write _).write _).write _
  | qualityCheckpoint q =>
      exact (((((h.ensureCheckpointSubtree (hc q rfl)).write _).write _).write _).write _).write _
  | workUnit wu => exact (((h.write _).write _).write _).write _

theorem mapped_registerNodes (sink : Bool) : Mapped [] (registerNodes sink {}) where
  named := .registerNodes sink
  equipmentRoot := exists_registerNodes sink (by decide)
  checkpointRoot := exists_registerNodes sink (by decide)
  status := nofun
  passRate := nofun

theorem Mapped.publish {run : List Change} (h : Mapped run s) (c : Change) :
    Mapped (run ++ [c]) (publish s c) where
  named := by
    refine wellNamed_publish (h.named.mono ?_) c ?_
    · rintro id ⟨q, hq, hid⟩
      exact ⟨q, List.mem_append_left _ hq, hid⟩
    · rintro q rfl
      exact ⟨q, List.mem_append_right _ (List.mem_singleton_self _), rfl⟩
  equipmentRoot := exists_publish h.equipmentRoot c
  checkpointRoot := exists_publish h.checkpointRoot c
  status status hstatus := by
    rcases List.mem_append.mp hstatus with hold | hnew
    · exact exists_publish (h.status status hold) c
    · obtain rfl := List.mem_singleton.mp hnew
      have hensured := exists_status h.equipmentRoot status.equipmentId
      exact Server.exists_write (Server.exists_write (Server.exists_write hensured))
  passRate q hq := by
    rcases List.mem_append.mp hq with hold | hnew
    · exact exists_publish (h.passRate q hold) c
    · obtain rfl := List.mem_singleton.mp hnew
      have hensured := exists_passRate h.checkpointRoot q.checkpointId
      exact Server.exists_write (Server.exists_write (Server.exists_write (Server.exists_write
        (Server.exists_write hensured))))

theorem after_concat (sink : Bool) (run : List Change) (c : Change) :
    after sink (run ++ [c]) = publish (after sink run) c := List.foldl_concat publish _ c run

theorem mapped_after (sink : Bool) (run : List Change) : Mapped run (after sink run) := by
  induction run using List.reverseRecOn with
  | nil => exact mapped_registerNodes sink
  | append_singleton run c ih =>
      rw [after_concat]
      exact ih.publish c

end FactoryNodeMap

end OpcUa
