import NativeBindings.Node.Basic

/-!
# Arenas

An arena holds the nodes of one build in the order in which they were added. A
symbol is bound to a slot when it is first mentioned: before its record is seen
the slot holds a placeholder, and the record's node is written over it, so that
everyone who holds the slot sees the node.

* `slot?_reserve`: a mentioned symbol is bound to the slot that was given;
* `node?_add`: adding a node changes no other;
* `node?_write`: writing over a node changes no other;
* `node?_relink`: relinking sends every link through the map once.
-/

namespace NativeBindings

/-- The nodes of one build and the slots of the symbols. -/
structure Arena where
  /-- The nodes, by position. -/
  nodes : Array Node
  /-- The slot of every symbol that was mentioned, the latest first. -/
  bindings : List (SymbolId × NodeId)
  /-- The shared primitives that belong to no symbol. -/
  shared : List (String × NodeId)
deriving Inhabited

namespace Arena

/-! ## Looking things up -/

/-- The node at a position. -/
def node? (a : Arena) (id : NodeId) : Option Node :=
  a.nodes[id]?

/-- How many nodes there are. -/
def size (a : Arena) : Nat :=
  a.nodes.size

/-- The slot of a symbol, if it was mentioned. -/
def slot? (a : Arena) (s : SymbolId) : Option NodeId :=
  a.bindings.lookup s

/-- The user type at a position. -/
def user? (a : Arena) (id : NodeId) : Option UserType :=
  (a.node? id).bind Node.userType?

/-- The node that says what a class looks like: a user type does so
itself, an instantiation has a layout of its own. -/
def layout? (a : Arena) (id : NodeId) : Option NodeId :=
  match a.node? id with
  | some (.user _) => some id
  | some (.template l _) => some l
  | _ => none

/-- The user type that says what a class looks like. -/
def layoutType? (a : Arena) (id : NodeId) : Option UserType :=
  (a.layout? id).bind a.user?

/-- The least symbol that is bound to a slot. -/
def symbolOf? (a : Arena) (id : NodeId) : Option SymbolId :=
  ((a.bindings.filter (·.2 == id)).map (·.1)).min?

/-- All bindings, by ascending symbol. -/
def symbols (a : Arena) : List (SymbolId × NodeId) :=
  a.bindings.mergeSort fun x y => x.1.value ≤ y.1.value

/-- Every position with its node. -/
def entries (a : Arena) : List (NodeId × Node) :=
  a.nodes.toList.zipIdx.map fun (n, id) => (id, n)

/-! ## Adding nodes -/

/-- Add a node; its position is the old size. -/
def add (a : Arena) (n : Node) : NodeId × Arena :=
  (a.nodes.size, { a with nodes := a.nodes.push n })

/-- Write a node over the one at a position. -/
def write (a : Arena) (id : NodeId) (n : Node) : Arena :=
  { a with nodes := a.nodes.setIfInBounds id n }

/-- Change the user type at a position, if there is one. -/
def updateUser (a : Arena) (id : NodeId) (f : UserType → UserType) : Arena :=
  match a.user? id with
  | some u => a.write id (.user (f u))
  | none => a

/-- Mention a symbol: its slot, and a placeholder there if it is new. -/
def reserve (a : Arena) (s : SymbolId) : NodeId × Arena :=
  match a.slot? s with
  | some id => (id, a)
  | none =>
    let (id, a) := a.add (.placeholder s)
    (id, { a with bindings := (s, id) :: a.bindings })

/-- The shared primitive with a native name. -/
def sharedPrimitive (a : Arena) (native : String) : NodeId × Arena :=
  match a.shared.lookup native with
  | some id => (id, a)
  | none =>
    let (id, a) := a.add (.primitive native)
    (id, { a with shared := (native, id) :: a.shared })

/-- The native name of the type that stands for unknown ones. -/
def unknownName : String :=
  "Variable"

/-- The arena with nothing but `void` and the unknown type. -/
def initial : Arena :=
  let a : Arena := ⟨#[], [], []⟩
  let a := (a.sharedPrimitive "void").2
  (a.sharedPrimitive unknownName).2

/-! ## Relinking -/

/-- Where a forwarding list sends a position: to the target given for it, if any. -/
def forwarded (forward : List (NodeId × NodeId)) (id : NodeId) : NodeId :=
  (forward.lookup id).getD id

/-- Send every link and every binding where a forwarding list says. Targets are not
sent on. -/
def relink (a : Arena) (forward : List (NodeId × NodeId)) : Arena :=
  { a with
    nodes := a.nodes.map (·.mapLinks (forwarded forward))
    bindings := a.bindings.map fun (s, id) => (s, forwarded forward id) }

/-! ## Laws -/

/-- A mentioned symbol is bound to the slot that was given. -/
theorem slot?_reserve (a : Arena) (s : SymbolId) :
    (a.reserve s).2.slot? s = some (a.reserve s).1 := by
  unfold reserve
  split
  · assumption
  · simp [slot?]

/-- Mentioning a symbol moves no other. -/
theorem slot?_reserve_of_ne (a : Arena) {s t : SymbolId} (h : t ≠ s) :
    (a.reserve s).2.slot? t = a.slot? t := by
  unfold reserve
  split
  · rfl
  · simp [slot?, List.lookup_cons, beq_eq_false_iff_ne.2 h, add]

/-- A node that was added is the last one. -/
theorem node?_add (a : Arena) (n : Node) (id : NodeId) :
    (a.add n).2.node? id = if id = a.size then some n else a.node? id :=
  Array.getElem?_push

/-- Writing over a node changes it alone, and does nothing where there is none. -/
theorem node?_write (a : Arena) (id : NodeId) (n : Node) (other : NodeId) :
    (a.write id n).node? other = if other = id ∧ id < a.size then some n else a.node? other := by
  simp only [write, node?, size]
  by_cases h : other = id
  · subst h
    by_cases hlt : other < a.nodes.size <;> simp [hlt]
  · simp [h, Array.getElem?_setIfInBounds_ne (Ne.symm h)]

/-- Writing over a node moves no symbol. -/
theorem slot?_write (a : Arena) (id : NodeId) (n : Node) (s : SymbolId) :
    (a.write id n).slot? s = a.slot? s :=
  rfl

/-- Relinking forwards the links of every node. -/
theorem node?_relink (a : Arena) (forward : List (NodeId × NodeId)) (id : NodeId) :
    (a.relink forward).node? id = (a.node? id).map (·.mapLinks (forwarded forward)) := by
  simp [relink, node?]

/-- Relinking forwards every binding. -/
theorem slot?_relink (a : Arena) (forward : List (NodeId × NodeId)) (s : SymbolId) :
    (a.relink forward).slot? s = (a.slot? s).map (forwarded forward) := by
  simp only [slot?, relink]
  induction a.bindings with
  | nil => rfl
  | cons b bs ih =>
    obtain ⟨t, id⟩ := b
    simp only [List.map_cons, List.lookup_cons, ih]
    cases s == t <;> rfl

end Arena

end NativeBindings
