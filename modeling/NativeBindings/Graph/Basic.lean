import NativeBindings.Options
import NativeBindings.Diagnostic
import NativeBindings.Failure
import NativeBindings.Graph.Dangling
import NativeBindings.Graph.Identity
import NativeBindings.Graph.SpellingLoop

/-!
# Type graphs

A type graph is the finished arena of a record list with its live classes in
record order. It is built in five steps: the draft of all records, its dangling
references, the check that names can be written, the identity of classes and
the check that bases are classes.
-/

namespace NativeBindings

/-- The types of a record list. -/
structure TypeGraph where
  /-- All nodes, the discarded ones included. -/
  arena : Arena
  /-- The slots of the user types and instantiations that are kept, in record order. -/
  classes : List NodeId
deriving Inhabited

namespace TypeGraph

/-! ## What a graph holds -/

/-- The node that a symbol ended up as. -/
def nodeOf? (g : TypeGraph) (s : SymbolId) : Option NodeId :=
  g.arena.slot? s

/-- The name of a node in native spelling. -/
def native (g : TypeGraph) (id : NodeId) : String :=
  g.arena.native id

/-- The name of a node in the bindings. -/
def render (g : TypeGraph) (short : Bool) (id : NodeId) : String :=
  g.arena.render short id

/-- The user type that says what a class looks like. -/
def layoutType? (g : TypeGraph) (id : NodeId) : Option UserType :=
  g.arena.layoutType? id

/-- The kept user types that are no instantiations. -/
def plainClasses (g : TypeGraph) : List (NodeId × UserType) :=
  g.classes.filterMap fun id => (g.arena.user? id).map fun u => (id, u)

/-- The kept instantiations. -/
def instantiations (g : TypeGraph) : List NodeId :=
  g.classes.filter fun id => ((g.arena.node? id).map Node.isTemplate).getD false

/-! ## Bases -/

/-- The failure of a user type with a base that is no class. -/
def badBase (a : Arena) (u : UserType) (base : NodeId) : Failure :=
  .malformed u.symbol u.nativeName
    ("base `" ++ a.render false base ++ "` is not a class or struct")

/-- Those of the bases of a user type that are classes. A degraded base is
left out, and any other base is refused. -/
def checkedBases (a : Arena) (degraded : List NodeId) (u : UserType) :
    List NodeId → Except Failure (List NodeId)
  | [] => .ok []
  | base :: bases =>
    if ((a.node? base).map Node.isClass).getD false then
      (checkedBases a degraded u bases).map (base :: ·)
    else if base ∈ degraded then checkedBases a degraded u bases
    else .error (badBase a u base)

/-- Check the bases of one class. -/
def checkClass (degraded : List NodeId) (a : Arena) (id : NodeId) : Except Failure Arena :=
  match a.layout? id with
  | none => .ok a
  | some l =>
    match a.user? l with
    | none => .ok a
    | some u =>
      (checkedBases a degraded u u.bases).map fun bases => a.updateUser l ({ · with bases })

/-! ## Building -/

/-- The type graph of a record list, with the warnings met on the way. -/
def ofRecords (options : Options) (records : List SymbolRecord) :
    Except Failure (TypeGraph × Diagnostics) := do
  let draft ← Draft.ofRecords records
  let (settled, dangling) ← draft.settle options
  settled.arena.checkSpelling
  let (arena, classes, conflicts) := settled.arena.unite settled.classes
  let degraded := draft.dangling.map (·.1)
  let arena ← classes.foldlM (checkClass degraded) arena
  return ({ arena, classes }, dangling ++ conflicts)

end TypeGraph

end NativeBindings
