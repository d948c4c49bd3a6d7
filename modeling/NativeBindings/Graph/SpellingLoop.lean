import NativeBindings.Failure
import NativeBindings.Arena

/-!
# Loops of spelling links

A type's name can only be written if its spelling links end. `Arena.loop?`
looks for a node that they lead back to, going depth first from one node after
the other and passing no node twice.
-/

namespace NativeBindings.Arena

/-- The spelling links of a node. -/
def spellingLinks (a : Arena) (id : NodeId) : List NodeId :=
  ((a.node? id).map Node.spellingLinks).getD []

/-- Go on from a node, with the nodes on the way to it in `path` and the ones
that are known not to lead back in `done`. The result is a node that was met
again on its own way, or the nodes that are done now. A way without repetition
is no longer than the arena, which bounds `fuel`. -/
def explore (a : Arena) : Nat → List NodeId → List NodeId → NodeId → Except NodeId (List NodeId)
  | 0, _, done, _ => .ok done
  | fuel + 1, path, done, id =>
    if id ∈ done then .ok done
    else if id ∈ path then .error id
    else
      match (a.spellingLinks id).foldlM (a.explore fuel (id :: path)) done with
      | .ok done => .ok (id :: done)
      | .error looped => .error looped

/-- A node that its spelling links lead back to, the first one met. -/
def loop? (a : Arena) : Option NodeId :=
  match (List.range a.size).foldlM (a.explore (a.size + 1) []) [] with
  | .ok _ => none
  | .error looped => some looped

/-- What a node in a loop is called. -/
def loopName (a : Arena) (id : NodeId) : String :=
  match a.node? id with
  | some (.pointer _) => "pointer"
  | some (.array _) => "array"
  | some (.enumeration e) => e.nativeName
  | some (.template l _) =>
    match a.user? l with
    | some u => u.nativeName
    | none => ""
  | _ => ""

/-- Why a loop is refused. -/
def selfReference : String :=
  "type refers to itself through pointer, array or template arguments"

/-- Refuse an arena with a loop of spelling links; the least symbol of the node
is to blame. -/
def checkSpelling (a : Arena) : Except Failure Unit :=
  match a.loop? with
  | none => .ok ()
  | some id =>
    let symbol := (a.symbolOf? id).getD ⟨UInt64.ofNat id⟩
    .error (.malformed symbol (a.loopName id) selfReference)

end NativeBindings.Arena
