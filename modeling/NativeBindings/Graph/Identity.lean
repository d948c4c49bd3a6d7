import NativeBindings.Diagnostic
import NativeBindings.Name.Qualified
import NativeBindings.Node.Spelling

/-!
# Identity of classes

A backend may report one native type under several ids. Two classes are the
same type when their namespace, their name and the native names of their
template arguments agree. The first one is kept; every link and every symbol
that leads to another is sent to it.
-/

namespace NativeBindings

/-- What makes a class the type it is, in native spelling. -/
structure Identity where
  /-- Namespace. -/
  scope : Option String
  /-- Last segment of the name, without an argument list for an instantiation. -/
  name : String
  /-- Names of the template arguments; empty for other types. -/
  arguments : List String
deriving DecidableEq, Repr, Inhabited

/-- The identity of a type with a layout and arguments. -/
def UserType.identity (u : UserType) (arguments : List String) : Identity :=
  let (scope, last) := Name.split u.nativeName.toList
  { scope := scope.map String.ofList
    name := String.ofList (if u.isTemplate then Name.withoutArguments last else last)
    arguments }

namespace Arena

/-- The identity of a class. -/
def identity? (a : Arena) (id : NodeId) : Option Identity :=
  match a.node? id with
  | some (.user u) => some (u.identity [])
  | some (.template l args) =>
    (a.user? l).map fun u => u.identity (args.map a.native)
  | _ => none

end Arena

/-! ## Duplicates -/

/-- A class and its identity. -/
abbrev Identified := NodeId × Identity

namespace Identified

/-- The first class with an identity. -/
def first (xs : List Identified) (x : Identified) : NodeId :=
  match xs.find? (·.2 == x.2) with
  | some y => y.1
  | none => x.1

/-- The classes that come first with their identity. -/
def kept (xs : List Identified) : List NodeId :=
  (xs.filter fun x => first xs x == x.1).map (·.1)

/-- The other classes, each with the one that comes first. -/
def duplicates (xs : List Identified) : List (NodeId × NodeId) :=
  (xs.filter fun x => first xs x != x.1).map fun x => (x.1, first xs x)

end Identified

namespace Arena

/-- The classes that have an identity. -/
def identified (a : Arena) (classes : List NodeId) : List Identified :=
  classes.filterMap fun id => (a.identity? id).map fun key => (id, key)

/-- Where a duplicate and its layout are sent. -/
def forwarding (a : Arena) : NodeId × NodeId → List (NodeId × NodeId)
  | (id, first) =>
    match a.layout? id, a.layout? first with
    | some l, some m => if l = id then [(id, first)] else [(id, first), (l, m)]
    | _, _ => [(id, first)]

/-- The warning for a duplicate of another size than the first. -/
def conflict? (a : Arena) : NodeId × NodeId → Option Diagnostic
  | (id, first) => do
    let dup ← a.layoutType? id
    let kept ← a.layoutType? first
    if dup.size = kept.size then none
    else some {
      finding := .conflictingDuplicate
      symbol := some dup.symbol
      message := "`" ++ kept.nativeName ++ "` is defined with size "
        ++ toString kept.size.toNat ++ " and " ++ toString dup.size.toNat
        ++ "; keeping the first definition" }

/-- Mark the layout of a duplicate as discarded. -/
def discard (a : Arena) : NodeId × NodeId → Arena
  | (id, first) =>
    match a.layout? id, a.layout? first with
    | some l, some m => a.updateUser l fun u => { u with state := u.state.advance (.discarded m) }
    | _, _ => a

/-- Mark the layout of a class as kept. -/
def keep (a : Arena) (id : NodeId) : Arena :=
  match a.layout? id with
  | some l => a.updateUser l fun u => { u with state := u.state.advance .kept }
  | none => a

/-- Let the first class of each identity stand for the others. The result is
the changed arena, the classes that are kept and the warnings. -/
def unite (a : Arena) (classes : List NodeId) : Arena × List NodeId × Diagnostics :=
  let xs := a.identified classes
  let kept := Identified.kept xs
  let duplicates := Identified.duplicates xs
  let marked := kept.foldl keep (duplicates.foldl discard a)
  (marked.relink (duplicates.flatMap a.forwarding), kept, duplicates.filterMap a.conflict?)

end Arena

end NativeBindings
