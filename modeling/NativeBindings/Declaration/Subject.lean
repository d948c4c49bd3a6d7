import NativeBindings.Template.Plan

/-!
# Subjects of declarations

Every live class is covered by exactly one declaration: a user type by its
own, an instantiation by the generic declaration of its template if there is
one and otherwise by its own. What a declaration covers is its subject; subjects
are numbered in the order in which the classes first need them.
-/

namespace NativeBindings

/-- What a single declaration covers. -/
inductive Subject where
  /-- A user type. -/
  | user (id : NodeId)
  /-- All instantiations of a template family. -/
  | generic (family : Nat)
  /-- One instantiation. -/
  | specialized (id : NodeId)
deriving DecidableEq, Repr, Inhabited

/-- Whether the declaration has parameters. -/
def Subject.isGeneric : Subject → Bool
  | generic _ => true
  | _ => false

/-- A graph with a plan for its templates. -/
structure PlannedGraph where
  /-- The types. -/
  graph : TypeGraph
  /-- How template families are declared. -/
  plan : Plan
deriving Inhabited

namespace PlannedGraph

/-- The subject that covers a node, if it is a class. -/
def subjectOf? (p : PlannedGraph) (id : NodeId) : Option Subject :=
  match p.graph.arena.node? id with
  | some (.user _) => some (.user id)
  | some (.template ..) =>
    match p.plan.familyOf? id with
    | some g => if (p.plan.layout? g).isSome then some (.generic g) else some (.specialized id)
    | none => some (.specialized id)
  | _ => none

/-- The subjects of all declarations. -/
def subjects (p : PlannedGraph) : List Subject :=
  (p.graph.classes.filterMap p.subjectOf?).eraseDups

/-- The instantiations that a family holds. -/
def instantiations (p : PlannedGraph) (family : Nat) : List NodeId :=
  match p.plan.families[family]? with
  | some g => g.instantiations
  | none => []

/-- The nodes that a declaration covers. -/
def covered (p : PlannedGraph) : Subject → List NodeId
  | .user id | .specialized id => [id]
  | .generic family => p.instantiations family

/-- The base classes of a subject: those of all nodes it covers, each once. -/
def bases (p : PlannedGraph) (s : Subject) : List NodeId :=
  ((p.covered s).flatMap fun id =>
    match p.graph.layoutType? id with
    | some u => u.bases
    | none => []).eraseDups

end PlannedGraph

end NativeBindings
