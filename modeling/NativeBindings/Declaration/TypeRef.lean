import NativeBindings.Declaration.DeclaredName

/-!
# Type references

A reference says how a declaration writes a type: a scalar, a parameter, a
wrapper around another reference, the path of a declaration or that path
applied to references. Enums have no declaration and are written as their
underlying type.

A type that no declaration covers, because it was discarded or only describes an
instantiation, is `foreign`: it is written by its own name.
-/

namespace NativeBindings

/-- A type as a declaration writes it. -/
inductive TypeRef where
  | scalar (name : String)
  | param (index : Nat)
  | pointer (target : TypeRef)
  | array (element : TypeRef)
  /-- A declaration without parameters. -/
  | declared (path : String)
  /-- A generic declaration with its arguments. -/
  | applied (path : String) (arguments : List TypeRef)
  /-- A type without a declaration. -/
  | foreign (name : String)
deriving Inhabited

namespace TypeRef

/-- The name of a parameter: `T` alone, and otherwise `T1`, `T2` and so on. -/
def paramName (index arity : Nat) : String :=
  if arity = 1 then "T" else "T" ++ toString (index + 1)

/-- The names of all parameters. -/
def paramNames (arity : Nat) : List String :=
  (List.range arity).map (paramName · arity)

mutual

/-- The text of a reference in a declaration with so many parameters. -/
def text (arity : Nat) : TypeRef → String
  | scalar name | declared name | foreign name => name
  | param i => paramName i arity
  | pointer t => "Pointer<" ++ t.text arity ++ ">"
  | array t => "Array<" ++ t.text arity ++ ">"
  | applied path args => path ++ "<" ++ ", ".intercalate (texts arity args) ++ ">"

/-- The texts of several references. -/
def texts (arity : Nat) : List TypeRef → List String
  | [] => []
  | t :: ts => t.text arity :: texts arity ts

end

/-- Several references are written one by one. -/
theorem texts_eq_map (arity : Nat) (ts : List TypeRef) : texts arity ts = ts.map (text arity) := by
  induction ts with
  | nil => rfl
  | cons t ts ih => rw [texts, ih, List.map_cons]

end TypeRef

/-! ## Named declarations -/

/-- A planned graph whose subjects have names. -/
structure Catalog where
  /-- The types and the plan for the templates. -/
  planned : PlannedGraph
  /-- Whether references leave out namespaces. -/
  short : Bool
  /-- What the declarations cover. -/
  subjects : List Subject
  /-- The name of each declaration. -/
  names : List DeclaredName
deriving Inhabited

namespace Catalog

/-- Name the subjects of a planned graph. -/
def ofPlanned (p : PlannedGraph) (short : Bool) : Catalog × Diagnostics :=
  let subjects := p.subjects
  let (names, notes) := p.nameAll short [] subjects
  ({ planned := p, short, subjects, names }, notes)

/-- The types. -/
def graph (c : Catalog) : TypeGraph :=
  c.planned.graph

/-- The number of a subject's declaration. -/
def numberOf? (c : Catalog) (s : Subject) : Option Nat :=
  c.subjects.idxOf? s

/-- The number of the declaration that covers a node. -/
def coveredBy? (c : Catalog) (id : NodeId) : Option Nat :=
  (c.planned.subjectOf? id).bind c.numberOf?

/-- The path of the declaration with a number. -/
def path (c : Catalog) (n : Nat) : String :=
  (c.names[n]?.map (·.path)).getD ""

/-- Whether the declaration with a number is generic. -/
def isGeneric (c : Catalog) (n : Nat) : Bool :=
  (c.subjects[n]?.map Subject.isGeneric).getD false

/-! ## References to types -/

/-- The name of a type without a declaration. -/
def foreign (c : Catalog) (id : NodeId) : TypeRef :=
  .foreign (c.graph.render c.short id)

/-- The reference to a type. The arguments of an instantiation are looked at
only if they are written. -/
def reading (c : Catalog) : Reading TypeRef := fun id n linked =>
  match n with
  | .primitive name => some (.scalar (Scalar.render name))
  | .pointer t => (linked t).map .pointer
  | .array e => (linked e).map .array
  | .enumeration e => linked e.underlying
  | .user _ =>
    match c.coveredBy? id with
    | some k => some (.declared (c.path k))
    | none => some (c.foreign id)
  | .template _ args =>
    match c.coveredBy? id with
    | some k =>
      if c.isGeneric k then (args.mapM linked).map (.applied (c.path k))
      else some (.declared (c.path k))
    | none => some (c.foreign id)
  | .placeholder _ => some (c.foreign id)

/-- A reference does not change when more is known of the linked nodes. -/
theorem reading_stable (c : Catalog) : c.reading.Stable := by
  intro id n known more h x hx
  cases n with
  | template l args =>
    simp only [reading] at hx ⊢
    split at hx
    · split at hx
      · next hgeneric =>
        rw [if_pos hgeneric]
        rw [Option.map_eq_some_iff] at hx ⊢
        obtain ⟨inside, hargs, rfl⟩ := hx
        exact ⟨inside, Reading.mapM_stable h hargs, rfl⟩
      · next hspecial =>
        rw [if_neg hspecial]
        exact hx
    · exact hx
  | _ =>
    simp only [reading, Option.map_eq_some_iff] at hx ⊢
    grind

/-- The reference to a node's type. -/
def refTo (c : Catalog) (id : NodeId) : TypeRef :=
  (c.graph.arena.read? c.reading id).getD (c.foreign id)

/-- The path of a family's generic declaration. -/
def familyPath (c : Catalog) (family : Nat) : String :=
  ((c.numberOf? (.generic family)).map c.path).getD ""

mutual

/-- The reference that a scheme stands for. -/
def spelled (c : Catalog) : Scheme → TypeRef
  | .unspelled => .foreign Arena.unknownName
  | .param i => .param i
  | .concrete id _ => c.refTo id
  | .pointer s => .pointer (c.spelled s)
  | .array s => .array (c.spelled s)
  | .template family ss => .applied (c.familyPath family) (c.spelledAll ss)

/-- The references that several schemes stand for. -/
def spelledAll (c : Catalog) : List Scheme → List TypeRef
  | [] => []
  | s :: ss => c.spelled s :: c.spelledAll ss

end

end Catalog

end NativeBindings
