import NativeBindings.Declaration.LeastOrder
import NativeBindings.Declaration.Struct

/-!
# Declarations

Every live user type, every generic template and every specialized instantiation
of a planned graph becomes one struct. Declarations come with base classes before
the classes derived from them; pointers, arrays and enums are written where they
are used.
-/

namespace NativeBindings

/-- One written declaration. -/
structure Declaration where
  /-- How other declarations refer to it: `geo::Point`, `Stack<T>`, `Stack_i32`. -/
  name : String
  /-- Namespace of the native type. -/
  scope : Option String
  /-- The text. -/
  text : String
deriving DecidableEq, Repr, Inhabited

namespace Catalog

/-! ## Members -/

/-- Give fields distinct identifiers in order; the identifiers in `taken` are gone. -/
def nameFields : List String → List String → List String
  | _, [] => []
  | taken, native :: rest =>
    let base := String.ofList (Name.memberIdentifier native.toList)
    let name := Name.distinct taken base fun k => base ++ "_" ++ toString k
    name :: nameFields (name :: taken) rest

/-- The enum at a position. -/
def enumAt? (c : Catalog) (id : NodeId) : Option EnumType :=
  match c.graph.arena.node? id with
  | some (.enumeration e) => some e
  | _ => none

/-- The members of a user type. -/
def members (c : Catalog) (u : UserType) : List Member :=
  let names := nameFields [] (u.fields.map (·.name))
  (names.zip u.fields).map fun (name, f) =>
    ⟨name, .field (some f.offset) (c.refTo f.type) (c.enumAt? f.type)⟩

/-- The kind of a generic field. Only a field of the same type everywhere has an enum. -/
def genericKind (c : Catalog) (f : SharedField) : MemberKind :=
  let s := f.pattern.scheme
  let enumeration :=
    match s with
    | .concrete id _ => c.enumAt? id
    | _ => none
  .field f.offset (c.spelled s) enumeration

/-- The name of the marker, unless a field has it. -/
def markerName : String :=
  "_params"

/-- Whether the fields of a shared layout write all parameters. -/
def writesAll (l : SharedLayout) : Bool :=
  l.arity ≤ (Scheme.paramsOfAll (l.fields.map (·.pattern.scheme))).size

/-- The members of a shared layout. A marker follows when the fields leave a
parameter out. -/
def genericMembers (c : Catalog) (l : SharedLayout) : List Member :=
  let names := nameFields [] (l.fields.map (·.name))
  let fields := (names.zip l.fields).map fun (name, f) => ⟨name, c.genericKind f⟩
  if writesAll l then fields
  else
    let name := Name.distinct names markerName fun k => markerName ++ "_" ++ toString k
    fields ++ [⟨name, .marker⟩]

/-! ## Structs -/

/-- The struct of a user type or of one instantiation. -/
def concreteStruct (c : Catalog) (documented : Bool) (ident : String) (specialized : Bool)
    (u : UserType) : Struct :=
  { doc :=
      if documented then
        some ("Native type `" ++ u.nativeName ++ "` (" ++ toString u.size.toNat ++ " bytes).")
      else none
    native := { name := u.nativeName, size := some u.size, bases := u.bases.map c.refTo }
    anyCase := specialized
    ident
    arity := none
    members := c.members u }

/-- The native names of the instantiations in a family. -/
def coveredNames (c : Catalog) (family : Nat) : List String :=
  ((c.planned.instantiations family).filterMap c.graph.layoutType?).map (·.nativeName)

/-- The native name of the template that a family instantiates. -/
def templateName (natives : List String) : String :=
  match natives with
  | [] => ""
  | first :: _ => String.ofList (Name.template first.toList)

/-- The struct of a template family with a shared layout. -/
def genericStruct (c : Catalog) (documented : Bool) (ident : String) (family : Nat)
    (l : SharedLayout) : Struct :=
  let natives := c.coveredNames family
  let name := templateName natives
  { doc :=
      if documented then
        some ("Native template `" ++ name ++ "`, covering "
          ++ commaList (natives.map fun n => "`" ++ n ++ "`") ++ ".")
      else none
    native := { name, size := l.size, bases := l.bases.map fun s => c.spelled s.scheme }
    anyCase := false
    ident
    arity := some l.arity
    members := c.genericMembers l }

/-- The struct of a subject with an identifier. -/
def struct? (c : Catalog) (documented : Bool) (ident : String) : Subject → Option Struct
  | .user id => (c.graph.arena.user? id).map (c.concreteStruct documented ident false)
  | .specialized id => (c.graph.layoutType? id).map (c.concreteStruct documented ident true)
  | .generic family => (c.planned.plan.layout? family).map (c.genericStruct documented ident family)

/-- The declaration of a subject under its name. -/
def declaration (c : Catalog) (documented : Bool) (s : Subject) (name : DeclaredName) :
    Declaration :=
  match c.struct? documented name.ident s with
  | some t => { name := name.path ++ t.paramList, scope := name.scope, text := t.text }
  | none => { name := name.path, scope := name.scope, text := "" }

/-! ## All declarations -/

/-- The numbers of the declarations that a numbered one is derived from. A generic
one may be derived from itself, by way of another instantiation. -/
def dependencies (c : Catalog) (n : Nat) : List Nat :=
  match c.subjects[n]? with
  | none => []
  | some s =>
    let needed := (c.planned.bases s).filterMap c.coveredBy?
    (List.range c.subjects.length).filter fun m =>
      m ∈ needed && !(m == n && s.isGeneric)

/-- The numbers of all declarations in the order in which they are written. -/
def order (c : Catalog) : Except Failure (List Nat) :=
  match LeastOrder.sort c.subjects.length c.dependencies with
  | .ok ns => .ok ns
  | .error circle => .error (.circularBases (circle.map c.path))

/-- The declarations of a catalog, bases first. -/
def declarations (c : Catalog) (documented : Bool) : Except Failure (List Declaration) :=
  c.order.map fun ns =>
    ns.filterMap fun n => do
      return c.declaration documented (← c.subjects[n]?) (← c.names[n]?)

end Catalog

namespace PlannedGraph

/-- Refuse a graph with a placeholder in it. -/
def checkPlaceholders (p : PlannedGraph) : Except Failure Unit :=
  match p.graph.arena.nodes.toList.findSome? fun
      | .placeholder s => some s
      | _ => none with
  | some s => .error (.placeholderLeft s)
  | none => .ok ()

/-- Write the declarations of a planned graph; the notes say which were renamed. -/
def declarations (options : Options) (p : PlannedGraph) :
    Except Failure (List Declaration × Diagnostics) := do
  p.checkPlaceholders
  let (catalog, notes) := Catalog.ofPlanned p options.omitNamespaces
  let declarations ← catalog.declarations options.documented
  return (declarations, notes)

end PlannedGraph

end NativeBindings
