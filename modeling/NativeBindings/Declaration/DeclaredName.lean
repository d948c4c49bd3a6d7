import NativeBindings.Declaration.Subject
import NativeBindings.Name.Numbered

/-!
# Names of declarations

Every subject has an identifier that it would like to have. Subjects choose in
order, and one whose path is taken gets a number and a note. The path is what
other declarations write; two declarations never have the same one.
-/

namespace NativeBindings

/-- The name of a declaration. -/
structure DeclaredName where
  /-- Identifier of the struct. -/
  ident : String
  /-- What references write, with the namespace unless it is left out. -/
  path : String
  /-- Namespace. -/
  scope : Option String
deriving DecidableEq, Repr, Inhabited

namespace DeclaredName

/-- The path of an identifier in a namespace. -/
def pathOf (short : Bool) (scope : Option String) (ident : String) : String :=
  match scope with
  | some ns => if short then ident else ns ++ "::" ++ ident
  | none => ident

/-- An identifier with a number: `Box2`, but `Vec3_2`. -/
def numbered (base : String) (k : Nat) : String :=
  let endsInDigit := (base.toList.getLast?.map Char.isDigit).getD false
  base ++ (if endsInDigit then "_" else "") ++ toString k

/-- The name that a subject gets when the given paths are taken. -/
def choose (short : Bool) (taken : List String) (scope : Option String) (base : String) :
    DeclaredName :=
  let path := pathOf short scope
  let ident :=
    if path base ∈ taken then numbered base (Name.firstFree taken fun k => path (numbered base k))
    else base
  { ident, path := path ident, scope }

/-- The note for a name that got a number. -/
def renamedNote? (short : Bool) (base : String) (name : DeclaredName) : Option Diagnostic :=
  if name.ident = base then none
  else some {
    finding := .declarationRenamed
    message := "`" ++ pathOf short name.scope base ++ "` is already declared; using `"
      ++ name.path ++ "`" }

end DeclaredName

namespace PlannedGraph

/-- The identifier of one instantiation: the template's and those of its
arguments. -/
def specializedIdent (p : PlannedGraph) (u : UserType) (arguments : List NodeId) : String :=
  u.name ++ String.join (arguments.map fun arg =>
    "_" ++ String.ofList (Name.identifier (p.graph.render true arg).toList))

/-- Namespace and preferred identifier of a subject. -/
def preferred (p : PlannedGraph) : Subject → Option String × String
  | .user id =>
    match p.graph.arena.user? id with
    | some u => (u.scope, u.name)
    | none => (none, Draft.anonymous)
  | .generic family =>
    match p.plan.families[family]? with
    | some g => (g.key.scope, g.key.name)
    | none => (none, Draft.anonymous)
  | .specialized id =>
    match p.graph.arena.node? id with
    | some (.template l args) =>
      match p.graph.arena.user? l with
      | some u => (u.scope, p.specializedIdent u args)
      | none => (none, Draft.anonymous)
    | _ => (none, Draft.anonymous)

/-- Name subjects one after the other when the given paths are taken. -/
def nameAll (p : PlannedGraph) (short : Bool) :
    List String → List Subject → List DeclaredName × Diagnostics
  | _, [] => ([], [])
  | taken, s :: ss =>
    let (scope, base) := p.preferred s
    let name := DeclaredName.choose short taken scope base
    let (names, notes) := p.nameAll short (name.path :: taken) ss
    (name :: names, (name.renamedNote? short base).toList ++ notes)

end PlannedGraph

end NativeBindings
