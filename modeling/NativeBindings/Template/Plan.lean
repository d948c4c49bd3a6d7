import NativeBindings.Template.SharedLayout

/-!
# Template plans

The instantiations in a graph are grouped by template. A family gets one generic
declaration if its layouts unify, and if everything it writes generically gets
one too; otherwise each of its instantiations gets a declaration of its own.
-/

namespace NativeBindings

/-- What names a template in the bindings. -/
structure TemplateKey where
  /-- Namespace. -/
  scope : Option String
  /-- Identifier. -/
  name : String
deriving DecidableEq, Repr, Inhabited

/-- A template as messages name it. -/
def TemplateKey.path (k : TemplateKey) : String :=
  match k.scope with
  | some ns => ns ++ "::" ++ k.name
  | none => k.name

/-- How the instantiations of a template are declared. -/
inductive Policy where
  /-- By one generic declaration. -/
  | generic (layout : SharedLayout)
  /-- By one declaration each. -/
  | specialized
deriving Inhabited

/-- The layout of a generic declaration. -/
def Policy.layout? : Policy → Option SharedLayout
  | generic l => some l
  | specialized => none

/-- Whether there is one generic declaration. -/
def Policy.isGeneric (p : Policy) : Bool :=
  p.layout?.isSome

/-- The instantiations of one template. -/
structure Family where
  /-- The template. -/
  key : TemplateKey
  /-- Its instantiations, in record order. -/
  instantiations : List NodeId
  /-- How they are declared. -/
  policy : Policy
deriving Inhabited

/-- The families of a graph, in the order of their first instantiations. -/
structure Plan where
  /-- All families. -/
  families : List Family := []
deriving Inhabited

namespace Plan

/-- The family of an instantiation. -/
def familyOf? (p : Plan) (id : NodeId) : Option Nat :=
  p.families.findIdx? (id ∈ ·.instantiations)

/-- The layout of a family that is declared generically. -/
def layout? (p : Plan) (index : Nat) : Option SharedLayout :=
  p.families[index]?.bind (·.policy.layout?)

/-- Whether an instantiation is covered by a generic declaration. -/
def isGeneric (p : Plan) (id : NodeId) : Bool :=
  match p.familyOf? id with
  | some g => (p.layout? g).isSome
  | none => false

/-! ## Grouping -/

/-- Put an instantiation into its family, which is the last one if it is new. -/
def addTo (key : TemplateKey) (id : NodeId) :
    List (TemplateKey × List NodeId) → List (TemplateKey × List NodeId)
  | [] => [(key, [id])]
  | (k, ids) :: rest => if k = key then (k, ids ++ [id]) :: rest else (k, ids) :: addTo key id rest

/-- The template of an instantiation. -/
def keyOf? (g : TypeGraph) (id : NodeId) : Option TemplateKey :=
  (g.layoutType? id).map fun u => ⟨u.scope, u.name⟩

/-- The instantiations of a graph by template. -/
def grouped (g : TypeGraph) : List (TemplateKey × List NodeId) :=
  g.instantiations.foldl (fun families id =>
    match keyOf? g id with
    | some key => addTo key id families
    | none => families) []

/-! ## Policies -/

/-- The symbol in reports about a family: that of its first instantiation. -/
def symbolOf? (g : TypeGraph) (ids : List NodeId) : Option SymbolId :=
  (ids.head?.bind g.layoutType?).map (·.symbol)

/-- The warning for a family whose layouts do not unify. -/
def ambiguousWarning (g : TypeGraph) (key : TemplateKey) (ids : List NodeId) (m : Mismatch) :
    Diagnostic :=
  { finding := .ambiguousTemplateGrouping
    symbol := symbolOf? g ids
    message := "instantiations of `" ++ key.path ++ "` cannot share a generic declaration: "
      ++ m.message ++ "; emitting one declaration per instantiation" }

/-- Unify the layouts of a family. -/
def judge (g : TypeGraph) (familyOf : NodeId → Option Nat) :
    TemplateKey × List NodeId → Family × Diagnostics
  | (key, ids) =>
    match SharedLayout.ofInstantiations g familyOf ids with
    | .ok layout => (⟨key, ids, .generic layout⟩, [])
    | .error m => (⟨key, ids, .specialized⟩, [ambiguousWarning g key ids m])

/-! ## Demotion -/

/-- A family that is written by a generic family and is not generic itself. -/
def blocker? (families : List Family) (family : Family) : Option Family :=
  match family.policy with
  | .specialized => none
  | .generic layout =>
    (layout.dependencies.filterMap (families[·]?)).find? fun dep => !dep.policy.isGeneric

/-- The note for a family that another one keeps from being generic. -/
def demotionNote (g : TypeGraph) (family blocker : Family) : Diagnostic :=
  { finding := .templateDemoted
    symbol := symbolOf? g family.instantiations
    message := "`" ++ family.key.path ++ "` refers to `" ++ blocker.key.path
      ++ "`, which has no generic declaration; emitting one declaration per instantiation" }

/-- Demote the family at an index if another one blocks it. -/
def demoteAt (g : TypeGraph) (families : List Family) (index : Nat) :
    List Family × Diagnostics :=
  match families[index]? with
  | none => (families, [])
  | some family =>
    match blocker? families family with
    | none => (families, [])
    | some blocker =>
      (families.set index { family with policy := .specialized }, [demotionNote g family blocker])

/-- Look at the families with the given indices one after the other. -/
def demoteEach (g : TypeGraph) (families : List Family) :
    List Nat → List Family × Diagnostics
  | [] => (families, [])
  | i :: is =>
    let (families, ds) := demoteAt g families i
    let (families, ds') := demoteEach g families is
    (families, ds ++ ds')

/-- Look at all families until nothing is demoted any more. Every round but the
last demotes a family, so there are at most `fuel` rounds when there are fewer
families. -/
def demoteAll (g : TypeGraph) : Nat → List Family → List Family × Diagnostics
  | 0, families => (families, [])
  | fuel + 1, families =>
    match demoteEach g families (List.range families.length) with
    | (families, []) => (families, [])
    | (families, ds@(_ :: _)) =>
      let (families, ds') := demoteAll g fuel families
      (families, ds ++ ds')

/-! ## The plan of a graph -/

/-- Which templates of a graph are declared generically, with the reports. -/
def ofGraph (options : Options) (g : TypeGraph) : Plan × Diagnostics :=
  let grouped := grouped g
  if options.unifyTemplates then
    let familyOf (id : NodeId) := grouped.findIdx? (id ∈ ·.2)
    let decided := grouped.map (judge g familyOf)
    let families := decided.map (·.1)
    let (families, notes) := demoteAll g (families.length + 1) families
    (⟨families⟩, decided.flatMap (·.2) ++ notes)
  else (⟨grouped.map fun (key, ids) => ⟨key, ids, .specialized⟩⟩, [])

end Plan

end NativeBindings
