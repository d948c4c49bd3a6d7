import NativeBindings.Record.Basic

/-!
# Nodes of the type graph

A node describes one native type the way the bindings see it. Nodes do not
contain each other: every link is the position of another node in an arena, so
types may refer to themselves and to each other.

Of the links of a node, `spellingLinks` are those that its written name
depends on; the fields and bases of a user type are not among them.
-/

namespace NativeBindings

/-- The position of a node in its arena. -/
abbrev NodeId := Nat

namespace NodeId

/-- The node for `void`, which also stands for an unknown target. -/
abbrev void : NodeId := 0

/-- The node for a type outside the exported set. -/
abbrev unknown : NodeId := 1

/-- Whether a node is one of the two that every arena starts with. -/
def isPredefined (id : NodeId) : Bool :=
  id ≤ unknown

end NodeId

/-! ## Parts of nodes -/

/-- A constant of an enum. -/
structure EnumConstant where
  /-- Native name. -/
  name : String
  /-- Value. -/
  value : Int64
deriving DecidableEq, Inhabited

/-- An enum. -/
structure EnumType where
  /-- Identifier made from the last segment of the native name. -/
  name : String
  /-- Native name. -/
  nativeName : String
  /-- The integer type of its values. -/
  underlying : NodeId
  /-- Constants, in order. -/
  members : List EnumConstant
deriving DecidableEq, Inhabited

/-- A data member of a user type. -/
structure Field where
  /-- Native name. -/
  name : String
  /-- Type. -/
  type : NodeId
  /-- Byte offset. -/
  offset : UInt64
deriving DecidableEq, Inhabited

/-- How far the node of a user type is built. -/
inductive BuildState where
  /-- Bases and fields are still missing. -/
  | stub
  /-- Bases and fields are there. -/
  | populated
  /-- The node represents its type. -/
  | kept
  /-- Another node represents the type. -/
  | discarded (into : NodeId)
deriving DecidableEq, Repr, Inhabited

namespace BuildState

/-- The stages in order; the last two are final. -/
def rank : BuildState → Nat
  | stub => 0
  | populated => 1
  | kept | discarded _ => 2

/-- Whether a state may move on to another: only forward moves succeed. -/
def movesTo (s next : BuildState) : Bool :=
  s.rank < next.rank

/-- The state after an attempt to move on. -/
def advance (s next : BuildState) : BuildState :=
  if s.movesTo next then next else s

/-- Whether the node still counts. -/
def counts : BuildState → Bool
  | discarded _ => false
  | _ => true

/-- No attempt takes a state back. -/
theorem rank_le_rank_advance (s next : BuildState) : s.rank ≤ (s.advance next).rank := by
  unfold advance movesTo
  split <;> simp_all
  omega

/-- A final state stays. -/
theorem advance_of_final {s : BuildState} (h : s.rank = 2) (next : BuildState) :
    s.advance next = s := by
  have : next.rank ≤ 2 := by cases next <;> simp [rank]
  simp only [advance, movesTo, decide_eq_true_eq]
  rw [if_neg (by omega)]

end BuildState

/-- A struct, class or union, or the layout of one template instantiation. -/
structure UserType where
  /-- Identifier made from the last segment of the native name. -/
  name : String
  /-- Namespace, each segment made an identifier. -/
  scope : Option String
  /-- Native name. -/
  nativeName : String
  /-- Size in bytes. -/
  size : UInt64
  /-- Base classes, in order. -/
  bases : List NodeId
  /-- Data members, in order. -/
  fields : List Field
  /-- Whether this is the layout of an instantiation. -/
  isTemplate : Bool
  /-- The record it was made from. -/
  symbol : SymbolId
  /-- How far it is built. -/
  state : BuildState
deriving DecidableEq, Inhabited

/-! ## Nodes -/

/-- One native type. -/
inductive Node where
  /-- A scalar with a native name. -/
  | primitive (name : String)
  | pointer (target : NodeId)
  | array (element : NodeId)
  | enumeration (type : EnumType)
  | user (type : UserType)
  /-- A template applied to arguments; `layout` is the user type that says what
  the result looks like. -/
  | template (layout : NodeId) (arguments : List NodeId)
  /-- A symbol that was mentioned before its record, if it has one, was seen. -/
  | placeholder (symbol : SymbolId)
deriving DecidableEq, Inhabited

namespace Node

/-- The user type of a user node. -/
def userType? : Node → Option UserType
  | user u => some u
  | _ => none

/-- Whether the node is a user type or an instantiation. -/
def isClass : Node → Bool
  | user _ | template .. => true
  | _ => false

/-- Whether the node is an instantiation. -/
def isTemplate : Node → Bool
  | template .. => true
  | _ => false

/-- Whether the node waits for its record. -/
def isPlaceholder : Node → Bool
  | placeholder _ => true
  | _ => false

/-- The links that the written name of a node depends on. -/
def spellingLinks : Node → List NodeId
  | pointer t => [t]
  | array e => [e]
  | enumeration e => [e.underlying]
  | template _ args => args
  | primitive _ | user _ | placeholder _ => []

/-- The node with every link sent through a function. -/
def mapLinks (f : NodeId → NodeId) : Node → Node
  | pointer t => pointer (f t)
  | array e => array (f e)
  | enumeration e => enumeration { e with underlying := f e.underlying }
  | user u =>
    user { u with
      bases := u.bases.map f
      fields := u.fields.map fun d => { d with type := f d.type } }
  | template l args => template (f l) (args.map f)
  | primitive n => primitive n
  | placeholder s => placeholder s

/-- The names that a node mentions, in the order in which they are numbered. -/
def names : Node → List String
  | primitive n => [n]
  | enumeration e => e.name :: e.nativeName :: e.members.map (·.name)
  | user u => u.name :: u.scope.toList ++ u.nativeName :: u.fields.map (·.name)
  | pointer _ | array _ | template .. | placeholder _ => []

/-- Sending links through a function sends the spelling links through it. -/
theorem spellingLinks_mapLinks (f : NodeId → NodeId) (n : Node) :
    (n.mapLinks f).spellingLinks = n.spellingLinks.map f := by
  cases n <;> rfl

/-- Links go through two functions one after the other. -/
theorem mapLinks_mapLinks (f g : NodeId → NodeId) (n : Node) :
    (n.mapLinks f).mapLinks g = n.mapLinks (g ∘ f) := by
  cases n <;> simp [mapLinks]

end Node

end NativeBindings
