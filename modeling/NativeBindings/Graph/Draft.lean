import NativeBindings.Arena
import NativeBindings.Failure
import NativeBindings.Name.Identifier
import NativeBindings.Name.Qualified
import NativeBindings.Node.Scalar

/-!
# Drafts of a type graph

Records become nodes in two passes. The first writes one node per record into
the slot of its symbol, user types without their bases and fields; the second
fills those in. Whatever a record mentions has a slot by then, if only a
placeholder, so the node of a record is a function of the record and the slots.

A draft remembers who mentioned a symbol first, for the case that the symbol
turns out to have no record.
-/

namespace NativeBindings

/-- Where a symbol was first mentioned. -/
structure Mention where
  /-- Native name of the record that mentions it. -/
  referrer : String
  /-- The field that does, if it is a field. -/
  field : Option String
deriving DecidableEq, Repr, Inhabited

/-- A type graph that is being built. -/
structure Draft where
  /-- The nodes so far. -/
  arena : Arena
  /-- The slots of user types and instantiations, in record order. -/
  classes : List NodeId
  /-- The first mention of symbols that had no slot before. -/
  mentions : List (SymbolId × Mention)
deriving Inhabited

namespace Draft

/-- The draft without a record. -/
def initial : Draft :=
  { arena := .initial, classes := [], mentions := [] }

/-! ## Slots -/

/-- The slot of a symbol that was mentioned. -/
def slot (d : Draft) (s : SymbolId) : NodeId :=
  (d.arena.slot? s).getD .unknown

/-- The slot that a record's element goes to: without one it is `void`. -/
def linkTarget (d : Draft) (r : SymbolRecord) : NodeId :=
  match r.element with
  | some e => d.slot e
  | none => .void

/-- Give a record its slot. -/
def reserve (d : Draft) (s : SymbolId) : Draft :=
  { d with arena := (d.arena.reserve s).2 }

/-- Mention a symbol in a record, or in one of its fields. -/
def mention (d : Draft) (r : SymbolRecord) (field : Option String) (s : SymbolId) : Draft :=
  match d.arena.slot? s with
  | some _ => d
  | none => { d.reserve s with mentions := (s, ⟨r.name, field⟩) :: d.mentions }

/-- Mention several symbols in a record. -/
def mentionAll (d : Draft) (r : SymbolRecord) (ss : List SymbolId) : Draft :=
  ss.foldl (fun d s => d.mention r none s) d

/-- Mention the types of a record's fields. -/
def mentionFields (d : Draft) (r : SymbolRecord) : Draft :=
  r.fields.foldl (fun d f => d.mention r (some f.name) f.typeId) d

/-- Write a node into a slot. -/
def write (d : Draft) (id : NodeId) (n : Node) : Draft :=
  { d with arena := d.arena.write id n }

/-- Count a slot among the classes. -/
def addClass (d : Draft) (id : NodeId) : Draft :=
  { d with classes := d.classes ++ [id] }

/-! ## Nodes of records -/

/-- The name of a user type whose native name has no letter or digit. -/
def anonymous : String :=
  "Anonymous"

/-- The path in the bindings of a native namespace. -/
def scopePath (scope : List Char) : String :=
  "::".intercalate ((Name.segments scope).map fun s => String.ofList (Name.identifier s))

/-- The user type of a record, still without bases and fields. The argument
list of an instantiated name is no part of the type's own name. -/
def unfilled (r : SymbolRecord) (isTemplate : Bool) : UserType :=
  let (scope, last) := Name.split r.name.toList
  let base := if isTemplate then Name.withoutArguments last else last
  let ident := String.ofList (Name.identifier base)
  { name := if ident = "_" then anonymous else ident
    scope := scope.map scopePath
    nativeName := r.name
    size := r.size
    bases := []
    fields := []
    isTemplate
    symbol := r.id
    state := .stub }

/-- The enum of a record over an underlying type. -/
def enumType (r : SymbolRecord) (underlying : NodeId) : EnumType :=
  { name := String.ofList (Name.identifier (Name.split r.name.toList).2)
    nativeName := r.name
    underlying
    members := r.enumerators.map fun e => ⟨e.name, e.value⟩ }

/-- A failure that a record is to blame for. -/
def blame (r : SymbolRecord) (reason : String) : Failure :=
  .malformed r.id r.name reason

/-- Why a primitive without a name is refused. -/
def unnamedPrimitive : String :=
  "primitive type without a name"

/-- The slot of an enum's underlying type. Where the record names none, the
integer of the enum's size is shared by all enums of that size. -/
def underlying (d : Draft) (r : SymbolRecord) : NodeId × Draft :=
  match r.element with
  | some e =>
    let d := d.mention r none e
    (d.slot e, d)
  | none =>
    let (id, arena) := d.arena.sharedPrimitive (Scalar.enumInteger r.size)
    (id, { d with arena })

/-- Write the node of a record into its slot. -/
def writeRecord (d : Draft) (id : NodeId) (r : SymbolRecord) : Except Failure Draft :=
  match r.kind with
  | .primitive =>
    match Text.trim r.name.toList with
    | [] => .error (blame r unnamedPrimitive)
    | native@(_ :: _) => .ok (d.write id (.primitive (String.ofList native)))
  | .pointer =>
    let d := d.mentionAll r r.element.toList
    .ok (d.write id (.pointer (d.linkTarget r)))
  | .array =>
    let d := d.mentionAll r r.element.toList
    .ok (d.write id (.array (d.linkTarget r)))
  | .enumeration =>
    let (under, d) := d.underlying r
    .ok (d.write id (.enumeration (enumType r under)))
  | .userType => .ok ((d.addClass id).write id (.user (unfilled r false)))
  | .templateInstantiation =>
    let d := d.addClass id
    if r.templateArguments.isEmpty then .ok (d.write id (.user (unfilled r false)))
    else
      let (layout, arena) := d.arena.add (.user (unfilled r true))
      let d := { d with arena }.mentionAll r r.templateArguments
      .ok (d.write id (.template layout (r.templateArguments.map d.slot)))

/-! ## The two passes -/

/-- Whether a symbol already has a record. -/
def hasRecord (d : Draft) (s : SymbolId) : Bool :=
  match (d.arena.slot? s).bind d.arena.node? with
  | some n => !n.isPlaceholder
  | none => false

/-- First pass: give a record its slot and write its node there. -/
def enter (d : Draft) (r : SymbolRecord) : Except Failure Draft :=
  if d.hasRecord r.id then .error (.repeatedSymbol r.id r.name)
  else
    let d := d.reserve r.id
    d.writeRecord (d.slot r.id) r

/-- The user type of a record with its bases and fields. -/
def fillUser (d : Draft) (r : SymbolRecord) (u : UserType) : UserType :=
  { u with
    bases := r.bases.map d.slot
    fields := r.fields.map fun f => ⟨f.name, d.slot f.typeId, f.offset⟩
    state := u.state.advance .populated }

/-- Second pass: fill in the bases and fields of a user type. -/
def fill (d : Draft) (r : SymbolRecord) : Draft :=
  match (d.arena.slot? r.id).bind d.arena.layout? with
  | none => d
  | some layout =>
    let d := (d.mentionAll r r.bases).mentionFields r
    { d with arena := d.arena.updateUser layout (d.fillUser r) }

/-- The draft of all records after both passes. -/
def ofRecords (records : List SymbolRecord) : Except Failure Draft := do
  let d ← records.foldlM enter initial
  return (records.filter (·.kind.isClass)).foldl fill d

end Draft

end NativeBindings
