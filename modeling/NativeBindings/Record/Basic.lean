/-!
# Symbol records

A symbol backend describes each native type it knows by one record. Records
refer to each other by symbol id only, in no particular order: an id may stand
before the record it belongs to, and a record may refer to an id that has none.
-/

namespace NativeBindings

/-- The number a symbol backend gives to a native type. -/
structure SymbolId where
  /-- The number itself. -/
  value : UInt64
deriving DecidableEq, Repr, Inhabited

namespace SymbolId

/-- Symbol ids are compared by number. -/
instance : Min SymbolId := ⟨fun a b => if a.value ≤ b.value then a else b⟩

/-- A symbol id as messages spell it: `#7`. -/
def spelling (id : SymbolId) : String :=
  "#" ++ toString id.value.toNat

end SymbolId

/-- The kinds of native type that a backend reports. -/
inductive SymbolKind where
  | primitive
  | pointer
  | array
  | enumeration
  | userType
  | templateInstantiation
deriving DecidableEq, Repr, Inhabited

namespace SymbolKind

/-- Every kind, in the order that numbers them. -/
def all : List SymbolKind :=
  [primitive, pointer, array, enumeration, userType, templateInstantiation]

/-- The word for a kind in a record document. -/
def keyword : SymbolKind → String
  | primitive => "primitive"
  | pointer => "pointer"
  | array => "array"
  | enumeration => "enum"
  | userType => "userType"
  | templateInstantiation => "templateInstantiation"

/-- The number of a kind in a snapshot. -/
def toNat : SymbolKind → Nat
  | primitive => 0
  | pointer => 1
  | array => 2
  | enumeration => 3
  | userType => 4
  | templateInstantiation => 5

/-- The kind that a word names. -/
def ofKeyword? (word : String) : Option SymbolKind :=
  all.find? (·.keyword == word)

/-- The kind with a number. -/
def ofNat? (n : Nat) : Option SymbolKind :=
  all[n]?

/-- A kind is found by its word. -/
theorem ofKeyword?_keyword (k : SymbolKind) : ofKeyword? k.keyword = some k := by
  cases k <;> rfl

/-- A kind is found by its number. -/
theorem ofNat?_toNat (k : SymbolKind) : ofNat? k.toNat = some k := by
  cases k <;> rfl

/-- The kinds that get a declaration of their own. -/
def isClass : SymbolKind → Bool
  | userType | templateInstantiation => true
  | _ => false

end SymbolKind

/-- A data member of a native type. -/
structure FieldRecord where
  /-- Native name of the member. -/
  name : String
  /-- The member's type. -/
  typeId : SymbolId
  /-- Byte offset in the object. -/
  offset : UInt64
deriving DecidableEq, Repr, Inhabited

/-- A named constant of a native enum. -/
structure EnumeratorRecord where
  /-- Native name of the constant. -/
  name : String
  /-- Its value. -/
  value : Int64
deriving DecidableEq, Inhabited

/-- One native type. Its kind decides which members mean something: `element`
is what a pointer points to, what an array holds or the integer type of an
enum, and its absence is `void` or unknown; bases and fields belong to user
types and template instantiations; the name of an instantiation is the full
instantiated name. -/
structure SymbolRecord where
  /-- Id of the type. -/
  id : SymbolId
  /-- Kind of the type. -/
  kind : SymbolKind
  /-- Fully qualified native name. -/
  name : String := ""
  /-- Size in bytes. -/
  size : UInt64 := 0
  /-- Pointee, element or underlying type. -/
  element : Option SymbolId := none
  /-- Base classes, in order. -/
  bases : List SymbolId := []
  /-- Data members, in order. -/
  fields : List FieldRecord := []
  /-- Arguments of a template instantiation, in order. -/
  templateArguments : List SymbolId := []
  /-- Constants of an enum, in order. -/
  enumerators : List EnumeratorRecord := []
deriving DecidableEq, Inhabited

namespace SymbolRecord

/-! ## Records of each kind -/

/-- A scalar with a native name. -/
def ofPrimitive (id : SymbolId) (name : String) (size : UInt64) : SymbolRecord :=
  { id, kind := .primitive, name, size }

/-- A pointer; without a pointee it points to `void`. -/
def ofPointer (id : SymbolId) (pointee : Option SymbolId) (size : UInt64) : SymbolRecord :=
  { id, kind := .pointer, element := pointee, size }

/-- An array of an element type. -/
def ofArray (id : SymbolId) (element : Option SymbolId) (size : UInt64) : SymbolRecord :=
  { id, kind := .array, element, size }

/-- An enum with its underlying integer type, if one is known. -/
def ofEnumeration (id : SymbolId) (name : String) (size : UInt64) (underlying : Option SymbolId) :
    SymbolRecord :=
  { id, kind := .enumeration, name, size, element := underlying }

/-- A struct, class or union. -/
def ofUserType (id : SymbolId) (name : String) (size : UInt64) : SymbolRecord :=
  { id, kind := .userType, name, size }

/-- A template applied to arguments. -/
def ofInstantiation (id : SymbolId) (name : String) (size : UInt64) (args : List SymbolId) :
    SymbolRecord :=
  { id, kind := .templateInstantiation, name, size, templateArguments := args }

/-- The record with one more field. -/
def addField (r : SymbolRecord) (name : String) (typeId : SymbolId) (offset : UInt64) :
    SymbolRecord :=
  { r with fields := r.fields ++ [{ name, typeId, offset }] }

/-- The record with one more base. -/
def addBase (r : SymbolRecord) (base : SymbolId) : SymbolRecord :=
  { r with bases := r.bases ++ [base] }

/-- The record with one more enumerator. -/
def addEnumerator (r : SymbolRecord) (name : String) (value : Int64) : SymbolRecord :=
  { r with enumerators := r.enumerators ++ [{ name, value }] }

/-! ## References -/

/-- Every id that a record mentions: its element, its bases, the types of its
fields and its template arguments, in this order. -/
def references (r : SymbolRecord) : List SymbolId :=
  r.element.toList ++ r.bases ++ r.fields.map (·.typeId) ++ r.templateArguments

/-- A record mentions its element, its bases, its field types and its arguments, and
nothing else. -/
theorem mem_references {r : SymbolRecord} {id : SymbolId} :
    id ∈ r.references ↔
      r.element = some id ∨ id ∈ r.bases ∨ (∃ f ∈ r.fields, f.typeId = id) ∨
        id ∈ r.templateArguments := by
  simp [references]

end SymbolRecord

end NativeBindings
