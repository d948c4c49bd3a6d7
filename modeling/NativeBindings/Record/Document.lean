import NativeBindings.Json.Reader
import NativeBindings.Record.Basic

/-!
# Record documents

Symbol records come as a JSON array. A record is an object whose members may
stand in any order, or an array of all its members in order; the same holds of
fields and enumerators. Only the id and the kind of a record are required, and
members that mean nothing are skipped.
-/

namespace NativeBindings.SymbolRecord

open Json Json.Reader

/-! ## Members -/

/-- A symbol id. -/
def readId : Reader SymbolId :=
  SymbolId.mk <$> natural64

/-- The kind that a word names. -/
def kindOfWord (word : String) : Reader SymbolKind :=
  match SymbolKind.ofKeyword? word with
  | some k => pure k
  | none => refuse (.unknownVariant word (SymbolKind.all.map SymbolKind.keyword))

/-- A kind: a word, or an object with that word as its only key and `null` for a
value. An object without a member lacks the value. -/
def readKind : Reader SymbolKind := do
  match ← peek with
  | none => refuse .endInValue
  | some '"' => kindOfWord (← advance *> stringBody)
  | some '{' =>
    advance
    match ← nextKey true with
    | none => refuse .valueMissing
    | some word =>
      let kind ← kindOfWord word
      colon
      if (← peek) = some 'n' then Reader.word ['n', 'u', 'l', 'l'] else mismatch .unit
      match ← peek with
      | some '}' => advance *> pure kind
      | some _ => refuse .valueMissing
      | none => refuse .endInObject
  | some _ => refuse .valueMissing

/-! ## Fields and enumerators -/

/-- The members of a field that have been read. -/
structure FieldMembers where
  name : Option String := none
  typeId : Option SymbolId := none
  offset : Option UInt64 := none

/-- Read the member of a field that belongs to a key. -/
def FieldMembers.read (m : FieldMembers) : String → Reader FieldMembers
  | "name" => return { m with name := ← once "name" m.name text }
  | "typeId" => return { m with typeId := ← once "typeId" m.typeId readId }
  | "offset" => return { m with offset := ← once "offset" m.offset natural64 }
  | _ => ignored *> pure m

/-- The field that the members make up; every one is required. -/
def FieldMembers.finish (m : FieldMembers) : Except Fault FieldRecord := do
  let name ← required "name" m.name
  let typeId ← required "typeId" m.typeId
  let offset ← required "offset" m.offset
  return { name, typeId, offset }

/-- A field. -/
def readField : Reader FieldRecord :=
  let name := "FieldRecord"
  struct name
    (FieldRecord.mk <$> requiredAt name 3 0 text <*> requiredAt name 3 1 readId
      <*> requiredAt name 3 2 natural64)
    {} FieldMembers.read FieldMembers.finish

/-- The members of an enumerator that have been read. -/
structure EnumeratorMembers where
  name : Option String := none
  value : Option Int64 := none

/-- Read the member of an enumerator that belongs to a key. -/
def EnumeratorMembers.read (m : EnumeratorMembers) : String → Reader EnumeratorMembers
  | "name" => return { m with name := ← once "name" m.name text }
  | "value" => return { m with value := ← once "value" m.value integer64 }
  | _ => ignored *> pure m

/-- The enumerator that the members make up; both are required. -/
def EnumeratorMembers.finish (m : EnumeratorMembers) : Except Fault EnumeratorRecord := do
  let name ← required "name" m.name
  let value ← required "value" m.value
  return { name, value }

/-- An enumerator. -/
def readEnumerator : Reader EnumeratorRecord :=
  let name := "EnumeratorRecord"
  struct name (EnumeratorRecord.mk <$> requiredAt name 2 0 text <*> requiredAt name 2 1 integer64)
    {} EnumeratorMembers.read EnumeratorMembers.finish

/-! ## Records -/

/-- The members of a record that have been read. -/
structure Members where
  id : Option SymbolId := none
  kind : Option SymbolKind := none
  name : Option String := none
  size : Option UInt64 := none
  element : Option (Option SymbolId) := none
  bases : Option (List SymbolId) := none
  fields : Option (List FieldRecord) := none
  templateArguments : Option (List SymbolId) := none
  enumerators : Option (List EnumeratorRecord) := none

/-- Read the member of a record that belongs to a key. The element of a pointer
may also be called its pointee. -/
def Members.read (m : Members) : String → Reader Members
  | "id" => return { m with id := ← once "id" m.id readId }
  | "kind" => return { m with kind := ← once "kind" m.kind readKind }
  | "name" => return { m with name := ← once "name" m.name text }
  | "size" => return { m with size := ← once "size" m.size natural64 }
  | "elementId" | "pointeeId" =>
    return { m with element := ← once "elementId" m.element (optional readId) }
  | "baseTypeIds" => return { m with bases := ← once "baseTypeIds" m.bases (list readId) }
  | "fields" => return { m with fields := ← once "fields" m.fields (list readField) }
  | "templateArgumentIds" =>
    return { m with
      templateArguments := ← once "templateArgumentIds" m.templateArguments (list readId) }
  | "enumerators" =>
    return { m with enumerators := ← once "enumerators" m.enumerators (list readEnumerator) }
  | _ => ignored *> pure m

/-- The record that the members make up. -/
def Members.finish (m : Members) : Except Fault SymbolRecord := do
  let id ← required "id" m.id
  let kind ← required "kind" m.kind
  return {
    id, kind
    name := m.name.getD ""
    size := m.size.getD 0
    element := m.element.getD none
    bases := m.bases.getD []
    fields := m.fields.getD []
    templateArguments := m.templateArguments.getD []
    enumerators := m.enumerators.getD [] }

/-- The members of a record that is written as an array; those behind the kind
may be cut off at the end. -/
def readElements (name : String) : Reader SymbolRecord := do
  let id ← requiredAt name 9 0 readId
  let kind ← requiredAt name 9 1 readKind
  return {
    id, kind
    name := (← elementAt 2 text).getD ""
    size := (← elementAt 3 natural64).getD 0
    element := (← elementAt 4 (optional readId)).getD none
    bases := (← elementAt 5 (list readId)).getD []
    fields := (← elementAt 6 (list readField)).getD []
    templateArguments := (← elementAt 7 (list readId)).getD []
    enumerators := (← elementAt 8 (list readEnumerator)).getD [] }

/-- A record. -/
def read : Reader SymbolRecord :=
  struct "SymbolRecord" (readElements "SymbolRecord") {} Members.read Members.finish

/-- The records that a document holds. -/
def ofDocument (json : String) : Except Fault (List SymbolRecord) :=
  document (list read) json.toList

end NativeBindings.SymbolRecord
