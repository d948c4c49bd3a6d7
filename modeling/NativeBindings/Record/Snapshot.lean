import NativeBindings.Record.Basic
import NativeBindings.Wire.Bytes

/-!
# Record snapshots

A snapshot stores a list of symbol records as bytes: four letters that say what
it is, the version of the format, and then the records with all their members
in order. Bytes behind the last record are ignored.
-/

namespace NativeBindings

/-- Why bytes are no snapshot. -/
inductive SnapshotFault where
  /-- The bytes do not start like a snapshot. -/
  | badMagic
  /-- The format has another version. -/
  | unsupportedVersion (found : Nat)
  /-- The records cannot be read. -/
  | badPayload (fault : Wire.Fault)
deriving DecidableEq, Repr, Inhabited

namespace Snapshot

/-- The letters `SYMG`, with which every snapshot starts. -/
def magic : List UInt8 :=
  [0x53, 0x59, 0x4d, 0x47]

/-- The version of the format. -/
def version : UInt8 :=
  1

/-! ## Writing -/

/-- A symbol id. -/
def encodeId (id : SymbolId) : List UInt8 :=
  Wire.encodeVarint id.value.toNat

/-- A field. -/
def encodeField (f : FieldRecord) : List UInt8 :=
  Wire.encodeText f.name ++ encodeId f.typeId ++ Wire.encodeVarint f.offset.toNat

/-- An enumerator. -/
def encodeEnumerator (e : EnumeratorRecord) : List UInt8 :=
  Wire.encodeText e.name ++ Wire.encodeVarint (Wire.fold e.value.toInt)

/-- A record. -/
def encodeRecord (r : SymbolRecord) : List UInt8 :=
  encodeId r.id ++ Wire.encodeVarint r.kind.toNat ++ Wire.encodeText r.name
    ++ Wire.encodeVarint r.size.toNat ++ Wire.encodeOption encodeId r.element
    ++ Wire.encodeList encodeId r.bases ++ Wire.encodeList encodeField r.fields
    ++ Wire.encodeList encodeId r.templateArguments
    ++ Wire.encodeList encodeEnumerator r.enumerators

/-- A snapshot of records. -/
def encode (records : List SymbolRecord) : List UInt8 :=
  magic ++ version :: Wire.encodeList encodeRecord records

/-! ## Reading -/

/-- A number of 64 bits. -/
def word : Wire.Reader UInt64 :=
  UInt64.ofNat <$> Wire.varint .bits64

/-- A symbol id. -/
def readId : Wire.Reader SymbolId :=
  SymbolId.mk <$> word

/-- A kind. -/
def readKind : Wire.Reader SymbolKind := do
  match SymbolKind.ofNat? (← Wire.varint .bits32) with
  | some k => pure k
  | none => throw .unknownCase

/-- A field. -/
def readField : Wire.Reader FieldRecord :=
  FieldRecord.mk <$> Wire.text <*> readId <*> word

/-- The value of an enumerator. -/
def readValue : Wire.Reader Int64 :=
  (fun n => Int64.ofInt (Wire.unfold n)) <$> Wire.varint .bits64

/-- An enumerator. -/
def readEnumerator : Wire.Reader EnumeratorRecord :=
  EnumeratorRecord.mk <$> Wire.text <*> readValue

/-- A record. -/
def readRecord : Wire.Reader SymbolRecord :=
  SymbolRecord.mk <$> readId <*> readKind <*> Wire.text <*> word <*> Wire.option readId
    <*> Wire.list readId <*> Wire.list readField <*> Wire.list readId
    <*> Wire.list readEnumerator

/-- The records of a snapshot. -/
def decode (bytes : List UInt8) : Except SnapshotFault (List SymbolRecord) :=
  match bytes with
  | a :: b :: c :: d :: v :: payload =>
    if [a, b, c, d] ≠ magic then .error .badMagic
    else if v ≠ version then .error (.unsupportedVersion v.toNat)
    else
      match (Wire.list readRecord).run payload with
      | .ok (records, _) => .ok records
      | .error f => .error (.badPayload f)
  | _ => .error .badMagic

end Snapshot

end NativeBindings
