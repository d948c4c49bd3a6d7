import NativeBindings.Record.Document
import NativeBindings.Record.Snapshot

/-!
# Records that cannot be loaded

Records come from a document or from a snapshot. Both may be at fault, and the
wording of either is collected here.
-/

namespace NativeBindings

/-- Why records cannot be loaded. -/
inductive RecordFault where
  | document (fault : Json.Fault)
  | snapshot (fault : SnapshotFault)
deriving Inhabited

/-- A fault in words. -/
def RecordFault.message : RecordFault → String
  | document f => "invalid symbol record JSON: " ++ f.message
  | snapshot .badMagic => "not a record snapshot (bad magic)"
  | snapshot (.unsupportedVersion found) =>
    "unsupported record snapshot version " ++ toString found ++ " (expected "
      ++ toString Snapshot.version.toNat ++ ")"
  | snapshot (.badPayload f) => "invalid record snapshot: " ++ f.message

/-- Load records from a document. -/
def loadDocument (json : String) : Except RecordFault (List SymbolRecord) :=
  (SymbolRecord.ofDocument json).mapError .document

/-- Load records from a snapshot. -/
def loadSnapshot (bytes : List UInt8) : Except RecordFault (List SymbolRecord) :=
  (Snapshot.decode bytes).mapError .snapshot

end NativeBindings
