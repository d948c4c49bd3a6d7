import NativeBindings.Record.Basic

/-!
# Failures

What cannot be put right ends the generation. A failure names the record that
is to blame.
-/

namespace NativeBindings

/-- Why no bindings are generated. -/
inductive Failure where
  /-- A mentioned symbol has no record. `field` is the field that mentions it, if one does. -/
  | missingRecord (id : SymbolId) (referrer : String) (field : Option String)
  /-- Two records have the same id. -/
  | repeatedSymbol (id : SymbolId) (name : String)
  /-- A record contradicts itself. -/
  | malformed (id : SymbolId) (name : String) (reason : String)
  /-- Classes derive from each other in a circle; the first is named again at the end. -/
  | circularBases (cycle : List String)
  /-- A placeholder is left when declarations are written. -/
  | placeholderLeft (id : SymbolId)
deriving DecidableEq, Repr, Inhabited

/-- A failure in words. -/
def Failure.message : Failure → String
  | missingRecord id referrer field =>
    let place := match field with
      | some f => " (field `" ++ f ++ "`)"
      | none => ""
    "type " ++ id.spelling ++ " referenced by `" ++ referrer ++ "`" ++ place
      ++ " has no symbol record"
  | repeatedSymbol id name =>
    "symbol id " ++ id.spelling ++ " is used by more than one record (`" ++ name ++ "`)"
  | malformed id name reason =>
    "malformed record " ++ id.spelling ++ " `" ++ name ++ "`: " ++ reason
  | circularBases cycle => "cyclic inheritance: " ++ " -> ".intercalate cycle
  | placeholderLeft id => "type " ++ id.spelling ++ " is still unresolved at emission"

end NativeBindings
