import NativeBindings.Record.Basic

/-!
# Diagnostics

What can be put right while generating is put right and reported. Reports keep
the order in which they were made.
-/

namespace NativeBindings

/-- How much a finding matters. -/
inductive Severity where
  | warning
  | note
deriving DecidableEq, Repr, Inhabited

/-- The word for a severity. -/
def Severity.word : Severity → String
  | warning => "warning"
  | note => "note"

/-- What a finding is about. -/
inductive Finding where
  /-- The instantiations of a template differ too much for one declaration. -/
  | ambiguousTemplateGrouping
  /-- A reference without a record stands for the unknown type. -/
  | unresolvedReference
  /-- Two records of one type differ in size; the first one counts. -/
  | conflictingDuplicate
  /-- A generic declaration would need another that is not generic. -/
  | templateDemoted
  /-- A declaration got a number because its name was taken. -/
  | declarationRenamed
deriving DecidableEq, Repr, Inhabited

namespace Finding

/-- Every finding. -/
def all : List Finding :=
  [ambiguousTemplateGrouping, unresolvedReference, conflictingDuplicate, templateDemoted,
    declarationRenamed]

/-- How much a finding matters. -/
def severity : Finding → Severity
  | ambiguousTemplateGrouping | unresolvedReference | conflictingDuplicate => .warning
  | templateDemoted | declarationRenamed => .note

/-- The code of a finding. -/
def code : Finding → String
  | ambiguousTemplateGrouping => "ambiguous-template-grouping"
  | unresolvedReference => "unresolved-reference"
  | conflictingDuplicate => "conflicting-duplicate"
  | templateDemoted => "template-demoted"
  | declarationRenamed => "declaration-renamed"

/-- The finding with a code. -/
def ofCode? (code : String) : Option Finding :=
  all.find? (·.code == code)

/-- A finding is found by its code. -/
theorem ofCode?_code (f : Finding) : ofCode? f.code = some f := by
  cases f <;> rfl

end Finding

/-- A report. -/
structure Diagnostic where
  /-- What was found. -/
  finding : Finding
  /-- The report in words. -/
  message : String
  /-- The symbol that the report is about, when there is a single one. -/
  symbol : Option SymbolId := none
deriving DecidableEq, Repr, Inhabited

namespace Diagnostic

/-- How much a report matters. -/
def severity (d : Diagnostic) : Severity :=
  d.finding.severity

/-- A report as it is shown. -/
def text (d : Diagnostic) : String :=
  d.severity.word ++ "[" ++ d.finding.code ++ "]: " ++ d.message
    ++ match d.symbol with
      | some s => " (symbol " ++ s.spelling ++ ")"
      | none => ""

end Diagnostic

/-- Reports in the order in which they were made. -/
abbrev Diagnostics := List Diagnostic

namespace Diagnostics

/-- The reports about one kind of finding. -/
def ofFinding (ds : Diagnostics) (f : Finding) : Diagnostics :=
  ds.filter (·.finding == f)

/-- The number of warnings. -/
def warnings (ds : Diagnostics) : Nat :=
  ds.countP (·.severity == .warning)

/-- Whether there is a warning. -/
def anyWarning (ds : Diagnostics) : Bool :=
  ds.any (·.severity == .warning)

/-- There is a warning when their number is positive. -/
theorem anyWarning_iff (ds : Diagnostics) : ds.anyWarning ↔ 0 < ds.warnings := by
  simp [anyWarning, warnings, List.countP_pos_iff]

end Diagnostics

end NativeBindings
