import NativeBindings.Declaration.Basic

/-!
# Bindings

Symbol records become declarations in three steps: the graph of their types, a
plan for the templates in it, and the declarations in order. Every step adds its
reports to those of the steps before it.
-/

namespace NativeBindings

/-- The bindings for a record list. -/
structure Bindings where
  /-- The declarations, bases first. -/
  declarations : List Declaration
  /-- Everything that was put right on the way. -/
  diagnostics : Diagnostics
deriving Inhabited

namespace Bindings

/-- The declarations as one text, with a blank line between two. -/
def text (b : Bindings) : String :=
  if b.declarations.isEmpty then ""
  else
    let text := "\n".intercalate (b.declarations.map (·.text))
    String.ofList (Text.trimEnd text.toList) ++ "\n"

/-- The bindings for a record list. -/
def ofRecords (options : Options) (records : List SymbolRecord) : Except Failure Bindings := do
  let (graph, warnings) ← TypeGraph.ofRecords options records
  let (plan, decisions) := Plan.ofGraph options graph
  let (declarations, notes) ← PlannedGraph.declarations options ⟨graph, plan⟩
  return { declarations, diagnostics := warnings ++ decisions ++ notes }

/-- One export among several. -/
structure Export where
  /-- Name of the export. -/
  name : String
  /-- Its records. -/
  records : List SymbolRecord
  /-- Its options. -/
  options : Options
deriving Inhabited

/-- The bindings for several independent exports, in their order. -/
def ofExports (exports : List Export) : List (Except Failure Bindings) :=
  exports.map fun e => ofRecords e.options e.records

end Bindings

end NativeBindings
