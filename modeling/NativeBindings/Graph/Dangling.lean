import NativeBindings.Options
import NativeBindings.Diagnostic
import NativeBindings.Graph.Draft

/-!
# Dangling references

After both passes a placeholder belongs to a symbol without a record. It is
either refused or made the unknown type, with a warning for each.
-/

namespace NativeBindings.Draft

/-- The slots whose symbol has no record, in slot order. -/
def dangling (d : Draft) : List (NodeId × SymbolId) :=
  d.arena.entries.filterMap fun (id, n) =>
    match n with
    | .placeholder s => some (id, s)
    | _ => none

/-- Where a symbol was first mentioned. -/
def mentionOf (d : Draft) (s : SymbolId) : Mention :=
  (d.mentions.lookup s).getD ⟨"", none⟩

/-- The warning for a symbol that stands for the unknown type. -/
def unresolvedWarning (s : SymbolId) (m : Mention) : Diagnostic :=
  let place := match m.field with
    | some f => m.referrer ++ "::" ++ f
    | none => m.referrer
  { finding := .unresolvedReference
    symbol := some s
    message := "type " ++ s.spelling ++ " used by `" ++ place ++ "` has no record; using `"
      ++ Arena.unknownName ++ "`" }

/-- The draft with the unknown type in every dangling slot. -/
def degrade (d : Draft) : Draft :=
  let unknown : Node := .primitive Arena.unknownName
  { d with arena := d.dangling.foldl (fun a slot => a.write slot.1 unknown) d.arena }

/-- The warnings for all dangling slots. -/
def danglingWarnings (d : Draft) : Diagnostics :=
  d.dangling.map fun (_, s) => unresolvedWarning s (d.mentionOf s)

/-- Refuse the first dangling reference, or degrade all of them. -/
def settle (d : Draft) (options : Options) : Except Failure (Draft × Diagnostics) :=
  match d.dangling with
  | [] => .ok (d, [])
  | (_, s) :: _ =>
    if options.allowMissing then .ok (d.degrade, d.danglingWarnings)
    else
      let m := d.mentionOf s
      .error (.missingRecord s m.referrer m.field)

end NativeBindings.Draft
