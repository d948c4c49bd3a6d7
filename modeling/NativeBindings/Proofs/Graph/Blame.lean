import NativeBindings.Proofs.Graph.Entering

/-!
# Failures that blame a record

Of the steps that build a graph all but one fail for what a single record says itself
(`Failure.Blames`). So where no reference is refused, a graph is never refused for a missing
record or for circular bases (`TypeGraph.finish_ne_error`).
-/

namespace NativeBindings

/-- Whether a failure is due to what a single record says itself. -/
def Failure.Blames : Failure → Prop
  | repeatedSymbol .. | malformed .. => True
  | missingRecord .. | circularBases _ | placeholderLeft _ => False

variable {e : Failure} (he : ¬e.Blames)

include he

/-- A computation all of whose failures blame does not fail with one that blames nothing. -/
theorem ne_error_of_blames {α : Type} {x : Except Failure α} (h : ∀ e', x = .error e' → e'.Blames) :
    x ≠ .error e :=
  fun hx => he (h e hx)

namespace Draft

/-- Entering a record only fails with what blames a record. -/
theorem enter_ne_error (d : Draft) (r : SymbolRecord) : d.enter r ≠ .error e := by
  refine ne_error_of_blames he fun e' h => ?_
  unfold enter at h
  split at h
  · obtain rfl := Except.error.inj h
    trivial
  · obtain ⟨-, -, rfl⟩ := writeRecord_eq_error h
    trivial

theorem ofRecords_ne_error (records : List SymbolRecord) : Draft.ofRecords records ≠ .error e :=
  bind_ne_error (foldlM_ne_error (enter_ne_error he) records _) fun _ => pure_ne_error _

end Draft

/-- The search for loops only fails with what blames a record. -/
theorem Arena.checkSpelling_ne_error (a : Arena) : a.checkSpelling ≠ .error e := by
  refine ne_error_of_blames he fun e' h => ?_
  unfold checkSpelling at h
  split at h
  · cases h
  · cases h
    trivial

namespace TypeGraph

/-- Checking bases only fails with what blames the class that has them. -/
theorem checkedBases_ne_error (a : Arena) (degraded : List NodeId) (u : UserType)
    (bases : List NodeId) : checkedBases a degraded u bases ≠ .error e := by
  induction bases with
  | nil => simp [checkedBases]
  | cons b bases ih =>
    unfold checkedBases
    split
    · exact map_ne_error ih
    · split
      · exact ih
      · exact ne_error_of_blames he fun e' h => Except.error.inj h ▸ trivial

theorem checkClass_ne_error (degraded : List NodeId) (a : Arena) (id : NodeId) :
    checkClass degraded a id ≠ .error e := by
  unfold checkClass
  split
  · simp
  · split
    · simp
    · exact map_ne_error (checkedBases_ne_error he a degraded _ _)

omit he in
/-- What is left to do when no reference dangles any more. -/
def finish (draft : Draft) (settled : Draft × Diagnostics) :
    Except Failure (TypeGraph × Diagnostics) := do
  settled.1.arena.checkSpelling
  let (arena, classes, conflicts) := settled.1.arena.unite settled.1.classes
  let arena ← classes.foldlM (checkClass (draft.dangling.map (·.1))) arena
  return ({ arena, classes }, settled.2 ++ conflicts)

omit he in
/-- A graph is built by making a draft, settling it and finishing it. -/
theorem ofRecords_eq_bind (options : Options) (records : List SymbolRecord) :
    ofRecords options records = Draft.ofRecords records >>= fun draft =>
      draft.settle options >>= finish draft :=
  rfl

/-- Finishing only fails with what blames a record. -/
theorem finish_ne_error (draft : Draft) (settled : Draft × Diagnostics) :
    finish draft settled ≠ .error e :=
  bind_ne_error (Arena.checkSpelling_ne_error he _) fun _ =>
    bind_ne_error (foldlM_ne_error (checkClass_ne_error he _) _ _) fun _ => pure_ne_error _

end TypeGraph

end NativeBindings
