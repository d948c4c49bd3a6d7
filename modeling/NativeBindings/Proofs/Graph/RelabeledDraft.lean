import Mathlib.Data.List.Basic
import NativeBindings.Proofs.Arena.Relabeled
import NativeBindings.Proofs.Graph.Filling

/-!
# Drafts of records with other ids

Both passes over records keep step when every id is replaced by an injective function: they
fail for the same records, and if they do not, the drafts have the same nodes in the same places
up to the symbols (`Draft.ofRecords_agree`). The same holds of settling: references dangle in the
same slots, and there are warnings of the same kinds in the same order, for the replaced symbols
(`Draft.Relabels.settle`).
-/

namespace NativeBindings

variable {f : SymbolId → SymbolId}

/-- Reports of the same kinds in the same order, about the replaced symbols. -/
def Diagnostics.Relabels (f : SymbolId → SymbolId) (ds ds' : Diagnostics) : Prop :=
  ds'.map (fun x => (x.finding, x.symbol)) = ds.map fun x => (x.finding, x.symbol.map f)

/-- Reports are relabelled part by part. -/
theorem Diagnostics.Relabels.append {ds ds' es es' : Diagnostics}
    (h : Diagnostics.Relabels f ds ds') (h' : Diagnostics.Relabels f es es') :
    Diagnostics.Relabels f (ds ++ es) (ds' ++ es') := by
  simp only [Diagnostics.Relabels, List.map_append] at h h' ⊢
  rw [h, h']

namespace Draft

/-- The second draft is the first one with its symbols replaced. What they remember of first
mentions is not compared. -/
structure Relabels (f : SymbolId → SymbolId) (d d' : Draft) : Prop where
  arena : d'.arena = d.arena.relabel f
  classes : d'.classes = d.classes

/-- A record with other symbols starts as the same layout. -/
theorem unfilled_relabel (r : SymbolRecord) (isTemplate : Bool) :
    unfilled (r.relabel f) isTemplate = (unfilled r isTemplate).relabel f := by
  unfold unfilled UserType.relabel
  dsimp only
  rfl

namespace Relabels

variable {d d' : Draft} (h : d.Relabels f d') (hf : Function.Injective f)

include h

theorem write (id : NodeId) (n : Node) : (d.write id n).Relabels f (d'.write id (n.relabel f)) where
  arena := by
    simp only [Draft.write, h.arena]
    exact d.arena.write_relabel id n
  classes := h.classes

theorem addClass (id : NodeId) : (d.addClass id).Relabels f (d'.addClass id) where
  arena := h.arena
  classes := by simp only [Draft.addClass, h.classes]

/-- Another arena may be put into both drafts. -/
theorem withArena (a : Arena) :
    { d with arena := a }.Relabels f { d' with arena := a.relabel f } where
  arena := rfl
  classes := h.classes

include hf

/-- Other symbols have the same slots. -/
theorem slot_eq (s : SymbolId) : d'.slot (f s) = d.slot s := by
  rw [slot, h.arena, d.arena.slot?_relabel hf, slot]

/-- Elements are in the same places. -/
theorem linkTarget_eq (r : SymbolRecord) : d'.linkTarget (r.relabel f) = d.linkTarget r := by
  have helement : (r.relabel f).element = r.element.map f := rfl
  unfold linkTarget
  rw [helement]
  cases r.element with
  | none => rfl
  | some e => exact h.slot_eq hf e

/-- Which symbols have records is the same. -/
theorem hasRecord_eq (s : SymbolId) : d'.hasRecord (f s) = d.hasRecord s := by
  unfold hasRecord
  rw [h.arena, d.arena.slot?_relabel hf]
  cases d.arena.slot? s with
  | none => rfl
  | some id =>
    simp only [Option.bind_some, Arena.node?_relabel]
    cases d.arena.node? id <;> simp

theorem reserve (s : SymbolId) : (d.reserve s).Relabels f (d'.reserve (f s)) where
  arena := by
    simp only [Draft.reserve, h.arena, d.arena.reserve_relabel hf]
  classes := h.classes

/-- Mentioning other symbols makes the same places. -/
theorem mention (r : SymbolRecord) (field : Option String) (s : SymbolId) :
    (d.mention r field s).Relabels f (d'.mention (r.relabel f) field (f s)) where
  arena := by
    rw [arena_mention, arena_mention, h.arena, d.arena.reserve_relabel hf]
  classes := by rw [classes_mention, classes_mention, h.classes]

theorem mentionAll (r : SymbolRecord) (ss : List SymbolId) :
    (d.mentionAll r ss).Relabels f (d'.mentionAll (r.relabel f) (ss.map f)) where
  arena := by rw [arena_mentionAll, arena_mentionAll, h.arena, d.arena.reserveAll_relabel hf]
  classes := by rw [classes_mentionAll, classes_mentionAll, h.classes]

theorem mentionFields (r : SymbolRecord) :
    (d.mentionFields r).Relabels f (d'.mentionFields (r.relabel f)) where
  arena := by
    have htypes : (r.relabel f).fields.map (·.typeId) = (r.fields.map (·.typeId)).map f := by
      simp [SymbolRecord.relabel]
    rw [arena_mentionFields, arena_mentionFields, h.arena, htypes, d.arena.reserveAll_relabel hf]
  classes := by rw [classes_mentionFields, classes_mentionFields, h.classes]

/-- Enums have their underlying types in the same places. -/
theorem underlying (r : SymbolRecord) :
    (d'.underlying (r.relabel f)).1 = (d.underlying r).1 ∧
      (d.underlying r).2.Relabels f (d'.underlying (r.relabel f)).2 := by
  have helement : (r.relabel f).element = r.element.map f := rfl
  unfold Draft.underlying
  rw [helement]
  cases r.element with
  | some e =>
    have hmention := h.mention hf r none e
    exact ⟨hmention.slot_eq hf e, hmention⟩
  | none =>
    simp only [Option.map_none, h.arena, Arena.sharedPrimitive_relabel]
    exact ⟨rfl, h.withArena _⟩

/-! ## The first pass -/

/-- Records with other symbols are written alike, or refused alike. -/
theorem writeRecord (id : NodeId) (r : SymbolRecord) :
    Agree (Relabels f) (d.writeRecord id r) (d'.writeRecord id (r.relabel f)) := by
  have helement : (r.relabel f).element.toList = r.element.toList.map f := by
    simp only [SymbolRecord.relabel]
    cases r.element <;> rfl
  have hkind : (r.relabel f).kind = r.kind := rfl
  have hname : (r.relabel f).name = r.name := rfl
  unfold Draft.writeRecord
  rw [hkind]
  cases r.kind with
  | primitive =>
    simp only [hname]
    split
    · exact .error _ _
    · exact .ok (h.write id _)
  | pointer =>
    have hmention := h.mentionAll hf r r.element.toList
    simp only [helement, hmention.linkTarget_eq hf]
    exact .ok (hmention.write id _)
  | array =>
    have hmention := h.mentionAll hf r r.element.toList
    simp only [helement, hmention.linkTarget_eq hf]
    exact .ok (hmention.write id _)
  | enumeration =>
    obtain ⟨hunder, hmention⟩ := h.underlying hf r
    simp only [hunder]
    exact .ok (hmention.write id _)
  | userType =>
    simp only [unfilled_relabel]
    exact .ok ((h.addClass id).write id (.user (unfilled r false)))
  | templateInstantiation =>
    have hargs : (r.relabel f).templateArguments = r.templateArguments.map f := rfl
    simp only [hargs, List.isEmpty_map, unfilled_relabel]
    split
    · exact .ok ((h.addClass id).write id (.user (unfilled r false)))
    · have hadd := (d.addClass id).arena.add_relabel (f := f) (.user (unfilled r true))
      simp only [Node.relabel] at hadd
      simp only [(h.addClass id).arena, hadd]
      have hmention := ((h.addClass id).withArena
        ((d.addClass id).arena.add (.user (unfilled r true))).2).mentionAll hf r r.templateArguments
      simp only [List.map_map, Function.comp_def, hmention.slot_eq hf]
      exact .ok (hmention.write id (.template _ _))

/-- Records with other symbols are entered alike, or refused alike. -/
theorem enter (r : SymbolRecord) : Agree (Relabels f) (d.enter r) (d'.enter (r.relabel f)) := by
  have hid : (r.relabel f).id = f r.id := rfl
  unfold Draft.enter
  rw [hid, h.hasRecord_eq hf]
  split
  · exact .error _ _
  · have hreserve := h.reserve hf r.id
    simp only [hreserve.slot_eq hf]
    exact hreserve.writeRecord hf _ r

/-! ## The second pass -/

theorem fillUser_eq (r : SymbolRecord) (u : UserType) :
    d'.fillUser (r.relabel f) (u.relabel f) = (d.fillUser r u).relabel f := by
  simp only [fillUser, SymbolRecord.relabel, UserType.relabel, List.map_map, Function.comp_def,
    h.slot_eq hf]

/-- Records with other symbols fill the same layouts. -/
theorem fill (r : SymbolRecord) : (d.fill r).Relabels f (d'.fill (r.relabel f)) := by
  have hid : (r.relabel f).id = f r.id := rfl
  have hbases : (r.relabel f).bases = r.bases.map f := rfl
  have hlayout : (d.arena.relabel f).layout? = d.arena.layout? := funext (d.arena.layout?_relabel ·)
  unfold Draft.fill
  rw [h.arena, hid, d.arena.slot?_relabel hf, hlayout]
  cases (d.arena.slot? r.id).bind d.arena.layout? with
  | none => exact h
  | some l =>
    have hmention := (h.mentionAll hf r r.bases).mentionFields hf r
    simp only [hbases, hmention.arena]
    rw [Arena.updateUser_relabel _ l (hmention.fillUser_eq hf r)]
    exact hmention.withArena _

theorem foldl_fill (rs : List SymbolRecord) :
    (rs.foldl Draft.fill d).Relabels f ((rs.map (·.relabel f)).foldl Draft.fill d') := by
  induction rs generalizing d d' with
  | nil => exact h
  | cons r rs ih => exact ih (h.fill hf r)

end Relabels

/-- Without records there are no symbols. -/
theorem relabels_initial : initial.Relabels f initial where
  arena := by simp [initial, Arena.initial_eq, Arena.relabel, Node.relabel]
  classes := rfl

/-- Both passes keep step when ids are replaced. -/
theorem ofRecords_agree (hf : Function.Injective f) (records : List SymbolRecord) :
    Agree (Relabels f) (ofRecords records) (ofRecords (records.map (·.relabel f))) := by
  have hclasses : (records.map (·.relabel f)).filter (·.kind.isClass) =
      (records.filter (·.kind.isClass)).map (·.relabel f) := by
    rw [List.filter_map]
    rfl
  unfold ofRecords
  rw [hclasses]
  have hfirst : Agree (Relabels f) (records.foldlM enter initial)
      ((records.map (·.relabel f)).foldlM enter initial) :=
    Agree.foldlM (fun _ _ r h => h.enter hf r) records relabels_initial
  exact hfirst.bind fun _ _ _ h => .ok (h.foldl_fill hf _)

/-! ## Settling -/

namespace Relabels

variable {d d' : Draft} (h : d.Relabels f d')

include h

/-- The same places dangle. -/
theorem dangling_eq : d'.dangling = d.dangling.map fun x => (x.1, f x.2) := by
  have hentries : d'.arena.entries = d.arena.entries.map fun x => (x.1, x.2.relabel f) := by
    simp only [Arena.entries, h.arena, Arena.relabel, Array.toList_map, List.zipIdx_map,
      List.map_map, Function.comp_def]
    rfl
  unfold dangling
  rw [hentries, List.filterMap_map, List.map_filterMap]
  refine List.filterMap_congr fun x _ => ?_
  obtain ⟨id, n⟩ := x
  cases n <;> rfl

/-- The same places are given up. -/
theorem degrade : d.degrade.Relabels f d'.degrade where
  arena := by
    simp only [Draft.degrade, h.arena, h.dangling_eq, List.foldl_map]
    generalize d.arena = a
    induction d.dangling generalizing a with
    | nil => rfl
    | cons x xs ih =>
      have hwrite := a.write_relabel (f := f) x.1 (.primitive Arena.unknownName)
      rw [List.foldl_cons, List.foldl_cons, ← ih, ← hwrite]
      rfl
  classes := h.classes

/-- The same warnings are given, about other symbols. -/
theorem danglingWarnings : Diagnostics.Relabels f d.danglingWarnings d'.danglingWarnings := by
  simp only [Diagnostics.Relabels, Draft.danglingWarnings, h.dangling_eq, List.map_map,
    Function.comp_def, unresolvedWarning, Option.map_some]

/-- Settling keeps step. -/
theorem settle (options : Options) :
    Agree (fun x x' => x.1.Relabels f x'.1 ∧ Diagnostics.Relabels f x.2 x'.2)
      (d.settle options) (d'.settle options) := by
  unfold Draft.settle
  rw [h.dangling_eq]
  cases d.dangling with
  | nil => exact .ok ⟨h, rfl⟩
  | cons x xs =>
    simp only [List.map_cons]
    split
    · exact .ok ⟨h.degrade, h.danglingWarnings⟩
    · exact .error _ _

end Relabels

end Draft

end NativeBindings
