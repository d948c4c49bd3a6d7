import NativeBindings.Proofs.Graph.Duplicates
import NativeBindings.Proofs.Graph.RecordedNames

/-!
# Template arguments without a record

If references may go without a record, all of them become one unknown type, and that before
classes are identified. So two instantiations of one template over different symbols are taken
for one type if both symbols are missing (`TypeGraph.unknownBoxes_united`).

Two records end up at one node if and only if the records give them one identity
(`TypeGraph.nodeOf?_eq_iff`), and then their arguments are called alike one by one. A missing
argument is therefore only confused with another missing one, and with a type that has the
name of the unknown type.
-/

namespace NativeBindings

/-- Records of one identity spell references that are called alike. -/
theorem SymbolRecord.IdentifiedAs.exists_called {records : List SymbolRecord}
    {r r' : SymbolRecord} {key : Identity} (h : r.IdentifiedAs records key)
    (h' : r'.IdentifiedAs records key) {i : Nat} {s t : SymbolId} (hs : r.spelled[i]? = some s)
    (ht : r'.spelled[i]? = some t) :
    ∃ name, Called records (some s) name ∧ Called records (some t) name := by
  obtain ⟨-, args, hargs, rfl⟩ := h
  obtain ⟨-, args', hargs', hkey⟩ := h'
  obtain rfl : args = args' := congrArg Identity.arguments hkey
  obtain ⟨hi, rfl⟩ := List.getElem?_eq_some_iff.1 hs
  obtain ⟨hi', rfl⟩ := List.getElem?_eq_some_iff.1 ht
  have hlt : i < args.length := hargs.length_eq ▸ hi
  exact ⟨args[i], hargs.get hi hlt, hargs'.get hi' hlt⟩

namespace TypeGraph

variable {options : Options} {records : List SymbolRecord} {g : TypeGraph} {w : Diagnostics}

/-- Classes end up at one node if and only if they have an identity in common. -/
theorem nodeOf?_eq_iff (h : ofRecords options records = .ok (g, w)) {r r' : SymbolRecord}
    (hr : r ∈ records) (hr' : r' ∈ records) (hk : r.kind.isClass = true)
    (hk' : r'.kind.isClass = true) : g.nodeOf? r.id = g.nodeOf? r'.id ↔
      ∃ key, r.IdentifiedAs records key ∧ r'.IdentifiedAs records key := by
  obtain ⟨d, -, hspell, hs, hf⟩ := exists_finishes h
  have hends := (Arena.checkSpelling_eq_ok_iff fun _ _ => hs.spells_lt).1 hspell
  obtain ⟨id, hmem, hid⟩ := hs.exists_class hr hk
  obtain ⟨id', hmem', hid'⟩ := hs.exists_class hr' hk'
  obtain ⟨key, hkey⟩ := hs.exists_identity hmem
  have hiff {key : Identity} : d.arena.identity? id = some key ↔ r.IdentifiedAs records key :=
    Draft.identity?_eq_some_iff hs hends hr hid
  have hiff' {key : Identity} : d.arena.identity? id' = some key ↔ r'.IdentifiedAs records key :=
    Draft.identity?_eq_some_iff hs hends hr' hid'
  rw [hf.nodeOf? hid, hf.nodeOf? hid', hs.standIn_class hmem, hs.standIn_class hmem',
    Option.some.injEq]
  constructor
  · intro heq
    have hsame : d.arena.identity? id' = d.arena.identity? id := by
      rw [← Arena.identity?_firstLike hmem', ← heq, Arena.identity?_firstLike hmem]
    exact ⟨key, hiff.1 hkey, hiff'.1 (hsame.trans hkey)⟩
  · rintro ⟨key', hthis, hother⟩
    refine Arena.firstLike_eq_of_identity? hmem hmem' ?_
    rw [hiff.2 hthis, hiff'.2 hother]

/-- Two instantiations end up at one node if and only if they have an identity in common. So
they are kept apart by an argument without a record in one of them, if what the other has in its
place is not called like the unknown type. -/
theorem ofRecords_missing_apart (h : ofRecords options records = .ok (g, w))
    {r r' : SymbolRecord} (hr : r ∈ records) (hr' : r' ∈ records)
    (hk : r.kind = .templateInstantiation) (hk' : r'.kind = .templateInstantiation) :
    (g.nodeOf? r.id = g.nodeOf? r'.id ↔
      ∃ key, r.IdentifiedAs records key ∧ r'.IdentifiedAs records key) ∧
    ∀ (i : Nat) (s t : SymbolId), r.templateArguments[i]? = some s →
      r'.templateArguments[i]? = some t → s ∉ records.map (·.id) →
        ¬Called records (some t) Arena.unknownName → g.nodeOf? r.id ≠ g.nodeOf? r'.id := by
  have hiff := nodeOf?_eq_iff h hr hr' (by rw [hk]; rfl) (by rw [hk']; rfl)
  refine ⟨hiff, fun i s t hs ht hmissing hcalled heq => ?_⟩
  obtain ⟨key, hthis, hother⟩ := hiff.1 heq
  have hs' : r.spelled[i]? = some s := by simpa [SymbolRecord.spelled, hk] using hs
  have ht' : r'.spelled[i]? = some t := by simpa [SymbolRecord.spelled, hk'] using ht
  obtain ⟨name, hname, hname'⟩ := hthis.exists_called hother hs' ht'
  exact hcalled (hname.eq_unknownName hmissing ▸ hname')

/-- One template over two symbols without a record, and over a scalar. -/
def unknownBoxes : List SymbolRecord :=
  [.ofInstantiation ⟨1⟩ "Box<A>" 4 [⟨10⟩],
    .ofInstantiation ⟨2⟩ "Box<B>" 8 [⟨11⟩],
    .ofInstantiation ⟨3⟩ "Box<int>" 8 [⟨4⟩],
    .ofPrimitive ⟨4⟩ "int" 4]

/-- Over a missing symbol and over a scalar the template is not the same type. -/
theorem unknownBoxes_apart : ∃ g w,
    ofRecords { allowMissing := true } unknownBoxes = .ok (g, w) ∧
      g.nodeOf? ⟨1⟩ ≠ g.nodeOf? ⟨3⟩ := by
  obtain ⟨⟨g, w⟩, h⟩ : ∃ x, ofRecords { allowMissing := true } unknownBoxes = .ok x :=
    exists_eq_ok (by decide +kernel)
  have hbox : .ofInstantiation ⟨1⟩ "Box<A>" 4 [⟨10⟩] ∈ unknownBoxes := by simp [unknownBoxes]
  have hbox' : .ofInstantiation ⟨3⟩ "Box<int>" 8 [⟨4⟩] ∈ unknownBoxes := by simp [unknownBoxes]
  have hint : .ofPrimitive ⟨4⟩ "int" 4 ∈ unknownBoxes := by simp [unknownBoxes]
  have hcalled : ¬Called unknownBoxes (some ⟨4⟩) Arena.unknownName := by
    intro hcalled
    have hname : Arena.unknownName = String.ofList (Text.trim "int".toList) :=
      (called_iff_of_mem (by decide) hint).1 hcalled
    exact absurd hname (by decide)
  have happart := (ofRecords_missing_apart h hbox hbox' rfl rfl).2 0 ⟨10⟩ ⟨4⟩ rfl rfl (by decide)
  exact ⟨g, w, h, happart hcalled⟩

/-- Over two missing symbols it is taken for one, whose layout is that of the first record. -/
theorem unknownBoxes_united : ∃ g w,
    ofRecords { allowMissing := true } unknownBoxes = .ok (g, w) ∧
      g.nodeOf? ⟨1⟩ = some 2 ∧ g.nodeOf? ⟨2⟩ = some 2 :=
  exists_ofRecords_and (P := fun g => g.nodeOf? ⟨1⟩ = some 2 ∧ g.nodeOf? ⟨2⟩ = some 2)
    (by decide +kernel)

end TypeGraph

end NativeBindings
