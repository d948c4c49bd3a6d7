import NativeBindings.Proofs.Graph.Bases
import NativeBindings.Proofs.Graph.Entering

/-!
# Which records make a graph

A graph is built in five steps, and each of them may refuse the records. Together they refuse
what can be said of the records alone (`TypeGraph.exists_ofRecords_iff`): they can be read
(`Readable`), and no record that comes first with its identity has a base that is no class.
If every reference needs a record, this is `Acceptable`.

The last condition spares duplicates. A record with a bad base is refused when it comes first
(`TypeGraph.ofRecords_badBase`), and passes behind another record of its identity
(`TypeGraph.lateBase_accepted`).
-/

namespace NativeBindings

open Relation

/-- What building a graph asks of records before it looks at bases. -/
structure Readable (options : Options) (records : List SymbolRecord) : Prop where
  nodup : (records.map (·.id)).Nodup
  named : ∀ r ∈ records, r.Named
  recorded : options.allowMissing = true ∨
    ∀ r ∈ records, ∀ s ∈ r.followed, s ∈ records.map (·.id)
  acyclic : ∀ s, ¬TransGen (SpelledWith records) s s

/-- The records of a complete and well-formed set of types. -/
structure Acceptable (records : List SymbolRecord) : Prop where
  nodup : (records.map (·.id)).Nodup
  named : ∀ r ∈ records, r.kind = .primitive → ∃ c ∈ r.name.toList, Text.isBlank c = false
  recorded : ∀ r ∈ records, ∀ s ∈ r.followed, ∃ t ∈ records, t.id = s
  acyclic : ∀ s, ¬TransGen (SpelledWith records) s s
  bases : ∀ r ∈ records, r.kind.isClass = true → r.ComesFirst records →
    ∀ s ∈ r.bases, ∃ b ∈ records, b.id = s ∧ b.kind.isClass = true

/-- Records are readable if and only if they get as far as a settled draft that can be
written. -/
theorem readable_iff {options : Options} {records : List SymbolRecord} :
    Readable options records ↔
      ∃ d, Draft.settled options records = .ok d ∧ d.arena.checkSpelling = .ok () := by
  have hspell {d : Draft} (hd : Draft.settled options records = .ok d) :
      d.arena.checkSpelling = .ok () ↔ ∀ s, ¬TransGen (SpelledWith records) s s := by
    have hs := Draft.settled_spec hd
    rw [Arena.checkSpelling_eq_ok_iff fun _ _ => hs.spells_lt, hs.spellingEnds_iff]
  constructor
  · rintro ⟨hnodup, hnamed, hrecorded, hacyclic⟩
    obtain ⟨d, hd⟩ := Draft.exists_settled_iff.2 ⟨hnodup, hnamed, hrecorded⟩
    exact ⟨d, hd, (hspell hd).2 hacyclic⟩
  · rintro ⟨d, hd, hcheck⟩
    obtain ⟨hnodup, hnamed, hrecorded⟩ := Draft.exists_settled_iff.1 ⟨d, hd⟩
    exact ⟨hnodup, hnamed, hrecorded, (hspell hd).1 hcheck⟩

namespace TypeGraph

/-- Records that stand for themselves are those that come first. -/
theorem standFor_eq_self_iff_of_settled {options : Options} {records : List SymbolRecord}
    {d : Draft} (hd : Draft.settled options records = .ok d)
    (hspell : d.arena.checkSpelling = .ok ()) {r : SymbolRecord} (hr : r ∈ records)
    (hk : r.kind.isClass = true) : d.standFor records r = r ↔ r.ComesFirst records := by
  have hs := Draft.settled_spec hd
  have hends := (Arena.checkSpelling_eq_ok_iff fun _ _ => hs.spells_lt).1 hspell
  exact Draft.standFor_eq_self_iff hs hends hr hk

/-- A graph is built if and only if its records can be read and none that comes first has a
bad base. -/
theorem exists_ofRecords_iff {options : Options} {records : List SymbolRecord} :
    (∃ x, ofRecords options records = .ok x) ↔ Readable options records ∧
      ∀ r ∈ records, r.ComesFirst records → ¬r.HasBadBase records := by
  have hfirst {d : Draft} (hd : Draft.settled options records = .ok d)
      (hspell : d.arena.checkSpelling = .ok ()) : (∃ x, ofRecords options records = .ok x) ↔
        ∀ r ∈ records, r.ComesFirst records → ¬r.HasBadBase records := by
    rw [exists_ofRecords_iff_of_settled hd hspell]
    refine forall₂_congr fun r hr => ?_
    by_cases hk : r.kind.isClass = true
    · rw [standFor_eq_self_iff_of_settled hd hspell hr hk]
    · simp [SymbolRecord.HasBadBase, hk]
  constructor
  · rintro ⟨⟨g, w⟩, hg⟩
    obtain ⟨d, hd, hspell, -⟩ := exists_finishes hg
    exact ⟨readable_iff.2 ⟨d, hd, hspell⟩, (hfirst hd hspell).1 ⟨_, hg⟩⟩
  · rintro ⟨hread, hbases⟩
    obtain ⟨d, hd, hspell⟩ := readable_iff.1 hread
    exact (hfirst hd hspell).2 hbases

/-- If every reference needs a record, a graph is built if and only if the records are
acceptable. -/
theorem exists_ofRecords_iff_acceptable (options : Options) (records : List SymbolRecord) :
    (∃ x, ofRecords { options with allowMissing := false } records = .ok x) ↔
      Acceptable records := by
  rw [exists_ofRecords_iff]
  constructor
  · rintro ⟨⟨hnodup, hnamed, hrecorded, hacyclic⟩, hbad⟩
    have hall := hrecorded.resolve_left (by simp)
    have hrec : ∀ r ∈ records, ∀ s ∈ r.followed, ∃ t ∈ records, t.id = s :=
      fun r hr s hs => List.mem_map.1 (hall r hr s hs)
    refine ⟨hnodup, hnamed, hrec, hacyclic, fun r hr hk hfirst s hs => ?_⟩
    obtain ⟨b, hb, rfl⟩ := hrec r hr s (SymbolRecord.mem_followed.2 (Or.inr ⟨hk, Or.inl hs⟩))
    refine ⟨b, hb, rfl, ?_⟩
    by_contra hclass
    exact hbad r hr hfirst ⟨hk, b, hb, hs, Bool.eq_false_iff.2 hclass⟩
  · rintro ⟨hnodup, hnamed, hrecorded, hacyclic, hbases⟩
    refine ⟨⟨hnodup, hnamed, Or.inr fun r hr s hs => List.mem_map.2 (hrecorded r hr s hs),
      hacyclic⟩, ?_⟩
    rintro r hr hfirst ⟨hk, b, hb, hbase, hclass⟩
    obtain ⟨b', hb', hid, hclass'⟩ := hbases r hr hk hfirst b.id hbase
    obtain rfl := List.inj_on_of_nodup_map hnodup hb' hb hid
    rw [hclass] at hclass'
    cases hclass'

/-! ## Bad bases -/

/-- Whatever the options, a record with a bad base that comes first is refused; and if the
records can be read, nothing else is, and a record of this sort is to blame. -/
theorem ofRecords_badBase {options : Options} {records : List SymbolRecord} :
    (∀ r ∈ records, r.HasBadBase records → r.ComesFirst records →
      ∃ e, ofRecords options records = .error e) ∧
    (Readable options records → ∀ e, ofRecords options records = .error e →
      ∃ r ∈ records, r.HasBadBase records ∧ r.ComesFirst records ∧
        ∃ reason, e = Draft.blame r reason) := by
  refine ⟨fun r hr hbad hfirst => ?_, fun hread e he => ?_⟩
  · cases h : ofRecords options records with
    | error e => exact ⟨e, rfl⟩
    | ok x => exact absurd hbad ((exists_ofRecords_iff.1 ⟨x, h⟩).2 r hr hfirst)
  · obtain ⟨d, hd, hspell⟩ := readable_iff.1 hread
    obtain ⟨r, hr, hstand, hbad, hreason⟩ := ofRecords_eq_error hd hspell he
    exact ⟨r, hr, hbad, (standFor_eq_self_iff_of_settled hd hspell hr hbad.1).1 hstand, hreason⟩

/-- A class recorded twice, the first time with a scalar for a base. -/
def earlyBase : List SymbolRecord :=
  [(SymbolRecord.ofUserType ⟨1⟩ "A" 8).addBase ⟨3⟩,
    .ofUserType ⟨2⟩ "A" 8,
    .ofPrimitive ⟨3⟩ "int" 4]

/-- The same class, the second time with a scalar for a base. -/
def lateBase : List SymbolRecord :=
  [.ofUserType ⟨1⟩ "A" 8,
    (SymbolRecord.ofUserType ⟨2⟩ "A" 8).addBase ⟨3⟩,
    .ofPrimitive ⟨3⟩ "int" 4]

theorem readable_earlyBase : Readable {} earlyBase where
  nodup := by decide
  named := by
    unfold SymbolRecord.Named earlyBase
    simp only [List.forall_mem_cons]
    refine ⟨fun h => ?_, fun h => ?_, fun _ => ⟨'i', by decide, by decide⟩, by simp⟩
    · cases h
    · cases h
  recorded := Or.inr (by decide)
  acyclic s hring := by
    obtain ⟨t, ⟨r, hr, -, ht⟩, -⟩ := TransGen.head'_iff.1 hring
    have hnone : ∀ r ∈ earlyBase, r.spelled = [] := by decide
    simp [hnone r hr] at ht

/-- The first record is refused, and a record like it is to blame. -/
theorem earlyBase_refused : ∃ e, ofRecords {} earlyBase = .error e ∧
    ∃ r ∈ earlyBase, r.HasBadBase earlyBase ∧ r.ComesFirst earlyBase ∧
      ∃ reason, e = Draft.blame r reason := by
  have hbad : ∃ r ∈ earlyBase, r.HasBadBase earlyBase ∧ r.ComesFirst earlyBase :=
    ⟨(SymbolRecord.ofUserType ⟨1⟩ "A" 8).addBase ⟨3⟩, by simp [earlyBase],
      by unfold SymbolRecord.HasBadBase; decide, [], _, rfl, by simp⟩
  obtain ⟨r, hr, hrbad, hfirst⟩ := hbad
  obtain ⟨e, he⟩ := ofRecords_badBase.1 r hr hrbad hfirst
  exact ⟨e, he, ofRecords_badBase.2 readable_earlyBase e he⟩

/-- Behind a record of its identity the record with a bad base passes. -/
theorem lateBase_accepted : ∃ x, ofRecords {} lateBase = .ok x ∧
    ∃ r ∈ lateBase, r.HasBadBase lateBase := by
  obtain ⟨x, hx⟩ : ∃ x, ofRecords {} lateBase = .ok x := exists_eq_ok (by decide +kernel)
  exact ⟨x, hx, by unfold SymbolRecord.HasBadBase; decide +kernel⟩

end TypeGraph

end NativeBindings
