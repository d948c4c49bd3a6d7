import NativeBindings.Proofs.Graph.Acceptance
import NativeBindings.Proofs.Graph.FirstMention

/-!
# Who is to blame

A failure names a record, and what it says of the record is true (`Failure.BorneOut`): a symbol
without a record is referred to where the failure says, a symbol with several records has the
name of the second, and a record is refused for what it is. This holds of every failure to build
a graph (`TypeGraph.borneOut_of_ofRecords`).

Two of the complaints are made far from the record that they are about. Who referred to a missing
symbol is told by the ledger of the draft. And the depth-first search for rings may enter a ring
from outside, but the node that it meets again is on the ring, and only the symbol of that node's
record is bound to it (`Arena.Sound.symbolOf?_eq_some`).
-/

namespace NativeBindings

open Relation

/-- What a record is called when it is on a ring: pointers and arrays have no names. -/
def SymbolRecord.ringName (r : SymbolRecord) : String :=
  match r.kind with
  | .pointer => "pointer"
  | .array => "array"
  | _ => r.name

/-- Failures that say the truth about records. -/
inductive Failure.BorneOut (records : List SymbolRecord) : Failure → Prop
  /-- The symbol has no record, and what refers to it is the first place of all whose symbol has
  none: in a record of this name, and in this field of it if it is a field. -/
  | missingRecord {s : SymbolId} {referrer : String} {field : Option String}
    {before after : List (SymbolId × Mention)} (hs : s ∉ records.map (·.id))
    (hplaces : SymbolRecord.places records = before ++ (s, ⟨referrer, field⟩) :: after)
    (hbefore : ∀ p ∈ before, p.1 ∈ records.map (·.id)) :
    BorneOut records (.missingRecord s referrer field)
  /-- At least two records have the id, and the second of them has the name. -/
  | repeatedSymbol {s : SymbolId} {first second : SymbolRecord} {others : List SymbolRecord}
    (h : records.filter (·.id = s) = first :: second :: others) :
    BorneOut records (.repeatedSymbol s second.name)
  /-- The record is one of a primitive, and its name is blank. -/
  | unnamedPrimitive {r : SymbolRecord} (hr : r ∈ records) (hk : r.kind = .primitive)
    (hblank : ∀ c ∈ r.name.toList, Text.isBlank c = true) :
    BorneOut records (.malformed r.id r.name Draft.unnamedPrimitive)
  /-- The record is one of a class, and one of its bases has a record that is not. -/
  | badBase {r : SymbolRecord} (hr : r ∈ records) (hbad : r.HasBadBase records) (base : String) :
    BorneOut records (.malformed r.id r.name ("base `" ++ base ++ "` is not a class or struct"))
  /-- What the record's name depends on leads back to the record itself. -/
  | selfReference {r : SymbolRecord} (hr : r ∈ records)
    (hring : TransGen (SpelledWith records) r.id r.id) :
    BorneOut records (.malformed r.id r.ringName Arena.selfReference)

/-! ## Records that are not read -/

/-- The second record of an id is the one that is found to repeat it. -/
theorem SymbolRecord.filter_repeated {r : SymbolRecord} {before : List SymbolRecord}
    (hnodup : (before.map (·.id)).Nodup) (hmem : r.id ∈ before.map (·.id))
    (after : List SymbolRecord) : ∃ first others,
      (before ++ r :: after).filter (·.id = r.id) = first :: r :: others := by
  obtain ⟨first, hfirst, hid⟩ := List.mem_map.1 hmem
  have hone : before.filter (·.id = r.id) = [first] := by
    refine List.perm_singleton.1 ((List.perm_ext_iff_of_nodup ?_ (List.nodup_singleton _)).2 ?_)
    · exact (List.Nodup.of_map _ hnodup).filter _
    · intro other
      rw [List.mem_filter, List.mem_singleton, decide_eq_true_eq]
      constructor
      · rintro ⟨hother, heq⟩
        exact List.inj_on_of_nodup_map hnodup hother hfirst (heq.trans hid.symm)
      · rintro rfl
        exact ⟨hfirst, hid⟩
  exact ⟨first, after.filter (·.id = r.id), by simp [List.filter_append, hone]⟩

namespace Draft

variable {d : Draft} {r : SymbolRecord} {e : Failure}

/-- Records are not read as one of them repeats an id or is a primitive without a name. -/
theorem borneOut_of_reading {records : List SymbolRecord}
    (h : Draft.ofRecords records = .error e) : e.BorneOut records := by
  have hread : records.foldlM enter initial = .error e := by
    unfold Draft.ofRecords at h
    cases hd : records.foldlM enter initial with
    | ok d => simp [hd, bind, Except.bind, pure, Except.pure] at h
    | error e' =>
      rw [hd] at h
      exact h
  obtain ⟨before, r, after, d, rfl, hbefore, hr⟩ := exists_split_of_foldlM_error hread
  have hent := entered_initial.foldlM_enter hbefore
  rw [List.nil_append] at hent
  unfold enter at hr
  split at hr
  · next hrec =>
    obtain rfl := Except.error.inj hr
    obtain ⟨first, others, hfilter⟩ := SymbolRecord.filter_repeated hent.nodup
      (hent.hasRecord_iff.1 hrec) after
    exact .repeatedSymbol hfilter
  · obtain ⟨hk, hblank, rfl⟩ := writeRecord_eq_error hr
    exact .unnamedPrimitive (by simp) hk hblank

end Draft

/-! ## Rings -/

namespace Arena

/-- In a sound arena that binds no symbol twice, the symbol of a slot is the one bound to it. -/
theorem Sound.symbolOf?_eq_some {a : Arena} (h : a.Sound)
    (hnodup : (a.bindings.map (·.1)).Nodup) {s : SymbolId} {id : NodeId}
    (hs : a.slot? s = some id) : a.symbolOf? id = some s := by
  have hslot {p : SymbolId × NodeId} (hp : p ∈ a.bindings) : a.slot? p.1 = some p.2 := by
    obtain ⟨before, after, heq⟩ := List.append_of_mem hp
    refine List.lookup_eq_some_iff.2 ⟨before, after, heq, fun q hq => bne_iff_ne.2 fun hqp => ?_⟩
    rw [heq, List.map_append, List.nodup_append] at hnodup
    exact hnodup.2.2 q.1 (List.mem_map_of_mem hq) p.1 (by simp) hqp.symm
  have hone : (a.bindings.filter (·.2 == id)).map (·.1) = [s] := by
    refine List.perm_singleton.1 ((List.perm_ext_iff_of_nodup ?_ (List.nodup_singleton _)).2 ?_)
    · exact hnodup.sublist (List.filter_sublist.map _)
    · intro t
      rw [List.mem_singleton]
      constructor
      · intro ht
        obtain ⟨p, hp, rfl⟩ := List.mem_map.1 ht
        obtain ⟨hp, hid⟩ := List.mem_filter.1 hp
        exact h.slot_inj (eq_of_beq hid ▸ hslot hp) hs
      · rintro rfl
        obtain ⟨before, after, heq, -⟩ := List.lookup_eq_some_iff.1 hs
        exact List.mem_map.2 ⟨(t, id), List.mem_filter.2 ⟨by simp [heq], by simp⟩, rfl⟩
  rw [symbolOf?, hone]
  rfl

/-- What the search for rings meets again is on a ring. -/
theorem transGen_of_loop? {a : Arena} {id : NodeId} (h : a.loop? = some id) :
    TransGen a.Spells id id := by
  unfold loop? at h
  split at h
  · cases h
  · next looped hlooped =>
    obtain rfl := Option.some.inj h
    obtain ⟨x, -, done, hx⟩ := exists_of_foldlM_error hlooped
    exact transGen_of_explore (by simp) hx

variable {a : Arena} {records : List SymbolRecord} {classes : List NodeId}

/-- A record that is on a ring is called by its name, or by what it is. -/
theorem Settled.loopName_eq (h : a.Settled records classes) {r : SymbolRecord} (hr : r ∈ records)
    (hring : TransGen (SpelledWith records) r.id r.id) {id : NodeId}
    (hid : a.slot? r.id = some id) : a.loopName id = r.ringName := by
  have hspelled : r.spelled ≠ [] := by
    obtain ⟨t, ⟨r', hr', hsame, ht⟩, -⟩ := TransGen.head'_iff.1 hring
    obtain rfl := List.inj_on_of_nodup_map h.nodup hr' hr hsame
    exact List.ne_nil_of_mem ht
  obtain ⟨_, n, hid', hn, hdraw⟩ := h.drawn r hr
  obtain rfl := Option.some.inj (hid.symm.trans hid')
  unfold loopName SymbolRecord.ringName
  rw [hn]
  cases hdraw with
  | primitive hk => simp [SymbolRecord.spelled, hk] at hspelled
  | pointer hk | array hk | enumeration hk => simp [hk, Draft.enumType]
  | plain hk ha =>
    refine absurd ?_ hspelled
    cases hkind : r.kind <;>
      simp_all [SymbolRecord.spelled, SymbolRecord.isApplied, SymbolKind.isClass]
  | applied ha hargs hl hu =>
    simp only [SymbolRecord.kind_of_isApplied ha, hl]
    exact congrArg UserType.nativeName hu

/-- An arena that cannot be written is refused for a record on a ring. -/
theorem Settled.borneOut_of_checkSpelling (h : a.Settled records classes)
    (hnodup : (a.bindings.map (·.1)).Nodup) {e : Failure} (he : a.checkSpelling = .error e) :
    e.BorneOut records := by
  unfold checkSpelling at he
  split at he
  · cases he
  · next id hloop =>
    obtain ⟨r, hr, hid, hring⟩ := h.exists_record_of_ring (transGen_of_loop? hloop)
    obtain rfl := Except.error.inj he
    rw [h.sound.symbolOf?_eq_some hnodup hid, Option.getD_some, h.loopName_eq hr hring hid]
    exact .selfReference hr hring

end Arena

/-! ## Every failure -/

theorem Draft.settle_eq_error {d : Draft} {options : Options} {e : Failure}
    (h : d.settle options = .error e) :
    ∃ s referrer field, e = .missingRecord s referrer field := by
  unfold settle at h
  split at h
  · cases h
  · split at h
    · cases h
    · exact ⟨_, _, _, (Except.error.inj h).symm⟩

namespace TypeGraph

variable {options : Options} {records : List SymbolRecord}

/-- Where a settled draft can be written, what is refused is a base, and it is called what it
is. -/
theorem exists_eq_badBase {d : Draft} (hd : Draft.settled options records = .ok d)
    (hspell : d.arena.checkSpelling = .ok ()) {e : Failure}
    (h : ofRecords options records = .error e) : ∃ a u base, e = badBase a u base := by
  obtain ⟨draft, ws, hdraft, hsettle⟩ := Draft.settled_eq_ok_iff.1 hd
  simp only [ofRecords, hdraft, hsettle, hspell, bind, Except.bind] at h
  split at h
  · next hfail =>
    obtain rfl := Except.error.inj h
    obtain ⟨id, -, a, hid⟩ := exists_of_foldlM_error hfail
    obtain ⟨l, u, -, -, base, -, -, -, rfl⟩ := checkClass_eq_error hid
    exact ⟨a, u, base, rfl⟩
  · cases h

/-- Whatever a graph is not built for is true of the records. -/
theorem borneOut_of_ofRecords {e : Failure} (h : ofRecords options records = .error e) :
    e.BorneOut records := by
  cases hdraft : Draft.ofRecords records with
  | error e' =>
    rw [ofRecords_eq_bind, hdraft] at h
    obtain rfl := Except.error.inj h
    exact Draft.borneOut_of_reading hdraft
  | ok draft =>
    cases hsettle : draft.settle options with
    | error e' =>
      obtain ⟨s, referrer, field, rfl⟩ := Draft.settle_eq_error hsettle
      have hfail : ofRecords options records = .error (.missingRecord s referrer field) := by
        simp only [ofRecords_eq_bind, hdraft, hsettle, bind, Except.bind]
      obtain rfl := Except.error.inj (h.symm.trans hfail)
      obtain ⟨hs, before, after, hplaces, hbefore⟩ := exists_place_of_missingRecord h
      exact .missingRecord hs hplaces hbefore
    | ok x =>
      obtain ⟨d, ws⟩ := x
      have hd := Draft.settled_eq_ok_iff.2 ⟨draft, ws, hdraft, hsettle⟩
      cases hspell : d.arena.checkSpelling with
      | error e' =>
        have hnodup : (d.arena.bindings.map (·.1)).Nodup := by
          rw [(Draft.settle_spec hsettle).2.bindings]
          exact (Draft.remembers_ofRecords hdraft).nodup
        have hfail : ofRecords options records = .error e' := by
          simp only [ofRecords, hdraft, hsettle, hspell, bind, Except.bind]
        obtain rfl := Except.error.inj (h.symm.trans hfail)
        exact (Draft.settled_spec hd).borneOut_of_checkSpelling hnodup hspell
      | ok u =>
        obtain ⟨r, hr, -, hbad, reason, rfl⟩ := ofRecords_eq_error hd hspell h
        obtain ⟨a, u, base, hbase⟩ := exists_eq_badBase hd hspell h
        obtain ⟨-, -, rfl⟩ := Failure.malformed.inj hbase
        exact .badBase hr hbad _

/-- A pointer to an instantiation whose argument is an array of it. -/
def ringFromOutside : List SymbolRecord :=
  [.ofPointer ⟨1⟩ (some ⟨2⟩) 8,
    .ofInstantiation ⟨2⟩ "Tree<Tree[]>" 16 [⟨3⟩],
    .ofArray ⟨3⟩ (some ⟨2⟩) 32]

/-- The pointer only leads to the ring; the instantiation is on it and is to blame. -/
theorem ringFromOutside_borneOut :
    ofRecords {} ringFromOutside = .error (.malformed ⟨2⟩ "Tree<Tree[]>" Arena.selfReference) ∧
      (Failure.malformed ⟨2⟩ "Tree<Tree[]>" Arena.selfReference).BorneOut ringFromOutside := by
  have h : ofRecords {} ringFromOutside =
      .error (.malformed ⟨2⟩ "Tree<Tree[]>" Arena.selfReference) :=
    eq_error (by decide +kernel)
  exact ⟨h, borneOut_of_ofRecords h⟩

end TypeGraph

end NativeBindings
