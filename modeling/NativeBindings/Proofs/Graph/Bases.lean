import NativeBindings.Proofs.Graph.Duplicates
import NativeBindings.Proofs.Graph.RecordedNames

/-!
# Bases that are no classes

The last step of building a graph checks the bases of every class that is kept. So a record
with a base that is no class is refused if and only if it is the first one of its identity:
the bases of a duplicate are never looked at (`TypeGraph.exists_ofRecords_iff_of_settled`).

When the step fails, a record of this sort is to blame (`TypeGraph.ofRecords_eq_error`).
-/

namespace NativeBindings

/-- The record of a class, one of whose bases is no class. -/
def SymbolRecord.HasBadBase (records : List SymbolRecord) (r : SymbolRecord) : Prop :=
  r.kind.isClass = true ∧ ∃ b ∈ records, b.id ∈ r.bases ∧ b.kind.isClass = false

/-! ## Checks that fail -/

namespace TypeGraph

theorem checkedBases_eq_error {a : Arena} {degraded : List NodeId} {u : UserType}
    {bases : List NodeId} {e : Failure} (h : checkedBases a degraded u bases = .error e) :
    ∃ b ∈ bases, a.isClassAt b = false ∧ b ∉ degraded ∧ e = badBase a u b := by
  induction bases with
  | nil => cases h
  | cons b bases ih =>
    rw [checkedBases] at h
    change (if a.isClassAt b = true then _ else _) = _ at h
    have hrest (h : checkedBases a degraded u bases = .error e) :
        ∃ b' ∈ b :: bases, a.isClassAt b' = false ∧ b' ∉ degraded ∧ e = badBase a u b' := by
      obtain ⟨b', hb', hbad⟩ := ih h
      exact ⟨b', by simp [hb'], hbad⟩
    split at h
    · exact hrest (map_eq_error_iff.1 h)
    · next hclass =>
      split at h
      · exact hrest h
      · next hdegraded =>
        exact ⟨b, by simp, Bool.eq_false_iff.2 hclass, hdegraded, (Except.error.inj h).symm⟩

theorem checkClass_eq_error {degraded : List NodeId} {a : Arena} {id : NodeId} {e : Failure}
    (h : checkClass degraded a id = .error e) :
    ∃ l u, a.layout? id = some l ∧ a.user? l = some u ∧
      ∃ b ∈ u.bases, a.isClassAt b = false ∧ b ∉ degraded ∧ e = badBase a u b := by
  unfold checkClass at h
  split at h
  · cases h
  · next l hl =>
    split at h
    · cases h
    · next u hu => exact ⟨l, u, hl, hu, checkedBases_eq_error (map_eq_error_iff.1 h)⟩

/-- A check that fails blames one of the classes for one of its bases, however many classes were
checked before. Checking a class takes bases away alone, so those before do not matter. -/
theorem foldlM_checkClass_eq_error {degraded ids : List NodeId} {a : Arena} {e : Failure}
    (h : ids.foldlM (checkClass degraded) a = .error e) :
    ∃ id ∈ ids, ∃ l u, a.layout? id = some l ∧ a.user? l = some u ∧
      (∃ b ∈ u.bases, a.isClassAt b = false ∧ b ∉ degraded) ∧
        ∃ reason, e = .malformed u.symbol u.nativeName reason := by
  induction ids generalizing a with
  | nil => cases h
  | cons i ids ih =>
    rw [List.foldlM_cons] at h
    cases hi : checkClass degraded a i with
    | error e' =>
      rw [hi] at h
      obtain rfl := Except.error.inj h
      obtain ⟨l, u, hl, hu, b, hb, hclass, hdegraded, rfl⟩ := checkClass_eq_error hi
      exact ⟨i, by simp, l, u, hl, hu, ⟨b, hb, hclass, hdegraded⟩, _, rfl⟩
    | ok a₁ =>
      rw [hi] at h
      obtain ⟨hreb, hstep⟩ := checkClass_spec hi
      obtain ⟨id, hid, l, u₁, hl, hu₁, ⟨b, hb, hclass, hdegraded⟩, hblame⟩ := ih h
      rw [hreb.layout?] at hl
      rw [hreb.isClassAt] at hclass
      obtain ⟨u, hu⟩ := hreb.exists_user hu₁
      obtain ⟨hthis, hother⟩ := hstep hu
      by_cases hli : a.layout? i = some l
      · obtain rfl := Option.some.inj (hu₁.symm.trans (hthis hli).1)
        exact ⟨id, by simp [hid], l, u, hl, hu,
          ⟨b, (List.mem_filter.1 hb).1, hclass, hdegraded⟩, hblame⟩
      · obtain rfl := Option.some.inj (hu₁.symm.trans (hother hli))
        exact ⟨id, by simp [hid], l, _, hl, hu, ⟨b, hb, hclass, hdegraded⟩, hblame⟩

end TypeGraph

/-! ## Records to blame -/

theorem Arena.Settled.isClassAt_of_record {a : Arena} {records : List SymbolRecord}
    {classes : List NodeId} (h : a.Settled records classes) {r : SymbolRecord} (hr : r ∈ records)
    {id : NodeId} (hid : a.slot? r.id = some id) : a.isClassAt id = r.kind.isClass := by
  obtain ⟨_, n, hid', hn, hdraw⟩ := h.drawn r hr
  obtain rfl := Option.some.inj (hid.symm.trans hid')
  rw [isClassAt, hn]
  exact hdraw.isClass

namespace TypeGraph

variable {options : Options} {records : List SymbolRecord} {d : Draft}

/-- Where a settled draft can be written, building the graph fails for a bad base alone, and that of
a record that stands for itself. A base without a record was given up before. -/
theorem ofRecords_eq_error (hd : Draft.settled options records = .ok d)
    (hspell : d.arena.checkSpelling = .ok ()) {e : Failure}
    (h : ofRecords options records = .error e) :
    ∃ r ∈ records, d.standFor records r = r ∧ r.HasBadBase records ∧
      ∃ reason, e = Draft.blame r reason := by
  obtain ⟨draft, ws, hdraft, hsettle⟩ := Draft.settled_eq_ok_iff.1 hd
  have hs := Draft.settled_spec hd
  obtain ⟨-, hdeg⟩ := Draft.settle_spec hsettle
  have hrel := d.arena.unite_relinks d.classes
  have hcheck : (Identified.kept (d.arena.identified d.classes)).foldlM
      (checkClass (draft.dangling.map (·.1))) (d.arena.unite d.classes).1 = .error e := by
    simp only [ofRecords, hdraft, hsettle, hspell, bind, Except.bind] at h
    split at h
    · next hfail =>
      obtain rfl := Except.error.inj h
      exact hfail
    · cases h
  obtain ⟨id, hid, l, v, hl, hv, ⟨b, hb, hclass, hdegraded⟩, reason, rfl⟩ :=
    foldlM_checkClass_eq_error hcheck
  obtain ⟨hmem, hfirst⟩ := (Arena.mem_kept_iff fun _ => hs.exists_identity).1 hid
  obtain ⟨r, hr, hk, hslot⟩ := hs.mem_classes_iff.1 hmem
  obtain ⟨_, l', u, hslot', hl', hu, hfill⟩ := hs.filled r hr hk
  obtain rfl := Option.some.inj (hslot.symm.trans hslot')
  rw [hs.layout?_of_relinks hrel hmem hfirst] at hl
  obtain rfl := Option.some.inj (hl.symm.trans hl')
  obtain ⟨_, _, u', hslot', hl', hu', hhead⟩ := (hs.drawn r hr).exists_layout hk
  obtain rfl := Option.some.inj (hslot.symm.trans hslot')
  obtain rfl := Option.some.inj (hl.symm.trans hl')
  obtain rfl := Option.some.inj (hu.symm.trans hu')
  obtain ⟨v', hv', hvhead, hbases, -⟩ := hrel.user hu
  obtain rfl := Option.some.inj (hv.symm.trans hv')
  have hsymbol : v.symbol = r.id := congrArg UserType.symbol (hvhead.trans hhead)
  have hname : v.nativeName = r.name := congrArg UserType.nativeName (hvhead.trans hhead)
  refine ⟨r, hr, (hs.standFor_eq_iff hr hk hslot).2 hfirst, ⟨hk, ?_⟩, reason, ?_⟩
  · obtain ⟨t, ht, rfl⟩ := List.mem_map.1 (hbases ▸ hb)
    obtain ⟨s, hsbase, hst⟩ := hfill.bases.exists_slot? ht
    rw [hrel.isClassAt, hs.isClassAt_standIn] at hclass
    obtain ⟨n, hn⟩ := Arena.exists_node?_of_lt (hs.sound.slot_lt hst)
    have hstay := hs.standIn_of_not_class hn (by simpa [Arena.isClassAt, hn] using hclass)
    have hrec : s ∈ records.map (·.id) := by
      by_contra hmissing
      have hplace := (Draft.ofRecords_spec hdraft).1.waiting (hdeg.slot s ▸ hst) hmissing
      exact hdegraded (List.mem_map.2 ⟨(t, s), Draft.mem_dangling.2 hplace, hstay.symm⟩)
    obtain ⟨b, hbr, rfl⟩ := List.mem_map.1 hrec
    exact ⟨b, hbr, hsbase, (hs.isClassAt_of_record hbr hst).symm.trans hclass⟩
  · rw [hsymbol, hname]
    rfl

/-- Where a settled draft can be written, the graph is built if and only if no record that
stands for itself has a bad base. -/
theorem exists_ofRecords_iff_of_settled (hd : Draft.settled options records = .ok d)
    (hspell : d.arena.checkSpelling = .ok ()) : (∃ x, ofRecords options records = .ok x) ↔
      ∀ r ∈ records, d.standFor records r = r → ¬r.HasBadBase records := by
  constructor
  · rintro ⟨⟨g, w⟩, hg⟩ r hr hstand ⟨hk, b, hb, hbase, hclass⟩
    obtain ⟨d', hd', -, hs, hf⟩ := exists_finishes hg
    obtain rfl := Except.ok.inj (hd.symm.trans hd')
    obtain ⟨id, l, u, hid, hl, hu, hfill⟩ := hs.filled r hr hk
    have hmem : id ∈ d.classes := hs.mem_classes_iff.2 ⟨r, hr, hk, hid⟩
    have hkept := hf.mem_classes.2 ⟨hmem, (hs.standFor_eq_iff hr hk hid).1 hstand⟩
    obtain ⟨v, hv, -⟩ := hf.user hu
    obtain ⟨t, ht, hslot⟩ := hfill.bases.mem hbase
    have hbaseClass := (hf.bases hkept hl hu hv).2 b.id t ht hslot (List.mem_map_of_mem hb)
    rw [hs.isClassAt_of_record hb hslot, hclass] at hbaseClass
    cases hbaseClass
  · intro hnone
    cases h : ofRecords options records with
    | ok x => exact ⟨x, rfl⟩
    | error e =>
      obtain ⟨r, hr, hstand, hbad, -⟩ := ofRecords_eq_error hd hspell h
      exact absurd hbad (hnone r hr hstand)

end TypeGraph

end NativeBindings
