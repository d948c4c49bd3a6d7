import Mathlib.Data.List.TakeWhile
import NativeBindings.Proofs.Graph.SpelledRing

/-!
# Which records can be read

Reading records fails in three ways. A symbol may have a record already, and a primitive may
have no name (`Draft.exists_ofRecords_iff`). The third way shows after both passes: a
symbol that a record refers to may have no record (`Draft.exists_settled_iff`).

Slots are given to symbols of records and to symbols that records refer to, and to no others
(`Arena.SlotsIn`). So a reference dangles only where some record follows it
(`SymbolRecord.followed`), in whatever order records and references come.
-/

namespace NativeBindings

theorem Text.trim_eq_nil_iff {s : List Char} : trim s = [] ↔ ∀ c ∈ s, isBlank c = true := by
  have hstart (t : List Char) : trimStart t = [] ↔ ∀ c ∈ t, isBlank c = true :=
    List.dropWhile_eq_nil_iff
  rw [trim, trimEnd, List.reverse_eq_nil_iff, hstart (trimStart s).reverse, ← hstart s]
  refine ⟨fun hall => ?_, fun h => by simp [h]⟩
  cases h : trimStart s with
  | nil => rfl
  | cons c r =>
    have hblank := hall c (by simp [h])
    rw [head_trimStart h] at hblank
    cases hblank

namespace SymbolRecord

/-- Whether a record has the name that its kind needs: that of a primitive is not blank. -/
def Named (r : SymbolRecord) : Prop :=
  r.kind = .primitive → ∃ c ∈ r.name.toList, Text.isBlank c = false

/-- The ids that a record is read with: what its name depends on, and the bases and field types
of a class. -/
def followed (r : SymbolRecord) : List SymbolId :=
  r.spelled ++ if r.kind.isClass then r.bases ++ r.fields.map (·.typeId) else []

/-- A record refers to what it is spelled with and, if it is a class, to its bases and the types of
its fields. -/
theorem mem_followed {r : SymbolRecord} {s : SymbolId} : s ∈ r.followed ↔
    s ∈ r.spelled ∨ r.kind.isClass = true ∧ (s ∈ r.bases ∨ s ∈ r.fields.map (·.typeId)) := by
  unfold followed
  cases r.kind.isClass <;> simp

end SymbolRecord

namespace Draft

/-! ## Records that are read -/

/-- A record is written unless it is a primitive without a name. -/
theorem exists_writeRecord_iff {d : Draft} {id : NodeId} {r : SymbolRecord} :
    (∃ d', d.writeRecord id r = .ok d') ↔ r.Named := by
  unfold writeRecord SymbolRecord.Named
  cases hk : r.kind with
  | primitive =>
    have htrim := Text.trim_eq_nil_iff (s := r.name.toList)
    simp only [forall_const]
    split
    · next hnil =>
      have hblank := htrim.1 hnil
      simpa using hblank
    · next hcons =>
      have hname := mt htrim.2 (by simp [hcons])
      simpa using hname
  | templateInstantiation => cases r.templateArguments.isEmpty <;> simp
  | _ => simp

/-- Only a primitive without a name is not written. -/
theorem writeRecord_eq_error {d : Draft} {id : NodeId} {r : SymbolRecord} {e : Failure}
    (h : d.writeRecord id r = .error e) :
    r.kind = .primitive ∧ (∀ c ∈ r.name.toList, Text.isBlank c = true) ∧
      e = .malformed r.id r.name unnamedPrimitive := by
  unfold writeRecord at h
  cases hk : r.kind with
  | primitive =>
    simp only [hk] at h
    split at h
    · next hnil => exact ⟨rfl, Text.trim_eq_nil_iff.1 hnil, (Except.error.inj h).symm⟩
    · cases h
  | templateInstantiation =>
    simp only [hk] at h
    split at h <;> cases h
  | _ =>
    simp only [hk] at h
    cases h

namespace Entered

variable {d : Draft} {rs : List SymbolRecord} {r : SymbolRecord}

/-- Nothing but a record occupies the slot of a symbol. -/
theorem hasRecord_iff (h : d.Entered rs) {s : SymbolId} :
    d.hasRecord s = true ↔ s ∈ rs.map (·.id) := by
  constructor
  · intro hrec
    by_contra hmem
    unfold hasRecord at hrec
    cases hs : d.arena.slot? s with
    | none => simp [hs] at hrec
    | some id => simp [hs, h.waiting hs hmem, Node.isPlaceholder] at hrec
  · intro hmem
    obtain ⟨r, hr, rfl⟩ := List.mem_map.1 hmem
    obtain ⟨id, n, hid, hn, hdraw⟩ := h.drawn r hr
    simp [hasRecord, hid, hn, hdraw.isPlaceholder]

/-- A record is entered if its id is new and it can be written. -/
theorem exists_enter_iff (h : d.Entered rs) :
    (∃ d', d.enter r = .ok d') ↔ r.id ∉ rs.map (·.id) ∧ r.Named := by
  rw [← h.hasRecord_iff]
  unfold Draft.enter
  split
  · next hrec => simp [hrec]
  · next hrec => simp [hrec, exists_writeRecord_iff]

/-- Records are read if and only if their symbols are new and those that need a name have
one. -/
theorem exists_foldlM_enter_iff (h : d.Entered rs) {rs' : List SymbolRecord} :
    (∃ d', rs'.foldlM Draft.enter d = .ok d') ↔
      ((rs ++ rs').map (·.id)).Nodup ∧ ∀ r ∈ rs', r.Named := by
  induction rs' generalizing d rs with
  | nil => simpa [pure, Except.pure] using h.nodup
  | cons r rs' ih =>
    simp only [foldlM_cons_eq_ok_iff]
    constructor
    · rintro ⟨d', d₁, hd₁, hrest⟩
      obtain ⟨hnodup, hnamed⟩ := (ih (h.enter hd₁)).1 ⟨d', hrest⟩
      exact ⟨by simpa using hnodup,
        List.forall_mem_cons.2 ⟨(h.exists_enter_iff.1 ⟨d₁, hd₁⟩).2, hnamed⟩⟩
    · rintro ⟨hnodup, hnamed⟩
      obtain ⟨hr, hrs'⟩ := List.forall_mem_cons.1 hnamed
      have hnew : r.id ∉ rs.map (·.id) := by
        rw [List.map_append, List.nodup_append] at hnodup
        exact fun hmem => hnodup.2.2 _ hmem r.id (by simp) rfl
      obtain ⟨d₁, hd₁⟩ := h.exists_enter_iff.2 ⟨hnew, hr⟩
      obtain ⟨d', hrest⟩ := (ih (h.enter hd₁)).2 ⟨by simpa using hnodup, hrs'⟩
      exact ⟨d', d₁, hd₁, hrest⟩

end Entered

/-- Records make a draft if their ids are different and all of them can be written. -/
theorem exists_ofRecords_iff {records : List SymbolRecord} :
    (∃ d, Draft.ofRecords records = .ok d) ↔
      (records.map (·.id)).Nodup ∧ ∀ r ∈ records, r.Named := by
  have hread : (∃ d', records.foldlM enter initial = .ok d') ↔
      ((([] : List SymbolRecord) ++ records).map (·.id)).Nodup ∧ ∀ r ∈ records, r.Named :=
    entered_initial.exists_foldlM_enter_iff
  rw [List.nil_append] at hread
  rw [← hread]
  simp only [ofRecords_eq_ok_iff]
  exact ⟨fun ⟨_, d, hd, _⟩ => ⟨d, hd⟩, fun ⟨d, hd⟩ => ⟨_, d, hd, rfl⟩⟩

end Draft

/-! ## Symbols that get slots -/

namespace Arena

/-- Only symbols that a predicate holds of have slots. -/
def SlotsIn (a : Arena) (p : SymbolId → Prop) : Prop :=
  ∀ s id, a.slot? s = some id → p s

variable {a : Arena} {p : SymbolId → Prop}

theorem SlotsIn.reserve (h : a.SlotsIn p) {s : SymbolId} (hs : p s) :
    (a.reserve s).2.SlotsIn p := by
  intro t id ht
  rcases slot?_eq_of_slot?_reserve ht with ht | ⟨-, rfl, -⟩
  · exact h t id ht
  · exact hs

theorem SlotsIn.reserveAll (h : a.SlotsIn p) {ss : List SymbolId} (hss : ∀ s ∈ ss, p s) :
    (a.reserveAll ss).SlotsIn p := by
  induction ss generalizing a with
  | nil => exact h
  | cons s ss ih =>
    obtain ⟨hs, hss⟩ := List.forall_mem_cons.1 hss
    exact ih (h.reserve hs) hss

theorem slot?_updateUser (a : Arena) (l : NodeId) (f : UserType → UserType) (s : SymbolId) :
    (a.updateUser l f).slot? s = a.slot? s := by
  unfold updateUser
  split <;> rfl

end Arena

namespace Draft

variable {d d' : Draft} {p : SymbolId → Prop} {r : SymbolRecord}

theorem slotsIn_mentionAll (h : d.arena.SlotsIn p) {ss : List SymbolId} (hss : ∀ s ∈ ss, p s) :
    (d.mentionAll r ss).arena.SlotsIn p := by
  rw [arena_mentionAll]
  exact h.reserveAll hss

theorem slotsIn_underlying (h : d.arena.SlotsIn p) (hs : ∀ s ∈ r.element.toList, p s) :
    (d.underlying r).2.arena.SlotsIn p := by
  unfold underlying
  cases he : r.element with
  | some e =>
    simp only [arena_mention]
    exact h.reserve (hs e (by simp [he]))
  | none => exact fun s id hid => h s id (by rwa [Arena.slot?_sharedPrimitive] at hid)

/-- Writing the node of a record gives slots to the symbols that it spells alone. -/
theorem slotsIn_writeRecord (h : d.arena.SlotsIn p) {id : NodeId} (hs : ∀ s ∈ r.spelled, p s)
    (hd : d.writeRecord id r = .ok d') : d'.arena.SlotsIn p := by
  unfold writeRecord at hd
  unfold SymbolRecord.spelled at hs
  cases hk : r.kind with
  | primitive =>
    simp only [hk] at hd
    split at hd
    · cases hd
    · obtain rfl := Except.ok.inj hd
      exact h
  | pointer | array =>
    simp only [hk, Except.ok.injEq] at hd hs
    subst hd
    exact slotsIn_mentionAll h hs
  | enumeration =>
    simp only [hk, Except.ok.injEq] at hd hs
    subst hd
    exact slotsIn_underlying h hs
  | userType =>
    simp only [hk, Except.ok.injEq] at hd
    subst hd
    exact h
  | templateInstantiation =>
    simp only [hk] at hd hs
    split at hd
    · obtain rfl := Except.ok.inj hd
      exact h
    · obtain rfl := Except.ok.inj hd
      exact slotsIn_mentionAll (d := { d.addClass id with
        arena := ((d.addClass id).arena.add (.user (unfilled r true))).2 }) h hs

/-- Entering a record gives slots to it and to what it is spelled with. -/
theorem slotsIn_enter (h : d.arena.SlotsIn p) (hid : p r.id) (hs : ∀ s ∈ r.spelled, p s)
    (hd : d.enter r = .ok d') : d'.arena.SlotsIn p := by
  unfold enter at hd
  split at hd
  · cases hd
  · exact slotsIn_writeRecord (d := d.reserve r.id) (h.reserve hid) hs hd

theorem slotsIn_foldlM_enter {rs : List SymbolRecord} (h : d.arena.SlotsIn p)
    (hid : ∀ r ∈ rs, p r.id) (hs : ∀ r ∈ rs, ∀ s ∈ r.spelled, p s)
    (hd : rs.foldlM enter d = .ok d') : d'.arena.SlotsIn p := by
  induction rs generalizing d with
  | nil =>
    obtain rfl := Except.ok.inj hd
    exact h
  | cons r rs ih =>
    obtain ⟨d₁, hr, hd⟩ := foldlM_cons_eq_ok_iff.1 hd
    have h₁ := slotsIn_enter h (hid r (by simp)) (hs r (by simp)) hr
    exact ih h₁ (fun r hr => hid r (by simp [hr])) (fun r hr => hs r (by simp [hr])) hd

/-- Filling in a class gives slots to its bases and field types alone. -/
theorem slotsIn_fill (h : d.arena.SlotsIn p) (hb : ∀ s ∈ r.bases, p s)
    (hf : ∀ s ∈ r.fields.map (·.typeId), p s) : (d.fill r).arena.SlotsIn p := by
  unfold fill
  split
  · exact h
  · intro s id hid
    simp only [Arena.slot?_updateUser, arena_mentionFields, arena_mentionAll] at hid
    exact (h.reserveAll hb).reserveAll hf s id hid

/-- Filling classes gives slots to their bases and the types of their fields. -/
theorem slotsIn_foldl_fill {rs : List SymbolRecord} (h : d.arena.SlotsIn p)
    (hb : ∀ r ∈ rs, ∀ s ∈ r.bases, p s) (hf : ∀ r ∈ rs, ∀ s ∈ r.fields.map (·.typeId), p s) :
    (rs.foldl fill d).arena.SlotsIn p := by
  induction rs generalizing d with
  | nil => exact h
  | cons r rs ih =>
    exact ih (slotsIn_fill h (hb r (by simp)) (hf r (by simp))) (fun r hr => hb r (by simp [hr]))
      fun r hr => hf r (by simp [hr])

/-- After both passes slots belong to the records and to what they are read with. -/
theorem slotsIn_ofRecords {records : List SymbolRecord} (h : Draft.ofRecords records = .ok d) :
    d.arena.SlotsIn fun s => s ∈ records.map (·.id) ∨ ∃ r ∈ records, s ∈ r.followed := by
  obtain ⟨d₁, hd, rfl⟩ := ofRecords_eq_ok_iff.1 h
  have hclass {r : SymbolRecord} (hr : r ∈ records.filter (·.kind.isClass)) {s : SymbolId}
      (hs : s ∈ r.bases ∨ s ∈ r.fields.map (·.typeId)) : ∃ r ∈ records, s ∈ r.followed := by
    obtain ⟨hmem, hk⟩ := List.mem_filter.1 hr
    exact ⟨r, hmem, SymbolRecord.mem_followed.2 (Or.inr ⟨hk, hs⟩)⟩
  refine slotsIn_foldl_fill (slotsIn_foldlM_enter (d := initial) ?_ ?_ ?_ hd) ?_ ?_
  · intro s id hid
    cases hid
  · exact fun r hr => Or.inl (List.mem_map_of_mem hr)
  · exact fun r hr s hs => Or.inr ⟨r, hr, SymbolRecord.mem_followed.2 (Or.inl hs)⟩
  · exact fun r hr s hs => Or.inr (hclass hr (Or.inl hs))
  · exact fun r hr s hs => Or.inr (hclass hr (Or.inr hs))

end Draft

/-! ## References that dangle -/

/-- What a record is spelled with has a slot where it is drawn. -/
theorem Arena.Draws.exists_slot? {a : Arena} {r : SymbolRecord} {n : Node} (h : a.Draws r n)
    {s : SymbolId} (hs : s ∈ r.spelled) : ∃ id, a.slot? s = some id := by
  have htarget {t : NodeId} (ht : a.Target r t) (hs : s ∈ r.element.toList) :
      ∃ id, a.slot? s = some id := by
    simp only [Option.mem_toList] at hs
    simp only [Target, hs] at ht
    exact ⟨t, ht⟩
  unfold SymbolRecord.spelled at hs
  cases h with
  | primitive hk => simp [hk] at hs
  | pointer hk ht | array hk ht =>
    simp only [hk] at hs
    exact htarget ht hs
  | enumeration hk ht =>
    simp only [hk, Option.mem_toList] at hs
    simp only [Underlying, hs] at ht
    exact ⟨_, ht⟩
  | plain hk ha =>
    cases hkind : r.kind <;>
      simp_all [SymbolRecord.isApplied, SymbolKind.isClass]
  | applied ha hargs =>
    simp only [SymbolRecord.kind_of_isApplied ha] at hs
    obtain ⟨id, -, hid⟩ := hargs.mem hs
    exact ⟨id, hid⟩

namespace Draft

variable {records : List SymbolRecord} {d : Draft}

/-- Everything that a record is read with has a slot. -/
theorem exists_slot?_of_followed (h : Draft.ofRecords records = .ok d) {r : SymbolRecord}
    (hr : r ∈ records) {s : SymbolId} (hs : s ∈ r.followed) : ∃ id, d.arena.slot? s = some id := by
  obtain ⟨hent, hfilled⟩ := ofRecords_spec h
  rcases SymbolRecord.mem_followed.1 hs with hs | ⟨hk, hs⟩
  · obtain ⟨-, n, -, -, hdraw⟩ := hent.drawn r hr
    exact hdraw.exists_slot? hs
  · obtain ⟨-, -, u, -, -, -, hfills⟩ := hfilled r hr hk
    rcases hs with hs | hs
    · obtain ⟨id, -, hid⟩ := hfills.bases.mem hs
      exact ⟨id, hid⟩
    · obtain ⟨id, -, hid⟩ := hfills.slots.mem hs
      exact ⟨id, hid⟩

/-- No reference dangles if and only if everything that is followed has a record. -/
theorem dangling_eq_nil_iff (h : Draft.ofRecords records = .ok d) :
    d.dangling = [] ↔ ∀ r ∈ records, ∀ s ∈ r.followed, s ∈ records.map (·.id) := by
  obtain ⟨hent, -⟩ := ofRecords_spec h
  constructor
  · intro hnil r hr s hs
    obtain ⟨id, hid⟩ := exists_slot?_of_followed h hr hs
    by_contra hmem
    have hdangling := mem_dangling.2 (hent.waiting hid hmem)
    simp [hnil] at hdangling
  · intro hall
    refine List.eq_nil_iff_forall_not_mem.2 fun ⟨id, s⟩ hmem => ?_
    have hplace := mem_dangling.1 hmem
    have hslot := hent.sound.slot_of_placeholder hplace
    have hrec : s ∈ records.map (·.id) := by
      rcases slotsIn_ofRecords h s id hslot with hrec | ⟨r, hr, hs⟩
      · exact hrec
      · exact hall r hr s hs
    obtain ⟨r, hr, rfl⟩ := List.mem_map.1 hrec
    obtain ⟨id', n, hid', hn, hdraw⟩ := hent.drawn r hr
    obtain rfl := Option.some.inj (hslot.symm.trans hid')
    obtain rfl := Option.some.inj (hplace.symm.trans hn)
    cases hdraw.isPlaceholder

/-- A draft is settled if missing records are allowed or none is missing. -/
theorem exists_settle_iff {options : Options} :
    (∃ x, d.settle options = .ok x) ↔ options.allowMissing = true ∨ d.dangling = [] := by
  unfold settle
  split
  · next hnil => simp [hnil]
  · next hcons =>
    rw [hcons]
    cases options.allowMissing <;> simp

/-- Records settle if and only if their ids are distinct, primitives have names, and everything
that is followed has a record or may go without. -/
theorem exists_settled_iff {options : Options} : (∃ d, Draft.settled options records = .ok d) ↔
    (records.map (·.id)).Nodup ∧ (∀ r ∈ records, r.Named) ∧
      (options.allowMissing = true ∨
        ∀ r ∈ records, ∀ s ∈ r.followed, s ∈ records.map (·.id)) := by
  rw [← and_assoc, ← exists_ofRecords_iff]
  simp only [settled_eq_ok_iff]
  constructor
  · rintro ⟨d, draft, ws, hdraft, hsettle⟩
    rw [← dangling_eq_nil_iff hdraft]
    exact ⟨⟨draft, hdraft⟩, exists_settle_iff.1 ⟨_, hsettle⟩⟩
  · rintro ⟨⟨draft, hdraft⟩, hmissing⟩
    rw [← dangling_eq_nil_iff hdraft] at hmissing
    obtain ⟨⟨d, ws⟩, hsettle⟩ := exists_settle_iff.2 hmissing
    exact ⟨d, draft, ws, hdraft, hsettle⟩

end Draft

end NativeBindings
