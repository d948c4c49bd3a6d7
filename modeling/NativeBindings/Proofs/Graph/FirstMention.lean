import NativeBindings.Proofs.Graph.MissingRecords

/-!
# Who mentions a symbol first

A draft remembers who mentioned a symbol only at the moment when the symbol gets its slot, and
by then the symbol's own record may have taken the slot. What a draft knows of its symbols, their
nodes aside, is its ledger, and both passes are a run of the ledger: each record books its own
symbol, and then the places at which it refers to others (`Draft.ledger_enter`,
`Draft.ledger_fill`).

So of a symbol without a record the ledger keeps the first place at which it is referred to
(`Ledger.Remembers`), and the reference that is refused is the first one, in the order in which
records are read, that has no record (`TypeGraph.exists_place_of_missingRecord`).
-/

namespace NativeBindings

/-! ## Places -/

namespace SymbolRecord

/-- The places at which a record spells symbols: its element or its template arguments. -/
def spelledPlaces (r : SymbolRecord) : List (SymbolId × Mention) :=
  r.spelled.map fun s => (s, ⟨r.name, none⟩)

/-- The places at which a class is filled in: its bases and then its fields. -/
def filledPlaces (r : SymbolRecord) : List (SymbolId × Mention) :=
  r.bases.map (fun s => (s, ⟨r.name, none⟩)) ++
    r.fields.map fun f => (f.typeId, ⟨r.name, some f.name⟩)

/-- All places at which symbols are referred to, in the order in which records are read: first
what every record spells, then, class by class, the bases and the fields. -/
def places (records : List SymbolRecord) : List (SymbolId × Mention) :=
  records.flatMap spelledPlaces ++ (records.filter (·.kind.isClass)).flatMap filledPlaces

/-- At the places of records stands what they are read with. -/
theorem map_fst_places (records : List SymbolRecord) :
    (places records).map (·.1) = followedAll records := by
  simp [places, followedAll, spelledPlaces, filledPlaces, List.map_flatMap, Function.comp_def]

end SymbolRecord

/-! ## Ledgers -/

/-- What a draft knows of symbols, whatever their nodes are. -/
structure Ledger where
  /-- The symbols that have slots, the latest first. -/
  symbols : List SymbolId
  /-- Who mentioned symbols that had no slot before, the latest first. -/
  mentions : List (SymbolId × Mention)

namespace Ledger

/-- Book the symbol of a record. -/
def reserve (l : Ledger) (s : SymbolId) : Ledger :=
  if s ∈ l.symbols then l else { l with symbols := s :: l.symbols }

/-- Book a place, unless its symbol is known. -/
def mention (l : Ledger) (p : SymbolId × Mention) : Ledger :=
  if p.1 ∈ l.symbols then l else ⟨p.1 :: l.symbols, p :: l.mentions⟩

/-- Book several places. -/
def mentionAll (l : Ledger) (ps : List (SymbolId × Mention)) : Ledger :=
  ps.foldl mention l

/-- No symbol has two slots, and of the symbols that are not among `ids` the ledger knows those
that stand at a place, and the first place of each. -/
structure Remembers (l : Ledger) (ids : List SymbolId) (ps : List (SymbolId × Mention)) :
    Prop where
  nodup : l.symbols.Nodup
  known : ∀ s ∉ ids, s ∈ l.symbols ↔ s ∈ ps.map (·.1)
  first : ∀ s ∉ ids, l.mentions.lookup s = ps.lookup s

namespace Remembers

variable {l : Ledger} {ids : List SymbolId} {ps : List (SymbolId × Mention)}

/-- The symbols of records are booked without a place. -/
theorem reserve (h : l.Remembers ids ps) {s : SymbolId} (hs : s ∈ ids) :
    (l.reserve s).Remembers ids ps := by
  unfold Ledger.reserve
  split
  · exact h
  · next hnew =>
    refine ⟨List.nodup_cons.2 ⟨hnew, h.nodup⟩, fun t ht => ?_, h.first⟩
    have hts : t ≠ s := fun heq => ht (heq ▸ hs)
    simpa [hts] using h.known t ht

/-- A mention is remembered if the symbol is new. -/
theorem mention (h : l.Remembers ids ps) (s : SymbolId) (m : Mention) :
    (l.mention (s, m)).Remembers ids (ps ++ [(s, m)]) := by
  have hlookup (t : SymbolId) : (ps ++ [(s, m)]).lookup t =
      (ps.lookup t).or (if t = s then some m else none) := by
    rw [List.lookup_append, List.lookup_cons]
    by_cases hts : t = s
    · simp [hts]
    · simp [hts, beq_eq_false_iff_ne.2 hts]
  unfold Ledger.mention
  split
  · next hold =>
    refine ⟨h.nodup, fun t ht => ?_, fun t ht => ?_⟩
    · rw [h.known t ht, List.map_append, List.mem_append]
      refine ⟨Or.inl, fun hor => hor.elim id fun hts => ?_⟩
      obtain rfl : t = s := by simpa using hts
      exact (h.known t ht).1 hold
    · rw [h.first t ht, hlookup]
      by_cases hts : t = s
      · subst hts
        obtain ⟨q, hq, rfl⟩ := List.mem_map.1 ((h.known t ht).1 hold)
        have hsome : (ps.lookup q.1).isSome = true :=
          List.lookup_isSome_iff.2 ⟨q, hq, beq_self_eq_true _⟩
        rw [Option.or_of_isSome hsome]
      · simp [hts]
  · next hnew =>
    refine ⟨List.nodup_cons.2 ⟨hnew, h.nodup⟩, fun t ht => ?_, fun t ht => ?_⟩
    · simp [h.known t ht, or_comm]
    · rw [hlookup, List.lookup_cons]
      by_cases hts : t = s
      · subst hts
        have hnone : ps.lookup t = none := by
          refine List.lookup_eq_none_iff.2 fun q hq => bne_iff_ne.2 ?_
          rintro rfl
          exact hnew ((h.known _ ht).2 (List.mem_map_of_mem hq))
        simp [hnone]
      · simp [h.first t ht, hts, beq_eq_false_iff_ne.2 hts]

theorem mentionAll (h : l.Remembers ids ps) (qs : List (SymbolId × Mention)) :
    (l.mentionAll qs).Remembers ids (ps ++ qs) := by
  induction qs generalizing l ps with
  | nil => rwa [List.append_nil]
  | cons q qs ih =>
    rw [List.append_cons]
    exact ih (h.mention q.1 q.2)

end Remembers

end Ledger

/-! ## The ledger of a draft -/

namespace Arena

theorem bindings_updateUser (a : Arena) (l : NodeId) (f : UserType → UserType) :
    (a.updateUser l f).bindings = a.bindings := by
  unfold updateUser
  split <;> rfl

theorem bindings_sharedPrimitive (a : Arena) (name : String) :
    (a.sharedPrimitive name).2.bindings = a.bindings := by
  unfold sharedPrimitive
  split <;> rfl

end Arena

namespace Draft

/-- What a draft knows of symbols. -/
def ledger (d : Draft) : Ledger :=
  ⟨d.arena.bindings.map (·.1), d.mentions⟩

variable {d d' : Draft} {r : SymbolRecord}

/-- The symbols of the ledger are those with slots. -/
theorem mem_symbols_ledger {s : SymbolId} :
    s ∈ d.ledger.symbols ↔ (d.arena.slot? s).isSome = true := by
  rw [Arena.slot?, List.lookup_isSome_iff, ledger, List.mem_map]
  refine exists_congr fun p => and_congr_right fun _ => ?_
  rw [beq_iff_eq, eq_comm]

theorem ledger_reserve (d : Draft) (s : SymbolId) :
    (d.reserve s).ledger = d.ledger.reserve s := by
  cases hs : d.arena.slot? s with
  | some id =>
    rw [Ledger.reserve, if_pos (mem_symbols_ledger.2 (by simp [hs]))]
    simp only [ledger, reserve, Arena.reserve_of_slot? hs]
  | none =>
    rw [Ledger.reserve, if_neg (mt mem_symbols_ledger.1 (by simp [hs]))]
    simp [ledger, reserve, Arena.reserve, hs, Arena.add]

/-- Mentioning a symbol in a draft mentions it in the ledger. -/
theorem ledger_mention (d : Draft) (r : SymbolRecord) (field : Option String) (s : SymbolId) :
    (d.mention r field s).ledger = d.ledger.mention (s, ⟨r.name, field⟩) := by
  cases hs : d.arena.slot? s with
  | some id =>
    rw [Ledger.mention, if_pos (mem_symbols_ledger.2 (by simp [hs]))]
    simp [mention, hs]
  | none =>
    rw [Ledger.mention, if_neg (mt mem_symbols_ledger.1 (by simp [hs]))]
    simp [ledger, mention, reserve, Arena.reserve, hs, Arena.add]

theorem ledger_mentionAll (d : Draft) (r : SymbolRecord) (ss : List SymbolId) :
    (d.mentionAll r ss).ledger = d.ledger.mentionAll (ss.map fun s => (s, ⟨r.name, none⟩)) := by
  unfold mentionAll Ledger.mentionAll
  induction ss generalizing d with
  | nil => rfl
  | cons s ss ih => rw [List.foldl_cons, List.map_cons, List.foldl_cons, ih, ledger_mention]

theorem ledger_mentionFields (d : Draft) (r : SymbolRecord) : (d.mentionFields r).ledger =
    d.ledger.mentionAll (r.fields.map fun f => (f.typeId, ⟨r.name, some f.name⟩)) := by
  unfold mentionFields Ledger.mentionAll
  induction r.fields generalizing d with
  | nil => rfl
  | cons f fs ih => rw [List.foldl_cons, List.map_cons, List.foldl_cons, ih, ledger_mention]

/-- Writing the node of a record books what the record spells. -/
theorem ledger_writeRecord {id : NodeId} (hd : d.writeRecord id r = .ok d') :
    d'.ledger = d.ledger.mentionAll r.spelledPlaces := by
  unfold writeRecord at hd
  unfold SymbolRecord.spelledPlaces SymbolRecord.spelled
  cases hk : r.kind with
  | primitive =>
    simp only [hk] at hd
    split at hd
    · cases hd
    · obtain rfl := Except.ok.inj hd
      rfl
  | pointer | array =>
    simp only [hk, Except.ok.injEq] at hd
    subst hd
    exact ledger_mentionAll d r _
  | enumeration =>
    simp only [hk, Except.ok.injEq] at hd
    subst hd
    unfold underlying
    cases he : r.element with
    | some e => exact ledger_mention d r none e
    | none => simp [ledger, write, Arena.write, Arena.bindings_sharedPrimitive, Ledger.mentionAll]
  | userType =>
    simp only [hk, Except.ok.injEq] at hd
    subst hd
    rfl
  | templateInstantiation =>
    simp only [hk] at hd
    split at hd
    · next hempty =>
      obtain rfl := Except.ok.inj hd
      rw [List.isEmpty_iff.1 hempty]
      rfl
    · obtain rfl := Except.ok.inj hd
      exact ledger_mentionAll { d.addClass id with
        arena := ((d.addClass id).arena.add (.user (unfilled r true))).2 } r _

/-- A record books its own symbol and what it spells. -/
theorem ledger_enter (hd : d.enter r = .ok d') :
    d'.ledger = (d.ledger.reserve r.id).mentionAll r.spelledPlaces := by
  unfold enter at hd
  split at hd
  · cases hd
  · rw [← ledger_reserve]
    exact ledger_writeRecord hd

/-- Filling in a class books its bases and then its fields. -/
theorem Entered.ledger_fill {rs : List SymbolRecord} (h : d.Entered rs) (hr : r ∈ rs)
    (hk : r.kind.isClass = true) : (d.fill r).ledger = d.ledger.mentionAll r.filledPlaces := by
  obtain ⟨id, l, u, hid, hl, -⟩ := (h.drawn r hr).exists_layout hk
  unfold Draft.fill SymbolRecord.filledPlaces
  rw [hid, Option.bind_some, hl, Ledger.mentionAll, List.foldl_append, ← Ledger.mentionAll,
    ← Ledger.mentionAll, ← ledger_mentionAll, ← ledger_mentionFields]
  simp only [ledger, Arena.bindings_updateUser]

/-! ## Both passes -/

variable {ids : List SymbolId} {ps : List (SymbolId × Mention)} {rs : List SymbolRecord}

/-- After entering records, the ledger knows where each symbol was first spelled. -/
theorem remembers_foldlM_enter (h : d.ledger.Remembers ids ps) (hids : ∀ r ∈ rs, r.id ∈ ids)
    (hd : rs.foldlM enter d = .ok d') :
    d'.ledger.Remembers ids (ps ++ rs.flatMap (·.spelledPlaces)) := by
  induction rs generalizing d ps with
  | nil =>
    obtain rfl := Except.ok.inj hd
    simpa using h
  | cons r rs ih =>
    obtain ⟨d₁, hr, hd⟩ := foldlM_cons_eq_ok_iff.1 hd
    obtain ⟨hid, hids⟩ := List.forall_mem_cons.1 hids
    have h₁ : d₁.ledger.Remembers ids (ps ++ r.spelledPlaces) :=
      ledger_enter hr ▸ (h.reserve hid).mentionAll _
    simpa using ih h₁ hids hd

/-- After filling classes, it knows where each symbol was first mentioned at all. -/
theorem Entered.remembers_foldl_fill {cs : List SymbolRecord} (hent : d.Entered rs)
    (h : d.ledger.Remembers ids ps) (hcs : ∀ r ∈ cs, r ∈ rs ∧ r.kind.isClass = true) :
    (cs.foldl Draft.fill d).ledger.Remembers ids (ps ++ cs.flatMap (·.filledPlaces)) := by
  induction cs generalizing d ps with
  | nil => simpa using h
  | cons c cs ih =>
    obtain ⟨⟨hc, hk⟩, hcs⟩ := List.forall_mem_cons.1 hcs
    have h₁ : (d.fill c).ledger.Remembers ids (ps ++ c.filledPlaces) :=
      hent.ledger_fill hc hk ▸ h.mentionAll _
    simpa using ih (hent.fill hc hk).1 h₁ hcs

/-- After both passes the draft remembers the first place of every symbol without a record. -/
theorem remembers_ofRecords {records : List SymbolRecord} (h : Draft.ofRecords records = .ok d) :
    d.ledger.Remembers (records.map (·.id)) (SymbolRecord.places records) := by
  obtain ⟨d₁, hd, rfl⟩ := ofRecords_eq_ok_iff.1 h
  have hempty : initial.ledger.Remembers (records.map (·.id)) [] :=
    ⟨List.nodup_nil, fun _ _ => Iff.rfl, fun _ _ => rfl⟩
  have hread := remembers_foldlM_enter hempty (fun r hr => List.mem_map_of_mem hr) hd
  have hentered := entered_initial.foldlM_enter hd
  exact hentered.remembers_foldl_fill hread fun r hr => List.mem_filter.1 hr

end Draft

/-! ## The reference that is refused -/

/-- The place that a missing record is refused for is the first one that has no record. -/
theorem TypeGraph.exists_place_of_missingRecord {options : Options} {records : List SymbolRecord}
    {s : SymbolId} {referrer : String} {field : Option String}
    (h : ofRecords options records = .error (.missingRecord s referrer field)) :
    s ∉ records.map (·.id) ∧ ∃ before after,
      SymbolRecord.places records = before ++ (s, ⟨referrer, field⟩) :: after ∧
        ∀ p ∈ before, p.1 ∈ records.map (·.id) := by
  obtain ⟨hallow, draft, hdraft, hhead⟩ := exists_of_missingRecord h
  rw [ofRecords_eq_of_refused hdraft hallow hhead] at h
  obtain ⟨-, hreferrer, hfield⟩ := Failure.missingRecord.inj (Except.error.inj h)
  rw [Draft.map_dangling_ofRecords hdraft, SymbolRecord.missing, head?_eraseDups,
    ← SymbolRecord.map_fst_places, List.filter_map, List.head?_map, Option.map_eq_some_iff] at hhead
  obtain ⟨⟨t, m⟩, hfind, rfl⟩ := hhead
  rw [List.head?_filter, List.find?_eq_some_iff_append] at hfind
  obtain ⟨hmissing, before, after, hplaces, hbefore⟩ := hfind
  have hnone : t ∉ records.map (·.id) := by simpa using hmissing
  have hall : ∀ p ∈ before, p.1 ∈ records.map (·.id) := fun p hp => by simpa using hbefore p hp
  have hlookup : (SymbolRecord.places records).lookup t = some m := by
    refine List.lookup_eq_some_iff.2 ⟨before, after, hplaces, fun p hp => bne_iff_ne.2 ?_⟩
    rintro rfl
    exact hnone (hall p hp)
  have hmention : draft.mentionOf t = m := by
    have hfirst : draft.mentions.lookup t = _ :=
      (Draft.remembers_ofRecords hdraft).first t hnone
    rw [Draft.mentionOf, hfirst, hlookup, Option.getD_some]
  rw [← hreferrer, ← hfield, hmention]
  exact ⟨hnone, before, after, hplaces, hall⟩

end NativeBindings
