import NativeBindings.Proofs.FirstOccurrence
import NativeBindings.Proofs.Graph.Blame
import NativeBindings.Proofs.Graph.Duplicates
import NativeBindings.Proofs.Graph.Entering

/-!
# Missing records

A symbol gets its slot when a record refers to it for the first time, and slots are handed out
in order. So what dangles after both passes are the symbols that are followed and have no
record, in the order in which they are first followed (`Draft.map_dangling_ofRecords`): an
arena awaits the records of what was referred to and not read (`Arena.Awaits`), and each step of
the two passes adds to what was read or to what was referred to.

Refusing the first of them or standing in for all of them is the only difference that
`Options.allowMissing` makes (`TypeGraph.ofRecords_allowing`).
-/

namespace NativeBindings

/-! ## Symbols that wait for their record -/

/-- The symbol whose record a node waits for. -/
def Node.waitsFor? : Node → Option SymbolId
  | placeholder s => some s
  | _ => none

theorem Node.waitsFor?_eq_some_iff {n : Node} {s : SymbolId} :
    n.waitsFor? = some s ↔ n = .placeholder s := by
  cases n <;> simp [waitsFor?]

namespace Arena

/-- The symbols that wait for their records, in slot order. -/
def waiting (a : Arena) : List SymbolId :=
  a.nodes.toList.filterMap Node.waitsFor?

variable {a : Arena} {s : SymbolId} {id : NodeId}

/-- A node that is added waits behind all others, if it waits. -/
theorem waiting_add (a : Arena) (n : Node) :
    (a.add n).2.waiting = a.waiting ++ n.waitsFor?.toList := by
  simp only [waiting, add, Array.toList_push, List.filterMap_append]
  cases h : n.waitsFor? <;> simp [h]

/-- A new symbol waits behind all others. -/
theorem waiting_reserve (h : a.slot? s = none) : (a.reserve s).2.waiting = a.waiting ++ [s] := by
  simp only [reserve, h]
  exact waiting_add a (.placeholder s)

theorem waiting_sharedPrimitive (a : Arena) (name : String) :
    (a.sharedPrimitive name).2.waiting = a.waiting := by
  unfold sharedPrimitive
  split
  · rfl
  · exact (waiting_add a (.primitive name)).trans (List.append_nil _)

/-- In a sound arena no two nodes wait for one symbol. -/
theorem Sound.nodup_waiting (h : a.Sound) : a.waiting.Nodup := by
  refine List.pairwise_filterMap.2 (List.pairwise_iff_getElem.2 fun i j hi hj hij => ?_)
  rintro s hs t ht rfl
  have hslot {k : Nat} (hk : k < a.nodes.toList.length)
      (hs : a.nodes.toList[k].waitsFor? = some s) : a.slot? s = some k := by
    refine h.slot_of_placeholder ?_
    rw [← Node.waitsFor?_eq_some_iff.1 hs]
    simp [node?]
  exact Nat.ne_of_lt hij (Option.some.inj ((hslot hi hs).symm.trans (hslot hj ht)))

/-- A node that is written over waits no more. -/
theorem filterMap_waitsFor?_set {ns : List Node} (hnodup : (ns.filterMap Node.waitsFor?).Nodup)
    (hid : ns[id]? = some (.placeholder s)) {n : Node} (hn : n.waitsFor? = none) :
    (ns.set id n).filterMap Node.waitsFor? = (ns.filterMap Node.waitsFor?).erase s := by
  induction ns generalizing id with
  | nil => cases hid
  | cons m ns ih =>
    cases id with
    | zero =>
      obtain rfl := Option.some.inj hid
      have hs : (Node.placeholder s).waitsFor? = some s := rfl
      rw [List.set_cons_zero, List.filterMap_cons_none hn, List.filterMap_cons_some hs,
        List.erase_cons_head]
    | succ id =>
      have hmem : s ∈ ns.filterMap Node.waitsFor? :=
        List.mem_filterMap.2 ⟨_, List.mem_of_getElem? hid, rfl⟩
      rw [List.set_cons_succ]
      cases hm : m.waitsFor? with
      | none =>
        rw [List.filterMap_cons_none hm] at hnodup ⊢
        rw [List.filterMap_cons_none hm]
        exact ih hnodup hid
      | some t =>
        rw [List.filterMap_cons_some hm] at hnodup ⊢
        rw [List.filterMap_cons_some hm]
        obtain ⟨hnew, hnodup⟩ := List.nodup_cons.1 hnodup
        have hne : t ≠ s := fun heq => hnew (heq ▸ hmem)
        rw [ih hnodup hid, List.erase_cons_tail (by simpa using hne)]

/-- Nobody waits for a record any more that is written. -/
theorem waiting_write (h : a.Sound) (hid : a.node? id = some (.placeholder s)) {n : Node}
    (hn : n.waitsFor? = none) : (a.write id n).waiting = a.waiting.filter (· ≠ s) := by
  have hnodup := h.nodup_waiting
  have hget : a.nodes.toList[id]? = some (.placeholder s) := by simpa [node?] using hid
  rw [waiting, write, Array.toList_setIfInBounds, filterMap_waitsFor?_set hnodup hget hn,
    ← waiting, hnodup.erase_eq_filter]
  exact List.filter_congr fun t _ => by simp [bne, Bool.beq_eq_decide_eq]

theorem waiting_updateUser (a : Arena) (l : NodeId) (f : UserType → UserType) :
    (a.updateUser l f).waiting = a.waiting := by
  have hset {ns : List Node} {id : NodeId} {u v : UserType} (h : ns[id]? = some (.user u)) :
      (ns.set id (.user v)).filterMap Node.waitsFor? = ns.filterMap Node.waitsFor? := by
    induction ns generalizing id with
    | nil => rfl
    | cons m ns ih =>
      cases id with
      | zero =>
        obtain rfl := Option.some.inj h
        rfl
      | succ id =>
        rw [List.set_cons_succ]
        cases hm : m.waitsFor? with
        | none => rw [List.filterMap_cons_none hm, List.filterMap_cons_none hm, ih h]
        | some t => rw [List.filterMap_cons_some hm, List.filterMap_cons_some hm, ih h]
  unfold updateUser
  split
  · next u hu =>
    have hget : a.nodes.toList[l]? = some (.user u) := by simpa [node?] using node?_user hu
    rw [waiting, write, Array.toList_setIfInBounds, hset hget, waiting]
  · rfl

/-! ## The order of references -/

/-- Slots belong to the symbols that were read and to those that were referred to, and a symbol
that was referred to and not read waits for its record, the first one first. -/
structure Awaits (a : Arena) (ids refs : List SymbolId) : Prop where
  slot_iff : ∀ s, (∃ id, a.slot? s = some id) ↔ s ∈ ids ∨ s ∈ refs
  waiting : a.waiting = (refs.filter (· ∉ ids)).eraseDups

theorem awaits_initial : initial.Awaits [] [] where
  slot_iff s := by simp [initial_eq, slot?]
  waiting := by simp [initial_eq, Arena.waiting, Node.waitsFor?]

namespace Awaits

variable {ids refs : List SymbolId} {b : Arena}

theorem congr (h : a.Awaits ids refs) (hslot : ∀ s, b.slot? s = a.slot? s)
    (hwaiting : b.waiting = a.waiting) : b.Awaits ids refs :=
  ⟨fun s => by rw [hslot, h.slot_iff], hwaiting.trans h.waiting⟩

/-- Whoever is mentioned first comes last. -/
theorem reserve (h : a.Awaits ids refs) (s : SymbolId) :
    (a.reserve s).2.Awaits ids (refs ++ [s]) where
  slot_iff t := by
    by_cases hts : t = s
    · subst hts
      simp [slot?_reserve]
    · simp [slot?_reserve_of_ne a hts, h.slot_iff, hts]
  waiting := by
    rw [List.filter_append]
    cases hs : a.slot? s with
    | some id =>
      rw [reserve_of_slot? hs, h.waiting]
      by_cases hid : s ∈ ids
      · simp [hid]
      · have hrefs : s ∈ refs := ((h.slot_iff s).1 ⟨id, hs⟩).resolve_left hid
        simp [hid, eraseDups_concat, hrefs]
    | none =>
      obtain ⟨hid, hrefs⟩ := not_or.1 (mt (h.slot_iff s).2 (by simp [hs]))
      rw [waiting_reserve hs, h.waiting]
      simp [hid, eraseDups_concat, hrefs]

/-- Symbols that are referred to wait in this order. -/
theorem reserveAll (h : a.Awaits ids refs) (ss : List SymbolId) :
    (a.reserveAll ss).Awaits ids (refs ++ ss) := by
  induction ss generalizing a refs with
  | nil => rwa [List.append_nil]
  | cons s ss ih =>
    rw [List.append_cons]
    exact ih (h.reserve s)

/-- Writing the node of a symbol reads its record. -/
theorem write (h : a.Awaits ids refs) (hsound : a.Sound) (hid : a.node? id = some (.placeholder s))
    {n : Node} (hn : n.waitsFor? = none) : (a.write id n).Awaits (ids ++ [s]) refs where
  slot_iff t := by
    rw [slot?_write, h.slot_iff, List.mem_append, List.mem_singleton]
    have hs := (h.slot_iff s).1 ⟨id, hsound.slot_of_placeholder hid⟩
    grind
  waiting := by
    rw [waiting_write hsound hid hn, h.waiting, ← eraseDups_filter, List.filter_filter]
    congr 1
    refine List.filter_congr fun t _ => ?_
    simp [not_or, and_comm]

/-- Who referred to a symbol that was read makes no difference. -/
theorem forget {refs' : List SymbolId} (h : a.Awaits ids (refs ++ s :: refs')) (hs : s ∈ ids) :
    a.Awaits ids (refs ++ refs') where
  slot_iff t := by
    rw [h.slot_iff]
    grind
  waiting := by
    rw [h.waiting]
    simp [hs]

/-- Writing the node of a symbol after the symbols that its record refers to were mentioned. -/
theorem write_reserveAll (h : a.Awaits ids refs) (hsound : a.Sound)
    (hid : a.node? id = some (.placeholder s)) (ss : List SymbolId) {n : Node}
    (hn : n.waitsFor? = none) :
    ((a.reserveAll ss).write id n).Awaits (ids ++ [s]) (refs ++ ss) :=
  (h.reserveAll ss).write (hsound.reserveAll ss) ((a.reserveAll_extends ss).node hid) hn

end Awaits

end Arena

namespace Draft

variable {d d' : Draft} {r : SymbolRecord} {rs : List SymbolRecord} {ids refs : List SymbolId}

/-- What dangles is what waits. -/
theorem map_dangling (d : Draft) : d.dangling.map (·.2) = d.arena.waiting := by
  have hfst : d.arena.nodes.toList.filterMap Node.waitsFor? =
      d.arena.nodes.toList.zipIdx.filterMap (Node.waitsFor? ∘ Prod.fst) := by
    rw [← List.filterMap_map, List.zipIdx_map_fst]
  rw [dangling, Arena.entries, List.map_filterMap, List.filterMap_map, Arena.waiting, hfst]
  refine List.filterMap_congr fun x _ => ?_
  obtain ⟨n, id⟩ := x
  cases n <;> rfl

/-- Writing the node of a record reads the record and refers to what it spells. -/
theorem awaits_writeRecord (h : d.arena.Awaits ids refs) (hs : d.arena.Sound) {id : NodeId}
    (hid : d.arena.node? id = some (.placeholder r.id)) (hd : d.writeRecord id r = .ok d') :
    d'.arena.Awaits (ids ++ [r.id]) (refs ++ r.spelled) := by
  unfold writeRecord at hd
  unfold SymbolRecord.spelled
  cases hk : r.kind with
  | primitive =>
    simp only [hk] at hd
    split at hd
    · cases hd
    · obtain rfl := Except.ok.inj hd
      exact h.write_reserveAll hs hid [] rfl
  | pointer | array =>
    simp only [hk, Except.ok.injEq] at hd
    subst hd
    simp only [write, arena_mentionAll]
    exact h.write_reserveAll hs hid _ rfl
  | enumeration =>
    simp only [hk, Except.ok.injEq] at hd
    subst hd
    simp only [write, underlying]
    cases he : r.element with
    | some e =>
      simp only [arena_mention]
      exact h.write_reserveAll hs hid [e] rfl
    | none =>
      have hshared : (d.arena.sharedPrimitive (Scalar.enumInteger r.size)).2.Awaits ids refs :=
        h.congr (d.arena.slot?_sharedPrimitive _) (d.arena.waiting_sharedPrimitive _)
      exact hshared.write_reserveAll (hs.sharedPrimitive _)
        ((d.arena.sharedPrimitive_extends _).node hid) [] rfl
  | userType =>
    simp only [hk, Except.ok.injEq] at hd
    subst hd
    exact h.write_reserveAll hs hid [] rfl
  | templateInstantiation =>
    simp only [hk] at hd
    split at hd
    · next hempty =>
      obtain rfl := Except.ok.inj hd
      rw [List.isEmpty_iff.1 hempty]
      exact h.write_reserveAll hs hid [] rfl
    · obtain rfl := Except.ok.inj hd
      have hadd : (d.arena.add (.user (unfilled r true))).2.Awaits ids refs :=
        h.congr (fun _ => rfl) ((d.arena.waiting_add _).trans (List.append_nil _))
      simp only [write, arena_mentionAll]
      exact hadd.write_reserveAll (hs.add (admits_unfilled d.arena r true))
        (Arena.node?_add_of_node? hid _) _ rfl

/-- Entering a record refers to what it is spelled with. It does not refer to its own symbol, but
only takes its slot. -/
theorem Entered.awaits_enter (h : d.Entered rs) (ha : d.arena.Awaits (rs.map (·.id)) refs)
    (hd : d.enter r = .ok d') :
    d'.arena.Awaits ((rs ++ [r]).map (·.id)) (refs ++ r.spelled) := by
  unfold Draft.enter at hd
  split at hd
  · cases hd
  · next hrec =>
    have hnew := h.not_mem_of_hasRecord (Bool.eq_false_iff.2 hrec)
    have hslot : (d.reserve r.id).arena.slot? r.id = some ((d.reserve r.id).slot r.id) :=
      slot?_eq_some_slot (d := d.reserve r.id) (d.arena.slot?_reserve r.id)
    have hwait : (d.reserve r.id).arena.node? ((d.reserve r.id).slot r.id) =
        some (.placeholder r.id) := by
      rcases (d.arena.reserve_extends r.id).fresh hslot with hold | hp
      · exact (d.arena.reserve_extends r.id).node (h.waiting hold hnew)
      · exact hp
    have hread := awaits_writeRecord (d := d.reserve r.id) (ha.reserve r.id)
      (h.sound.reserve r.id) hwait hd
    rw [List.append_assoc, List.singleton_append] at hread
    rw [List.map_append, List.map_singleton]
    exact hread.forget (by simp)

theorem Entered.awaits_foldlM_enter {rs' : List SymbolRecord} (h : d.Entered rs)
    (ha : d.arena.Awaits (rs.map (·.id)) refs) (hd : rs'.foldlM Draft.enter d = .ok d') :
    d'.arena.Awaits ((rs ++ rs').map (·.id)) (refs ++ rs'.flatMap (·.spelled)) := by
  induction rs' generalizing d rs refs with
  | nil =>
    obtain rfl := Except.ok.inj hd
    simpa using ha
  | cons r rs' ih =>
    obtain ⟨d₁, hr, hd⟩ := foldlM_cons_eq_ok_iff.1 hd
    simpa using ih (h.enter hr) (h.awaits_enter ha hr) hd

/-- Filling in a class refers to its bases and then to the types of its fields. -/
theorem Entered.awaits_fill (h : d.Entered rs) (ha : d.arena.Awaits ids refs) (hr : r ∈ rs)
    (hk : r.kind.isClass = true) :
    (d.fill r).arena.Awaits ids (refs ++ (r.bases ++ r.fields.map (·.typeId))) := by
  obtain ⟨id, l, u, hid, hl, -⟩ := (h.drawn r hr).exists_layout hk
  unfold Draft.fill
  rw [hid, Option.bind_some, hl]
  have hmention := (ha.reserveAll r.bases).reserveAll (r.fields.map (·.typeId))
  rw [← arena_mentionAll d r, ← arena_mentionFields] at hmention
  rw [← List.append_assoc]
  exact hmention.congr (Arena.slot?_updateUser _ _ _) (Arena.waiting_updateUser _ _ _)

/-- Filling classes refers to their bases and the types of their fields, in order. -/
theorem Entered.awaits_foldl_fill {cs : List SymbolRecord} (h : d.Entered rs)
    (ha : d.arena.Awaits ids refs) (hcs : ∀ r ∈ cs, r ∈ rs ∧ r.kind.isClass = true) :
    (cs.foldl Draft.fill d).arena.Awaits ids
      (refs ++ cs.flatMap fun r => r.bases ++ r.fields.map (·.typeId)) := by
  induction cs generalizing d refs with
  | nil => simpa using ha
  | cons c cs ih =>
    obtain ⟨⟨hc, hk⟩, hcs⟩ := List.forall_mem_cons.1 hcs
    rw [List.foldl_cons, List.flatMap_cons, ← List.append_assoc]
    exact ih (h.fill hc hk).1 (h.awaits_fill ha hc hk) hcs

end Draft

/-! ## Missing records in order -/

namespace SymbolRecord

/-- The ids that records are read with, in order: first what is spelled, then, class by class,
the bases and the types of the fields. -/
def followedAll (records : List SymbolRecord) : List SymbolId :=
  records.flatMap (·.spelled) ++
    (records.filter (·.kind.isClass)).flatMap fun r => r.bases ++ r.fields.map (·.typeId)

/-- The ids that are followed and have no record, each once, the first one first. -/
def missing (records : List SymbolRecord) : List SymbolId :=
  ((followedAll records).filter (· ∉ records.map (·.id))).eraseDups

theorem nodup_missing (records : List SymbolRecord) : (missing records).Nodup :=
  nodup_eraseDups _

/-- What is missing is what a record refers to and no record has for its id. -/
theorem mem_missing_iff {records : List SymbolRecord} {s : SymbolId} : s ∈ missing records ↔
    (∃ r ∈ records, s ∈ r.followed) ∧ s ∉ records.map (·.id) := by
  simp only [missing, List.mem_eraseDups, List.mem_filter, decide_eq_true_eq, followedAll,
    List.mem_append, List.mem_flatMap, mem_followed]
  grind

end SymbolRecord

/-- What dangles after both passes are the missing records, in this order. -/
theorem Draft.map_dangling_ofRecords {records : List SymbolRecord} {d : Draft}
    (h : Draft.ofRecords records = .ok d) :
    d.dangling.map (·.2) = SymbolRecord.missing records := by
  obtain ⟨d₁, hd, rfl⟩ := ofRecords_eq_ok_iff.1 h
  have hent := entered_initial.foldlM_enter hd
  have hread := entered_initial.awaits_foldlM_enter Arena.awaits_initial hd
  have hclasses : ∀ r ∈ records.filter (·.kind.isClass), r ∈ records ∧ r.kind.isClass = true :=
    fun r hr => List.mem_filter.1 hr
  have hfilled := hent.awaits_foldl_fill hread hclasses
  exact (map_dangling _).trans hfilled.waiting

/-! ## Refusing and standing in -/

theorem Arena.finding_of_unite {a : Arena} {classes : List NodeId} :
    ∀ x ∈ (a.unite classes).2.2, x.finding = .conflictingDuplicate := by
  intro x hx
  obtain ⟨⟨id, first⟩, -, hconflict⟩ := List.mem_filterMap.1 hx
  simp only [conflict?, bind, Option.bind_eq_some_iff] at hconflict
  obtain ⟨dup, -, kept, -, hsize⟩ := hconflict
  split at hsize
  · cases hsize
  · obtain rfl := Option.some.inj hsize
    rfl

namespace TypeGraph

variable {options : Options} {records : List SymbolRecord} {draft : Draft}

/-- Without dangling references it makes no difference whether they are refused. -/
theorem ofRecords_eq_of_dangling (h : Draft.ofRecords records = .ok draft)
    (hnil : draft.dangling = []) : ofRecords options records = finish draft (draft, []) := by
  simp only [ofRecords_eq_bind, h, Draft.settle, hnil, bind, Except.bind]

/-- The first dangling reference is refused. -/
theorem ofRecords_eq_of_refused (h : Draft.ofRecords records = .ok draft)
    (hallow : options.allowMissing = false) {s : SymbolId}
    (hhead : (draft.dangling.map (·.2)).head? = some s) : ofRecords options records =
      .error (.missingRecord s (draft.mentionOf s).referrer (draft.mentionOf s).field) := by
  cases hdangling : draft.dangling with
  | nil => simp [hdangling] at hhead
  | cons slot rest =>
    obtain rfl : slot.2 = s := by simpa [hdangling] using hhead
    simp [ofRecords_eq_bind, h, Draft.settle, hdangling, hallow, bind, Except.bind]

/-- Only dangling references that are refused make building a graph fail for a missing record. -/
theorem exists_of_missingRecord {s : SymbolId} {referrer : String} {field : Option String}
    (h : ofRecords options records = .error (.missingRecord s referrer field)) :
    options.allowMissing = false ∧ ∃ draft, Draft.ofRecords records = .ok draft ∧
      (draft.dangling.map (·.2)).head? = some s := by
  rw [ofRecords_eq_bind] at h
  cases hdraft : Draft.ofRecords records with
  | error e =>
    rw [hdraft] at h
    obtain rfl := Except.error.inj h
    exact absurd hdraft (Draft.ofRecords_ne_error id records)
  | ok draft =>
    rw [hdraft] at h
    cases hsettle : draft.settle options with
    | ok x =>
      simp only [bind, Except.bind, hsettle] at h
      exact absurd h (finish_ne_error id draft x)
    | error e =>
      simp only [bind, Except.bind, hsettle] at h
      obtain rfl := Except.error.inj h
      unfold Draft.settle at hsettle
      split at hsettle
      · cases hsettle
      · next id t rest hcons =>
        split at hsettle
        · cases hsettle
        · next hallow =>
          cases hsettle
          exact ⟨by simpa using hallow, draft, rfl, by rw [hcons]; rfl⟩

/-- Whoever stands in for dangling references says so, one by one. -/
theorem unresolved_of_ofRecords {g : TypeGraph} {w : Diagnostics}
    (h : ofRecords { options with allowMissing := true } records = .ok (g, w)) :
    (w.ofFinding .unresolvedReference).map (·.symbol) =
      (SymbolRecord.missing records).map some := by
  obtain ⟨draft, d, ws, hdraft, hsettle, -, -, -, rfl⟩ := ofRecords_eq_ok h
  have hnone : Diagnostics.ofFinding (d.arena.unite d.classes).2.2 .unresolvedReference = [] :=
    List.filter_eq_nil_iff.2 fun x hx => by simp [Arena.finding_of_unite x hx]
  have hall : Diagnostics.ofFinding ws .unresolvedReference = ws :=
    List.filter_eq_self.2 fun x hx => by simp [Draft.finding_of_settle hsettle x hx]
  have hws : ws = draft.danglingWarnings := by
    unfold Draft.settle at hsettle
    split at hsettle
    · next hnil =>
      obtain ⟨-, rfl⟩ := Prod.mk.inj (Except.ok.inj hsettle)
      rw [Draft.danglingWarnings, hnil, List.map_nil]
    · exact (Prod.mk.inj (Except.ok.inj hsettle)).2.symm
  rw [Diagnostics.ofFinding, List.filter_append]
  rw [Diagnostics.ofFinding] at hall hnone
  rw [hall, hnone, List.append_nil, hws, ← Draft.map_dangling_ofRecords hdraft,
    Draft.danglingWarnings, List.map_map, List.map_map]
  rfl

/-- Standing in for missing records changes nothing unless records are missing. If they are,
the first one to be followed is refused, or else each of them is reported once, in the order in
which they are first followed. -/
theorem ofRecords_allowing (options : Options) (records : List SymbolRecord) :
    let refusing := ofRecords { options with allowMissing := false } records
    let allowing := ofRecords { options with allowMissing := true } records
    ((∀ s referrer field, refusing ≠ .error (.missingRecord s referrer field)) →
      allowing = refusing) ∧
    ∀ s referrer field, refusing = .error (.missingRecord s referrer field) →
      (∀ t referrer' field', allowing ≠ .error (.missingRecord t referrer' field')) ∧
      (SymbolRecord.missing records).head? = some s ∧
      ∀ g w, allowing = .ok (g, w) → (w.ofFinding .unresolvedReference).map (·.symbol) =
        (SymbolRecord.missing records).map some := by
  intro refusing allowing
  constructor
  · intro hnot
    cases hdraft : Draft.ofRecords records with
    | error e => simp only [refusing, allowing, ofRecords_eq_bind, hdraft, bind, Except.bind]
    | ok draft =>
      cases hdangling : draft.dangling with
      | nil =>
        exact (ofRecords_eq_of_dangling hdraft hdangling).trans
          (ofRecords_eq_of_dangling hdraft hdangling).symm
      | cons slot rest =>
        exact absurd (ofRecords_eq_of_refused hdraft rfl (by rw [hdangling]; rfl)) (hnot slot.2 _ _)
  · intro s referrer field hs
    obtain ⟨-, draft, hdraft, hhead⟩ := exists_of_missingRecord hs
    rw [Draft.map_dangling_ofRecords hdraft] at hhead
    refine ⟨fun t _ _ ht => ?_, hhead, fun g w h => unresolved_of_ofRecords h⟩
    exact absurd (exists_of_missingRecord ht).1 (by simp)

/-- Fields of missing types, and after them a pointer to one. -/
def threeMissing : List SymbolRecord :=
  [((SymbolRecord.ofUserType ⟨1⟩ "Shape" 24).addField "body" ⟨50⟩ 0).addField "next" ⟨2⟩ 8,
    .ofPointer ⟨2⟩ (some ⟨52⟩) 8,
    ((SymbolRecord.ofUserType ⟨3⟩ "Square" 32).addBase ⟨1⟩).addField "other" ⟨51⟩ 24,
    ((SymbolRecord.ofUserType ⟨4⟩ "Disk" 16).addField "body" ⟨50⟩ 0).addField "inner" ⟨52⟩ 8]

theorem exists_draft_threeMissing : ∃ d, Draft.ofRecords threeMissing = .ok d ∧
    (d.dangling.map (·.2)).head? = some ⟨52⟩ :=
  exists_eq_ok_and (by decide +kernel)

/-- What the pointer refers to is followed before the fields, and is refused, or else all three
are reported. -/
theorem threeMissing_allowed :
    (∃ referrer field, ofRecords { ({} : Options) with allowMissing := false } threeMissing =
      .error (.missingRecord ⟨52⟩ referrer field)) ∧
    ∃ g w, ofRecords { ({} : Options) with allowMissing := true } threeMissing = .ok (g, w) ∧
      (w.ofFinding .unresolvedReference).map (·.symbol) =
        [some ⟨52⟩, some ⟨50⟩, some ⟨51⟩] := by
  obtain ⟨d, hd, hhead⟩ := exists_draft_threeMissing
  have hrefused : ofRecords { ({} : Options) with allowMissing := false } threeMissing =
      .error (.missingRecord ⟨52⟩ (d.mentionOf ⟨52⟩).referrer (d.mentionOf ⟨52⟩).field) :=
    ofRecords_eq_of_refused hd rfl hhead
  obtain ⟨⟨g, w⟩, hgw⟩ : ∃ x,
      ofRecords { ({} : Options) with allowMissing := true } threeMissing = .ok x :=
    exists_eq_ok (by decide +kernel)
  obtain ⟨-, -, hreported⟩ := (ofRecords_allowing {} threeMissing).2 _ _ _ hrefused
  refine ⟨⟨_, _, hrefused⟩, g, w, hgw, (hreported g w hgw).trans ?_⟩
  decide +kernel

end TypeGraph

end NativeBindings
