import NativeBindings.Proofs.Graph.Tidy

/-!
# What becomes of duplicates

Of the records of classes with one identity the first one counts (`Draft.standFor`). Its class is
kept. The layout of every other one is marked as discarded in favour of the layout of that first
class, and it is warned about if it has another size.

Links and symbols are sent on once. That is enough, because they are sent to first classes and
their layouts, and these are not sent anywhere (`Arena.Settled.firstLike_standIn`): nothing in
the graph leads to a class that was given up, or to its layout. The main theorem is
`TypeGraph.ofRecords_unites`.
-/

namespace NativeBindings

/-! ## Marks of layouts -/

namespace Arena

/-- Let the user type at a position move on to a state. -/
def advanceAt (a : Arena) (x : NodeId × BuildState) : Arena :=
  a.updateUser x.1 fun u => { u with state := u.state.advance x.2 }

/-- Where a duplicate is marked, and as what. -/
def discardMark? (a : Arena) (x : NodeId × NodeId) : Option (NodeId × BuildState) :=
  (a.layout? x.1).bind fun l => (a.layout? x.2).map fun m => (l, .discarded m)

/-- Where a class that is kept is marked. -/
def keepMark? (a : Arena) (id : NodeId) : Option (NodeId × BuildState) :=
  (a.layout? id).map fun l => (l, .kept)

/-- All marks that uniting duplicates sets. -/
def marks (a : Arena) (classes : List NodeId) : List (NodeId × BuildState) :=
  (Identified.duplicates (a.identified classes)).filterMap a.discardMark? ++
    (Identified.kept (a.identified classes)).filterMap a.keepMark?

theorem Marks.layout? {a b : Arena} (h : a.Marks b) (id : NodeId) :
    b.layout? id = a.layout? id := by
  have hnode := h.node id
  unfold Arena.layout?
  cases hn : a.node? id with
  | none =>
    rw [hn, Option.map_none, Option.map_eq_none_iff] at hnode
    rw [hnode]
  | some n =>
    rw [hn, Option.map_some, Option.map_eq_some_iff] at hnode
    obtain ⟨m, hm, heq⟩ := hnode
    rw [hm]
    cases n <;> cases m <;> simp_all [Node.unmarked]

theorem foldl_discard {a b : Arena} (h : a.Marks b) (xs : List (NodeId × NodeId)) :
    xs.foldl discard b = (xs.filterMap a.discardMark?).foldl advanceAt b := by
  induction xs generalizing b with
  | nil => rfl
  | cons x xs ih =>
    rw [List.foldl_cons, ih (h.trans (discard_marks b x)), List.filterMap_cons]
    obtain ⟨id, first⟩ := x
    simp only [discard, discardMark?, h.layout?]
    cases a.layout? id <;> cases a.layout? first <;> rfl

theorem foldl_keep {a b : Arena} (h : a.Marks b) (ids : List NodeId) :
    ids.foldl keep b = (ids.filterMap a.keepMark?).foldl advanceAt b := by
  induction ids generalizing b with
  | nil => rfl
  | cons id ids ih =>
    rw [List.foldl_cons, ih (h.trans (keep_marks b id)), List.filterMap_cons]
    simp only [keep, keepMark?, h.layout?]
    cases a.layout? id <;> rfl

theorem user?_advanceAt {a : Arena} {l : NodeId} {u : UserType} (hu : a.user? l = some u)
    (x : NodeId × BuildState) : (a.advanceAt x).user? l =
      some { u with state := if x.1 = l then u.state.advance x.2 else u.state } := by
  by_cases hx : x.1 = l
  · rw [if_pos hx, advanceAt, hx, updateUser_of_user? hu, user?_write_self hu]
  · rw [if_neg hx]
    unfold advanceAt updateUser
    split
    · rwa [user?_write_of_ne a (Ne.symm hx)]
    · exact hu

/-- The first mark counts, since every mark is final. -/
theorem user?_foldl_advanceAt {marks : List (NodeId × BuildState)}
    (hfinal : ∀ x ∈ marks, x.2.rank = 2) {a : Arena} {l : NodeId} {u : UserType}
    (hu : a.user? l = some u) : (marks.foldl advanceAt a).user? l = some { u with
      state := if u.state.rank = 2 then u.state else (marks.lookup l).getD u.state } := by
  induction marks generalizing a u with
  | nil => simpa using hu
  | cons x marks ih =>
    obtain ⟨hx, hmarks⟩ := List.forall_mem_cons.1 hfinal
    rw [List.foldl_cons, ih hmarks (user?_advanceAt hu x), List.lookup_cons]
    by_cases hl : x.1 = l
    · subst hl
      by_cases hrank : u.state.rank = 2
      · simp [hrank, BuildState.advance_of_final hrank]
      · have hle : u.state.rank ≤ 2 := by cases u.state <;> simp [BuildState.rank]
        have hadvance : u.state.advance x.2 = x.2 := by
          rw [BuildState.advance, BuildState.movesTo, decide_eq_true (by omega)]
          rfl
        simp [hrank, hadvance, hx]
    · have hbeq : (l == x.1) = false := beq_eq_false_iff_ne.2 (Ne.symm hl)
      simp [hl, hbeq]

theorem rank_of_mem_marks {a : Arena} {classes : List NodeId} {x : NodeId × BuildState}
    (hx : x ∈ a.marks classes) : x.2.rank = 2 := by
  rcases List.mem_append.1 hx with hx | hx
  · obtain ⟨y, -, hy⟩ := List.mem_filterMap.1 hx
    simp only [discardMark?, Option.bind_eq_some_iff, Option.map_eq_some_iff] at hy
    obtain ⟨l, -, m, -, rfl⟩ := hy
    rfl
  · obtain ⟨y, -, hy⟩ := List.mem_filterMap.1 hx
    simp only [keepMark?, Option.map_eq_some_iff] at hy
    obtain ⟨l, -, rfl⟩ := hy
    rfl

/-- Uniting duplicates sets the marks and sends links on. -/
theorem unite_user {a : Arena} (hs : a.Sound) (classes : List NodeId) {l : NodeId} {u : UserType}
    (hu : a.user? l = some u) : ∃ v, (a.unite classes).1.user? l = some v ∧
      v.state = ((a.marks classes).lookup l).getD u.state := by
  let xs := a.identified classes
  let discarded := (Identified.duplicates xs).foldl discard a
  have hunite : (a.unite classes).1 = ((Identified.kept xs).foldl keep discarded).relink
      ((Identified.duplicates xs).flatMap a.forwarding) := rfl
  have hmarks : (Identified.kept xs).foldl keep discarded =
      (a.marks classes).foldl advanceAt a := by
    rw [foldl_keep (foldl_marks discard_marks _ a), marks, List.foldl_append,
      foldl_discard (.refl a)]
  have hrank := hs.underway (node?_user hu)
  have hfinal : ∀ x ∈ a.marks classes, x.2.rank = 2 := fun x hx => rank_of_mem_marks hx
  have huser := user?_foldl_advanceAt hfinal hu
  rw [if_neg (by omega)] at huser
  have hnode : (a.unite classes).1.node? l = some ((Node.user { u with
      state := ((a.marks classes).lookup l).getD u.state }).mapLinks (a.standIn classes)) := by
    rw [hunite, hmarks, node?_relink, node?_user huser]
    rfl
  exact ⟨_, user?_of_node? hnode, rfl⟩

namespace Settled

variable {a : Arena} {records : List SymbolRecord} {classes : List NodeId}

/-- There is one mark for each class: the first one with an identity is kept, the others are
discarded in favour of it. -/
theorem mem_marks_iff (h : a.Settled records classes) {l : NodeId} {s : BuildState} :
    (l, s) ∈ a.marks classes ↔ ∃ id ∈ classes, a.layout? id = some l ∧
      (a.firstLike classes id = id ∧ s = .kept ∨ a.firstLike classes id ≠ id ∧
        ∃ m, a.layout? (a.firstLike classes id) = some m ∧ s = .discarded m) := by
  simp only [marks, List.mem_append, List.mem_filterMap, discardMark?, keepMark?,
    Option.bind_eq_some_iff, Option.map_eq_some_iff, Prod.mk.injEq]
  constructor
  · rintro (⟨⟨id, t⟩, hdup, _, hl, m, hm, rfl, rfl⟩ | ⟨id, hkept, _, hl, rfl, rfl⟩)
    · obtain ⟨hid, rfl, hne⟩ := h.mem_duplicates_iff.1 hdup
      exact ⟨id, hid, hl, Or.inr ⟨hne, m, hm, rfl⟩⟩
    · obtain ⟨hid, hfirst⟩ := (mem_kept_iff fun _ => h.exists_identity).1 hkept
      exact ⟨id, hid, hl, Or.inl ⟨hfirst, rfl⟩⟩
  · rintro ⟨id, hid, hl, ⟨hfirst, rfl⟩ | ⟨hne, m, hm, rfl⟩⟩
    · exact Or.inr ⟨id, (mem_kept_iff fun _ => h.exists_identity).2 ⟨hid, hfirst⟩, l, hl, rfl, rfl⟩
    · exact Or.inl ⟨(id, a.firstLike classes id), h.mem_duplicates_iff.2 ⟨hid, rfl, hne⟩,
        l, hl, m, hm, rfl, rfl⟩

/-- No layout is marked in two ways. -/
theorem lookup_marks (h : a.Settled records classes) {l : NodeId} {s : BuildState}
    (hmem : (l, s) ∈ a.marks classes) : (a.marks classes).lookup l = some s := by
  refine lookup_eq_of_mem hmem fun t hmem' => ?_
  obtain ⟨id, hid, hlay, hs⟩ := h.mem_marks_iff.1 hmem
  obtain ⟨id', hid', hlay', ht⟩ := h.mem_marks_iff.1 hmem'
  obtain rfl := h.layout?_inj hid hid' hlay hlay'
  rcases hs with ⟨hfirst, rfl⟩ | ⟨hne, m, hm, rfl⟩ <;>
    rcases ht with ⟨hfirst', rfl⟩ | ⟨hne', m', hm', rfl⟩
  · rfl
  · exact absurd hfirst hne'
  · exact absurd hfirst' hne
  · rw [Option.some.inj (hm.symm.trans hm')]

/-! ## Where links lead -/

/-- Links are sent to classes that are first, and to the layouts of such classes. -/
theorem firstLike_standIn (h : a.Settled records classes) {x id : NodeId} (hid : id ∈ classes)
    (hx : a.standIn classes x = id ∨ a.layout? id = some (a.standIn classes x)) :
    a.firstLike classes id = id := by
  rcases h.standIn_cases x with ⟨hmem, heq⟩ | ⟨j, hj, -, -, -, -, hm, -⟩ | heq
  · rw [heq] at hx
    rcases hx with rfl | hl
    · exact firstLike_firstLike hmem
    · by_cases hne : a.firstLike classes x = id
      · exact hne ▸ firstLike_firstLike hmem
      · exact absurd (firstLike_mem hmem) (h.layout_not_mem hid hl hne)
  · rcases hx with rfl | hl
    · by_cases hne : a.standIn classes x = a.firstLike classes j
      · exact hne ▸ firstLike_firstLike hj
      · exact absurd hid (h.layout_not_mem (firstLike_mem hj) hm hne)
    · obtain rfl := h.layout?_inj hid (firstLike_mem hj) hl hm
      exact firstLike_firstLike hj
  · rw [heq] at hx
    rcases hx with rfl | hl
    · rw [← h.standIn_class hid, heq]
    · obtain ⟨m, -, hm, -⟩ := h.exists_layout (firstLike_mem (a := a) hid)
      have hstay : x = m := heq.symm.trans (h.standIn_layout hid hl hm)
      exact h.layout?_inj (firstLike_mem hid) hid (hstay ▸ hm) hl

/-- What links are sent to is not marked as discarded. -/
theorem counts_standIn (h : a.Settled records classes) {x : NodeId} {s : BuildState}
    (hs : s.rank ≤ 1) :
    (((a.marks classes).lookup (a.standIn classes x)).getD s).counts = true := by
  cases hl : (a.marks classes).lookup (a.standIn classes x) with
  | none =>
    cases s with
    | discarded m => simp [BuildState.rank] at hs
    | _ => rfl
  | some t =>
    obtain ⟨l₁, l₂, heq, -⟩ := List.lookup_eq_some_iff.1 hl
    obtain ⟨id, hid, hlay, ⟨-, rfl⟩ | ⟨hne, -⟩⟩ :=
      h.mem_marks_iff.1 (heq ▸ by simp : (a.standIn classes x, t) ∈ a.marks classes)
    · rfl
    · exact absurd (h.firstLike_standIn hid (Or.inr hlay)) hne

end Settled

end Arena

/-! ## Records that come first -/

/-- The warning for a record whose first record has another size. -/
def sizeConflict (first r : SymbolRecord) : Diagnostic :=
  { finding := .conflictingDuplicate
    symbol := some r.id
    message := "`" ++ first.name ++ "` is defined with size " ++ toString first.size.toNat
      ++ " and " ++ toString r.size.toNat ++ "; keeping the first definition" }

namespace Arena.Settled

variable {d : Draft} {records : List SymbolRecord} {r : SymbolRecord}

theorem exists_class (h : d.arena.Settled records d.classes) (hr : r ∈ records)
    (hk : r.kind.isClass = true) : ∃ id ∈ d.classes, d.arena.slot? r.id = some id := by
  obtain ⟨id, -, hslot, -⟩ := h.drawn r hr
  exact ⟨id, h.mem_classes_iff.2 ⟨r, hr, hk, hslot⟩, hslot⟩

/-- The classes are the slots of the records of classes. -/
theorem map_slot?_eq (h : d.arena.Settled records d.classes) :
    (records.filter (·.kind.isClass)).map (fun r => d.arena.slot? r.id) = d.classes.map some := by
  rw [← show _ = _ from h.classes, List.map_map]
  rfl

/-- A record that stands for one of a class is one of a class itself. -/
theorem standFor_class (h : d.arena.Settled records d.classes) (hr : r ∈ records)
    (hk : r.kind.isClass = true) {id : NodeId} (hid : d.arena.slot? r.id = some id) :
    d.standFor records r ∈ records ∧ (d.standFor records r).kind.isClass = true ∧
      d.arena.slot? (d.standFor records r).id = some (d.arena.firstLike d.classes id) := by
  have hmem : id ∈ d.classes := h.mem_classes_iff.2 ⟨r, hr, hk, hid⟩
  obtain ⟨hmem', hslot⟩ := Draft.standFor_spec h hr hid
  rw [h.standIn_class hmem] at hslot
  obtain ⟨r', hr', hk', hslot'⟩ := h.mem_classes_iff.1 (Arena.firstLike_mem (a := d.arena) hmem)
  obtain rfl := List.inj_on_of_nodup_map h.nodup hr' hmem' (h.sound.slot_inj hslot' hslot)
  exact ⟨hr', hk', hslot'⟩

/-- A record stands for itself when its class is the first one. -/
theorem standFor_eq_iff (h : d.arena.Settled records d.classes) (hr : r ∈ records)
    (hk : r.kind.isClass = true) {id : NodeId} (hid : d.arena.slot? r.id = some id) :
    d.standFor records r = r ↔ d.arena.firstLike d.classes id = id := by
  obtain ⟨hmem, -, hslot⟩ := h.standFor_class hr hk hid
  constructor
  · intro heq
    rw [heq] at hslot
    exact Option.some.inj (hslot.symm.trans hid)
  · intro heq
    rw [heq] at hslot
    exact List.inj_on_of_nodup_map h.nodup hmem hr (h.sound.slot_inj hslot hid)

/-- The layout of a class has the size, the name and the id of its record. -/
theorem layoutType?_of_record (h : d.arena.Settled records d.classes) (hr : r ∈ records)
    (hk : r.kind.isClass = true) {id : NodeId} (hid : d.arena.slot? r.id = some id) :
    ∃ u, d.arena.layoutType? id = some u ∧ u.size = r.size ∧ u.nativeName = r.name ∧
      u.symbol = r.id := by
  obtain ⟨_, l, u, hid', hl, hu, hhead⟩ := (h.drawn r hr).exists_layout hk
  obtain rfl := Option.some.inj (hid.symm.trans hid')
  exact ⟨u, by simp [Arena.layoutType?, hl, hu], congrArg UserType.size hhead,
    congrArg UserType.nativeName hhead, congrArg UserType.symbol hhead⟩

/-- Classes are warned about when their records differ in size from the first ones. -/
theorem conflict?_of_record (h : d.arena.Settled records d.classes) (hr : r ∈ records)
    (hk : r.kind.isClass = true) {id : NodeId} (hid : d.arena.slot? r.id = some id) :
    d.arena.conflict? (id, d.arena.firstLike d.classes id) =
      if (d.standFor records r).size ≠ r.size then some (sizeConflict (d.standFor records r) r)
      else none := by
  obtain ⟨hr', hk', hid'⟩ := h.standFor_class hr hk hid
  obtain ⟨u, hu, husize, -, husymbol⟩ := h.layoutType?_of_record hr hk hid
  obtain ⟨v, hv, hvsize, hvname, -⟩ := h.layoutType?_of_record hr' hk' hid'
  simp only [Arena.conflict?, hu, hv, Option.bind_eq_bind, Option.bind_some, husize, hvsize,
    hvname, husymbol, sizeConflict]
  by_cases hsize : r.size = (d.standFor records r).size
  · simp [hsize]
  · simp [hsize, Ne.symm hsize]

/-- What is computed for classes is computed for their records. -/
theorem filterMap_classes {β : Type} (h : d.arena.Settled records d.classes)
    {f : NodeId → Option β} {p : SymbolRecord → Bool} {g : SymbolRecord → β}
    (hfg : ∀ r ∈ records, r.kind.isClass = true → ∀ id, d.arena.slot? r.id = some id →
      f id = if p r then some (g r) else none) :
    d.classes.filterMap f = (records.filter fun r => r.kind.isClass && p r).map g := by
  have hpairs := congrArg (List.filterMap (·.bind f)) h.map_slot?_eq
  rw [List.filterMap_map, List.filterMap_map] at hpairs
  change _ = d.classes.filterMap f at hpairs
  rw [← hpairs, ← List.filterMap_eq_map, List.filterMap_filter, List.filterMap_filter]
  refine List.filterMap_congr fun r hr => ?_
  cases hk : r.kind.isClass with
  | false => simp
  | true =>
    obtain ⟨id, -, hid⟩ := h.exists_class hr hk
    simp [hid, hfg r hr hk id hid]

theorem map_fst_identified (h : d.arena.Settled records d.classes) :
    (d.arena.identified d.classes).map (·.1) = d.classes := by
  rw [Arena.identified, List.map_filterMap]
  refine (List.filterMap_congr fun id hid => ?_).trans List.filterMap_some
  obtain ⟨key, hkey⟩ := h.exists_identity hid
  simp [hkey]

/-- The classes that are kept are those of the records that come first. -/
theorem kept_eq (h : d.arena.Settled records d.classes) :
    (Identified.kept (d.arena.identified d.classes)).map some =
      (records.filter fun r => r.kind.isClass && d.standFor records r == r).map
        fun r => d.arena.slot? r.id := by
  have hkept : Identified.kept (d.arena.identified d.classes) =
      d.classes.filter fun id => d.arena.firstLike d.classes id == id := by
    conv_rhs => rw [← h.map_fst_identified]
    rw [Identified.kept, List.filter_map, h.map_fst_identified]
    refine congrArg _ (List.filter_congr fun x hx => ?_)
    rw [Arena.first_identified hx]
    rfl
  rw [hkept, ← List.filterMap_eq_map, List.filterMap_filter]
  refine h.filterMap_classes fun r hr hk id hid => ?_
  have hiff := h.standFor_eq_iff hr hk hid
  by_cases hfirst : d.standFor records r = r
  · simp [hfirst, hiff.1 hfirst, hid]
  · simp [hfirst, mt hiff.2 hfirst]

/-- The conflicts are those of the records that differ in size from the first ones. -/
theorem conflicts_eq (h : d.arena.Settled records d.classes) :
    (d.arena.unite d.classes).2.2 =
      (records.filter fun r => r.kind.isClass && (d.standFor records r).size != r.size).map
        fun r => sizeConflict (d.standFor records r) r := by
  have hnone (id : NodeId) : d.arena.conflict? (id, id) = none := by
    cases hu : d.arena.layoutType? id <;> simp [Arena.conflict?, hu]
  have hconflicts : (d.arena.unite d.classes).2.2 =
      d.classes.filterMap fun id => d.arena.conflict? (id, d.arena.firstLike d.classes id) := by
    conv_rhs => rw [← h.map_fst_identified, List.filterMap_map, h.map_fst_identified]
    change (Identified.duplicates _).filterMap _ = _
    rw [Identified.duplicates, List.filterMap_map, List.filterMap_filter]
    refine List.filterMap_congr fun x hx => ?_
    rw [Arena.first_identified hx]
    by_cases hfirst : d.arena.firstLike d.classes x.1 = x.1
    · simp [hfirst, hnone]
    · simp [hfirst, Arena.first_identified hx]
  rw [hconflicts]
  refine h.filterMap_classes fun r hr hk id hid => ?_
  rw [h.conflict?_of_record hr hk hid]
  simp

end Arena.Settled

/-- Settling a draft reports dangling references and nothing else. -/
theorem Draft.finding_of_settle {d d' : Draft} {options : Options} {ws : Diagnostics}
    (h : d.settle options = .ok (d', ws)) : ∀ x ∈ ws, x.finding = .unresolvedReference := by
  intro x hx
  unfold Draft.settle at h
  split at h
  · obtain ⟨-, rfl⟩ := Prod.mk.inj (Except.ok.inj h)
    cases hx
  · split at h
    · obtain ⟨-, rfl⟩ := Prod.mk.inj (Except.ok.inj h)
      obtain ⟨y, -, rfl⟩ := List.mem_map.1 hx
      rfl
    · cases h

/-! ## Graphs without duplicates -/

/-- Sending links through a function sends each of them. -/
theorem Node.links_mapLinks (f : NodeId → NodeId) (n : Node) :
    (n.mapLinks f).links = n.links.map f := by
  cases n <;> simp [links, mapLinks]

namespace TypeGraph

/-- A node of a graph that was not given up: it is neither a class that another one stands for,
nor the layout of such a class, nor marked as discarded. -/
structure Remains (g : TypeGraph) (records : List SymbolRecord) (d : Draft) (x : NodeId) :
    Prop where
  lt_size : x < g.arena.size
  counts : ∀ {u}, g.arena.user? x = some u → u.state.counts = true
  ne_duplicate : ∀ {r id}, r ∈ records → r.kind.isClass = true → d.standFor records r ≠ r →
    d.arena.slot? r.id = some id → x ≠ id ∧ d.arena.layout? id ≠ some x

/-- A graph, made from a draft of records, in which the first class with an identity stands for
the others. -/
structure Unites (g : TypeGraph) (w : Diagnostics) (records : List SymbolRecord) (d : Draft) :
    Prop where
  /-- The classes are those of the records that come first, in their order. -/
  classes : g.classes.map some =
    (records.filter fun r => r.kind.isClass && d.standFor records r == r).map
      fun r => d.arena.slot? r.id
  /-- Their layouts are kept, and are layouts of instantiations where the class is one. -/
  kept : ∀ {r}, r ∈ records → r.kind.isClass = true → d.standFor records r = r →
    ∃ id n l u, d.arena.slot? r.id = some id ∧ id ∈ g.classes ∧ g.arena.node? id = some n ∧
      d.arena.layout? id = some l ∧ g.arena.layout? id = some l ∧ g.arena.user? l = some u ∧
      u.state = .kept ∧ u.isTemplate = n.isTemplate
  /-- The layout of any other class is discarded in favour of the layout of the first one. -/
  discarded : ∀ {r}, r ∈ records → r.kind.isClass = true → d.standFor records r ≠ r →
    ∃ id l u first m, d.arena.slot? r.id = some id ∧ d.arena.layout? id = some l ∧
      g.arena.user? l = some u ∧ d.arena.slot? (d.standFor records r).id = some first ∧
      first ∈ g.classes ∧ g.arena.layout? first = some m ∧ u.state = .discarded m
  /-- No link of any node leads to what was given up. -/
  links : ∀ {x n y}, g.arena.node? x = some n → y ∈ n.links → g.Remains records d y
  /-- No symbol does. -/
  symbols : ∀ {s x}, g.nodeOf? s = some x → g.Remains records d x
  /-- No class was given up. -/
  remains : ∀ {id}, id ∈ g.classes → g.Remains records d id
  /-- Every node has its record, or is the unknown type. -/
  placed : ∀ {x n}, g.arena.node? x = some n → n.isPlaceholder = false
  /-- There is one warning for each record of another size than the first one. -/
  conflicts : w.ofFinding .conflictingDuplicate =
    (records.filter fun r => r.kind.isClass && (d.standFor records r).size != r.size).map
      fun r => sizeConflict (d.standFor records r) r

/-- What the user types of a settled draft have become in a graph: they show the same, their
states are those they are marked with, and their bases are some of those that they had. -/
structure Marked (g : TypeGraph) (d : Draft) : Prop where
  user : ∀ {l u}, d.arena.user? l = some u → ∃ v, g.arena.user? l = some v ∧ v.head = u.head ∧
    v.state = ((d.arena.marks d.classes).lookup l).getD u.state ∧
    v.bases ⊆ u.bases.map (d.arena.standIn d.classes)

theorem marked_of_ofRecords {options : Options} {records : List SymbolRecord} {g : TypeGraph}
    {w : Diagnostics} (h : ofRecords options records = .ok (g, w)) :
    ∃ d, Draft.settled options records = .ok d ∧
      w.ofFinding .conflictingDuplicate =
        (d.arena.unite d.classes).2.2.ofFinding .conflictingDuplicate ∧
      g.classes = Identified.kept (d.arena.identified d.classes) ∧ g.Marked d := by
  obtain ⟨draft, d, ws, hdraft, hsettle, -, hclasses, hcheck, hw⟩ := ofRecords_eq_ok h
  have hd : Draft.settled options records = .ok d :=
    Draft.settled_eq_ok_iff.2 ⟨draft, ws, hdraft, hsettle⟩
  have hs := Draft.settled_spec hd
  refine ⟨d, hd, ?_, hclasses, ⟨fun {l u} hu => ?_⟩⟩
  · have hnone : Diagnostics.ofFinding ws .conflictingDuplicate = [] :=
      List.filter_eq_nil_iff.2 fun x hx => by simp [Draft.finding_of_settle hsettle x hx]
    rw [hw, Diagnostics.ofFinding, List.filter_append]
    exact congrArg (· ++ _) hnone
  · obtain ⟨v, hv, hstate⟩ := Arena.unite_user hs.sound d.classes hu
    obtain ⟨v', hv', hhead, hbases, -⟩ := (d.arena.unite_relinks d.classes).user hu
    obtain rfl := Option.some.inj (hv.symm.trans hv')
    obtain ⟨hmem, hnot⟩ := (foldlM_checkClass hcheck).2 hv
    by_cases hl : some l ∈ g.classes.map (d.arena.unite d.classes).1.layout?
    · refine ⟨_, (hmem hl).1, hhead, hstate, fun b hb => ?_⟩
      rw [← hbases]
      exact (List.mem_filter.1 hb).1
    · exact ⟨v, hnot hl, hhead, hstate, fun b hb => hbases ▸ hb⟩

section

variable {g : TypeGraph} {records : List SymbolRecord} {d : Draft}
  (hs : d.arena.Settled records d.classes) (hf : g.Finishes d.arena records d.classes)
  (hm : g.Marked d)

include hs hf hm

/-- The links of a finished graph are links of the settled draft that were sent on. -/
theorem exists_link {x y : NodeId} {n : Node} (hn : g.arena.node? x = some n)
    (hy : y ∈ n.links) : ∃ t < d.arena.size, y = d.arena.standIn d.classes t := by
  obtain ⟨m, hxm⟩ := Arena.exists_node?_of_lt (hf.size ▸ Arena.lt_size_of_node? hn)
  have hlink : y ∈ m.links.map (d.arena.standIn d.classes) := by
    cases m with
    | user u =>
      obtain ⟨v, hv, -, -, hbases⟩ := hm.user (Arena.user?_of_node? hxm)
      obtain ⟨v', hv', -, hfields⟩ := hf.user (Arena.user?_of_node? hxm)
      obtain rfl := Option.some.inj (hv.symm.trans hv')
      obtain rfl := Option.some.inj (hn.symm.trans (Arena.node?_user hv))
      rw [Node.links, List.map_append]
      rcases List.mem_append.1 hy with hy | hy
      · exact List.mem_append_left _ (hbases hy)
      · rw [hfields] at hy
        exact List.mem_append_right _ (by simpa using hy)
    | _ =>
      obtain rfl := Option.some.inj (hn.symm.trans (hf.node hxm rfl))
      rwa [Node.links_mapLinks] at hy
  obtain ⟨t, ht, rfl⟩ := List.mem_map.1 hlink
  exact ⟨t, hs.sound.links_lt hxm ht, rfl⟩

/-- Nothing is sent on to what was given up. -/
theorem remains_standIn {t : NodeId} (ht : t < d.arena.size) :
    g.Remains records d (d.arena.standIn d.classes t) := by
  refine ⟨hf.size ▸ hs.standIn_lt ht, fun {v} hv => ?_, fun {r id} hr hk hne hid => ?_⟩
  · obtain ⟨m, hsm⟩ := Arena.exists_node?_of_lt (hs.standIn_lt ht)
    cases m with
    | user u =>
      obtain ⟨v', hv', -, hstate, -⟩ := hm.user (Arena.user?_of_node? hsm)
      obtain rfl := Option.some.inj (hv.symm.trans hv')
      rw [hstate]
      exact hs.counts_standIn (hs.sound.underway hsm)
    | _ =>
      have hnode := (Arena.node?_user hv).symm.trans (hf.node hsm rfl)
      simp [Node.mapLinks] at hnode
  · have hmem : id ∈ d.classes := hs.mem_classes_iff.2 ⟨r, hr, hk, hid⟩
    have hnot := mt (hs.standFor_eq_iff hr hk hid).2 hne
    exact ⟨fun heq => hnot (hs.firstLike_standIn hmem (Or.inl heq)),
      fun heq => hnot (hs.firstLike_standIn hmem (Or.inr heq))⟩

/-- The layout of a class of the graph is kept. -/
theorem exists_kept_layout {id l : NodeId} {u : UserType} (hid : id ∈ g.classes)
    (hl : d.arena.layout? id = some l) (hu : d.arena.user? l = some u) :
    ∃ v, g.arena.layout? id = some l ∧ g.arena.user? l = some v ∧ v.state = .kept ∧
      v.head = u.head := by
  obtain ⟨hmem, hfirst⟩ := hf.mem_classes.1 hid
  obtain ⟨v, hv, hhead, hstate, -⟩ := hm.user hu
  rw [hs.lookup_marks (hs.mem_marks_iff.2 ⟨id, hmem, hl, Or.inl ⟨hfirst, rfl⟩⟩)] at hstate
  exact ⟨v, (hf.layout hid).trans hl, hv, hstate, hhead⟩

/-- A class of the graph is told to be an instantiation by its layout. -/
theorem exists_kept {id : NodeId} (hid : id ∈ g.classes) : ∃ n l u,
    g.arena.node? id = some n ∧ d.arena.layout? id = some l ∧ g.arena.layout? id = some l ∧
      g.arena.user? l = some u ∧ u.state = .kept ∧ u.isTemplate = n.isTemplate := by
  obtain ⟨_, -, -, -, ⟨u, -, hn, hhead⟩ | ⟨l, args, u, -, hn, -, -, hu, hhead⟩⟩ :=
    hs.class_cases (hf.mem_classes.1 hid).1
  · have hl : d.arena.layout? id = some id := by simp [Arena.layout?, hn]
    obtain ⟨v, hlayout, hv, hkept, hsame⟩ :=
      exists_kept_layout hs hf hm hid hl (Arena.user?_of_node? hn)
    exact ⟨_, id, v, Arena.node?_user hv, hl, hlayout, hv, hkept,
      congrArg UserType.isTemplate (hsame.trans hhead)⟩
  · have hl : d.arena.layout? id = some l := by simp [Arena.layout?, hn]
    obtain ⟨v, hlayout, hv, hkept, hsame⟩ := exists_kept_layout hs hf hm hid hl hu
    exact ⟨_, l, v, hf.node hn rfl, hl, hlayout, hv, hkept,
      congrArg UserType.isTemplate (hsame.trans hhead)⟩

/-- The layout of a class that is not the first one is discarded in favour of that one's. -/
theorem exists_discarded {id : NodeId} (hid : id ∈ d.classes)
    (hne : d.arena.firstLike d.classes id ≠ id) : ∃ l u m, d.arena.layout? id = some l ∧
      g.arena.user? l = some u ∧ d.arena.firstLike d.classes id ∈ g.classes ∧
      g.arena.layout? (d.arena.firstLike d.classes id) = some m ∧ u.state = .discarded m := by
  have hfirst : d.arena.firstLike d.classes id ∈ g.classes :=
    hf.mem_classes.2 ⟨Arena.firstLike_mem hid, Arena.firstLike_firstLike hid⟩
  obtain ⟨l, u, hl, hu⟩ := hs.exists_layout hid
  obtain ⟨m, -, hlayout, -⟩ := hs.exists_layout (Arena.firstLike_mem (a := d.arena) hid)
  obtain ⟨v, hv, -, hstate, -⟩ := hm.user hu
  rw [hs.lookup_marks (hs.mem_marks_iff.2 ⟨id, hid, hl, Or.inr ⟨hne, m, hlayout, rfl⟩⟩)] at hstate
  exact ⟨l, v, m, hl, hv, hfirst, (hf.layout hfirst).trans hlayout, hstate⟩

end

/-- In every graph that is built the first class with an identity stands for the others. -/
theorem ofRecords_unites {options : Options} {records : List SymbolRecord} {g : TypeGraph}
    {w : Diagnostics} (h : ofRecords options records = .ok (g, w)) :
    ∃ d, Draft.settled options records = .ok d ∧ g.Unites w records d := by
  obtain ⟨d, hd, hw, hclasses, hm⟩ := marked_of_ofRecords h
  obtain ⟨d', hd', -, hs, hf⟩ := exists_finishes h
  obtain rfl := Except.ok.inj (hd.symm.trans hd')
  refine ⟨d, hd, ?_, ?_, ?_, ?_, ?_, ?_, (hf.tidy hs).placed, ?_⟩
  · rw [hclasses, hs.kept_eq]
  · intro r hr hk hfirst
    obtain ⟨id, hid, hslot⟩ := hs.exists_class hr hk
    have hmem : id ∈ g.classes :=
      hf.mem_classes.2 ⟨hid, (hs.standFor_eq_iff hr hk hslot).1 hfirst⟩
    obtain ⟨n, l, u, hn, hl, hrest⟩ := exists_kept hs hf hm hmem
    exact ⟨id, n, l, u, hslot, hmem, hn, hl, hrest⟩
  · intro r hr hk hne
    obtain ⟨id, hid, hslot⟩ := hs.exists_class hr hk
    have hne' := mt (hs.standFor_eq_iff hr hk hslot).2 hne
    obtain ⟨l, u, m, hl, hu, hrest⟩ := exists_discarded hs hf hm hid hne'
    exact ⟨id, l, u, _, m, hslot, hl, hu, (hs.standFor_class hr hk hslot).2.2, hrest⟩
  · intro x n y hn hy
    obtain ⟨t, ht, rfl⟩ := exists_link hs hf hm hn hy
    exact remains_standIn hs hf hm ht
  · intro s x hx
    rw [nodeOf?, hf.slot, Option.map_eq_some_iff] at hx
    obtain ⟨t, ht, rfl⟩ := hx
    exact remains_standIn hs hf hm (hs.sound.slot_lt ht)
  · intro id hid
    obtain ⟨hmem, hfirst⟩ := hf.mem_classes.1 hid
    obtain ⟨n, hn, -⟩ := hs.isClass_of_mem hmem
    have hstay : d.arena.standIn d.classes id = id := (hs.standIn_class hmem).trans hfirst
    exact hstay ▸ remains_standIn hs hf hm (Arena.lt_size_of_node? hn)
  · rw [hw, hs.conflicts_eq]
    refine List.filter_eq_self.2 fun x hx => ?_
    obtain ⟨r, -, rfl⟩ := List.mem_map.1 hx
    rfl

/-- A class and an instantiation over it, both recorded twice in turn, the second time with
another size for the class. -/
def interleaved : List SymbolRecord :=
  [(SymbolRecord.ofUserType ⟨1⟩ "Node" 8).addField "next" ⟨5⟩ 0,
    .ofInstantiation ⟨2⟩ "Box<Node>" 8 [⟨1⟩],
    (SymbolRecord.ofUserType ⟨3⟩ "Node" 16).addField "box" ⟨4⟩ 0,
    .ofInstantiation ⟨4⟩ "Box<Node>" 8 [⟨3⟩],
    .ofPointer ⟨5⟩ (some ⟨3⟩) 8]

theorem interleaved_united : ∃ g w d, ofRecords {} interleaved = .ok (g, w) ∧
    Draft.settled {} interleaved = .ok d ∧ g.classes.length = 2 ∧ g.Unites w interleaved d := by
  obtain ⟨g, w, h, hlength⟩ : ∃ g w, ofRecords {} interleaved = .ok (g, w) ∧
      g.classes.length = 2 := exists_ofRecords_and (by decide +kernel)
  obtain ⟨d, hd, hunites⟩ := ofRecords_unites h
  exact ⟨g, w, d, h, hd, hlength, hunites⟩

end TypeGraph

end NativeBindings
