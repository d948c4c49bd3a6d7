import NativeBindings.Proofs.Graph.Representation
import NativeBindings.Proofs.Graph.SpellingEnds

/-!
# Rings that uniting duplicates closes

Spelling is checked on the draft, and duplicates are united afterwards. A class is known by
the native names of its arguments, and a name does not say what it is the name of: a scalar
may be spelled like an instantiation. So the class that stands for another may reach that
very class through its own arguments, and a ring is closed that the check has not seen
(`TypeGraph.crossedSpelling_loops`).

`TypeGraph.ofRecords_spellingEnds_iff` says exactly when: the rings of the graph are the
rings of the records, each standing for all records of its identity (`Draft.Leads`). Where
equal native names are made from equal native names (`Arena.Faithful`), there is none.
-/

namespace NativeBindings

open Relation

/-- The ids that the written name of a record depends on. -/
def SymbolRecord.spelled (r : SymbolRecord) : List SymbolId :=
  match r.kind with
  | .pointer | .array | .enumeration => r.element.toList
  | .templateInstantiation => r.templateArguments
  | .primitive | .userType => []

namespace Draft

/-- The record that stands for a record: the first one of its identity for a class. -/
def standFor (d : Draft) (records : List SymbolRecord) (r : SymbolRecord) : SymbolRecord :=
  if r.kind.isClass then
    (records.find? fun r' => d.identityOf? r' == d.identityOf? r).getD r
  else r

/-- The written name of one record depends on a record that the other stands for. -/
def Leads (d : Draft) (records : List SymbolRecord) (r s : SymbolRecord) : Prop :=
  ∃ r' ∈ records, r'.id ∈ r.spelled ∧ s = d.standFor records r'

variable {d : Draft} {records : List SymbolRecord} {r : SymbolRecord}

/-- The record that stands for another has the slot that the other's is sent to. -/
theorem standFor_spec (h : d.arena.Settled records d.classes) (hr : r ∈ records) {id : NodeId}
    (hid : d.arena.slot? r.id = some id) :
    d.standFor records r ∈ records ∧
      d.arena.slot? (d.standFor records r).id = some (d.arena.standIn d.classes id) := by
  unfold standFor
  split
  · next hk =>
    have hmem : id ∈ d.classes := h.mem_classes_iff.2 ⟨r, hr, hk, hid⟩
    obtain ⟨key, first, hkey, hfind, hslot⟩ := exists_first h hr hk hid
    rw [hkey, hfind, h.standIn_class hmem]
    exact ⟨List.mem_of_find?_eq_some hfind, hslot⟩
  · next hk =>
    obtain ⟨_, n, hid', hn, hdraw⟩ := h.drawn r hr
    obtain rfl := Option.some.inj (hid.symm.trans hid')
    have hclass : n.isClass = false := hdraw.isClass.trans (Bool.eq_false_iff.2 hk)
    rw [h.standIn_of_not_class hn hclass]
    exact ⟨hr, hid⟩

end Draft

/-! ## Links of drawn records -/

/-- The spelling links of a drawn record lead to the symbols that it spells. Where it spells
none they lead to primitives. -/
theorem Arena.Settled.spelled_links {a : Arena} {records : List SymbolRecord}
    {classes : List NodeId} (h : a.Settled records classes) {r : SymbolRecord} {n : Node}
    (hd : a.Draws r n) : a.Slots r.spelled n.spellingLinks ∨
      r.spelled = [] ∧ ∀ t ∈ n.spellingLinks, ∃ name, a.node? t = some (.primitive name) := by
  have htarget {t : NodeId} (ht : a.Target r t) : a.Slots r.element.toList [t] ∨
      r.element.toList = [] ∧ ∀ x ∈ [t], ∃ name, a.node? x = some (.primitive name) := by
    unfold Target at ht
    cases he : r.element with
    | some e =>
      rw [he] at ht
      exact Or.inl (by simp [Slots, ht])
    | none =>
      rw [he] at ht
      exact Or.inr ⟨rfl, by simpa [ht] using ⟨"void", h.sound.void⟩⟩
  cases hd with
  | primitive hk => exact Or.inl (by simp [SymbolRecord.spelled, hk, Node.spellingLinks, Slots])
  | pointer hk ht | array hk ht =>
    simp only [SymbolRecord.spelled, hk]
    exact htarget ht
  | enumeration hk ht =>
    simp only [SymbolRecord.spelled, hk]
    unfold Underlying at ht
    cases he : r.element with
    | some e =>
      rw [he] at ht
      exact Or.inl (by simp [Slots, Node.spellingLinks, Draft.enumType, ht])
    | none =>
      rw [he] at ht
      refine Or.inr ⟨rfl, ?_⟩
      simpa [Node.spellingLinks, Draft.enumType] using ⟨_, h.sound.shared ht⟩
  | plain hk ha =>
    have hspelled : r.spelled = [] := by
      cases hkind : r.kind <;>
        simp_all [SymbolRecord.spelled, SymbolRecord.isApplied, SymbolKind.isClass]
    exact Or.inl (by simp [hspelled, Node.spellingLinks, Slots])
  | applied ha hargs =>
    simp only [SymbolRecord.spelled, SymbolRecord.kind_of_isApplied ha]
    exact Or.inl hargs

theorem Arena.Settled.spells_lt {a : Arena} {records : List SymbolRecord} {classes : List NodeId}
    (h : a.Settled records classes) {x y : NodeId} (hxy : a.Spells x y) : y < a.size := by
  obtain ⟨n, hn, hy⟩ := Arena.spells_iff.1 hxy
  exact h.sound.links_lt hn (Node.mem_links_of_mem_spellingLinks hy)

theorem Arena.Settled.closed {a : Arena} {records : List SymbolRecord} {classes : List NodeId}
    (h : a.Settled records classes) : a.Closed :=
  ⟨h.spells_lt, fun hn => (h.template_spec hn).2⟩

/-! ## Rings of nodes and rings of records -/

namespace TypeGraph.Finishes

variable {g : TypeGraph} {d : Draft} {records : List SymbolRecord}

/-- A finished graph has the spelling links of the draft, sent on. -/
theorem spells_iff {a : Arena} {classes : List NodeId} (h : g.Finishes a records classes)
    {x y : NodeId} : g.arena.Spells x y ↔ ∃ t, a.Spells x t ∧ y = a.standIn classes t := by
  simp only [Arena.spells_iff]
  cases hn : a.node? x with
  | none =>
    rw [Arena.node?_eq_none_iff.2 (h.size ▸ Arena.node?_eq_none_iff.1 hn)]
    simp
  | some n =>
    cases n with
    | user u =>
      obtain ⟨v, hv, -⟩ := h.user (Arena.user?_of_node? hn)
      simp [Arena.node?_user hv, Node.spellingLinks]
    | _ => simp [h.node hn rfl, Node.spellingLinks_mapLinks, eq_comm]

/-- A link of the graph that goes on is a step between records. It does not come to a primitive,
which has no links. -/
theorem exists_leads (h : g.Finishes d.arena records d.classes)
    (hs : d.arena.Settled records d.classes) {r : SymbolRecord} (hr : r ∈ records)
    {x y z : NodeId} (hx : d.arena.slot? r.id = some x) (hxy : g.arena.Spells x y)
    (hyz : g.arena.Spells y z) :
    ∃ s ∈ records, d.Leads records r s ∧ d.arena.slot? s.id = some y := by
  obtain ⟨t, hxt, rfl⟩ := h.spells_iff.1 hxy
  obtain ⟨_, n, hx', hn, hdraw⟩ := hs.drawn r hr
  obtain rfl := Option.some.inj (hx.symm.trans hx')
  obtain ⟨n', hn', ht⟩ := Arena.spells_iff.1 hxt
  obtain rfl := Option.some.inj (hn.symm.trans hn')
  have hstop {name : String} (hprim : d.arena.node? t = some (.primitive name)) : False := by
    obtain ⟨hstay, hnode⟩ := h.node?_of_not_class hs hprim rfl
    rw [hstay] at hyz
    obtain ⟨m, hm, hz⟩ := Arena.spells_iff.1 hyz
    obtain rfl := Option.some.inj (hnode.symm.trans hm)
    simp [Node.mapLinks, Node.spellingLinks] at hz
  rcases hs.spelled_links hdraw with hslots | ⟨-, hprims⟩
  · obtain ⟨s, hspelled, hslot⟩ := hslots.exists_slot? ht
    by_cases hmem : s ∈ records.map (·.id)
    · obtain ⟨r', hr', rfl⟩ := List.mem_map.1 hmem
      obtain ⟨hstand, hslot'⟩ := Draft.standFor_spec hs hr' hslot
      exact ⟨_, hstand, ⟨r', hr', hspelled, rfl⟩, hslot'⟩
    · exact (hstop (hs.missing hslot hmem)).elim
  · obtain ⟨name, hprim⟩ := hprims t ht
    exact (hstop hprim).elim

/-- A step between records is a link of the graph. -/
theorem spells_of_leads (h : g.Finishes d.arena records d.classes)
    (hs : d.arena.Settled records d.classes) {r s : SymbolRecord} (hr : r ∈ records)
    {x : NodeId} (hx : d.arena.slot? r.id = some x) (hlead : d.Leads records r s) :
    s ∈ records ∧ ∃ y, d.arena.slot? s.id = some y ∧ g.arena.Spells x y := by
  obtain ⟨r', hr', hspelled, rfl⟩ := hlead
  obtain ⟨_, n, hx', hn, hdraw⟩ := hs.drawn r hr
  obtain rfl := Option.some.inj (hx.symm.trans hx')
  rcases hs.spelled_links hdraw with hslots | ⟨hnone, -⟩
  · obtain ⟨t, ht, hslot⟩ := hslots.mem hspelled
    obtain ⟨hstand, hslot'⟩ := Draft.standFor_spec hs hr' hslot
    exact ⟨hstand, _, hslot', h.spells_iff.2 ⟨t, Arena.spells_iff.2 ⟨n, hn, ht⟩, rfl⟩⟩
  · simp [hnone] at hspelled

/-- The rings of the graph are the rings of the records. -/
theorem spellingEnds_iff (h : g.Finishes d.arena records d.classes)
    (hs : d.arena.Settled records d.classes) :
    g.arena.SpellingEnds ↔ ∀ r ∈ records, ¬TransGen (d.Leads records) r r := by
  constructor
  · intro hends r hr hring
    obtain ⟨x, -, hx, -⟩ := hs.drawn r hr
    refine hends x (ring_of_steps (fun r x => r ∈ records ∧ d.arena.slot? r.id = some x)
      (fun hstands hlead _ => ?_) (fun hx hy => ?_) ⟨hr, hx⟩ hring)
    · obtain ⟨hmem, y, hy, hxy⟩ := h.spells_of_leads hs hstands.1 hstands.2 hlead
      exact ⟨y, hxy, hmem, hy⟩
    · exact Option.some.inj (hy.2.symm.trans hx.2)
  · intro hno x hring
    obtain ⟨z, hxz, -⟩ := TransGen.head'_iff.1 hring
    obtain ⟨t, hxt, -⟩ := h.spells_iff.1 hxz
    obtain ⟨n, hn, ht⟩ := Arena.spells_iff.1 hxt
    obtain ⟨r, hr, hx⟩ := hs.origin hn (Node.isCompound_of_mem_spellingLinks ht)
    refine hno r hr (ring_of_steps (fun x r => r ∈ records ∧ d.arena.slot? r.id = some x)
      (fun hstands hxy hyz => ?_) (fun hr hs' => ?_) ⟨hr, hx⟩ hring)
    · obtain ⟨s, hmem, hlead, hy⟩ := h.exists_leads hs hstands.1 hstands.2 hxy hyz
      exact ⟨s, hlead, hmem, hy⟩
    · exact List.inj_on_of_nodup_map hs.nodup hs'.1 hr.1 (hs.sound.slot_inj hs'.2 hr.2)

theorem closed (h : g.Finishes d.arena records d.classes)
    (hs : d.arena.Settled records d.classes) : g.arena.Closed where
  spells_lt hxy := by
    obtain ⟨t, hxt, rfl⟩ := h.spells_iff.1 hxy
    rw [h.size]
    exact hs.standIn_lt (hs.spells_lt hxt)
  layout {x l args} hm := by
    obtain ⟨n, hn, -, heq⟩ := h.exists_node? hm rfl
    cases n with
    | template k args' =>
      obtain ⟨rfl, -⟩ := Node.template.inj heq
      obtain ⟨hmem, -⟩ := hs.template_spec hn
      obtain ⟨m, v, hm, hv⟩ := hs.exists_layout (Arena.firstLike_mem (a := d.arena) hmem)
      obtain ⟨v', hv', -⟩ := h.user hv
      rw [hs.standIn_layout hmem (by simp [Arena.layout?, hn]) hm]
      exact ⟨v', hv'⟩
    | _ => simp [Node.mapLinks] at heq

end TypeGraph.Finishes

/-! ## Faithful names -/

/-- Equal native names are made from equal native names. -/
def Arena.Faithful (a : Arena) : Prop :=
  ∀ x y, x < a.size → y < a.size → a.native x = a.native y →
    (a.spellingLinks x).map a.native = (a.spellingLinks y).map a.native

theorem Arena.arguments_of_identity? {a : Arena} {id : NodeId} {key : Identity}
    (h : a.identity? id = some key) : key.arguments = (a.spellingLinks id).map a.native := by
  unfold identity? at h
  unfold spellingLinks
  cases hn : a.node? id with
  | none => simp [hn] at h
  | some n =>
    rw [hn] at h
    cases n with
    | user u =>
      obtain rfl := Option.some.inj h
      rfl
    | template l args =>
      obtain ⟨u, -, rfl⟩ := Option.map_eq_some_iff.1 h
      rfl
    | _ => simp at h

namespace Arena.Settled

variable {a : Arena} {records : List SymbolRecord} {classes : List NodeId}

/-- The class that stands for another is made from the same native names. -/
theorem native_links_standIn (h : a.Settled records classes) (id : NodeId) :
    (a.spellingLinks (a.standIn classes id)).map a.native = (a.spellingLinks id).map a.native := by
  rcases h.standIn_cases id with ⟨hmem, heq⟩ | ⟨-, -, u, v, -, hu, -, hv⟩ | heq
  · obtain ⟨key, hkey⟩ := h.exists_identity hmem
    have hkey' := (identity?_firstLike (a := a) hmem).trans hkey
    rw [heq, ← arguments_of_identity? hkey, ← arguments_of_identity? hkey']
  · simp [spellingLinks, node?_user hu, node?_user hv, Node.spellingLinks]
  · rw [heq]

end Arena.Settled

/-- With faithful names uniting duplicates closes no ring. The induction is on the draft, where
spelling ends, for all nodes that are made from the same names. -/
theorem TypeGraph.Finishes.spellingEnds_of_faithful {g : TypeGraph} {d : Draft}
    {records : List SymbolRecord} (h : g.Finishes d.arena records d.classes)
    (hs : d.arena.Settled records d.classes) (hspell : d.arena.checkSpelling = .ok ())
    (hfaith : d.arena.Faithful) : g.arena.SpellingEnds := by
  have key (x : NodeId) (hx : Acc (fun y x => d.arena.Spells x y) x) : ∀ y,
      (d.arena.spellingLinks y).map d.arena.native = (d.arena.spellingLinks x).map d.arena.native →
        Acc (fun y x => g.arena.Spells x y) y := by
    induction hx with
    | intro x _ ih =>
      intro y hxy
      refine ⟨y, fun z hz => ?_⟩
      obtain ⟨t, hyt, rfl⟩ := h.spells_iff.1 hz
      have hname : d.arena.native t ∈ (d.arena.spellingLinks x).map d.arena.native := by
        rw [← hxy]
        exact List.mem_map_of_mem hyt
      obtain ⟨t', hxt', hnative⟩ := List.mem_map.1 hname
      refine ih t' hxt' _ ?_
      rw [hs.native_links_standIn]
      exact hfaith t t' (hs.spells_lt hyt) (hs.spells_lt hxt') hnative.symm
  intro x
  have hacc := Arena.acc_of_checkSpelling (fun _ _ => hs.spells_lt) hspell x
  exact not_transGen_of_acc (key x hacc x rfl)

/-! ## The graph that is built -/

namespace TypeGraph

/-- Every node can be written: by its name in the bindings, as a pattern inside an
instantiation, and as a reference in declarations about the graph. -/
def Writable (g : TypeGraph) : Prop :=
  ∀ id < g.arena.size,
    (∀ short, ∃ s, g.arena.render? short id = some s) ∧
    (∀ familyOf arguments, ∃ p,
      g.arena.read? (Pattern.reading g.arena.native familyOf arguments) id = some p) ∧
    ∀ c : Catalog, c.graph = g → ∃ t, g.arena.read? c.reading id = some t

theorem writable_iff {g : TypeGraph} (h : g.arena.Closed) :
    g.Writable ↔ g.arena.SpellingEnds := by
  constructor
  · intro hw x hring
    obtain ⟨y, hxy, -⟩ := TransGen.head'_iff.1 hring
    obtain ⟨n, hn, -⟩ := Arena.spells_iff.1 hxy
    obtain ⟨s, hs⟩ := (hw x (Arena.lt_size_of_node? hn)).1 true
    exact not_transGen_of_acc (Arena.acc_of_render hs) hring
  · intro hends id hid
    refine ⟨fun short => ?_, fun familyOf arguments => ?_, fun c _ => ?_⟩
    · exact h.exists_read? (Reading.rendered_stable short) (Reading.rendered_total short)
        (hends.acc id) hid
    · exact h.exists_read? (Pattern.reading_stable _ familyOf arguments)
        (Pattern.reading_total _ familyOf arguments) (hends.acc id) hid
    · exact h.exists_read? c.reading_stable c.reading_total (hends.acc id) hid

/-- In a graph that is built, the spelling links end and every node can be written if and
only if no ring of records leads back along what their names depend on, each class standing
for all classes of its identity; and always so if native names are faithful. -/
theorem ofRecords_spellingEnds_iff {options : Options} {records : List SymbolRecord}
    {g : TypeGraph} {w : Diagnostics} (h : ofRecords options records = .ok (g, w)) :
    ∃ d, Draft.settled options records = .ok d ∧
      (g.arena.SpellingEnds ↔ ∀ r ∈ records, ¬TransGen (d.Leads records) r r) ∧
      (g.Writable ↔ g.arena.SpellingEnds) ∧
      (d.arena.Faithful → g.arena.SpellingEnds) := by
  obtain ⟨d, hd, hspell, hs, hf⟩ := exists_finishes h
  exact ⟨d, hd, hf.spellingEnds_iff hs, writable_iff (hf.closed hs),
    hf.spellingEnds_of_faithful hs hspell⟩

/-- Two instantiations of one template over two scalars, one of which is spelled like the
other instantiation. -/
def crossedSpelling : List SymbolRecord :=
  [.ofInstantiation ⟨1⟩ "Box<r>" 8 [⟨2⟩],
    .ofInstantiation ⟨2⟩ "Box<q>" 8 [⟨3⟩],
    .ofPrimitive ⟨3⟩ "Box<q>" 4]

theorem exists_ofRecords_crossedSpelling :
    ∃ g w, ofRecords {} crossedSpelling = .ok (g, w) ∧ g.arena.Spells 2 2 :=
  exists_ofRecords_and (P := fun g => 2 ∈ g.arena.spellingLinks 2) (by decide +kernel)

/-- The second instantiation goes into the first, whose argument it is. -/
theorem crossedSpelling_loops :
    ∃ g w, ofRecords {} crossedSpelling = .ok (g, w) ∧ ¬g.arena.SpellingEnds := by
  obtain ⟨g, w, h, hlink⟩ := exists_ofRecords_crossedSpelling
  exact ⟨g, w, h, fun hends => hends 2 (.single hlink)⟩

/-- Its names are not faithful, some of its types cannot be written, and the ring is one of
records. -/
theorem crossedSpelling_ring :
    ∃ g w d, ofRecords {} crossedSpelling = .ok (g, w) ∧
      Draft.settled {} crossedSpelling = .ok d ∧ ¬d.arena.Faithful ∧ ¬g.Writable ∧
      ∃ r ∈ crossedSpelling, TransGen (d.Leads crossedSpelling) r r := by
  obtain ⟨g, w, h, hlink⟩ := exists_ofRecords_crossedSpelling
  have hloop : ¬g.arena.SpellingEnds := fun hends => hends 2 (.single hlink)
  obtain ⟨d, hd, hring, hwritable, hfaith⟩ := ofRecords_spellingEnds_iff h
  refine ⟨g, w, d, h, hd, fun hf => hloop (hfaith hf), fun hw => hloop (hwritable.1 hw), ?_⟩
  rw [hring] at hloop
  simpa using hloop

end TypeGraph

end NativeBindings
