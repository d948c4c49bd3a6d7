import NativeBindings.Proofs.Graph.SpelledRing

/-!
# Tidy graphs

Duplicates leave discarded classes behind in the arena, and instantiations have hidden layouts.
No link leads to either: what a kept class or the name of any node mentions is a kept class or
no class at all (`TypeGraph.Proper`). Together with the fact that nothing is left without a
record this is all that writing declarations relies on (`TypeGraph.Tidy`), and every graph that
is built has it (`TypeGraph.tidy_of_ofRecords`).
-/

namespace NativeBindings

theorem Node.isClass_mapLinks (f : NodeId → NodeId) (n : Node) :
    (n.mapLinks f).isClass = n.isClass := by
  cases n <;> rfl

/-- The types of the fields and then of the bases. -/
def UserType.parts (u : UserType) : List NodeId :=
  u.fields.map (·.type) ++ u.bases

namespace TypeGraph

theorem layoutType?_user {g : TypeGraph} {x : NodeId} {u : UserType}
    (h : g.arena.node? x = some (.user u)) : g.layoutType? x = some u := by
  rw [layoutType?, Arena.layoutType?, Arena.layout?, h]
  exact Arena.user?_of_node? h

/-- A node that is no class, or a class that is kept. -/
def Proper (g : TypeGraph) (x : NodeId) : Prop :=
  ∃ n, g.arena.node? x = some n ∧ (n.isClass = true → x ∈ g.classes)

theorem Proper.lt_size {g : TypeGraph} {x : NodeId} (h : g.Proper x) : x < g.arena.size := by
  obtain ⟨n, hn, -⟩ := h
  exact Arena.lt_size_of_node? hn

/-- A proper node that is a class is listed as one. -/
theorem Proper.mem_classes {g : TypeGraph} {x : NodeId} (h : g.Proper x) {n : Node}
    (hn : g.arena.node? x = some n) (hk : n.isClass = true) : x ∈ g.classes := by
  obtain ⟨n', hn', hmem⟩ := h
  obtain rfl := Option.some.inj (hn.symm.trans hn')
  exact hmem hk

/-- A graph in which links lead to proper nodes, and kept classes are told by their symbols. -/
structure Tidy (g : TypeGraph) : Prop where
  closed : g.arena.Closed
  placed : ∀ {x n}, g.arena.node? x = some n → n.isPlaceholder = false
  proper_spells : ∀ {x y}, g.arena.Spells x y → g.Proper y
  proper_parts : ∀ {id u}, id ∈ g.classes → g.layoutType? id = some u →
    ∀ x ∈ u.parts, g.Proper x
  eq_of_symbol : ∀ {id id' u u'}, id ∈ g.classes → id' ∈ g.classes →
    g.layoutType? id = some u → g.layoutType? id' = some u' → u.symbol = u'.symbol → id = id'

/-- Every class of a tidy graph has a layout. -/
theorem Tidy.exists_layoutType? {g : TypeGraph} (h : g.Tidy) {x : NodeId} {n : Node}
    (hn : g.arena.node? x = some n) (hclass : n.isClass = true) :
    ∃ u, g.layoutType? x = some u := by
  cases n with
  | user u => exact ⟨u, layoutType?_user hn⟩
  | template l args =>
    obtain ⟨u, hu⟩ := h.closed.layout hn
    exact ⟨u, by rw [layoutType?, Arena.layoutType?, Arena.layout?, hn]; exact hu⟩
  | _ => cases hclass

namespace Finishes

variable {g : TypeGraph} {a : Arena} {records : List SymbolRecord} {classes : List NodeId}

/-- Every class of a graph has a layout. -/
theorem exists_layoutType? {d : Draft} (h : g.Finishes d.arena records d.classes)
    (hs : d.arena.Settled records d.classes) {id : NodeId} (hid : id ∈ g.classes) :
    ∃ u, g.layoutType? id = some u := by
  obtain ⟨l, v, hl, hv⟩ := hs.exists_layout (h.mem_classes.1 hid).1
  obtain ⟨u, hu, -⟩ := h.user hv
  refine ⟨u, ?_⟩
  rw [TypeGraph.layoutType?, Arena.layoutType?, h.layout hid, hl]
  exact hu

/-- What is no class stays proper. -/
theorem proper_of_not_class (h : g.Finishes a records classes) (hs : a.Settled records classes)
    {t : NodeId} {n : Node} (hn : a.node? t = some n) (hk : n.isClass = false) :
    g.Proper (a.standIn classes t) := by
  obtain ⟨hstay, hnode⟩ := h.node?_of_not_class hs hn hk
  refine ⟨_, by rw [hstay]; exact hnode, fun hclass => ?_⟩
  rw [Node.isClass_mapLinks, hk] at hclass
  cases hclass

/-- A symbol ends up at a proper node. -/
theorem proper_standIn (h : g.Finishes a records classes) (hs : a.Settled records classes)
    {s : SymbolId} {t : NodeId} (ht : a.slot? s = some t) : g.Proper (a.standIn classes t) := by
  by_cases hmem : t ∈ classes
  · have hkept : a.firstLike classes t ∈ g.classes :=
      h.mem_classes.2 ⟨Arena.firstLike_mem hmem, Arena.firstLike_firstLike hmem⟩
    obtain ⟨n, hn, -⟩ := hs.isClass_of_mem (Arena.firstLike_mem (a := a) hmem)
    obtain ⟨m, hm⟩ := Arena.exists_node?_of_lt (h.size ▸ Arena.lt_size_of_node? hn)
    rw [hs.standIn_class hmem]
    exact ⟨m, hm, fun _ => hkept⟩
  · by_cases hrec : s ∈ records.map (·.id)
    · obtain ⟨r, hr, rfl⟩ := List.mem_map.1 hrec
      obtain ⟨_, n, ht', hn, hdraw⟩ := hs.drawn r hr
      obtain rfl := Option.some.inj (ht.symm.trans ht')
      refine h.proper_of_not_class hs hn (Bool.eq_false_iff.2 fun hclass => hmem ?_)
      exact hs.mem_classes_iff.2 ⟨r, hr, hdraw.isClass.symm.trans hclass, ht⟩
    · exact h.proper_of_not_class hs (hs.missing ht hrec) rfl

/-- The node of a symbol is proper. -/
theorem proper_of_nodeOf? (h : g.Finishes a records classes) (hs : a.Settled records classes)
    {s : SymbolId} {x : NodeId} (hx : g.nodeOf? s = some x) : g.Proper x := by
  rw [TypeGraph.nodeOf?, h.slot, Option.map_eq_some_iff] at hx
  obtain ⟨t, ht, rfl⟩ := hx
  exact h.proper_standIn hs ht

/-- What a node is spelled with is proper. -/
theorem proper_of_spells (h : g.Finishes a records classes) (hs : a.Settled records classes)
    {x y : NodeId} (hxy : g.arena.Spells x y) : g.Proper y := by
  obtain ⟨t, hxt, rfl⟩ := h.spells_iff.1 hxy
  obtain ⟨n, hn, ht⟩ := Arena.spells_iff.1 hxt
  obtain ⟨r, hr, hslot⟩ := hs.origin hn (Node.isCompound_of_mem_spellingLinks ht)
  obtain ⟨_, n', hslot', hn', hdraw⟩ := hs.drawn r hr
  obtain rfl := Option.some.inj (hslot.symm.trans hslot')
  obtain rfl := Option.some.inj (hn.symm.trans hn')
  rcases hs.spelled_links hdraw with hslots | ⟨-, hprims⟩
  · obtain ⟨s, -, hs'⟩ := hslots.exists_slot? ht
    exact h.proper_standIn hs hs'
  · obtain ⟨name, hprim⟩ := hprims t ht
    exact h.proper_of_not_class hs hprim rfl

/-- A kept class shows the record that it was made from. -/
theorem exists_record (h : g.Finishes a records classes) (hs : a.Settled records classes)
    {id : NodeId} {u : UserType} (hid : id ∈ g.classes) (hu : g.layoutType? id = some u) :
    ∃ r, a.slot? r.id = some id ∧ g.LaysOut records r u := by
  obtain ⟨hmem, -⟩ := h.mem_classes.1 hid
  obtain ⟨r, hr, hk, hslot⟩ := hs.mem_classes_iff.1 hmem
  obtain ⟨l, v, -, hl, hv, hlays⟩ := h.exists_laysOut hs hr hk hslot hid
  have hlayout : g.layoutType? id = some v := by
    rw [TypeGraph.layoutType?, Arena.layoutType?, hl]
    exact hv
  obtain rfl := Option.some.inj (hu.symm.trans hlayout)
  exact ⟨r, hslot, hlays⟩

/-- A graph that is finished is tidy. -/
theorem tidy {d : Draft} (h : g.Finishes d.arena records d.classes)
    (hs : d.arena.Settled records d.classes) : g.Tidy where
  closed := h.closed hs
  placed {x n} hn := by
    cases n with
    | placeholder s =>
      obtain ⟨m, hm, -, heq⟩ := h.exists_node? hn rfl
      have hplaced := hs.placed hm
      cases m <;> simp_all [Node.mapLinks, Node.isPlaceholder]
    | _ => rfl
  proper_spells := h.proper_of_spells hs
  proper_parts {id u} hid hu x hx := by
    obtain ⟨r, -, hlays⟩ := h.exists_record hs hid hu
    rcases List.mem_append.1 hx with hx | hx
    · obtain ⟨f, hf, rfl⟩ := List.mem_map.1 hx
      have hmem : (f.name, some f.type, f.offset) ∈
          u.fields.map fun f => (f.name, some f.type, f.offset) := List.mem_map_of_mem hf
      rw [hlays.fields] at hmem
      obtain ⟨f', -, heq⟩ := List.mem_map.1 hmem
      exact h.proper_of_nodeOf? hs (Prod.mk.inj (Prod.mk.inj heq).2).1
    · have hmem : some x ∈ u.bases.map some := List.mem_map_of_mem hx
      rw [hlays.bases] at hmem
      obtain ⟨s, -, hs'⟩ := List.mem_map.1 hmem
      exact h.proper_of_nodeOf? hs hs'
  eq_of_symbol {id id' u u'} hid hid' hu hu' hsymbol := by
    obtain ⟨r, hslot, hlays⟩ := h.exists_record hs hid hu
    obtain ⟨r', hslot', hlays'⟩ := h.exists_record hs hid' hu'
    rw [hlays.symbol, hlays'.symbol] at hsymbol
    rw [hsymbol] at hslot
    exact Option.some.inj (hslot.symm.trans hslot')

end Finishes

/-- Every graph that is built is tidy. -/
theorem tidy_of_ofRecords {options : Options} {records : List SymbolRecord} {g : TypeGraph}
    {w : Diagnostics} (h : ofRecords options records = .ok (g, w)) : g.Tidy := by
  obtain ⟨d, -, -, hs, hf⟩ := exists_finishes h
  exact hf.tidy hs

end TypeGraph

end NativeBindings
