import NativeBindings.Proofs.Graph.Entering
import NativeBindings.Proofs.Graph.Representation
import NativeBindings.Proofs.Graph.Twins

/-!
# Graphs that depict the same records

A graph depicts a set of records when each record has its node, with every reference at the
place of its symbol, and nothing else has a place but what records refer to
(`TypeGraph.Depicts`). The order of the records plays no part in it.

Two graphs of the same records need not agree in a single position. But the places that belong
together are twins (`TypeGraph.Twin`), twins match all along their links, and so the two graphs
show the same of every symbol: form, names and layout (`TypeGraph.Depicts.view_eq`).
-/

namespace NativeBindings

/-! ## What a graph shows of a node -/

/-- The kind of record that a node has the form of. -/
def Node.kind? : Node → Option SymbolKind
  | primitive _ => some .primitive
  | pointer _ => some .pointer
  | array _ => some .array
  | enumeration _ => some .enumeration
  | user _ => some .userType
  | template .. => some .templateInstantiation
  | placeholder _ => none

/-- How a type is written. -/
structure TypeNames where
  /-- In the bindings. -/
  full : String
  /-- In the bindings, without namespaces. -/
  short : String
  /-- In native spelling. -/
  native : String
deriving DecidableEq, Repr

/-- A field with the names of its type. -/
structure FieldView where
  name : String
  type : TypeNames
  offset : UInt64
deriving DecidableEq, Repr

/-- A layout with the names of the types in it. -/
structure LayoutView where
  size : UInt64
  nativeName : String
  fields : List FieldView
  bases : List TypeNames
deriving DecidableEq, Repr

/-- What is to be seen of a node without its position. -/
structure NodeView where
  kind : Option SymbolKind
  names : TypeNames
  /-- Of a class. -/
  layout : Option LayoutView
deriving DecidableEq, Repr

namespace TypeGraph

/-- How a node is written. -/
def names (g : TypeGraph) (id : NodeId) : TypeNames :=
  ⟨g.render false id, g.render true id, g.native id⟩

/-- A user type with the names of its parts. -/
def layoutView (g : TypeGraph) (u : UserType) : LayoutView :=
  { size := u.size
    nativeName := u.nativeName
    fields := u.fields.map fun f => ⟨f.name, g.names f.type, f.offset⟩
    bases := u.bases.map g.names }

/-- What a graph shows of a node. -/
def view (g : TypeGraph) (id : NodeId) : NodeView :=
  { kind := (g.arena.node? id).bind Node.kind?
    names := g.names id
    layout := (g.layoutType? id).map g.layoutView }

/-! ## Depicted records -/

/-- A graph in which each record has its node, and each class the layout that its record asks
for. -/
structure Depicts (g : TypeGraph) (records : List SymbolRecord) : Prop where
  void : g.arena.node? .void = some (.primitive "void")
  shared : ∀ {name id}, g.arena.shared.lookup name = some id →
    g.arena.node? id = some (.primitive name)
  resolves : ∀ {s}, (∃ id, g.nodeOf? s = some id) ↔
    s ∈ records.map (·.id) ∨ ∃ r ∈ records, s ∈ r.followed
  drawn : ∀ r ∈ records, g.arena.Drawn r
  missing : ∀ {s id}, g.nodeOf? s = some id → s ∉ records.map (·.id) →
    g.arena.node? id = some (.primitive Arena.unknownName)
  laysOut : ∀ r ∈ records, r.kind.isClass = true →
    ∃ id u, g.nodeOf? r.id = some id ∧ g.layoutType? id = some u ∧ g.LaysOut records r u

theorem LaysOut.perm {g : TypeGraph} {records records' : List SymbolRecord}
    (hperm : records.Perm records') {r : SymbolRecord} {u : UserType}
    (h : g.LaysOut records r u) : g.LaysOut records' r u := by
  refine ⟨h.size, h.nativeName, h.symbol, h.fields, h.bases.trans ?_⟩
  simp only [(hperm.map (·.id)).mem_iff]

/-- Records are depicted in any order. -/
theorem Depicts.perm {g : TypeGraph} {records records' : List SymbolRecord}
    (hperm : records.Perm records') (h : g.Depicts records) : g.Depicts records' where
  void := h.void
  shared := h.shared
  resolves {s} := by
    rw [h.resolves]
    simp only [(hperm.map (·.id)).mem_iff, hperm.mem_iff]
  drawn r hr := h.drawn r (hperm.mem_iff.2 hr)
  missing hid hs := h.missing hid (mt (hperm.map (·.id)).mem_iff.1 hs)
  laysOut r hr hk := by
    obtain ⟨id, u, hid, hu, hlays⟩ := h.laysOut r (hperm.mem_iff.2 hr) hk
    exact ⟨id, u, hid, hu, hlays.perm hperm⟩

/-! ## Twins -/

/-- Positions in two graphs that have one meaning: both `void`, one shared primitive, the place
of one symbol, or the layout of an instantiation in such a place. -/
inductive Twin (g g' : TypeGraph) : NodeId → NodeId → Prop
  | void : Twin g g' .void .void
  | shared {name : String} {x y : NodeId} (hx : g.arena.shared.lookup name = some x)
    (hy : g'.arena.shared.lookup name = some y) : Twin g g' x y
  | symbol {s : SymbolId} {x y : NodeId} (hx : g.nodeOf? s = some x)
    (hy : g'.nodeOf? s = some y) : Twin g g' x y
  | layout {s : SymbolId} {x y l l' : NodeId} {args args' : List NodeId}
    (hx : g.nodeOf? s = some x) (hy : g'.nodeOf? s = some y)
    (hn : g.arena.node? x = some (.template l args))
    (hn' : g'.arena.node? y = some (.template l' args')) : Twin g g' l l'

variable {g g' : TypeGraph} {records : List SymbolRecord} {r : SymbolRecord}

theorem Twin.of_target {t t' : NodeId} (ht : g.arena.Target r t) (ht' : g'.arena.Target r t') :
    g.Twin g' t t' := by
  unfold Arena.Target at ht ht'
  cases he : r.element with
  | some e =>
    rw [he] at ht ht'
    exact .symbol ht ht'
  | none =>
    rw [he] at ht ht'
    subst ht ht'
    exact .void

theorem Twin.of_underlying {t t' : NodeId} (ht : g.arena.Underlying r t)
    (ht' : g'.arena.Underlying r t') : g.Twin g' t t' := by
  unfold Arena.Underlying at ht ht'
  cases he : r.element with
  | some e =>
    rw [he] at ht ht'
    exact .symbol ht ht'
  | none =>
    rw [he] at ht ht'
    exact .shared ht ht'

theorem Twin.of_slots {ss : List SymbolId} {ids ids' : List NodeId} (h : g.arena.Slots ss ids)
    (h' : g'.arena.Slots ss ids') : List.Forall₂ (g.Twin g') ids ids' := by
  induction ss generalizing ids ids' with
  | nil =>
    obtain rfl : ids = [] := by simpa [Arena.Slots] using h
    obtain rfl : ids' = [] := by simpa [Arena.Slots] using h'
    exact .nil
  | cons s ss ih =>
    cases ids with
    | nil => simp [Arena.Slots] at h
    | cons id ids =>
      cases ids' with
      | nil => simp [Arena.Slots] at h'
      | cons id' ids' =>
        simp only [Arena.Slots, List.map_cons, List.cons.injEq] at h h'
        exact .cons (.symbol h.1 h'.1) (ih h.2 h'.2)

/-- Nodes with one head are alike: bases and fields do not count. -/
theorem alike_of_head {R : NodeId → NodeId → Prop} {u v w : UserType} (hu : u.head = w)
    (hv : v.head = w) : (Node.user u).Alike R (.user v) := by
  have h := hu.trans hv.symm
  have hname := congrArg UserType.name h
  have hscope := congrArg UserType.scope h
  have hnative := congrArg UserType.nativeName h
  exact .user hname hscope hnative

/-- Nodes that draw one record are alike. -/
theorem alike_of_draws {x y : NodeId} {n n' : Node} (hx : g.nodeOf? r.id = some x)
    (hy : g'.nodeOf? r.id = some y) (hn : g.arena.node? x = some n)
    (hn' : g'.arena.node? y = some n') (hdraw : g.arena.Draws r n)
    (hdraw' : g'.arena.Draws r n') : n.Alike (g.Twin g') n' := by
  cases hdraw with
  | primitive hk =>
    cases hdraw' with
    | primitive => exact .primitive _
    | _ => simp_all [SymbolRecord.isApplied, SymbolKind.isClass]
  | pointer hk ht =>
    cases hdraw' with
    | pointer _ ht' => exact .pointer (.of_target ht ht')
    | _ => simp_all [SymbolRecord.isApplied, SymbolKind.isClass]
  | array hk ht =>
    cases hdraw' with
    | array _ ht' => exact .array (.of_target ht ht')
    | _ => simp_all [SymbolRecord.isApplied, SymbolKind.isClass]
  | enumeration hk ht =>
    cases hdraw' with
    | enumeration _ ht' => exact .enumeration rfl (.of_underlying ht ht')
    | _ => simp_all [SymbolRecord.isApplied, SymbolKind.isClass]
  | plain hk ha hu =>
    cases hdraw' with
    | plain _ _ hu' => exact alike_of_head hu hu'
    | _ => simp_all [SymbolRecord.isApplied, SymbolKind.isClass]
  | applied ha hargs =>
    cases hdraw' with
    | applied _ hargs' => exact .template (.layout hx hy hn hn') (Twin.of_slots hargs hargs')
    | _ => simp_all [SymbolRecord.isApplied, SymbolKind.isClass]

/-- There is a layout in the places of classes alone. -/
theorem Depicts.layoutType?_eq_none (h : g.Depicts records) {s : SymbolId} {x : NodeId}
    (hx : g.nodeOf? s = some x) (hs : ∀ r ∈ records, r.id = s → r.kind.isClass = false) :
    g.layoutType? x = none := by
  have hnone {n : Node} (hn : g.arena.node? x = some n) (hk : n.isClass = false) :
      g.layoutType? x = none := by
    cases n <;> simp_all [layoutType?, Arena.layoutType?, Arena.layout?, Node.isClass]
  by_cases hrec : s ∈ records.map (·.id)
  · obtain ⟨r, hr, rfl⟩ := List.mem_map.1 hrec
    obtain ⟨_, n, hx', hn, hdraw⟩ := h.drawn r hr
    obtain rfl := Option.some.inj (hx.symm.trans hx')
    exact hnone hn (hdraw.isClass.trans (hs r hr rfl))
  · exact hnone (h.missing hx hrec) rfl

namespace Depicts

variable (h : g.Depicts records) (h' : g'.Depicts records)

include h h'

/-- Twins match, and so do the nodes that they link to. -/
theorem matches_twin : g.arena.Matches g'.arena (g.Twin g') := by
  have hsymbol {s : SymbolId} {x y : NodeId} (hx : g.nodeOf? s = some x)
      (hy : g'.nodeOf? s = some y) :
      (∃ r ∈ records, s = r.id ∧ ∃ n n', g.arena.node? x = some n ∧ g'.arena.node? y = some n' ∧
        g.arena.Draws r n ∧ g'.arena.Draws r n') ∨
      g.arena.node? x = some (.primitive Arena.unknownName) ∧
        g'.arena.node? y = some (.primitive Arena.unknownName) := by
    by_cases hs : s ∈ records.map (·.id)
    · obtain ⟨r, hr, rfl⟩ := List.mem_map.1 hs
      obtain ⟨_, n, hx', hn, hdraw⟩ := h.drawn r hr
      obtain ⟨_, n', hy', hn', hdraw'⟩ := h'.drawn r hr
      obtain rfl := Option.some.inj (hx.symm.trans hx')
      obtain rfl := Option.some.inj (hy.symm.trans hy')
      exact Or.inl ⟨r, hr, rfl, n, n', hn, hn', hdraw, hdraw'⟩
    · exact Or.inr ⟨h.missing hx hs, h'.missing hy hs⟩
  intro x y hxy
  cases hxy with
  | void => exact ⟨_, _, h.void, h'.void, .primitive _⟩
  | shared hx hy => exact ⟨_, _, h.shared hx, h'.shared hy, .primitive _⟩
  | symbol hx hy =>
    rcases hsymbol hx hy with ⟨r, -, rfl, n, n', hn, hn', hdraw, hdraw'⟩ | ⟨hn, hn'⟩
    · exact ⟨n, n', hn, hn', alike_of_draws hx hy hn hn' hdraw hdraw'⟩
    · exact ⟨_, _, hn, hn', .primitive _⟩
  | layout hx hy hn hn' =>
    rcases hsymbol hx hy with ⟨r, -, -, m, m', hm, hm', hdraw, hdraw'⟩ | ⟨hm, -⟩
    · obtain rfl := Option.some.inj (hn.symm.trans hm)
      obtain rfl := Option.some.inj (hn'.symm.trans hm')
      cases hdraw with
      | applied _ _ hl hu =>
        cases hdraw' with
        | applied _ _ hl' hu' =>
          exact ⟨_, _, Arena.node?_user hl, Arena.node?_user hl', alike_of_head hu hu'⟩
    · simp [hn] at hm

/-- Twins are written alike. -/
theorem names_eq {x y : NodeId} (hxy : g.Twin g' x y) : g.names x = g'.names y := by
  have hmatch := h.matches_twin h'
  unfold names native render
  rw [hmatch.render_eq false hxy, hmatch.render_eq true hxy, hmatch.native_eq hxy]

/-- Both graphs have a place for a symbol, or neither has. -/
theorem nodeOf?_cases (s : SymbolId) :
    (∃ x y, g.nodeOf? s = some x ∧ g'.nodeOf? s = some y) ∨
      g.nodeOf? s = none ∧ g'.nodeOf? s = none := by
  have hboth : (∃ x, g.nodeOf? s = some x) ↔ ∃ y, g'.nodeOf? s = some y :=
    h.resolves.trans h'.resolves.symm
  cases hx : g.nodeOf? s with
  | some x =>
    obtain ⟨y, hy⟩ := hboth.1 ⟨x, hx⟩
    exact Or.inl ⟨x, y, rfl, hy⟩
  | none =>
    refine Or.inr ⟨rfl, Option.eq_none_iff_forall_ne_some.2 fun y hy => ?_⟩
    obtain ⟨x, hx'⟩ := hboth.2 ⟨y, hy⟩
    simp [hx] at hx'

theorem map_names_eq (s : SymbolId) :
    (g.nodeOf? s).map g.names = (g'.nodeOf? s).map g'.names := by
  rcases h.nodeOf?_cases h' s with ⟨x, y, hx, hy⟩ | ⟨hx, hy⟩
  · rw [hx, hy, Option.map_some, Option.map_some, h.names_eq h' (.symbol hx hy)]
  · rw [hx, hy]
    rfl

/-- Layouts that one record asks for look alike. -/
theorem layoutView_eq {u u' : UserType} (hu : g.LaysOut records r u)
    (hu' : g'.LaysOut records r u') : g.layoutView u = g'.layoutView u' := by
  have hfields : u.fields.map (fun f => (⟨f.name, g.names f.type, f.offset⟩ : FieldView)) =
      u'.fields.map fun f => ⟨f.name, g'.names f.type, f.offset⟩ := by
    have hmap := congrArg (List.map fun x => (x.1, x.2.1.map g.names, x.2.2)) hu.fields
    have hmap' := congrArg (List.map fun x => (x.1, x.2.1.map g'.names, x.2.2)) hu'.fields
    simp only [List.map_map, Function.comp_def, Option.map_some] at hmap hmap'
    simp only [h.map_names_eq h', ← hmap'] at hmap
    have hinj : Function.Injective fun v : FieldView => (v.name, some v.type, v.offset) := by
      intro v w heq
      cases v
      cases w
      simpa using heq
    refine List.map_injective_iff.2 hinj ?_
    simpa only [List.map_map, Function.comp_def] using hmap
  have hbases : u.bases.map g.names = u'.bases.map g'.names := by
    have hmap := congrArg (List.map (Option.map g.names)) hu.bases
    have hmap' := congrArg (List.map (Option.map g'.names)) hu'.bases
    simp only [List.map_map, Function.comp_def, Option.map_some] at hmap hmap'
    simp only [h.map_names_eq h', ← hmap'] at hmap
    refine List.map_injective_iff.2 (Option.some_injective _) ?_
    simpa only [List.map_map, Function.comp_def] using hmap
  simp only [layoutView, hu.size, hu'.size, hu.nativeName, hu'.nativeName, hfields, hbases]

/-- Graphs that depict the same records show the same of every symbol. -/
theorem view_eq (s : SymbolId) : (g.nodeOf? s).map g.view = (g'.nodeOf? s).map g'.view := by
  rcases h.nodeOf?_cases h' s with ⟨x, y, hx, hy⟩ | ⟨hx, hy⟩
  · obtain ⟨n, n', hn, hn', halike⟩ := h.matches_twin h' x y (.symbol hx hy)
    have hkind : n.kind? = n'.kind? := by
      cases halike <;> rfl
    have hlayout : (g.layoutType? x).map g.layoutView = (g'.layoutType? y).map g'.layoutView := by
      by_cases hclass : ∃ r ∈ records, r.id = s ∧ r.kind.isClass = true
      · obtain ⟨r, hr, rfl, hk⟩ := hclass
        obtain ⟨_, u, hx', hu, hlays⟩ := h.laysOut r hr hk
        obtain ⟨_, u', hy', hu', hlays'⟩ := h'.laysOut r hr hk
        obtain rfl := Option.some.inj (hx.symm.trans hx')
        obtain rfl := Option.some.inj (hy.symm.trans hy')
        rw [hu, hu', Option.map_some, Option.map_some, h.layoutView_eq h' hlays hlays']
      · have hs : ∀ r ∈ records, r.id = s → r.kind.isClass = false := by simpa using hclass
        rw [h.layoutType?_eq_none hx hs, h'.layoutType?_eq_none hy hs]
        rfl
    simp only [view, hx, hy, hn, hn', Option.map_some, Option.bind_some, hkind, hlayout,
      h.names_eq h' (.symbol hx hy)]
  · rw [hx, hy]
    rfl

end Depicts

end TypeGraph

end NativeBindings
