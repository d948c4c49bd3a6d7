import NativeBindings.Bindings
import NativeBindings.Proofs.Declaration.Needs
import NativeBindings.Proofs.Graph.Blame
import NativeBindings.Proofs.Graph.Tidy

/-!
# Circular bases

Bindings are refused for circular bases exactly if a ring of declarations need each other
(`Bindings.circular_iff`): nothing before the order of declarations fails in this way, and no
placeholder is left by then.

A declaration needs what any of the classes it covers is derived from. So a ring of
declarations need not come from a ring of classes: of two templates each may have an
instantiation that is derived from another instantiation of the other
(`Bindings.crossedBases_circular`). Where every declaration covers a single class it does.
-/

namespace NativeBindings

open Relation

/-! ## What else fails -/

theorem Draft.settle_ne_circularBases (names : List String) (d : Draft) (options : Options) :
    d.settle options ≠ .error (.circularBases names) := by
  unfold settle
  split
  · simp
  · split <;> simp

/-- Building a graph never fails for circular bases. -/
theorem TypeGraph.ofRecords_ne_circularBases (names : List String) (options : Options)
    (records : List SymbolRecord) :
    ofRecords options records ≠ .error (.circularBases names) := by
  rw [ofRecords_eq_bind]
  refine bind_ne_error (Draft.ofRecords_ne_error id records) fun draft => ?_
  exact bind_ne_error (draft.settle_ne_circularBases names options) fun x =>
    finish_ne_error id draft x

/-! ## Rings of declarations -/

namespace TypeGraph

/-- A graph with the plan that is made for it. -/
def planned (g : TypeGraph) (options : Options) : PlannedGraph :=
  ⟨g, (Plan.ofGraph options g).1⟩

/-- A live class has a node among the bases of its layout. -/
def Derives (g : TypeGraph) (c b : NodeId) : Prop :=
  c ∈ g.classes ∧ ∃ u, g.layoutType? c = some u ∧ b ∈ u.bases

end TypeGraph

/-- No placeholder is left in a tidy graph. -/
theorem PlannedGraph.checkPlaceholders_eq_ok {p : PlannedGraph} (h : p.graph.arena.Placed) :
    p.checkPlaceholders = .ok () := by
  unfold checkPlaceholders
  split
  · next s hs =>
    obtain ⟨n, hn, hmatch⟩ := List.exists_of_findSome?_eq_some hs
    obtain ⟨id, hid⟩ := List.mem_iff_getElem?.1 hn
    have hnode : p.graph.arena.node? id = some n := by simpa [Arena.node?] using hid
    have hplaced := h hnode
    cases n <;> simp_all [Node.isPlaceholder]
  · rfl

/-- Without placeholders, what is written of a graph is what is written of its catalog. -/
theorem PlannedGraph.declarations_eq {p : PlannedGraph} (options : Options)
    (hp : p.checkPlaceholders = .ok ()) : p.declarations options =
      ((Catalog.ofPlanned p options.omitNamespaces).1.declarations options.documented).map
        fun ds => (ds, (Catalog.ofPlanned p options.omitNamespaces).2) := by
  simp only [declarations, hp, bind, Except.bind]
  cases (Catalog.ofPlanned p options.omitNamespaces).1.declarations options.documented <;> rfl

theorem PlannedGraph.declarations_eq_error_iff {p : PlannedGraph} {options : Options}
    (hp : p.checkPlaceholders = .ok ()) {e : Failure} : p.declarations options = .error e ↔
      (Catalog.ofPlanned p options.omitNamespaces).1.order = .error e := by
  rw [declarations_eq options hp, map_eq_error_iff, Catalog.declarations, map_eq_error_iff]

namespace Bindings

/-- If no graph is built, bindings are refused for the same reason. -/
theorem ofRecords_eq_error {options : Options} {records : List SymbolRecord} {e : Failure}
    (h : TypeGraph.ofRecords options records = .error e) :
    ofRecords options records = .error e := by
  rw [ofRecords, h]
  rfl

/-- The bindings of a graph are what is written of its catalog, with the reports of all three
steps. -/
theorem ofRecords_eq_map {options : Options} {records : List SymbolRecord} {g : TypeGraph}
    {w : Diagnostics} (h : TypeGraph.ofRecords options records = .ok (g, w)) :
    ofRecords options records = ((Catalog.ofPlanned (g.planned options)
      options.omitNamespaces).1.declarations options.documented).map fun declarations =>
        { declarations, diagnostics := w ++ (Plan.ofGraph options g).2 ++
          (Catalog.ofPlanned (g.planned options) options.omitNamespaces).2 } := by
  have hwritten := PlannedGraph.declarations_eq (p := g.planned options) options
    (PlannedGraph.checkPlaceholders_eq_ok (TypeGraph.tidy_of_ofRecords h).placed)
  unfold TypeGraph.planned at hwritten ⊢
  simp only [ofRecords, h, bind, Except.bind, hwritten]
  cases (Catalog.ofPlanned ⟨g, (Plan.ofGraph options g).1⟩
    options.omitNamespaces).1.declarations options.documented <;> rfl

theorem ofRecords_eq_error_iff {options : Options} {records : List SymbolRecord} {g : TypeGraph}
    {w : Diagnostics} (h : TypeGraph.ofRecords options records = .ok (g, w)) {e : Failure} :
    ofRecords options records = .error e ↔
      (Catalog.ofPlanned (g.planned options) options.omitNamespaces).1.order = .error e := by
  rw [ofRecords_eq_map h, map_eq_error_iff, Catalog.declarations, map_eq_error_iff]

/-- Bindings are refused for circular bases. -/
def Circular (options : Options) (records : List SymbolRecord) : Prop :=
  ∃ names, ofRecords options records = .error (.circularBases names)

theorem circular_iff_needs {options : Options} {records : List SymbolRecord} :
    Circular options records ↔ ∃ g w, TypeGraph.ofRecords options records = .ok (g, w) ∧
      ∃ s, TransGen (g.planned options).Needs s s := by
  cases hgraph : TypeGraph.ofRecords options records with
  | error e =>
    have hother : ¬Circular options records := by
      rintro ⟨names, h⟩
      obtain rfl := Except.error.inj ((ofRecords_eq_error hgraph).symm.trans h)
      exact TypeGraph.ofRecords_ne_circularBases names options records hgraph
    simp [hother]
  | ok x =>
    obtain ⟨g, w⟩ := x
    have horder := Catalog.order_eq_error_iff
      (c := (Catalog.ofPlanned (g.planned options) options.omitNamespaces).1) rfl
    simp only [Circular, ofRecords_eq_error_iff hgraph, horder]
    constructor
    · intro hring
      exact ⟨g, w, rfl, hring⟩
    · rintro ⟨g', w', heq, hring⟩
      obtain ⟨rfl, rfl⟩ := Prod.mk.inj (Except.ok.inj heq)
      exact hring

end Bindings

/-! ## Rings of classes -/

namespace PlannedGraph

variable {p : PlannedGraph}

/-- Every declaration covers one class. -/
def SingleCover (p : PlannedGraph) : Prop :=
  ∀ s ∈ p.subjects, ∀ c ∈ p.covered s, ∀ c' ∈ p.covered s, c' = c

theorem mem_subjects_iff {s : Subject} :
    s ∈ p.subjects ↔ ∃ c ∈ p.graph.classes, p.subjectOf? c = some s := by
  simp [subjects, List.mem_eraseDups]

/-- What can cover a class: itself, or for an instantiation its family if that is generic. -/
theorem subjectOf?_cases {x : NodeId} {s : Subject} (h : p.subjectOf? x = some s) :
    (s = .user x ∧ ∃ u, p.graph.arena.node? x = some (.user u)) ∨
      ∃ k args, p.graph.arena.node? x = some (.template k args) ∧
        ((s = .specialized x ∧ p.plan.isGeneric x = false) ∨
          ∃ f l, s = .generic f ∧ p.plan.familyOf? x = some f ∧ p.plan.layout? f = some l) := by
  unfold subjectOf? at h
  split at h
  · next u hn => exact Or.inl ⟨(Option.some.inj h).symm, u, hn⟩
  · next k args hn =>
    refine Or.inr ⟨k, args, hn, ?_⟩
    unfold Plan.isGeneric
    split at h
    · next f hf =>
      rw [hf]
      split at h
      · next hsome =>
        obtain ⟨l, hl⟩ := Option.isSome_iff_exists.1 hsome
        exact Or.inr ⟨f, l, (Option.some.inj h).symm, rfl, hl⟩
      · next hnone => exact Or.inl ⟨(Option.some.inj h).symm, Bool.eq_false_iff.2 hnone⟩
    · next hf =>
      rw [hf]
      exact Or.inl ⟨(Option.some.inj h).symm, rfl⟩
  · cases h

/-- A class is covered by its subject. -/
theorem mem_covered {c : NodeId} {s : Subject} (h : p.subjectOf? c = some s) :
    c ∈ p.covered s := by
  rcases subjectOf?_cases h with ⟨rfl, -⟩ | ⟨k, args, -, ⟨rfl, -⟩ | ⟨f, l, rfl, hf, -⟩⟩
  · exact List.mem_singleton_self c
  · exact List.mem_singleton_self c
  · obtain ⟨hlt, hmem, -⟩ := List.findIdx?_eq_some_iff_getElem.1 hf
    simpa [covered, instantiations, hlt] using hmem

theorem exists_subjectOf? {c : NodeId} {u : UserType} (h : p.graph.layoutType? c = some u) :
    ∃ s, p.subjectOf? c = some s := by
  obtain ⟨l, hl, -⟩ := Option.bind_eq_some_iff.1 h
  cases hn : p.graph.arena.node? c with
  | none => simp [Arena.layout?, hn] at hl
  | some n =>
    cases n with
    | user v => exact ⟨.user c, by simp only [subjectOf?, hn]⟩
    | template k args =>
      simp only [subjectOf?, hn]
      split
      · split <;> exact ⟨_, rfl⟩
      · exact ⟨_, rfl⟩
    | _ => simp [Arena.layout?, hn] at hl

/-- If every declaration covers one class, a ring of declarations is one of classes. -/
theorem SingleCover.exists_ring (h : p.SingleCover) {s : Subject} (hring : TransGen p.Needs s s) :
    ∃ c, TransGen p.graph.Derives c c := by
  obtain ⟨t, hst, -⟩ := TransGen.head'_iff.1 hring
  obtain ⟨c, hc, hcs⟩ := mem_subjects_iff.1 hst.1
  refine ⟨c, ring_of_steps (fun s c => c ∈ p.graph.classes ∧ p.subjectOf? c = some s)
    (fun hstands hneeds _ => ?_) (fun hb hb' => ?_) ⟨hc, hcs⟩ hring⟩
  · obtain ⟨hs, ht, ⟨e, he, u, hu, b, hb, hbt⟩, -⟩ := hneeds
    obtain ⟨b', hb', hbt'⟩ := mem_subjects_iff.1 ht
    obtain rfl := h _ ht b (mem_covered hbt) b' (mem_covered hbt')
    obtain rfl := h _ hs e he _ (mem_covered hstands.2)
    exact ⟨_, ⟨hstands.1, u, hu, hb⟩, hb', hbt⟩
  · exact h _ (mem_subjects_iff.2 ⟨_, hb.1, hb.2⟩) _ (mem_covered hb.2) _ (mem_covered hb'.2)

/-- If no declaration is generic, a ring of classes is one of declarations. -/
theorem exists_needs_of_derives (h : ∀ s ∈ p.subjects, s.isGeneric = false) {c : NodeId}
    (hring : TransGen p.graph.Derives c c) : ∃ s, TransGen p.Needs s s := by
  obtain ⟨b, ⟨hc, u, hu, -⟩, -⟩ := TransGen.head'_iff.1 hring
  obtain ⟨s, hs⟩ := exists_subjectOf? hu
  refine ⟨s, ring_of_steps (fun c s => p.subjectOf? c = some s) (fun hcs hcb hbb' => ?_)
    (fun hcs hct => Option.some.inj (hct.symm.trans hcs)) hs hring⟩
  obtain ⟨hc, u, hu, hb⟩ := hcb
  obtain ⟨hb', v, hv, -⟩ := hbb'
  obtain ⟨t, ht⟩ := exists_subjectOf? hv
  have hmem := mem_subjects_iff.2 ⟨_, hc, hcs⟩
  have hmem' := mem_subjects_iff.2 ⟨_, hb', ht⟩
  refine ⟨t, ⟨hmem, hmem', ⟨_, mem_covered hcs, u, hu, _, hb, ht⟩, ?_⟩, ht⟩
  rw [h _ hmem]
  simp

theorem singleCover_of_not_generic (h : ∀ s ∈ p.subjects, s.isGeneric = false) :
    p.SingleCover := by
  intro s hs c hc c' hc'
  cases s with
  | generic g => exact absurd (h _ hs) (by simp [Subject.isGeneric])
  | user id | specialized id =>
    rw [List.mem_singleton.1 hc, List.mem_singleton.1 hc']

end PlannedGraph

/-- Without unification no declaration is generic. -/
theorem TypeGraph.not_isGeneric_planned {options : Options} (h : options.unifyTemplates = false)
    (g : TypeGraph) : ∀ s ∈ (g.planned options).subjects, s.isGeneric = false := by
  have hlayout (n : Nat) : (g.planned options).plan.layout? n = none := by
    have hplan : (g.planned options).plan =
        ⟨(Plan.grouped g).map fun x => ⟨x.1, x.2, .specialized⟩⟩ := by
      simp [planned, Plan.ofGraph, h]
    rw [hplan, Plan.layout?, List.getElem?_map]
    cases (Plan.grouped g)[n]? <;> rfl
  intro s hs
  obtain ⟨c, -, hcs⟩ := PlannedGraph.mem_subjects_iff.1 hs
  unfold PlannedGraph.subjectOf? at hcs
  simp only [hlayout, Option.isSome_none, Bool.false_eq_true, if_false] at hcs
  split at hcs
  · obtain rfl := Option.some.inj hcs
    rfl
  · split at hcs <;>
    · obtain rfl := Option.some.inj hcs
      rfl
  · cases hcs

namespace Bindings

/-- Bindings are refused for circular bases exactly if a ring of declarations need each other.
If every declaration covers one class this takes a ring of classes that are derived from
each other, and without generic declarations any such ring will do. -/
theorem circular_iff (options : Options) (records : List SymbolRecord) :
    (Circular options records ↔ ∃ g w, TypeGraph.ofRecords options records = .ok (g, w) ∧
      ∃ s, TransGen (g.planned options).Needs s s) ∧
    (∀ g w, TypeGraph.ofRecords options records = .ok (g, w) →
      (g.planned options).SingleCover → Circular options records → ∃ c, TransGen g.Derives c c) ∧
    (options.unifyTemplates = false → (Circular options records ↔
      ∃ g w, TypeGraph.ofRecords options records = .ok (g, w) ∧ ∃ c, TransGen g.Derives c c)) := by
  refine ⟨circular_iff_needs, fun g w hgraph hsingle hcircular => ?_, fun hplain => ?_⟩
  · obtain ⟨g', w', hgraph', s, hring⟩ := circular_iff_needs.1 hcircular
    obtain ⟨rfl, rfl⟩ := Prod.mk.inj (Except.ok.inj (hgraph.symm.trans hgraph'))
    exact hsingle.exists_ring hring
  · rw [circular_iff_needs]
    refine exists_congr fun g => exists_congr fun w => and_congr_right fun _ => ?_
    have hgeneric := TypeGraph.not_isGeneric_planned hplain g
    constructor
    · rintro ⟨s, hring⟩
      exact (PlannedGraph.singleCover_of_not_generic hgeneric).exists_ring hring
    · rintro ⟨c, hring⟩
      exact PlannedGraph.exists_needs_of_derives hgeneric hring

/-- Two templates that are derived from their argument, each instantiated with a class and
with an instantiation of the other. -/
def crossedBases : List SymbolRecord :=
  [.ofUserType ⟨1⟩ "P" 8,
    (SymbolRecord.ofInstantiation ⟨2⟩ "A<P>" 8 [⟨1⟩]).addBase ⟨1⟩,
    (SymbolRecord.ofInstantiation ⟨3⟩ "B<P>" 8 [⟨1⟩]).addBase ⟨1⟩,
    (SymbolRecord.ofInstantiation ⟨4⟩ "A<B<P> >" 8 [⟨3⟩]).addBase ⟨3⟩,
    (SymbolRecord.ofInstantiation ⟨5⟩ "B<A<P> >" 8 [⟨2⟩]).addBase ⟨2⟩]

theorem crossedBases_refused : Circular {} crossedBases := by
  have hrefused : (match ofRecords {} crossedBases with
      | .error (.circularBases _) => true
      | _ => false) = true := by decide +kernel
  split at hrefused
  · next names h => exact ⟨names, h⟩
  · cases hrefused

/-- Every class comes after its bases. -/
theorem exists_ofRecords_crossedBases :
    ∃ g w, TypeGraph.ofRecords {} crossedBases = .ok (g, w) ∧ ∀ c, ¬TransGen g.Derives c c := by
  obtain ⟨g, w, h, hlt⟩ : ∃ g w, TypeGraph.ofRecords {} crossedBases = .ok (g, w) ∧
      ∀ c ∈ g.classes, ∀ u ∈ g.layoutType? c, ∀ b ∈ u.bases, b < c :=
    TypeGraph.exists_ofRecords_and (by decide +kernel)
  refine ⟨g, w, h, fun c hring => ?_⟩
  have hdown {b : NodeId} (hcb : TransGen g.Derives c b) : b < c := by
    induction hcb with
    | single hcb =>
      obtain ⟨hc, u, hu, hb⟩ := hcb
      exact hlt c hc u hu _ hb
    | tail _ hstep ih =>
      obtain ⟨hc, u, hu, hb⟩ := hstep
      exact Nat.lt_trans (hlt _ hc u hu _ hb) ih
  exact Nat.lt_irrefl c (hdown hring)

/-- Bindings are refused for circular bases though no class is derived from itself, not even
by way of others. -/
theorem crossedBases_circular : Circular {} crossedBases ∧
    ∃ g w, TypeGraph.ofRecords {} crossedBases = .ok (g, w) ∧ ∀ c, ¬TransGen g.Derives c c :=
  ⟨crossedBases_refused, exists_ofRecords_crossedBases⟩

/-- The ring is one of declarations, one of which covers several classes. -/
theorem crossedBases_needs : ∃ g w, TypeGraph.ofRecords {} crossedBases = .ok (g, w) ∧
    (∃ s, TransGen (g.planned {}).Needs s s) ∧ ¬(g.planned {}).SingleCover := by
  obtain ⟨g, w, h, hnone⟩ := exists_ofRecords_crossedBases
  obtain ⟨hneeds, hsingle, -⟩ := circular_iff {} crossedBases
  obtain ⟨g', w', h', hring⟩ := hneeds.1 crossedBases_refused
  obtain ⟨rfl, rfl⟩ := Prod.mk.inj (Except.ok.inj (h.symm.trans h'))
  refine ⟨g, w, h, hring, fun hcover => ?_⟩
  obtain ⟨c, hc⟩ := hsingle g w h hcover crossedBases_refused
  exact hnone c hc

end Bindings

end NativeBindings
