import NativeBindings.Proofs.Declaration.Partition
import NativeBindings.Proofs.Declaration.References
import NativeBindings.Proofs.Declaration.Written

/-!
# The order of declarations

Writing the declarations of a graph that is built fails in one way only: when a ring of
declarations need each other. Otherwise every declaration is written once, in the least order of
their numbers in which each comes after those it needs. The main theorem is
`PlannedGraph.declarations_ordered`.
-/

namespace NativeBindings

open Relation

theorem forall₂_filterMap_of_exists {α β : Type} {R : α → β → Prop} {f : α → Option β}
    {xs : List α} (h : ∀ x ∈ xs, ∃ y, f x = some y ∧ R x y) :
    List.Forall₂ R xs (xs.filterMap f) := by
  induction xs with
  | nil => exact .nil
  | cons x xs ih =>
    obtain ⟨y, hy, hxy⟩ := h x List.mem_cons_self
    rw [List.filterMap_cons, hy]
    exact .cons hxy (ih fun x' hx' => h x' (List.mem_cons_of_mem x hx'))

/-- The declaration with a number needs the one with another number first. -/
def PlannedGraph.NeedsAt (p : PlannedGraph) (m n : Nat) : Prop :=
  ∃ s t, p.subjects[m]? = some s ∧ p.subjects[n]? = some t ∧ p.Needs s t

namespace Catalog

variable {c : Catalog}

/-- The numbers depend on each other as the declarations with these numbers need each other. -/
theorem needsAt_iff (hc : c.subjects = c.planned.subjects) {i j : Nat} :
    c.planned.NeedsAt i j ↔ i < c.subjects.length ∧ j ∈ c.dependencies i := by
  rw [mem_dependencies_iff hc, PlannedGraph.NeedsAt, ← hc]
  refine (and_iff_right_of_imp ?_).symm
  rintro ⟨s, t, hs, -⟩
  exact (List.getElem?_eq_some_iff.1 hs).1

/-- Numbers are put in order, or there is a circle. -/
theorem order_cases (c : Catalog) :
    (∃ ns, c.order = .ok ns) ∨ ∃ names, c.order = .error (.circularBases names) := by
  unfold order
  split
  · exact Or.inl ⟨_, rfl⟩
  · exact Or.inr ⟨_, rfl⟩

/-- The numbers are put into the least order. -/
theorem order_least (hc : c.subjects = c.planned.subjects) {ns : List Nat}
    (h : c.order = .ok ns) :
    LeastOrder.IsLeast c.planned.subjects.length c.planned.NeedsAt ns := by
  have hneeds : (fun i j => i < c.subjects.length ∧ j ∈ c.dependencies i) =
      c.planned.NeedsAt := by
    funext i j
    exact propext (needsAt_iff hc).symm
  unfold order at h
  split at h
  · next hsort =>
    obtain rfl := Except.ok.inj h
    have hleast := LeastOrder.sort_least (fun _ _ _ => lt_of_mem_dependencies) hsort
    rwa [hneeds, hc] at hleast
  · cases h

/-- What is written under a number: the struct of the subject with that number, by its name. -/
def WrittenAt (c : Catalog) (documented : Bool) (n : Nat) (d : Declaration) : Prop :=
  ∃ s name t, c.subjects[n]? = some s ∧ c.names[n]? = some name ∧
    c.struct? documented name.ident s = some t ∧
      d = { name := name.path ++ t.paramList, scope := name.scope, text := t.text }

/-- Under every number of a tidy graph something is written. -/
theorem exists_writtenAt {p : PlannedGraph} (hg : p.graph.Tidy) (short documented : Bool) {n : Nat}
    (hn : n < p.subjects.length) : ∃ s name, (ofPlanned p short).1.subjects[n]? = some s ∧
      (ofPlanned p short).1.names[n]? = some name ∧
        (ofPlanned p short).1.WrittenAt documented n
          ((ofPlanned p short).1.declaration documented s name) := by
  have hlen : n < (ofPlanned p short).1.names.length :=
    Nat.lt_of_lt_of_eq hn (PlannedGraph.length_nameAll ..).symm
  have hs : (ofPlanned p short).1.subjects[n]? = some p.subjects[n] := List.getElem?_eq_getElem hn
  have hname := List.getElem?_eq_getElem hlen
  obtain ⟨x, -, hx⟩ := PlannedGraph.mem_subjects_iff.1 (List.getElem_mem hn)
  obtain ⟨t, ht, -⟩ := exists_declaring_of_tidy (c := (ofPlanned p short).1) hg hx documented
    (ofPlanned p short).1.names[n].ident
  refine ⟨_, _, hs, hname, _, _, t, hs, hname, ht, ?_⟩
  rw [declaration, ht]

/-- What is written in an order of the numbers is what is written under each of them. -/
theorem declarations_of_order {p : PlannedGraph} (hg : p.graph.Tidy) {short : Bool}
    (documented : Bool) {ns : List Nat} (h : (ofPlanned p short).1.order = .ok ns) :
    ∃ ds, (ofPlanned p short).1.declarations documented = .ok ds ∧
      List.Forall₂ ((ofPlanned p short).1.WrittenAt documented) ns ds := by
  refine ⟨_, congrArg (Except.map _) h, forall₂_filterMap_of_exists fun n hn => ?_⟩
  have hlt := List.mem_range.1 ((order_perm h).mem_iff.1 hn)
  obtain ⟨s, name, hs, hname, hwritten⟩ := exists_writtenAt hg short documented hlt
  refine ⟨_, ?_, hwritten⟩
  rw [hs, hname]
  rfl

end Catalog

namespace PlannedGraph

/-- With the plan that is made for a graph under any options, or with the empty one, declarations
share out the classes of the graph. They are refused if and only if a ring of them need each
other, and for no other reason; otherwise each is written once, in the least order in which every
one comes after those it needs. -/
theorem declarations_ordered {built : Options} {records : List SymbolRecord} {w : Diagnostics}
    {p : PlannedGraph} (h : TypeGraph.ofRecords built records = .ok (p.graph, w))
    (hplan : p.plan = {} ∨ ∃ chosen, p.plan = (Plan.ofGraph chosen p.graph).1)
    (options : Options) : p.Partitions records ∧
      (((∃ s, TransGen p.Needs s s) ∧
          ∃ names, p.declarations options = .error (.circularBases names)) ∨
        ((¬∃ s, TransGen p.Needs s s) ∧ ∃ order ds notes,
          p.declarations options = .ok (ds, notes) ∧
          LeastOrder.IsLeast p.subjects.length p.NeedsAt order ∧
          List.Forall₂ ((Catalog.ofPlanned p options.omitNamespaces).1.WrittenAt
            options.documented) order ds)) := by
  have hg := TypeGraph.tidy_of_ofRecords h
  have hp := checkPlaceholders_eq_ok hg.placed
  have hsuits : p.plan.Suits p.graph := by
    rcases hplan with heq | ⟨chosen, heq⟩
    · rw [heq]
      exact Plan.suits_empty _
    · rw [heq]
      exact Plan.suits_ofGraph chosen (TypeGraph.nodup_classes h)
  refine ⟨partitions_of_suits h hsuits, ?_⟩
  have hring := Catalog.order_eq_error_iff
    (c := (Catalog.ofPlanned p options.omitNamespaces).1) rfl
  rcases Catalog.order_cases (Catalog.ofPlanned p options.omitNamespaces).1 with
    ⟨ns, horder⟩ | ⟨names, horder⟩
  · refine Or.inr ⟨fun hneeds => ?_, ?_⟩
    · obtain ⟨names, hnames⟩ := hring.2 hneeds
      rw [horder] at hnames
      cases hnames
    · obtain ⟨ds, hds, hall⟩ := Catalog.declarations_of_order hg options.documented horder
      refine ⟨ns, ds, (Catalog.ofPlanned p options.omitNamespaces).2, ?_,
        Catalog.order_least rfl horder, hall⟩
      rw [declarations_eq options hp, hds]
      rfl
  · exact Or.inl ⟨hring.1 ⟨names, horder⟩, names, (declarations_eq_error_iff hp).2 horder⟩

/-- A class before its base, and a template whose two instantiations are each derived from the
other. -/
def derivedFirst : List SymbolRecord :=
  [(SymbolRecord.ofUserType ⟨1⟩ "Leaf" 8).addBase ⟨2⟩, .ofUserType ⟨2⟩ "Root" 8,
    .ofUserType ⟨3⟩ "P" 8,
    (SymbolRecord.ofInstantiation ⟨4⟩ "X<P,Leaf>" 8 [⟨3⟩, ⟨1⟩]).addBase ⟨5⟩,
    (SymbolRecord.ofInstantiation ⟨5⟩ "X<Leaf,P>" 8 [⟨1⟩, ⟨3⟩]).addBase ⟨4⟩]

theorem derivedFirst_ordered : ∃ g w ds notes order,
    TypeGraph.ofRecords {} derivedFirst = .ok (g, w) ∧ (g.planned {}).Partitions derivedFirst ∧
      (g.planned {}).declarations {} = .ok (ds, notes) ∧
        ds.map (·.name) = ["Root", "Leaf", "P", "X<T1, T2>"] ∧
          LeastOrder.IsLeast 4 (g.planned {}).NeedsAt order := by
  obtain ⟨g, w, h, hnames, hlength⟩ : ∃ g w, TypeGraph.ofRecords {} derivedFirst = .ok (g, w) ∧
      (((g.planned {}).declarations {}).toOption.map fun x => x.1.map (·.name)) =
        some ["Root", "Leaf", "P", "X<T1, T2>"] ∧ (g.planned {}).subjects.length = 4 :=
    TypeGraph.exists_ofRecords_and (by decide +kernel)
  obtain ⟨hpartitions, ⟨-, names, herror⟩ | ⟨-, order, ds, notes, hds, hleast, -⟩⟩ :=
    declarations_ordered (p := g.planned {}) h (Or.inr ⟨{}, rfl⟩) {}
  · rw [herror] at hnames
    cases hnames
  · rw [hds] at hnames
    rw [hlength] at hleast
    exact ⟨g, w, ds, notes, order, h, hpartitions, hds, Option.some.inj hnames, hleast⟩

end PlannedGraph

end NativeBindings
