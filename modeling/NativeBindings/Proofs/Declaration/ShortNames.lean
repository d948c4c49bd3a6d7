import NativeBindings.Proofs.Declaration.CircleWalk
import NativeBindings.Proofs.Declaration.UniqueNames

/-!
# Leaving out namespaces

Whether namespaces are left out decides what declarations are called, which names collide and
which of them get numbers. Nothing else looks at it: the graph, the plan, the subjects and what
they need of each other are the same. So two runs that differ in this option alone fail together
and for the same reason, with the same circle of declarations if there is one; or both write the
same subjects in the same order, with structs that differ in names and in references only
(`Struct.Agrees`), and report the same, renamed declarations aside
(`Bindings.corresponds_omitNamespaces`).
-/

namespace NativeBindings

open Relation

/-! ## Structs -/

/-- Structs that describe one native type by the same members, whatever they and what they refer
to are called. -/
structure Struct.Agrees (t t' : Struct) : Prop where
  doc : t.doc = t'.doc
  name : t.native.name = t'.native.name
  size : t.native.size = t'.native.size
  bases : t.native.bases.length = t'.native.bases.length
  anyCase : t.anyCase = t'.anyCase
  arity : t.arity = t'.arity
  members : t.members.map (·.name) = t'.members.map (·.name)
  attrs : t.members.map (·.kind.attr) = t'.members.map (·.kind.attr)

theorem Struct.Agrees.paramList {t t' : Struct} (h : t.Agrees t') : t.paramList = t'.paramList := by
  rw [Struct.paramList, Struct.paramList, h.arity]

theorem DeclaredName.Chosen.scope_eq {short : Bool} {taken : List String} {scope : Option String}
    {base : String} {name : DeclaredName} (h : name.Chosen short taken scope base) :
    name.scope = scope := by
  cases h <;> rfl

namespace Catalog

variable (p : PlannedGraph) (short short' documented : Bool)

/-- The declarations of a planned graph with a number agree, whatever they are called. -/
theorem exists_struct?_agrees {s : Subject} {ident : String} {t : Struct}
    (h : (ofPlanned p short).1.struct? documented ident s = some t) (ident' : String) :
    ∃ t', (ofPlanned p short').1.struct? documented ident' s = some t' ∧ t.Agrees t' := by
  have hconcrete (anyCase : Bool) (u : UserType) :
      ((ofPlanned p short).1.concreteStruct documented ident anyCase u).Agrees
        ((ofPlanned p short').1.concreteStruct documented ident' anyCase u) := by
    refine ⟨rfl, rfl, rfl, ?_, rfl, rfl, ?_, ?_⟩
    · simp only [concreteStruct, List.length_map]
    · simp only [concreteStruct, members, List.map_map]
      rfl
    · simp only [concreteStruct, members, List.map_map]
      rfl
  cases s with
  | user x =>
    obtain ⟨u, hu, rfl⟩ := Option.map_eq_some_iff.1 h
    exact ⟨_, Option.map_eq_some_iff.2 ⟨u, hu, rfl⟩, hconcrete false u⟩
  | specialized x =>
    obtain ⟨u, hu, rfl⟩ := Option.map_eq_some_iff.1 h
    exact ⟨_, Option.map_eq_some_iff.2 ⟨u, hu, rfl⟩, hconcrete true u⟩
  | generic f =>
    obtain ⟨l, hl, rfl⟩ := Option.map_eq_some_iff.1 h
    refine ⟨_, Option.map_eq_some_iff.2 ⟨l, hl, rfl⟩, rfl, rfl, rfl, ?_, rfl, rfl, ?_, ?_⟩
    · simp only [genericStruct, List.length_map]
    · simp only [genericStruct, genericMembers]
      split <;> simp only [List.map_append, List.map_map] <;> rfl
    · simp only [genericStruct, genericMembers]
      split <;> simp only [List.map_append, List.map_map] <;> rfl

/-- What is written under one number in two catalogs: structs of the same subject that agree, in
the same namespace. -/
def WrittenAlike (c c' : Catalog) (documented : Bool) (n : Nat) (d d' : Declaration) : Prop :=
  ∃ s name name' t t', c.subjects[n]? = some s ∧ c'.subjects[n]? = some s ∧
    c.names[n]? = some name ∧ c'.names[n]? = some name' ∧ name.scope = name'.scope ∧
      c.struct? documented name.ident s = some t ∧ c'.struct? documented name'.ident s = some t' ∧
        t.Agrees t' ∧ d = ⟨name.path ++ t.paramList, name.scope, t.text⟩ ∧
          d' = ⟨name'.path ++ t.paramList, name.scope, t'.text⟩

theorem writtenAlike_of_writtenAt {n : Nat} {d d' : Declaration}
    (h : (ofPlanned p short).1.WrittenAt documented n d)
    (h' : (ofPlanned p short').1.WrittenAt documented n d') :
    (ofPlanned p short).1.WrittenAlike (ofPlanned p short').1 documented n d d' := by
  obtain ⟨s, name, t, hs, hname, ht, hd⟩ := h
  obtain ⟨s', name', t', hs', hname', ht', hd'⟩ := h'
  obtain rfl : s = s' := Option.some.inj (hs.symm.trans hs')
  have hscope : name.scope = name'.scope :=
    (p.chosen_of_getElem?_nameAll short [] hs hname).scope_eq.trans
      (p.chosen_of_getElem?_nameAll short' [] hs' hname').scope_eq.symm
  obtain ⟨t'', ht'', hagrees⟩ := exists_struct?_agrees p short short' documented ht name'.ident
  obtain rfl := Option.some.inj (ht''.symm.trans ht')
  refine ⟨s, name, name', t, t'', hs, hs', hname, hname', hscope, ht, ht', hagrees, hd, ?_⟩
  rw [hd', hscope, hagrees.paramList]

/-! ## Orders and circles -/

/-- Whatever declarations are called, they are written in the same order, or refused for the same
circle. -/
theorem order_ofPlanned_cases : (∃ ns, (ofPlanned p short).1.order = .ok ns ∧
      (ofPlanned p short').1.order = .ok ns) ∨
    ∃ circle, IsCircle p.NeedsAt circle ∧
      (ofPlanned p short).1.order =
        .error (.circularBases (circle.map (ofPlanned p short).1.path)) ∧
      (ofPlanned p short').1.order =
        .error (.circularBases (circle.map (ofPlanned p short').1.path)) := by
  have hsort : LeastOrder.sort (ofPlanned p short').1.subjects.length
      (ofPlanned p short').1.dependencies = LeastOrder.sort (ofPlanned p short).1.subjects.length
        (ofPlanned p short).1.dependencies := rfl
  unfold order
  rw [hsort]
  split
  · next ns _ => exact Or.inl ⟨ns, rfl, rfl⟩
  · next circle herror => exact Or.inr ⟨circle, isCircle_of_sort rfl herror, rfl, rfl⟩

end Catalog

/-! ## Runs -/

namespace Bindings

/-- All reports but those of renamed declarations are made before names are given. -/
theorem filter_reports {options : Options} {records : List SymbolRecord} {g : TypeGraph}
    {w : Diagnostics} (h : TypeGraph.ofRecords options records = .ok (g, w)) (p : PlannedGraph)
    (short : Bool) : (w ++ (Plan.ofGraph options g).2 ++ (Catalog.ofPlanned p short).2).filter
      (·.finding ≠ .declarationRenamed) = w ++ (Plan.ofGraph options g).2 := by
  have hbefore : ∀ d ∈ w ++ (Plan.ofGraph options g).2, d.finding ≠ .declarationRenamed := by
    intro d hd
    rcases List.mem_append.1 hd with hd | hd
    · exact TypeGraph.finding_ne_of_ofRecords h d hd
    · exact Plan.finding_ne_of_ofGraph options g d hd
  rw [List.filter_append, List.filter_eq_self.2 (by simpa using hbefore),
    List.filter_eq_nil_iff.2 (by simpa using p.finding_of_mem_notes short), List.append_nil]

/-- The outcomes of two runs of which the second leaves out namespaces or not, whatever the first
one does. -/
inductive Corresponds (options : Options) (records : List SymbolRecord) (short : Bool) :
    Except Failure Bindings → Except Failure Bindings → Prop
  /-- Both fail for one reason, which is no circle of base classes. -/
  | failed {f : Failure} (h : ∀ cycle, f ≠ .circularBases cycle) :
    Corresponds options records short (.error f) (.error f)
  /-- Both are refused for one circle of declarations, which is told by the paths of each run. -/
  | circular {g : TypeGraph} {w : Diagnostics} {circle : List Nat}
    (hgraph : TypeGraph.ofRecords options records = .ok (g, w))
    (hcircle : IsCircle (g.planned options).NeedsAt circle) :
    Corresponds options records short
      (.error (.circularBases (circle.map (g.catalog options).path)))
      (.error (.circularBases
        (circle.map (g.catalog { options with omitNamespaces := short }).path)))
  /-- Both write all subjects in one order, with structs that agree, and report the same, renamed
  declarations aside. -/
  | written {g : TypeGraph} {w : Diagnostics} {b b' : Bindings} {order : List Nat}
    (hgraph : TypeGraph.ofRecords options records = .ok (g, w))
    (horder : order.Perm (List.range (g.planned options).subjects.length))
    (hlength : b.declarations.length = order.length)
    (hlength' : b'.declarations.length = order.length)
    (halike : ∀ (i n : Nat) (d d' : Declaration), order[i]? = some n → b.declarations[i]? = some d →
      b'.declarations[i]? = some d' → (g.catalog options).WrittenAlike
        (g.catalog { options with omitNamespaces := short }) options.documented n d d')
    (hreports : b.diagnostics.filter (·.finding ≠ .declarationRenamed) =
      b'.diagnostics.filter (·.finding ≠ .declarationRenamed)) :
    Corresponds options records short (.ok b) (.ok b')

/-- Whether namespaces are left out makes no difference but to names. -/
theorem corresponds_omitNamespaces (options : Options) (records : List SymbolRecord)
    (short : Bool) : Corresponds options records short (ofRecords options records)
      (ofRecords { options with omitNamespaces := short } records) := by
  have hsame : TypeGraph.ofRecords { options with omitNamespaces := short } records =
      TypeGraph.ofRecords options records := rfl
  cases hgraph : TypeGraph.ofRecords options records with
  | error f =>
    rw [ofRecords_eq_error hgraph, ofRecords_eq_error (hsame.trans hgraph)]
    refine .failed fun cycle heq => ?_
    exact TypeGraph.ofRecords_ne_circularBases cycle options records (heq ▸ hgraph)
  | ok x =>
    obtain ⟨g, w⟩ := x
    have hrun := ofRecords_eq_map hgraph
    have hrun' := ofRecords_eq_map (hsame.trans hgraph)
    have hg := TypeGraph.tidy_of_ofRecords hgraph
    rcases Catalog.order_ofPlanned_cases (g.planned options) options.omitNamespaces short with
      ⟨ns, horder, horder'⟩ | ⟨circle, hcircle, horder, horder'⟩
    · obtain ⟨ds, hds, hall⟩ := Catalog.declarations_of_order hg options.documented horder
      obtain ⟨ds', hds', hall'⟩ := Catalog.declarations_of_order hg options.documented horder'
      rw [hrun.trans (congrArg (Except.map _) hds), hrun'.trans (congrArg (Except.map _) hds')]
      refine .written hgraph (Catalog.order_perm horder) hall.length_eq.symm hall'.length_eq.symm
        (fun i n d d' hn hd hd' => ?_) ?_
      · obtain ⟨hi, rfl⟩ := List.getElem?_eq_some_iff.1 hn
        obtain ⟨hi', rfl⟩ := List.getElem?_eq_some_iff.1 hd
        obtain ⟨hi'', rfl⟩ := List.getElem?_eq_some_iff.1 hd'
        exact Catalog.writtenAlike_of_writtenAt _ _ _ _ (hall.get hi hi') (hall'.get hi hi'')
      · exact (filter_reports hgraph _ _).trans (filter_reports hgraph _ _).symm
    · rw [(ofRecords_eq_error_iff hgraph).2 horder,
        (ofRecords_eq_error_iff (hsame.trans hgraph)).2 horder']
      exact .circular hgraph hcircle

/-- Two classes are told apart by their namespaces alone, and a third one is in the way. -/
example : [false, true].map (fun short =>
    (ofRecords { omitNamespaces := short } threePoints).toOption.map fun b =>
      b.declarations.map (·.name)) =
    [some ["a::Point", "b::Point", "Point2"], some ["Point", "Point2", "Point2_2"]] := by
  decide +kernel

end Bindings

end NativeBindings
