import NativeBindings.Proofs.Template.Families

/-!
# What a plan promises

A generic declaration is true of every instantiation that it covers, and a family is called
ambiguous exactly if there is nothing that could be declared for all its instantiations
(`Plan.ofGraph_spec`).

The second half is about outlines of any kind, not only about those that unification might come
up with: unification finds a common outline whenever there is one.
-/

namespace NativeBindings.Plan

/-- A family is reported as ambiguous. -/
def Ambiguous (g : TypeGraph) (ds : Diagnostics) (F : Family) : Prop :=
  ∃ w ∈ ds, w.finding = .ambiguousTemplateGrouping ∧ w.symbol = symbolOf? g F.instantiations

theorem patterned_of_spellingEnds {g : TypeGraph} (hg : g.Tidy) (hends : g.arena.SpellingEnds)
    (familyOf : NodeId → Option Nat) (arguments : List String) :
    g.arena.Patterned familyOf arguments := fun id hid =>
  hg.closed.exists_read? (Pattern.reading_stable _ familyOf arguments)
    (Pattern.reading_total _ familyOf arguments) (hends.acc id) hid

variable {options : Options} {g : TypeGraph}

/-- Groups are told by the symbols in reports about them. -/
theorem eq_of_symbolOf? (hg : g.Tidy) {x y : TemplateKey × List NodeId} (hx : x ∈ grouped g)
    (hy : y ∈ grouped g) (h : symbolOf? g x.2 = symbolOf? g y.2) : x = y := by
  have hfirst {x : TemplateKey × List NodeId} (hx : x ∈ grouped g) : ∃ id u,
      id ∈ x.2 ∧ id ∈ g.classes ∧ g.layoutType? id = some u ∧
        symbolOf? g x.2 = some u.symbol := by
    obtain ⟨id, rest, hids⟩ := List.exists_cons_of_ne_nil ((groups_grouped g).ne_nil x hx)
    have hid : id ∈ x.2 := by simp [hids]
    obtain ⟨hclass, args, u, hu⟩ := exists_instantiates_of_mem_group hx hid
    exact ⟨id, u, hid, hclass, hu.layoutType?, by simp [symbolOf?, hids, hu.layoutType?]⟩
  obtain ⟨id, u, hid, hclass, hu, hsymbol⟩ := hfirst hx
  obtain ⟨id', u', hid', hclass', hu', hsymbol'⟩ := hfirst hy
  rw [hsymbol, hsymbol'] at h
  obtain rfl := hg.eq_of_symbol hclass hclass' hu hu' (Option.some.inj h)
  exact (groups_grouped g).eq_of_mem hx hy hid hid'

/-- A family is reported as ambiguous exactly if its instantiations have no common layout. -/
theorem ambiguous_iff (hg : g.Tidy) {F : Family} (hF : F ∈ (ofGraph options g).1.families) :
    Ambiguous g (ofGraph options g).2 F ↔ options.unifyTemplates = true ∧
      ¬∃ l, SharedLayout.ofInstantiations g (ofGraph options g).1.familyOf? F.instantiations =
        .ok l := by
  constructor
  · rintro ⟨w, hw, hfinding, hsymbol⟩
    obtain ⟨hunify, x, hx, m, hm, rfl⟩ := mem_ambiguous_iff.1 ⟨hw, hfinding⟩
    obtain rfl := eq_of_symbolOf? hg hx (group_mem_grouped hF) hsymbol
    refine ⟨hunify, ?_⟩
    rintro ⟨l, hl⟩
    cases hm.symm.trans hl
  · rintro ⟨hunify, hnone⟩
    cases hm : SharedLayout.ofInstantiations g (ofGraph options g).1.familyOf? F.instantiations with
    | ok l => exact absurd ⟨l, hm⟩ hnone
    | error m =>
      obtain ⟨hw, hfinding⟩ :=
        mem_ambiguous_iff.2 ⟨hunify, group F, group_mem_grouped hF, m, hm, rfl⟩
      exact ⟨_, hw, hfinding, rfl⟩

/-- In every plan for a graph that is built, the layout of a generic family covers all its
instantiations, and where spelling ends a family is reported as ambiguous if and only if
families are unified at all and no outline describes every instantiation. -/
theorem ofGraph_spec {built : Options} {records : List SymbolRecord} {w : Diagnostics}
    (h : TypeGraph.ofRecords built records = .ok (g, w)) (options : Options) :
    ∀ F ∈ (ofGraph options g).1.families,
      (∀ l, F.policy = .generic l → F.instantiations ≠ [] ∧
        l.Covers g (ofGraph options g).1.familyOf? F.instantiations) ∧
      (g.arena.SpellingEnds → (Ambiguous g (ofGraph options g).2 F ↔
        options.unifyTemplates = true ∧ ¬∃ o, ∀ id ∈ F.instantiations,
          g.Admits (ofGraph options g).1.familyOf? id o)) := by
  intro F hF
  have hg := TypeGraph.tidy_of_ofRecords h
  have hids := instantiations_ne_nil hF
  have hinst : ∀ id ∈ F.instantiations, ∃ args u, g.Instantiates id args u :=
    fun id hid => (exists_instantiates hF hid).2
  refine ⟨fun l hl => ⟨hids, ?_⟩, fun hends => ?_⟩
  · exact SharedLayout.covers_of_ofInstantiations hinst (ofInstantiations_of_policy hF hl)
  · have hp := patterned_of_spellingEnds hg hends (ofGraph options g).1.familyOf?
    rw [ambiguous_iff hg hF, SharedLayout.exists_ofInstantiations_iff hp hids hinst]

/-- Two instantiations of a template with a field of its argument's type, and two of another
one whose fields have nothing in common. -/
def boxAndOdd : List SymbolRecord :=
  [.ofPrimitive ⟨1⟩ "int" 4,
    .ofPrimitive ⟨2⟩ "char" 1,
    .ofPointer ⟨3⟩ (some ⟨1⟩) 8,
    (SymbolRecord.ofInstantiation ⟨4⟩ "Box<int>" 8 [⟨1⟩]).addField "value" ⟨1⟩ 0,
    (SymbolRecord.ofInstantiation ⟨5⟩ "Box<char>" 8 [⟨2⟩]).addField "value" ⟨2⟩ 0,
    (SymbolRecord.ofInstantiation ⟨6⟩ "Odd<int>" 8 [⟨1⟩]).addField "value" ⟨1⟩ 0,
    (SymbolRecord.ofInstantiation ⟨7⟩ "Odd<char>" 8 [⟨2⟩]).addField "value" ⟨3⟩ 0]

theorem exists_ofRecords_boxAndOdd : ∃ g w, TypeGraph.ofRecords {} boxAndOdd = .ok (g, w) ∧
    g.arena.loop? = none ∧ (∃ F ∈ (ofGraph {} g).1.families, F.policy.isGeneric = true) ∧
    ∃ F ∈ (ofGraph {} g).1.families, ∃ w ∈ (ofGraph {} g).2,
      w.finding = .ambiguousTemplateGrouping ∧ w.symbol = symbolOf? g F.instantiations :=
  TypeGraph.exists_ofRecords_and (by decide +kernel)

/-- The generic declaration of the first template covers both instantiations, and there is no
outline for those of the second one. -/
theorem boxAndOdd_planned : ∃ g w, TypeGraph.ofRecords {} boxAndOdd = .ok (g, w) ∧
    (∃ F ∈ (ofGraph {} g).1.families, ∃ l, F.policy = .generic l ∧
      l.Covers g (ofGraph {} g).1.familyOf? F.instantiations) ∧
    ∃ F ∈ (ofGraph {} g).1.families, Ambiguous g (ofGraph {} g).2 F ∧
      ¬∃ o, ∀ id ∈ F.instantiations, g.Admits (ofGraph {} g).1.familyOf? id o := by
  obtain ⟨g, w, h, hloop, ⟨F, hF, hgeneric⟩, F', hF', hambiguous⟩ := exists_ofRecords_boxAndOdd
  have hends := (TypeGraph.tidy_of_ofRecords h).closed.spellingEnds_of_loop? hloop
  refine ⟨g, w, h, ⟨F, hF, ?_⟩, F', hF', hambiguous, ?_⟩
  · obtain ⟨l, hl⟩ := exists_generic_of_isGeneric hgeneric
    exact ⟨l, hl, ((ofGraph_spec h {} F hF).1 l hl).2⟩
  · exact (((ofGraph_spec h {} F' hF').2 hends).1 hambiguous).2

end NativeBindings.Plan
