import NativeBindings.Proofs.Declaration.Circles

/-!
# Rings inside one generic declaration

A ring of classes that are derived from each other leads from declaration to declaration. Each
step goes to a declaration that is needed, or it stays in a generic one, which does not wait for
itself. So a ring is noticed as soon as it leaves a declaration or meets one that is not generic
(`PlannedGraph.exists_needs_or_within`).

What is not noticed is a ring among the instantiations that one generic declaration covers. An
instantiation that is derived from itself is the shortest (`Bindings.selfDerived_accepted`).
-/

namespace NativeBindings

open Relation

/-- Two classes are derived from each other. -/
def TypeGraph.OnRing (g : TypeGraph) (c b : NodeId) : Prop :=
  TransGen g.Derives c b ∧ TransGen g.Derives b c

theorem TypeGraph.derives_of_bases {g : TypeGraph} {c b : NodeId} {bases : List NodeId}
    (hc : c ∈ g.classes) (h : (g.layoutType? c).map (·.bases) = some bases) (hb : b ∈ bases) :
    g.Derives c b := by
  obtain ⟨u, hu, rfl⟩ := Option.map_eq_some_iff.1 h
  exact ⟨hc, u, hu, hb⟩

namespace PlannedGraph

variable {p : PlannedGraph}

/-- What a class is derived from has a declaration that its own declaration needs, or both have
the same generic one. -/
theorem needs_or_eq {c b : NodeId} {s t : Subject} (hcb : p.graph.Derives c b)
    (hb : b ∈ p.graph.classes) (hs : p.subjectOf? c = some s) (ht : p.subjectOf? b = some t) :
    p.Needs s t ∨ t = s ∧ s.isGeneric = true := by
  obtain ⟨hc, u, hu, hbu⟩ := hcb
  by_cases hself : t = s ∧ s.isGeneric = true
  · exact Or.inr hself
  · exact Or.inl ⟨mem_subjects_iff.2 ⟨c, hc, hs⟩, mem_subjects_iff.2 ⟨b, hb, ht⟩,
      ⟨c, mem_covered hs, u, hu, b, hbu, ht⟩, hself⟩

/-- A way along bases is followed by a way along declarations. -/
theorem reflTransGen_needs {c b : NodeId} {s t : Subject} (hcb : TransGen p.graph.Derives c b)
    (hb : b ∈ p.graph.classes) (hs : p.subjectOf? c = some s) (ht : p.subjectOf? b = some t) :
    ReflTransGen p.Needs s t := by
  have hstep {c b : NodeId} {s t : Subject} (hcb : p.graph.Derives c b)
      (hb : b ∈ p.graph.classes) (hs : p.subjectOf? c = some s) (ht : p.subjectOf? b = some t) :
      ReflTransGen p.Needs s t := by
    rcases needs_or_eq hcb hb hs ht with hneeds | ⟨rfl, -⟩
    · exact .single hneeds
    · exact .refl
  induction hcb generalizing t with
  | single hcb => exact hstep hcb hb hs ht
  | tail _ hdb ih =>
    obtain ⟨hmem, u, hu, -⟩ := id hdb
    obtain ⟨r, hr⟩ := exists_subjectOf? hu
    exact (ih hmem hr).trans (hstep hdb hb hr ht)

/-- A ring of classes is followed by a ring of declarations, unless one generic declaration
covers all of it. -/
theorem exists_needs_or_within {c : NodeId} (hring : TransGen p.graph.Derives c c) :
    (∃ s, TransGen p.Needs s s) ∨
      ∃ f, ∀ b, p.graph.OnRing c b → p.subjectOf? b = some (.generic f) := by
  have hclass {b : NodeId} (hb : p.graph.OnRing c b) :
      b ∈ p.graph.classes ∧ ∃ t, p.subjectOf? b = some t := by
    obtain ⟨d, ⟨hmem, u, hu, -⟩, -⟩ := TransGen.head'_iff.1 hb.2
    exact ⟨hmem, exists_subjectOf? hu⟩
  obtain ⟨hc, s, hs⟩ := hclass ⟨hring, hring⟩
  by_cases hall : ∀ b, p.graph.OnRing c b → p.subjectOf? b = some s
  · by_cases hgeneric : s.isGeneric = true
    · cases s with
      | generic f => exact Or.inr ⟨f, hall⟩
      | user id | specialized id => cases hgeneric
    · obtain ⟨b, hcb, hbc⟩ := TransGen.head'_iff.1 hring
      have hb : p.graph.OnRing c b := ⟨.single hcb, TransGen.trans_right hbc hring⟩
      rcases needs_or_eq hcb (hclass hb).1 hs (hall b hb) with hneeds | ⟨-, hself⟩
      · exact Or.inl ⟨s, .single hneeds⟩
      · exact absurd hself hgeneric
  · simp only [not_forall] at hall
    obtain ⟨b, hb, hne⟩ := hall
    obtain ⟨hmem, t, ht⟩ := hclass hb
    have hout := reflTransGen_needs hb.1 hmem hs ht
    have hback := reflTransGen_needs hb.2 hc ht hs
    rcases reflTransGen_iff_eq_or_transGen.1 hout with rfl | hout
    · exact absurd ht hne
    · exact Or.inl ⟨s, hout.trans_left hback⟩

end PlannedGraph

namespace Bindings

/-- Where classes of a graph that is built are derived from each other in a ring, bindings are
refused for circular bases, unless every such ring is covered by one generic declaration. -/
theorem circular_or_within {options : Options} {records : List SymbolRecord} {g : TypeGraph}
    {w : Diagnostics} (h : TypeGraph.ofRecords options records = .ok (g, w)) :
    Circular options records ∨ ∀ c, TransGen g.Derives c c → ∃ f, ∀ b, g.OnRing c b →
      (g.planned options).subjectOf? b = some (.generic f) := by
  by_cases hneeds : ∃ s, TransGen (g.planned options).Needs s s
  · exact Or.inl (circular_iff_needs.2 ⟨g, w, h, hneeds⟩)
  · exact Or.inr fun c hring =>
      (PlannedGraph.exists_needs_or_within (p := g.planned options) hring).resolve_left hneeds

/-- An instantiation that is derived from itself. -/
def selfDerived : List SymbolRecord :=
  [.ofPrimitive ⟨1⟩ "int" 4,
    (SymbolRecord.ofInstantiation ⟨2⟩ "X<int>" 8 [⟨1⟩]).addBase ⟨2⟩]

/-- Bindings are made though a class is derived from itself. -/
theorem selfDerived_accepted : (∃ b, ofRecords {} selfDerived = .ok b) ∧
    ∃ g w, TypeGraph.ofRecords {} selfDerived = .ok (g, w) ∧ ∃ c, TransGen g.Derives c c := by
  obtain ⟨g, w, h, hmem, hbases⟩ : ∃ g w, TypeGraph.ofRecords {} selfDerived = .ok (g, w) ∧
      3 ∈ g.classes ∧ (g.layoutType? 3).map (·.bases) = some [3] :=
    TypeGraph.exists_ofRecords_and (by decide +kernel)
  exact ⟨exists_eq_ok (by decide +kernel), g, w, h, 3,
    .single (TypeGraph.derives_of_bases hmem hbases (by simp))⟩

/-- Two instantiations with swapped arguments, each derived from the other. -/
def swappedArguments : List SymbolRecord :=
  [.ofUserType ⟨1⟩ "P" 8, .ofUserType ⟨2⟩ "Q" 8,
    (SymbolRecord.ofInstantiation ⟨3⟩ "X<P,Q>" 8 [⟨1⟩, ⟨2⟩]).addBase ⟨4⟩,
    (SymbolRecord.ofInstantiation ⟨4⟩ "X<Q,P>" 8 [⟨2⟩, ⟨1⟩]).addBase ⟨3⟩]

theorem exists_ofRecords_swappedArguments :
    ∃ g w, TypeGraph.ofRecords {} swappedArguments = .ok (g, w) ∧ g.OnRing 4 6 := by
  obtain ⟨g, w, h, hmem, hmem', hbases, hbases'⟩ :
      ∃ g w, TypeGraph.ofRecords {} swappedArguments = .ok (g, w) ∧ 4 ∈ g.classes ∧
        6 ∈ g.classes ∧ (g.layoutType? 4).map (·.bases) = some [6] ∧
          (g.layoutType? 6).map (·.bases) = some [4] :=
    TypeGraph.exists_ofRecords_and (by decide +kernel)
  exact ⟨g, w, h, .single (TypeGraph.derives_of_bases hmem hbases (by simp)),
    .single (TypeGraph.derives_of_bases hmem' hbases' (by simp))⟩

/-- The ring is not noticed, and one generic declaration covers both instantiations. -/
theorem swappedArguments_within : ∃ g w, TypeGraph.ofRecords {} swappedArguments = .ok (g, w) ∧
    ¬Circular {} swappedArguments ∧ g.OnRing 4 6 ∧
    ∃ f, (g.planned {}).subjectOf? 4 = some (.generic f) ∧
      (g.planned {}).subjectOf? 6 = some (.generic f) := by
  obtain ⟨g, w, h, hring⟩ := exists_ofRecords_swappedArguments
  have haccepted : ¬Circular {} swappedArguments := by
    obtain ⟨b, hb⟩ : ∃ b, ofRecords {} swappedArguments = .ok b :=
      exists_eq_ok (by decide +kernel)
    rintro ⟨names, hnames⟩
    rw [hb] at hnames
    cases hnames
  obtain ⟨f, hf⟩ := (circular_or_within h).resolve_left haccepted 4 (hring.1.trans hring.2)
  exact ⟨g, w, h, haccepted, hring, f, hf 4 ⟨hring.1.trans hring.2, hring.1.trans hring.2⟩,
    hf 6 hring⟩

end Bindings

end NativeBindings
