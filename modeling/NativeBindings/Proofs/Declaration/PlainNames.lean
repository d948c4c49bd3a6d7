import NativeBindings.Proofs.Declaration.UniqueNames

/-!
# References are the names of types

The name of a type in the bindings is made from the type alone. A reference to it asks the
declarations: for the path of the one that covers a class, and for whether that has parameters.
Where a declaration is called as the user types are that it covers, and every instantiation
applies one with parameters, both come to the same (`Catalog.Plain.render?_eq`). A class that no
declaration covers has no other name to be referred to by.

Declarations are like this if every family is generic and none was renamed
(`PlannedGraph.plain_of_notes_eq_nil`). So references and names part in two ways only: by
declarations of their own for instantiations, and by numbers (`PlannedGraph.refTo_eq_render`).
-/

namespace NativeBindings

/-- The name in the bindings of every node is known where spelling ends. -/
theorem Arena.Closed.render?_eq {a : Arena} (h : a.Closed) (hends : a.SpellingEnds) (short : Bool)
    {x : NodeId} (hx : x < a.size) : a.render? short x = some (a.render short x) := by
  obtain ⟨s, hs⟩ := h.exists_read? (Reading.rendered_stable short) (Reading.rendered_total short)
    (hends.acc x) hx
  rw [render, show a.render? short x = some s from hs, Option.getD_some]

namespace Catalog

/-- A catalog whose declarations are called as the classes that they cover, those of
instantiations with parameters. -/
structure Plain (c : Catalog) : Prop where
  /-- The declaration of a class has the path of the user type that says what it looks like. -/
  path : ∀ {x u n}, c.graph.layoutType? x = some u → c.coveredBy? x = some n →
    c.path n = u.path c.short
  /-- The declaration of an instantiation is generic. -/
  generic : ∀ {x l args n}, c.graph.arena.node? x = some (.template l args) →
    c.coveredBy? x = some n → c.isGeneric n = true

/-- What refers to a node is the name of its type. -/
theorem Plain.render?_eq {c : Catalog} (h : c.Plain) (hclosed : c.graph.arena.Closed)
    (hends : c.graph.arena.SpellingEnds) (arity : Nat) {x : NodeId} {t : TypeRef}
    (ht : c.Refers x t) : c.graph.arena.render? c.short x = some (t.text arity) := by
  have hrender {x : NodeId} {n : Node} (hn : c.graph.arena.node? x = some n) :
      c.graph.arena.render? c.short x =
        Reading.rendered c.short x n (c.graph.arena.render? c.short) := by
    rw [Arena.render?, Arena.read?_eq (Reading.rendered_stable c.short), hn]
    rfl
  induction ht with
  | scalar hn => exact hrender hn
  | pointer hn _ ih | array hn _ ih =>
    rw [hrender hn, Reading.rendered, ih]
    rfl
  | enumeration hn _ ih => exact (hrender hn).trans ih
  | user hn hcovered =>
    rw [hrender hn, TypeRef.text, h.path (TypeGraph.layoutType?_user hn) hcovered]
    rfl
  | special hn hcovered hspecial => cases hspecial.symm.trans (h.generic hn hcovered)
  | @generic x l args n ts hn hcovered _ hlen _ ih =>
    obtain ⟨u, hu⟩ := hclosed.layout hn
    have hlayout : c.graph.layoutType? x = some u :=
      TypeGraph.Instantiates.layoutType? ⟨l, hn, hu⟩
    have hhead : c.graph.arena.render? c.short l = some (u.path c.short) := by
      rw [hrender (Arena.node?_user hu)]
      rfl
    have hargs : args.mapM (c.graph.arena.render? c.short) = some (ts.map (TypeRef.text arity)) := by
      rw [Reading.mapM_eq_some_iff, List.forall₂_map_right_iff, List.forall₂_iff_zip]
      exact ⟨hlen, fun hmem => ih _ hmem⟩
    rw [hrender hn, TypeRef.text, TypeRef.texts_eq_map, h.path hlayout hcovered]
    simp only [Reading.rendered, hhead, hargs, Option.bind_some, Option.map_some]
  | uncovered hn | placeholder hn =>
    exact hclosed.render?_eq hends c.short (Arena.lt_size_of_node? hn)

end Catalog

/-! ## Declarations without numbers -/

/-- Whether all templates have generic declarations. -/
def Plan.AllGeneric (p : Plan) : Prop :=
  ∀ F ∈ p.families, F.policy.isGeneric = true

instance (p : Plan) : Decidable p.AllGeneric :=
  inferInstanceAs (Decidable (∀ F ∈ p.families, F.policy.isGeneric = true))

namespace PlannedGraph

variable {p : PlannedGraph} {short : Bool}

/-- Without notes, every subject has the path that it prefers. -/
theorem path_of_notes_eq_nil (hnotes : (Catalog.ofPlanned p short).2 = []) {n : Nat} {s : Subject}
    (hs : p.subjects[n]? = some s) : (Catalog.ofPlanned p short).1.path n =
      DeclaredName.pathOf short (p.preferred s).1 (p.preferred s).2 := by
  obtain ⟨hlt, -⟩ := List.getElem?_eq_some_iff.1 hs
  have hlength := p.length_nameAll short [] p.subjects
  obtain ⟨name, hname⟩ : ∃ name, (p.nameAll short [] p.subjects).1[n]? = some name :=
    ⟨_, List.getElem?_eq_getElem (hlength ▸ hlt)⟩
  have hchosen := p.chosen_of_getElem?_nameAll short [] hs hname
  have hident : name.ident = (p.preferred s).2 := by
    have hnone := (p.notes_nameAll short [] p.subjects).symm.trans hnotes
    rw [List.map_eq_nil_iff, List.filter_eq_nil_iff] at hnone
    have hmem : (s, name) ∈ p.subjects.zip (p.nameAll short [] p.subjects).1 :=
      List.mem_of_getElem? (List.getElem?_zip_eq_some.2 ⟨hs, hname⟩)
    simpa using hnone _ hmem
  have hpath : (Catalog.ofPlanned p short).1.path n = name.path :=
    congrArg (fun o => (o.map DeclaredName.path).getD "") hname
  rw [hpath, hchosen.path_eq, hident]

section

variable (hsuits : p.plan.Suits p.graph)
  (hgroups : p.plan.families.map Plan.group = Plan.grouped p.graph)

include hsuits hgroups

/-- Every kept instantiation is in a family, which is called as it is. -/
theorem exists_family {x : NodeId} {u : UserType} (hx : x ∈ p.graph.instantiations)
    (hu : p.graph.layoutType? x = some u) : ∃ f F, p.plan.familyOf? x = some f ∧
      p.plan.families[f]? = some F ∧ x ∈ F.instantiations ∧ F.key = ⟨u.scope, u.name⟩ := by
  have hgrouped := Plan.groups_grouped p.graph
  have hkey : Plan.keyOf? p.graph x = some ⟨u.scope, u.name⟩ := by
    rw [Plan.keyOf?, hu]
    rfl
  obtain ⟨group, hgroup, hfst⟩ := List.mem_map.1 (hgrouped.exists_mem x hx _ hkey)
  obtain ⟨F, hF, rfl⟩ := List.mem_map.1 (hgroups ▸ hgroup)
  obtain ⟨f, hf⟩ := List.mem_iff_getElem?.1 hF
  have hmem : x ∈ F.instantiations := (hgrouped.mem_iff hgroup x).2 ⟨hx, hfst ▸ hkey⟩
  exact ⟨f, F, hsuits.familyOf? hf x hmem, hf, hmem, hfst⟩

/-- Where all families are generic, a class that is declared prefers its own name, and an
instantiation a generic declaration. -/
theorem preferred_of_allGeneric (hgeneric : p.plan.AllGeneric) {x : NodeId} {s : Subject}
    (hx : p.subjectOf? x = some s) (hs : s ∈ p.subjects) {u : UserType}
    (hu : p.graph.layoutType? x = some u) : p.preferred s = (u.scope, u.name) ∧
      ∀ l args, p.graph.arena.node? x = some (.template l args) → s.isGeneric = true := by
  have hclass : x ∈ p.graph.classes := ((mem_covered_iff hsuits hs).1 (mem_covered hx)).1
  rcases subjectOf?_cases hx with ⟨rfl, v, hn⟩ | ⟨l, args, hn, hcases⟩
  · obtain rfl := Option.some.inj (hu.symm.trans (TypeGraph.layoutType?_user hn))
    refine ⟨?_, fun l args hn' => ?_⟩
    · rw [preferred, Arena.user?_of_node? hn]
    · cases hn.symm.trans hn'
  · have hinst := TypeGraph.mem_instantiations_iff.2 ⟨hclass, l, args, hn⟩
    obtain ⟨f, F, hf, hF, hmem, hkey⟩ := exists_family hsuits hgroups hinst hu
    rcases hcases with ⟨rfl, hspecial⟩ | ⟨f', _, rfl, hf', -⟩
    · have hfalse := (isGeneric_eq_false_iff hsuits).1 hspecial F (List.mem_of_getElem? hF) hmem
      rw [hgeneric F (List.mem_of_getElem? hF)] at hfalse
      cases hfalse
    · obtain rfl := Option.some.inj (hf.symm.trans hf')
      refine ⟨?_, fun _ _ _ => rfl⟩
      rw [preferred, hF]
      simp only [hkey]

/-- Where all families are generic and none is renamed, declarations have the names of the classes
that they cover. -/
theorem plain_of_notes_eq_nil (hg : p.graph.Tidy) (hgeneric : p.plan.AllGeneric)
    (hnotes : (Catalog.ofPlanned p short).2 = []) : (Catalog.ofPlanned p short).1.Plain := by
  have hcovered {x : NodeId} {u : UserType} {n : Nat} (hu : p.graph.layoutType? x = some u)
      (hx : (Catalog.ofPlanned p short).1.coveredBy? x = some n) :
      ∃ s, p.subjects[n]? = some s ∧ p.preferred s = (u.scope, u.name) ∧
        ∀ l args, p.graph.arena.node? x = some (.template l args) → s.isGeneric = true := by
    obtain ⟨s, hs, hn⟩ := (Catalog.coveredBy?_eq_some_iff (nodup_eraseDups _)).1 hx
    exact ⟨s, hn, preferred_of_allGeneric hsuits hgroups hgeneric hs (List.mem_of_getElem? hn) hu⟩
  constructor
  · intro x u n hu hx
    obtain ⟨s, hn, hpreferred, -⟩ := hcovered hu hx
    rw [path_of_notes_eq_nil hnotes hn, hpreferred]
    rfl
  · intro x l args n hn hx
    obtain ⟨u, hu⟩ := hg.closed.layout hn
    obtain ⟨s, hs, -, hs'⟩ := hcovered (TypeGraph.Instantiates.layoutType? ⟨l, hn, hu⟩) hx
    have hsubject : (Catalog.ofPlanned p short).1.subjects[n]? = some s := hs
    rw [Catalog.isGeneric, hsubject]
    exact hs' l args hn

end

/-- Where all templates of a graph that is built have generic declarations and no declaration is
renamed, the reference to any node, whether it is kept or discarded or the layout of an
instantiation, is the name of its type in the bindings. Both are known of every node. -/
theorem refTo_eq_render {built : Options} {records : List SymbolRecord} {w : Diagnostics}
    (h : TypeGraph.ofRecords built records = .ok (p.graph, w))
    (hends : p.graph.arena.SpellingEnds) {chosen : Options}
    (hplan : p.plan = (Plan.ofGraph chosen p.graph).1)
    (hgeneric : p.plan.AllGeneric) {options : Options} {ds : List Declaration}
    {notes : Diagnostics} (hwritten : p.declarations options = .ok (ds, notes))
    (hnotes : notes.ofFinding .declarationRenamed = []) :
    ∀ x < p.graph.arena.size,
      (Catalog.ofPlanned p options.omitNamespaces).1.ref? x =
        some ((Catalog.ofPlanned p options.omitNamespaces).1.refTo x) ∧
      p.graph.arena.render? options.omitNamespaces x =
        some (p.graph.render options.omitNamespaces x) ∧
      ∀ arity, ((Catalog.ofPlanned p options.omitNamespaces).1.refTo x).text arity =
        p.graph.render options.omitNamespaces x := by
  have hg := TypeGraph.tidy_of_ofRecords h
  have hnil : (Catalog.ofPlanned p options.omitNamespaces).2 = [] := by
    rw [declarations_eq options (checkPlaceholders_eq_ok hg.placed)] at hwritten
    obtain ⟨ds', -, heq⟩ := map_eq_ok_iff.1 hwritten
    obtain ⟨-, rfl⟩ := Prod.mk.inj heq
    rwa [Diagnostics.ofFinding_eq_self (p.finding_of_mem_notes _)] at hnotes
  have hsuits : p.plan.Suits p.graph :=
    hplan ▸ Plan.suits_ofGraph chosen (TypeGraph.nodup_classes h)
  have hgroups : p.plan.families.map Plan.group = Plan.grouped p.graph :=
    hplan ▸ Plan.group_families chosen p.graph
  have hplain := plain_of_notes_eq_nil hsuits hgroups hg hgeneric hnil
  intro x hx
  obtain ⟨t, ht⟩ := hg.closed.exists_read?
    (Catalog.reading_stable (Catalog.ofPlanned p options.omitNamespaces).1)
    (Catalog.reading_total _) (hends.acc x) hx
  have href : (Catalog.ofPlanned p options.omitNamespaces).1.refTo x = t := Catalog.refTo_eq ht
  have hrender := hg.closed.render?_eq hends options.omitNamespaces hx
  refine ⟨href ▸ ht, hrender, fun arity => ?_⟩
  rw [href]
  exact Option.some.inj ((hplain.render?_eq hg.closed hends arity
    (Catalog.refers_of_readWithin ht)).symm.trans hrender)

/-- A class and an instantiation in namespaces, each recorded twice, and one template inside
another one. -/
def recordedTwice : List SymbolRecord :=
  [.ofUserType ⟨1⟩ "geo::Point" 8, .ofUserType ⟨2⟩ "geo::Point" 8,
    .ofPointer ⟨3⟩ (some ⟨2⟩) 8,
    (SymbolRecord.ofInstantiation ⟨4⟩ "geo::Box<geo::Point>" 8 [⟨1⟩]).addField "item" ⟨1⟩ 0,
    (SymbolRecord.ofInstantiation ⟨5⟩ "geo::Box<geo::Point>" 8 [⟨2⟩]).addField "item" ⟨2⟩ 0,
    (SymbolRecord.ofInstantiation ⟨6⟩ "Pair<geo::Box<geo::Point>,geo::Point*>" 16
      [⟨5⟩, ⟨3⟩]).addField "first" ⟨5⟩ 0]

/-- What was discarded and hidden layouts are referred to by name, and instantiations by their
arguments' names. -/
theorem recordedTwice_refTo : ∃ g w ds, TypeGraph.ofRecords {} recordedTwice = .ok (g, w) ∧
    g.classes = [2, 5, 9] ∧ (g.planned {}).plan.AllGeneric ∧
      (g.planned {}).declarations {} = .ok (ds, []) ∧
        [3, 7, 8, 9].map (fun x => ((g.catalog {}).refTo x).text 0) =
          ["geo::Point", "geo::Box<geo::Point>", "geo::Box",
            "Pair<geo::Box<geo::Point>, Pointer<geo::Point>>"] := by
  obtain ⟨g, w, h, hclasses, hsize, hloop, hgeneric, hwritten, hnames⟩ :
      ∃ g w, TypeGraph.ofRecords {} recordedTwice = .ok (g, w) ∧ g.classes = [2, 5, 9] ∧
        g.arena.size = 11 ∧ g.arena.loop? = none ∧ (g.planned {}).plan.AllGeneric ∧
          ((g.planned {}).declarations {}).toOption.any (fun x => decide (x.2 = [])) = true ∧
            [3, 7, 8, 9].map (g.render false) = ["geo::Point", "geo::Box<geo::Point>", "geo::Box",
              "Pair<geo::Box<geo::Point>, Pointer<geo::Point>>"] :=
    TypeGraph.exists_ofRecords_and (by decide +kernel)
  obtain ⟨⟨ds, notes⟩, hds, rfl⟩ := exists_eq_ok_and hwritten
  have hends := (TypeGraph.tidy_of_ofRecords h).closed.spellingEnds_of_loop? hloop
  have hall := refTo_eq_render (p := g.planned {}) h hends rfl hgeneric hds rfl
  have hlt : ∀ x ∈ [3, 7, 8, 9], x < g.arena.size := hsize ▸ by decide
  refine ⟨g, w, ds, h, hclasses, hgeneric, hds, ?_⟩
  rw [← hnames]
  exact List.map_congr_left fun x hx => (hall x (hlt x hx)).2.2 0

end PlannedGraph

end NativeBindings
