import NativeBindings.Proofs.Graph.Representation
import NativeBindings.Proofs.Template.Families

/-!
# Families and native templates

Duplicates are told by native names, families by the names that templates get in the bindings.
So two instantiations share a family exactly if their native templates are named alike
(`Plan.mem_instantiations_iff`), and a family holds instantiations of one native template
exactly if no other one in the graph is named alike (`Plan.ofGraph_sameTemplate_iff`).

An identifier says less than a native name: `Vec` and `_Vec` are named alike, and one generic
declaration covers both (`Plan.underscored_shared`). Where native names are made of identifiers,
they are told apart (`NativeTemplate.key_of_identifiers`).
-/

namespace NativeBindings

/-- A template by its native name. -/
structure NativeTemplate where
  /-- Namespace. -/
  scope : Option String
  /-- Last segment of the name, without an argument list. -/
  name : String
deriving DecidableEq, Repr

/-- The template in the identity of an instantiation. -/
def Identity.template (k : Identity) : NativeTemplate :=
  ⟨k.scope, k.name⟩

/-- The native template of an instantiation. -/
def TypeGraph.templateOf? (g : TypeGraph) (id : NodeId) : Option NativeTemplate :=
  (g.arena.identity? id).map Identity.template

namespace NativeTemplate

/-- The identifier of a template. -/
def identifier (t : NativeTemplate) : String :=
  String.ofList (Name.identifier t.name.toList)

/-- What names a template in the bindings. -/
def key (t : NativeTemplate) : TemplateKey where
  scope := t.scope.map fun ns => Draft.scopePath ns.toList
  name := if t.identifier = "_" then Draft.anonymous else t.identifier

/-- A template whose native name is made of identifiers keeps it. -/
theorem key_of_identifiers {t : NativeTemplate}
    (hscope : ∀ ns ∈ t.scope, ∀ s ∈ Name.segments ns.toList, Name.identifier s = s)
    (hname : Name.identifier t.name.toList = t.name.toList) (hne : t.name ≠ "_") :
    t.key = ⟨t.scope, t.name⟩ := by
  have hident : t.identifier = t.name := by
    rw [identifier, hname, String.ofList_toList]
  have hpath {ns : String} (hns : ns ∈ t.scope) : Draft.scopePath ns.toList = ns := by
    have hsegments : (Name.segments ns.toList).map (fun s => Name.identifier s) =
        Name.segments ns.toList :=
      (List.map_congr_left (hscope ns hns)).trans (List.map_id _)
    refine String.toList_injective ?_
    rw [Draft.scopePath, String.toList_intercalate, List.map_map]
    simp only [Function.comp_def, String.toList_ofList, hsegments]
    exact Name.intercalate_segments ns.toList
  rw [key, hident, if_neg hne]
  congr 1
  cases hs : t.scope with
  | none => rfl
  | some ns => rw [Option.map_some, hpath hs]

end NativeTemplate

/-- A class is named after its native name, with or without an argument list. -/
theorem UserType.key_template_identity {u : UserType} {r : SymbolRecord} {isTemplate : Bool}
    (h : u.head = Draft.unfilled r isTemplate) (args : List String) :
    (u.identity args).template.key = ⟨u.scope, u.name⟩ := by
  have hname : u.head.name = (Draft.unfilled r isTemplate).name := congrArg UserType.name h
  have hscope : u.head.scope = (Draft.unfilled r isTemplate).scope := congrArg UserType.scope h
  have hnative : u.nativeName = r.name := congrArg UserType.nativeName h
  have htemplate : u.isTemplate = isTemplate := congrArg UserType.isTemplate h
  change _ = TemplateKey.mk u.head.scope u.head.name
  rw [hname, hscope]
  simp [UserType.identity, hnative, htemplate, Identity.template, NativeTemplate.key,
    NativeTemplate.identifier, Draft.unfilled, Function.comp_def]

namespace Plan

variable {built : Options} {records : List SymbolRecord} {g : TypeGraph} {w : Diagnostics}

/-- The family of an instantiation is named after its native template. -/
theorem exists_templateOf? (h : TypeGraph.ofRecords built records = .ok (g, w)) {id : NodeId}
    (hid : id ∈ g.instantiations) :
    ∃ t, g.templateOf? id = some t ∧ keyOf? g id = some t.key := by
  obtain ⟨d, -, -, hs, hf⟩ := TypeGraph.exists_finishes h
  obtain ⟨hclass, htemplate⟩ := List.mem_filter.1 hid
  obtain ⟨r, -, -, -, ⟨u, -, hn, -⟩ | ⟨l, args, u, -, hn, -, -, hu, hhead⟩⟩ :=
    hs.class_cases (hf.mem_classes.1 hclass).1
  · obtain ⟨v, hv, -⟩ := hf.user (Arena.user?_of_node? hn)
    rw [Arena.node?_user hv] at htemplate
    cases htemplate
  · obtain ⟨v, hv, hvhead, -⟩ := hf.user hu
    have hnode := hf.node hn rfl
    have hlayout : g.arena.layout? id = some l := by
      rw [hf.layout hclass, Arena.layout?, hn]
    have hl : d.arena.standIn d.classes l = l := by
      rw [Arena.layout?, hnode] at hlayout
      exact Option.some.inj hlayout
    have hidentity : g.arena.identity? id =
        some (v.identity ((args.map (d.arena.standIn d.classes)).map g.arena.native)) := by
      simp [Arena.identity?, hnode, Node.mapLinks, hl, hv]
    have hkey : keyOf? g id = some ⟨v.scope, v.name⟩ := by
      simp [keyOf?, TypeGraph.layoutType?, Arena.layoutType?, hlayout, hv]
    refine ⟨_, by rw [TypeGraph.templateOf?, hidentity, Option.map_some], ?_⟩
    rw [hkey, UserType.key_template_identity (hvhead.trans hhead)]

variable (options : Options)

/-- A family holds the instantiations of the native templates that are named like it. -/
theorem mem_instantiations_iff (h : TypeGraph.ofRecords built records = .ok (g, w)) {F : Family}
    (hF : F ∈ (ofGraph options g).1.families) {id : NodeId} :
    id ∈ F.instantiations ↔
      id ∈ g.instantiations ∧ ∃ t, g.templateOf? id = some t ∧ t.key = F.key := by
  refine ((groups_grouped g).mem_iff (group_mem_grouped hF) id).trans
    (and_congr_right fun hid => ?_)
  obtain ⟨t, ht, hkey⟩ := exists_templateOf? h hid
  rw [hkey, ht]
  simp [group]

/-- The families of a graph follow its native templates exactly if no two of these are named
alike. -/
theorem ofGraph_sameTemplate_iff (h : TypeGraph.ofRecords built records = .ok (g, w)) :
    (∀ F ∈ (ofGraph options g).1.families, ∀ x ∈ F.instantiations, ∀ y ∈ F.instantiations,
      g.templateOf? x = g.templateOf? y) ↔
      ∀ x ∈ g.instantiations, ∀ y ∈ g.instantiations, ∀ t ∈ g.templateOf? x,
        ∀ t' ∈ g.templateOf? y, t.key = t'.key → t = t' := by
  constructor
  · intro hsame x hx y hy t ht t' ht' hkey
    obtain ⟨t₁, ht₁, hkey₁⟩ := exists_templateOf? h hx
    obtain rfl := Option.some.inj (ht₁.symm.trans ht)
    obtain ⟨x', hx', hkey'⟩ := List.mem_map.1 ((groups_grouped g).exists_mem x hx _ hkey₁)
    rw [← group_families options] at hx'
    obtain ⟨F, hF, rfl⟩ := List.mem_map.1 hx'
    have hxF := (mem_instantiations_iff options h hF).2 ⟨hx, _, ht, hkey'.symm⟩
    have hyF := (mem_instantiations_iff options h hF).2 ⟨hy, t', ht', hkey.symm.trans hkey'.symm⟩
    have heq := hsame F hF x hxF y hyF
    rw [show _ = _ from ht, show _ = _ from ht'] at heq
    exact Option.some.inj heq
  · intro hinj F hF x hx y hy
    obtain ⟨hx, t, ht, hkey⟩ := (mem_instantiations_iff options h hF).1 hx
    obtain ⟨hy, t', ht', hkey'⟩ := (mem_instantiations_iff options h hF).1 hy
    rw [ht, ht', hinj x hx y hy t ht t' ht' (hkey.trans hkey'.symm)]

/-- Templates of one name in two namespaces. -/
def twoBoxes : List SymbolRecord :=
  [.ofPrimitive ⟨1⟩ "int" 4,
    .ofPrimitive ⟨2⟩ "char" 1,
    .ofInstantiation ⟨3⟩ "red::Box<int>" 8 [⟨1⟩],
    .ofInstantiation ⟨4⟩ "blue::Box<int>" 8 [⟨1⟩],
    .ofInstantiation ⟨5⟩ "red::Box<char>" 8 [⟨2⟩]]

/-- They are told apart. -/
theorem twoBoxes_sameTemplate : ∃ g w, TypeGraph.ofRecords {} twoBoxes = .ok (g, w) ∧
    g.instantiations.length = 3 ∧ ∀ F ∈ (ofGraph {} g).1.families, ∀ x ∈ F.instantiations,
      ∀ y ∈ F.instantiations, g.templateOf? x = g.templateOf? y := by
  obtain ⟨g, w, h, hlength, hapart⟩ : ∃ g w, TypeGraph.ofRecords {} twoBoxes = .ok (g, w) ∧
      g.instantiations.length = 3 ∧ ∀ x ∈ g.instantiations, ∀ y ∈ g.instantiations,
        ∀ t ∈ g.templateOf? x, ∀ t' ∈ g.templateOf? y, t.key = t'.key → t = t' :=
    TypeGraph.exists_ofRecords_and (by decide +kernel)
  exact ⟨g, w, h, hlength, (ofGraph_sameTemplate_iff {} h).2 hapart⟩

/-- Two templates whose names differ in an underscore. -/
def underscored : List SymbolRecord :=
  [.ofPrimitive ⟨1⟩ "int" 4,
    .ofInstantiation ⟨2⟩ "Vec<int>" 8 [⟨1⟩],
    .ofInstantiation ⟨3⟩ "_Vec<int>" 8 [⟨1⟩]]

/-- One generic declaration covers both. -/
theorem underscored_shared : ∃ g w, TypeGraph.ofRecords {} underscored = .ok (g, w) ∧
    ∃ F ∈ (ofGraph {} g).1.families, F.policy.isGeneric = true ∧
      ∃ x ∈ F.instantiations, ∃ y ∈ F.instantiations,
        g.templateOf? x = some ⟨none, "Vec"⟩ ∧ g.templateOf? y = some ⟨none, "_Vec"⟩ :=
  TypeGraph.exists_ofRecords_and (by decide +kernel)

end Plan

end NativeBindings
