import NativeBindings.Proofs.Declaration.StructText
import NativeBindings.Proofs.Declaration.Written

/-!
# References are well-formed

A reference in a declaration is made of scalars, pointers, arrays, the parameters of the
declaration and the paths of declarations with as many arguments as these have parameters
(`Catalog.WellFormed`). Nothing else is ever written: no type without a declaration, no scheme
without a spelling, no family without a path (`Bindings.ofRecords_references`). The text of a
declaration has these references in its attribute and in the lines of its members
(`Catalog.Declaring.writtenAs_text`).

A reference can only be written if reading its type comes to an end. So the references of a
declaration are well-formed exactly if all of them do (`Catalog.Declaring.wellFormed_iff`), and
where spelling ends they always do (`Catalog.Declaring.ends`).
-/

namespace NativeBindings

/-! ## What a declaration refers to -/

namespace Scheme

mutual

/-- The nodes that a scheme names. -/
def nodes : Scheme → List NodeId
  | concrete id _ => [id]
  | pointer s | array s => s.nodes
  | template _ ss => nodesOfAll ss
  | unspelled | param _ => []

/-- The nodes that several schemes name. -/
def nodesOfAll : List Scheme → List NodeId
  | [] => []
  | s :: ss => s.nodes ++ nodesOfAll ss

end

theorem mem_nodesOfAll {x : NodeId} {ss : List Scheme} :
    x ∈ nodesOfAll ss ↔ ∃ s ∈ ss, x ∈ s.nodes := by
  induction ss with
  | nil => simp [nodesOfAll]
  | cons s ss ih => simp [nodesOfAll, ih]

mutual

theorem Spelled.exists_named {named : NodeId → String → Prop} : ∀ {s : Scheme} {x : NodeId},
    s.Spelled named → x ∈ s.nodes → ∃ name, named x name
  | .unspelled, _, h, _ => h.elim
  | .param _, _, _, hx => absurd hx List.not_mem_nil
  | .concrete id name, x, h, hx => by
    obtain rfl := List.mem_singleton.1 hx
    exact ⟨name, h⟩
  | .pointer s, _, h, hx => Spelled.exists_named (s := s) h hx
  | .array s, _, h, hx => Spelled.exists_named (s := s) h hx
  | .template _ ss, _, h, hx => AllSpelled.exists_named (s := ss) h hx

theorem AllSpelled.exists_named {named : NodeId → String → Prop} : ∀ {s : List Scheme}
    {x : NodeId}, AllSpelled named s → x ∈ nodesOfAll s → ∃ name, named x name
  | [], _, _, hx => absurd hx List.not_mem_nil
  | s :: ss, x, h, hx => by
    rcases List.mem_append.1 hx with hx | hx
    · exact Spelled.exists_named h.1 hx
    · exact AllSpelled.exists_named h.2 hx

end

end Scheme

namespace Catalog

/-- The nodes whose references a declaration is made of. -/
def reads (c : Catalog) : Subject → List NodeId
  | .user x | .specialized x =>
    match c.graph.layoutType? x with
    | some u => u.parts
    | none => []
  | .generic f =>
    match c.planned.plan.layout? f with
    | some l => Scheme.nodesOfAll l.schemes
    | none => []

/-- Whether all references of a declaration can be read. -/
def Ends (c : Catalog) (s : Subject) : Prop :=
  ∀ x ∈ c.reads s, ∃ t, c.ref? x = some t

/-! ## Well-formed references -/

/-- Whether there is a declaration with a path and so many parameters, if it has any. -/
def Declares (c : Catalog) (documented : Bool) (path : String) (arity : Option Nat) : Prop :=
  ∃ (n : Nat) (s : Subject) (name : DeclaredName) (t : Struct),
    c.subjects[n]? = some s ∧ c.names[n]? = some name ∧
      c.struct? documented name.ident s = some t ∧ name.path = path ∧ t.arity = arity

/-- References that may stand in a declaration with so many parameters. -/
inductive WellFormed (c : Catalog) (documented : Bool) (arity : Nat) : TypeRef → Prop
  | scalar {x : NodeId} {native : String}
    (h : c.graph.arena.node? x = some (.primitive native)) :
    WellFormed c documented arity (.scalar (Scalar.render native))
  | param {i : Nat} (h : i < arity) : WellFormed c documented arity (.param i)
  | pointer {t : TypeRef} (h : WellFormed c documented arity t) :
    WellFormed c documented arity (.pointer t)
  | array {t : TypeRef} (h : WellFormed c documented arity t) :
    WellFormed c documented arity (.array t)
  | declared {path : String} (h : c.Declares documented path none) :
    WellFormed c documented arity (.declared path)
  | applied {path : String} {args : List TypeRef}
    (h : c.Declares documented path (some args.length))
    (hargs : ∀ t ∈ args, WellFormed c documented arity t) :
    WellFormed c documented arity (.applied path args)

section

variable {c : Catalog} {documented : Bool} {arity : Nat} {t : TypeRef}

theorem wellFormed_pointer_iff :
    c.WellFormed documented arity (.pointer t) ↔ c.WellFormed documented arity t :=
  ⟨fun | .pointer h => h, .pointer⟩

theorem wellFormed_array_iff :
    c.WellFormed documented arity (.array t) ↔ c.WellFormed documented arity t :=
  ⟨fun | .array h => h, .array⟩

theorem wellFormed_applied_iff {path : String} {args : List TypeRef}
    (h : c.Declares documented path (some args.length)) :
    c.WellFormed documented arity (.applied path args) ↔
      ∀ t ∈ args, c.WellFormed documented arity t :=
  ⟨fun | .applied _ hargs => hargs, .applied h⟩

end

variable {options : Options} {g : TypeGraph} {documented : Bool}

/-- The struct by which a subject declares a class. -/
inductive Declaring (c : Catalog) (documented : Bool) (ident : String) (x : NodeId) :
    Subject → Struct → Prop
  | concrete {s : Subject} {u : UserType} {anyCase : Bool} (hs : s.isGeneric = false)
    (hu : c.graph.layoutType? x = some u) (hreads : c.reads s = u.parts) :
    Declaring c documented ident x s (c.concreteStruct documented ident anyCase u)
  | generic {f : Nat} {l : SharedLayout} (hf : c.planned.plan.familyOf? x = some f)
    (hl : c.planned.plan.layout? f = some l) :
    Declaring c documented ident x (.generic f) (c.genericStruct documented ident f l)

/-- Every subject of a tidy graph has a struct. -/
theorem exists_declaring_of_tidy {c : Catalog} (hg : c.graph.Tidy) {x : NodeId} {s : Subject}
    (hs : c.planned.subjectOf? x = some s) (documented : Bool) (ident : String) :
    ∃ t, c.struct? documented ident s = some t ∧ c.Declaring documented ident x s t := by
  rcases PlannedGraph.subjectOf?_cases hs with
    ⟨rfl, u, hx⟩ | ⟨k, args, hx, ⟨rfl, -⟩ | ⟨f, l, rfl, hf, hl⟩⟩
  · have hu : c.graph.arena.user? x = some u := Arena.user?_of_node? hx
    have hlayout : c.graph.layoutType? x = some u := TypeGraph.layoutType?_user hx
    refine ⟨_, Option.map_eq_some_iff.2 ⟨u, hu, rfl⟩, .concrete rfl hlayout ?_⟩
    rw [reads, hlayout]
  · obtain ⟨u, hu⟩ := hg.closed.layout hx
    have hlayout : c.graph.layoutType? x = some u :=
      TypeGraph.Instantiates.layoutType? ⟨k, hx, hu⟩
    refine ⟨_, Option.map_eq_some_iff.2 ⟨u, hlayout, rfl⟩, .concrete rfl hlayout ?_⟩
    rw [reads, hlayout]
  · exact ⟨_, Option.map_eq_some_iff.2 ⟨l, hl, rfl⟩, .generic hf hl⟩

theorem exists_declaring (hg : g.Tidy) {x : NodeId} {s : Subject}
    (hs : (g.planned options).subjectOf? x = some s) (ident : String) :
    ∃ t, (g.catalog options).struct? documented ident s = some t ∧
      (g.catalog options).Declaring documented ident x s t :=
  exists_declaring_of_tidy (c := g.catalog options) hg hs documented ident

/-- The declaration of a kept class has the path that references to the class use. -/
theorem declares (documented : Bool) {x : NodeId} {s : Subject} {n : Nat} (hg : g.Tidy)
    (hs : (g.planned options).subjectOf? x = some s)
    (hn : (g.catalog options).subjects[n]? = some s) :
    ∃ ident t, (g.catalog options).Declaring documented ident x s t ∧
      (g.catalog options).Declares documented ((g.catalog options).path n) t.arity := by
  obtain ⟨name, hname, hpath⟩ := exists_name hn
  obtain ⟨t, ht, hdeclaring⟩ := exists_declaring hg hs name.ident
  exact ⟨name.ident, t, hdeclaring, n, s, name, t, hn, hname, ht, hpath.symm, rfl⟩

/-- A generic declaration has as many parameters as an instantiation that it covers has
arguments, and writes each of its schemes for a part of the instantiation. -/
theorem exists_writes (hg : g.Tidy) {x : NodeId} {f : Nat} {l : SharedLayout}
    (hf : (g.planned options).plan.familyOf? x = some f)
    (hl : (g.planned options).plan.layout? f = some l) :
    ∃ k args, g.arena.node? x = some (.template k args) ∧ args.length = l.arity ∧
      ∀ s ∈ l.schemes, ∃ y, Writes (g.planned options) args s y := by
  obtain ⟨F, hF, hx⟩ := Plan.familyOf?_eq_some_iff.1 hf
  obtain ⟨F', hF', hpolicy⟩ := Plan.exists_family_of_layout? hl
  obtain rfl := Option.some.inj (hF.symm.trans hF')
  obtain ⟨-, args, u, hu⟩ := Plan.exists_instantiates (List.mem_of_getElem? hF) hx
  obtain ⟨hlen, hparts⟩ := writes_parts hg (List.mem_of_getElem? hF) hpolicy hx hu
  obtain ⟨k, hn, -⟩ := hu
  refine ⟨k, args, hn, hlen, fun s hs => ?_⟩
  obtain ⟨i, hi, rfl⟩ := List.mem_iff_getElem.1 hs
  exact ⟨_, hparts.get hi (hparts.length_eq ▸ hi)⟩

theorem length_args (hg : g.Tidy) {x : NodeId} {f : Nat} {l : SharedLayout}
    (hf : (g.planned options).plan.familyOf? x = some f)
    (hl : (g.planned options).plan.layout? f = some l) {k : NodeId} {args : List NodeId}
    (hn : g.arena.node? x = some (.template k args)) : args.length = l.arity := by
  obtain ⟨_, _, hn', hlen, -⟩ := exists_writes hg hf hl
  obtain ⟨-, rfl⟩ := Node.template.inj (Option.some.inj (hn.symm.trans hn'))
  exact hlen

/-- A class that is proper is covered by a declaration, which has the path that references to it
use. -/
theorem exists_declares (options : Options) (documented : Bool) (hg : g.Tidy) {x : NodeId}
    {n : Node} (hx : g.Proper x) (hn : g.arena.node? x = some n) (hclass : n.isClass = true) :
    ∃ m s ident t, (g.catalog options).coveredBy? x = some m ∧
      (g.catalog options).isGeneric m = s.isGeneric ∧
      (g.catalog options).Declaring documented ident x s t ∧
      (g.catalog options).Declares documented ((g.catalog options).path m) t.arity := by
  obtain ⟨u, hu⟩ := hg.exists_layoutType? hn hclass
  obtain ⟨s, hs⟩ := PlannedGraph.exists_subjectOf? (p := g.planned options) hu
  obtain ⟨m, hm, hsubject⟩ := exists_coveredBy? (hx.mem_classes hn hclass) hs
  obtain ⟨ident, t, hdeclaring, hdeclares⟩ := declares documented hg hs hsubject
  refine ⟨m, s, ident, t, hm, ?_, hdeclaring, hdeclares⟩
  rw [isGeneric, hsubject]
  rfl

/-- What refers to a proper node is well-formed in every declaration. -/
theorem Refers.wellFormed (hg : g.Tidy) (arity : Nat) {x : NodeId} {t : TypeRef}
    (h : (g.catalog options).Refers x t) (hx : g.Proper x) :
    (g.catalog options).WellFormed documented arity t := by
  have hlink {x y : NodeId} {n : Node} (hn : g.arena.node? x = some n)
      (hy : y ∈ n.spellingLinks) : g.Proper y :=
    hg.proper_spells (Arena.spells_iff.2 ⟨n, hn, hy⟩)
  induction h with
  | scalar hn => exact .scalar hn
  | pointer hn _ ih => exact .pointer (ih (hlink hn (by simp [Node.spellingLinks])))
  | array hn _ ih => exact .array (ih (hlink hn (by simp [Node.spellingLinks])))
  | enumeration hn _ ih => exact ih (hlink hn (by simp [Node.spellingLinks]))
  | user hn hcovered =>
    obtain ⟨m, s, ident, t, hm, -, hdeclaring, hdeclares⟩ :=
      exists_declares options documented hg hx hn rfl
    obtain rfl := Option.some.inj (hcovered.symm.trans hm)
    cases hdeclaring with
    | concrete => exact .declared hdeclares
    | generic hf hl =>
      obtain ⟨_, _, hn', -⟩ := exists_writes hg hf hl
      cases hn.symm.trans hn'
  | special hn hcovered hspecial =>
    obtain ⟨m, s, ident, t, hm, hgeneric, hdeclaring, hdeclares⟩ :=
      exists_declares options documented hg hx hn rfl
    obtain rfl := Option.some.inj (hcovered.symm.trans hm)
    cases hdeclaring with
    | concrete => exact .declared hdeclares
    | generic => cases hspecial.symm.trans hgeneric
  | @generic x l args _ ts hn hcovered hcatalog hlen _ ih =>
    obtain ⟨m, s, ident, t, hm, hgeneric, hdeclaring, hdeclares⟩ :=
      exists_declares options documented hg hx hn rfl
    obtain rfl := Option.some.inj (hcovered.symm.trans hm)
    cases hdeclaring with
    | concrete hspecial => cases hcatalog.symm.trans (hgeneric.trans hspecial)
    | generic hf hl =>
      refine .applied (hlen.symm.trans (length_args hg hf hl hn) ▸ hdeclares) fun t ht => ?_
      obtain ⟨y, hmem⟩ := exists_zip_of_mem_right hlen ht
      exact ih _ hmem (hlink hn (List.of_mem_zip hmem).1)
  | uncovered hn hclass hnone =>
    obtain ⟨m, -, -, -, hm, -⟩ := exists_declares options documented hg hx hn hclass
    cases hnone.symm.trans hm
  | placeholder hn => cases hg.placed hn

/-- A reference is well-formed if it can be read, and otherwise it is foreign. -/
theorem wellFormed_refTo_iff (hg : g.Tidy) (arity : Nat) {x : NodeId} (hx : g.Proper x) :
    (g.catalog options).WellFormed documented arity ((g.catalog options).refTo x) ↔
      ∃ t, (g.catalog options).ref? x = some t := by
  constructor
  · intro h
    refine Option.ne_none_iff_exists'.1 fun hnone => ?_
    rw [refTo, show (g.catalog options).graph.arena.read? _ x = none from hnone] at h
    cases h
  · rintro ⟨t, ht⟩
    rw [refTo_eq ht]
    exact (refers_of_readWithin ht).wellFormed hg arity hx

mutual

/-- What a generic declaration may write is well-formed in it if the nodes that it names can be
read. -/
theorem wellFormed_spelled_iff (hg : g.Tidy) {args : List NodeId} : ∀ (s : Scheme) {x : NodeId},
    Writes (g.planned options) args s x →
      ((g.catalog options).WellFormed documented args.length ((g.catalog options).spelled s) ↔
        ∀ y ∈ s.nodes, ∃ t, (g.catalog options).ref? y = some t)
  | .unspelled, _, h => h.fits.elim
  | .param i, _, h => by
    obtain ⟨hi, -⟩ := List.getElem?_eq_some_iff.1 h.fits
    rw [List.length_map] at hi
    exact iff_of_true (.param hi) fun _ hy => absurd hy List.not_mem_nil
  | .concrete id name, _, h => by
    rw [spelled, wellFormed_refTo_iff hg args.length h.spelled.1, Scheme.nodes,
      List.forall_mem_singleton]
  | .pointer s, _, h => by
    obtain ⟨y, -, hs⟩ := h.pointer
    rw [spelled, wellFormed_pointer_iff, wellFormed_spelled_iff hg s hs, Scheme.nodes]
  | .array s, _, h => by
    obtain ⟨y, -, hs⟩ := h.array
    rw [spelled, wellFormed_array_iff, wellFormed_spelled_iff hg s hs, Scheme.nodes]
  | .template f ss, x, h => by
    obtain ⟨k, xs, hn, hfamily, hss⟩ := h.template
    obtain ⟨F, hF, hx⟩ := Plan.familyOf?_eq_some_iff.1 hfamily
    obtain ⟨l, hl⟩ := Plan.exists_generic_of_isGeneric (h.families f List.mem_cons_self F hF)
    obtain ⟨n, hsubject, hpath, -⟩ := exists_numberOf?_generic hF hl
    obtain ⟨_, _, hdeclaring, hdeclares⟩ :=
      declares documented hg (subjectOf?_instantiation hF hl hx) hsubject
    cases hdeclaring with
    | concrete hspecial => cases hspecial
    | @generic _ l' hf hl' =>
      have hlen : ((g.catalog options).spelledAll ss).length = l'.arity := by
        rw [spelledAll_eq_map, List.length_map, hss.length_eq, length_args hg hf hl' hn]
      rw [spelled, hpath, wellFormed_applied_iff (hlen ▸ hdeclares),
        wellFormed_spelledAll_iff hg ss hss, Scheme.nodes]

/-- The same for rows of schemes. -/
theorem wellFormed_spelledAll_iff (hg : g.Tidy) {args : List NodeId} :
    ∀ (ss : List Scheme) {xs : List NodeId},
      List.Forall₂ (Writes (g.planned options) args) ss xs →
        ((∀ t ∈ (g.catalog options).spelledAll ss,
            (g.catalog options).WellFormed documented args.length t) ↔
          ∀ y ∈ Scheme.nodesOfAll ss, ∃ t, (g.catalog options).ref? y = some t)
  | [], _, _ => iff_of_true (fun _ ht => absurd ht List.not_mem_nil)
      fun _ hy => absurd hy List.not_mem_nil
  | s :: ss, _, .cons hs hss => by
    rw [spelledAll, List.forall_mem_cons, wellFormed_spelled_iff hg s hs,
      wellFormed_spelledAll_iff hg ss hss, Scheme.nodesOfAll, List.forall_mem_append]

end

/-! ## Texts -/

/-- What refers to a node has no parameters, so it is written alike with any texts for them. -/
theorem Refers.writtenAs {c : Catalog} (params : List String) (arity : Nat) {x : NodeId}
    {t : TypeRef} (h : c.Refers x t) : t.WrittenAs params (t.text arity) := by
  induction h with
  | scalar => exact .scalar
  | pointer _ _ ih => exact .pointer ih
  | array _ _ ih => exact .array ih
  | enumeration _ _ ih => exact ih
  | user | special => exact .declared
  | generic _ _ _ hlen _ ih =>
    refine TypeRef.writtenAs_applied fun t ht => ?_
    obtain ⟨y, hmem⟩ := exists_zip_of_mem_right hlen ht
    exact ih _ hmem
  | uncovered | placeholder => exact .foreign

/-- So is every reference. -/
theorem writtenAs_refTo (c : Catalog) (params : List String) (arity : Nat) (x : NodeId) :
    (c.refTo x).WrittenAs params ((c.refTo x).text arity) := by
  obtain h | h := c.refTo_cases x
  · exact h.writtenAs params arity
  · rw [h]
    exact .foreign

mutual

/-- What a generic declaration may write stays within the parameters, as many as the arguments of
an instantiation. -/
theorem exists_writtenAs_spelled {p : PlannedGraph} {args : List NodeId} (c : Catalog)
    {params : List String} (hlen : args.length = params.length) : ∀ (s : Scheme) {x : NodeId},
      Writes p args s x → ∃ text, (c.spelled s).WrittenAs params text
  | .unspelled, _, h => h.fits.elim
  | .param i, _, h => by
    obtain ⟨hi, -⟩ := List.getElem?_eq_some_iff.1 h.fits
    rw [List.length_map, hlen] at hi
    exact ⟨_, .param (List.getElem?_eq_getElem hi)⟩
  | .concrete id name, _, _ => ⟨_, writtenAs_refTo c params 0 id⟩
  | .pointer s, _, h => by
    obtain ⟨y, -, hs⟩ := h.pointer
    obtain ⟨text, htext⟩ := exists_writtenAs_spelled c hlen s hs
    exact ⟨_, .pointer htext⟩
  | .array s, _, h => by
    obtain ⟨y, -, hs⟩ := h.array
    obtain ⟨text, htext⟩ := exists_writtenAs_spelled c hlen s hs
    exact ⟨_, .array htext⟩
  | .template f ss, _, h => by
    obtain ⟨k, xs, -, -, hss⟩ := h.template
    obtain ⟨texts, htexts⟩ := exists_writtenAs_spelledAll c hlen ss hss
    exact ⟨_, TypeRef.writtenAs_applied_iff.2 ⟨texts, htexts, rfl⟩⟩

/-- The same for rows of schemes. -/
theorem exists_writtenAs_spelledAll {p : PlannedGraph} {args : List NodeId} (c : Catalog)
    {params : List String} (hlen : args.length = params.length) :
    ∀ (ss : List Scheme) {xs : List NodeId}, List.Forall₂ (Writes p args) ss xs →
      ∃ texts, List.Forall₂ (TypeRef.WrittenAs params) (c.spelledAll ss) texts
  | [], _, _ => ⟨[], .nil⟩
  | s :: ss, _, .cons hs hss => by
    obtain ⟨text, htext⟩ := exists_writtenAs_spelled c hlen s hs
    obtain ⟨texts, htexts⟩ := exists_writtenAs_spelledAll c hlen ss hss
    exact ⟨text :: texts, .cons htext htexts⟩

end

/-! ## Declarations -/

theorem length_nameFields (taken natives : List String) :
    (nameFields taken natives).length = natives.length := by
  induction natives generalizing taken with
  | nil => rfl
  | cons native natives ih => rw [nameFields, List.length_cons, ih, List.length_cons]

/-- Under whatever names, fields refer to what their kinds refer to. -/
theorem flatMap_references {α : Type} (fields : List α) {names : List String}
    (hlen : fields.length ≤ names.length) (kind : α → MemberKind) {ref : α → TypeRef}
    (hkind : ∀ f, (kind f).references = [ref f]) :
    ((names.zip fields).map fun x => (⟨x.1, kind x.2⟩ : Member)).flatMap (·.kind.references) =
      fields.map ref := by
  calc
    _ = (names.zip fields).map (ref ∘ Prod.snd) := by
      simp only [List.flatMap_map, hkind, ← List.map_eq_flatMap]
      rfl
    _ = fields.map ref := by rw [← List.map_map, List.map_snd_zip hlen]

/-- A class refers to its parts. -/
theorem references_concreteStruct (c : Catalog) (documented : Bool) (ident : String)
    (anyCase : Bool) (u : UserType) :
    (c.concreteStruct documented ident anyCase u).references = u.parts.map c.refTo := by
  have hlen : u.fields.length ≤ (nameFields [] (u.fields.map (·.name))).length := by
    rw [length_nameFields, List.length_map]
  have hfields := flatMap_references u.fields hlen
    (fun f => .field (some f.offset) (c.refTo f.type) (c.enumAt? f.type)) fun _ => rfl
  rw [Struct.references, UserType.parts, List.map_append, List.map_map]
  exact congrArg (· ++ _) hfields

/-- A generic declaration refers to what its schemes spell. Its marker refers to nothing. -/
theorem references_genericStruct (c : Catalog) (documented : Bool) (ident : String) (f : Nat)
    (l : SharedLayout) :
    (c.genericStruct documented ident f l).references = l.schemes.map c.spelled := by
  have hlen : l.fields.length ≤ (nameFields [] (l.fields.map (·.name))).length := by
    rw [length_nameFields, List.length_map]
  have hnamed := flatMap_references l.fields hlen c.genericKind fun _ => rfl
  have hfields : (c.genericMembers l).flatMap (·.kind.references) =
      l.fields.map fun f => c.spelled f.pattern.scheme := by
    unfold genericMembers
    split
    · exact hnamed
    · exact (List.flatMap_append ..).trans ((List.append_nil _).trans hnamed)
  rw [Struct.references, SharedLayout.schemes, List.map_append, List.map_map, List.map_map]
  exact congrArg (· ++ _) hfields

namespace Declaring

variable {ident : String} {x : NodeId} {s : Subject} {t : Struct}

/-- The nodes that a declaration refers to are proper. -/
theorem proper (h : (g.catalog options).Declaring documented ident x s t) (hg : g.Tidy)
    (hx : x ∈ g.classes) {y : NodeId} (hy : y ∈ (g.catalog options).reads s) : g.Proper y := by
  cases h with
  | concrete _ hu hreads =>
    rw [hreads] at hy
    exact hg.proper_parts hx hu y hy
  | @generic f l hf hl =>
    rw [reads, hl] at hy
    obtain ⟨e, he, hy⟩ := Scheme.mem_nodesOfAll.1 hy
    obtain ⟨-, _, -, -, hwrites⟩ := exists_writes hg hf hl
    obtain ⟨z, hz⟩ := hwrites e he
    obtain ⟨_, hy, -⟩ := hz.spelled.exists_named hy
    exact hy

/-- Where spelling ends, everything that a declaration refers to can be read. -/
theorem ends (h : (g.catalog options).Declaring documented ident x s t) (hg : g.Tidy)
    (hx : x ∈ g.classes) (hends : g.arena.SpellingEnds) : (g.catalog options).Ends s :=
  fun _ hy => exists_ref? hg hends (h.proper hg hx hy)

/-- The references of a declaration are well-formed if and only if they can all be read. -/
theorem wellFormed_iff (h : (g.catalog options).Declaring documented ident x s t) (hg : g.Tidy)
    (hx : x ∈ g.classes) :
    (∀ r ∈ t.references, (g.catalog options).WellFormed documented t.params r) ↔
      (g.catalog options).Ends s := by
  have hproper {y : NodeId} := h.proper hg hx (y := y)
  cases h with
  | @concrete _ u _ _ _ hreads =>
    rw [references_concreteStruct, List.forall_mem_map, Ends, hreads]
    rw [hreads] at hproper
    exact forall₂_congr fun y hy => wellFormed_refTo_iff hg _ (hproper hy)
  | @generic f l hf hl =>
    obtain ⟨_, args, -, hlen, hwrites⟩ := exists_writes hg hf hl
    have hends : (g.catalog options).Ends (.generic f) ↔
        ∀ e ∈ l.schemes, ∀ y ∈ e.nodes, ∃ t, (g.catalog options).ref? y = some t := by
      simp only [Ends, reads, hl, Scheme.mem_nodesOfAll]
      exact ⟨fun h e he y hy => h y ⟨e, he, hy⟩, fun h y ⟨e, he, hy⟩ => h e he y hy⟩
    rw [references_genericStruct, List.forall_mem_map, hends]
    refine forall₂_congr fun e he => ?_
    obtain ⟨y, hy⟩ := hwrites e he
    have hwf : (g.catalog options).WellFormed documented args.length _ ↔ _ :=
      wellFormed_spelled_iff hg e hy
    rwa [hlen] at hwf

/-- The struct of a declaration is written with all its references. -/
theorem writtenAs_text (h : (g.catalog options).Declaring documented ident x s t) (hg : g.Tidy) :
    t.WrittenAs t.text := by
  refine Struct.writtenAs_text ?_
  cases h with
  | @concrete _ u _ _ _ _ =>
    rw [references_concreteStruct, List.forall_mem_map]
    exact fun y _ => ⟨_, writtenAs_refTo _ _ 0 y⟩
  | @generic f l hf hl =>
    obtain ⟨_, args, -, hlen, hwrites⟩ := exists_writes hg hf hl
    rw [references_genericStruct, List.forall_mem_map]
    intro e he
    obtain ⟨y, hy⟩ := hwrites e he
    exact exists_writtenAs_spelled _ (hlen.trans (TypeRef.length_paramNames _).symm) e hy

end Declaring

end Catalog

namespace Bindings

/-- Every declaration is written of the struct by which its subject declares a class. -/
theorem exists_structs {options : Options} {records : List SymbolRecord} {b : Bindings}
    (h : ofRecords options records = .ok b) :
    ∃ g w, TypeGraph.ofRecords options records = .ok (g, w) ∧
      b.declarations.Perm ((g.catalog options).entries.map fun x =>
        (g.catalog options).declaration options.documented x.1 x.2) ∧
      ∀ x ∈ (g.catalog options).entries, ∃ t,
        (g.catalog options).struct? options.documented x.2.ident x.1 = some t ∧
        ((g.catalog options).declaration options.documented x.1 x.2).text = t.text ∧
        ∃ id ∈ g.classes,
          (g.catalog options).Declaring options.documented x.2.ident id x.1 t := by
  obtain ⟨g, w, hgraph, hwritten⟩ := exists_of_ofRecords h
  have hg := TypeGraph.tidy_of_ofRecords hgraph
  refine ⟨g, w, hgraph, Catalog.declarations_perm hwritten, fun x hx => ?_⟩
  obtain ⟨id, hid, hs⟩ := PlannedGraph.mem_subjects_iff.1 (List.of_mem_zip hx).1
  obtain ⟨t, ht, hdeclaring⟩ := Catalog.exists_declaring hg hs x.2.ident
  refine ⟨t, ht, ?_, id, hid, hdeclaring⟩
  rw [Catalog.declaration, ht]

/-- Bindings are made of structs, one for each entry of a catalog. A declaration is the text of
its struct, with the references of the struct in the attribute and in the lines of the members,
and these references are well-formed unless reading one of them never ends. Where spelling ends
they always are. -/
theorem ofRecords_references {options : Options} {records : List SymbolRecord} {b : Bindings}
    (h : ofRecords options records = .ok b) :
    ∃ g w, TypeGraph.ofRecords options records = .ok (g, w) ∧
      b.declarations.Perm ((g.catalog options).entries.map fun x =>
        (g.catalog options).declaration options.documented x.1 x.2) ∧
      (∀ x ∈ (g.catalog options).entries, ∃ t,
        (g.catalog options).struct? options.documented x.2.ident x.1 = some t ∧
        t.WrittenAs ((g.catalog options).declaration options.documented x.1 x.2).text ∧
        ((∀ r ∈ t.references, (g.catalog options).WellFormed options.documented t.params r) ↔
          (g.catalog options).Ends x.1)) ∧
      (g.arena.SpellingEnds → ∀ x ∈ (g.catalog options).entries, (g.catalog options).Ends x.1) := by
  obtain ⟨g, w, hgraph, hperm, hstructs⟩ := exists_structs h
  have hg := TypeGraph.tidy_of_ofRecords hgraph
  refine ⟨g, w, hgraph, hperm, fun x hx => ?_, fun hends x hx => ?_⟩
  · obtain ⟨t, ht, htext, id, hid, hdeclaring⟩ := hstructs x hx
    refine ⟨t, ht, ?_, hdeclaring.wellFormed_iff hg hid⟩
    rw [htext]
    exact hdeclaring.writtenAs_text hg
  · obtain ⟨t, -, -, id, hid, hdeclaring⟩ := hstructs x hx
    exact hdeclaring.ends hg hid hends

/-- A template that is instantiated with a scalar and with a class, and a class with a pointer to
one of the instantiations. -/
def boxOwner : List SymbolRecord :=
  [.ofPrimitive ⟨1⟩ "int" 4,
    (SymbolRecord.ofUserType ⟨2⟩ "Owner" 8).addField "box" ⟨3⟩ 0,
    .ofPointer ⟨3⟩ (some ⟨4⟩) 8,
    (SymbolRecord.ofInstantiation ⟨4⟩ "Box<int>" 8 [⟨1⟩]).addField "value" ⟨1⟩ 0,
    (SymbolRecord.ofInstantiation ⟨5⟩ "Box<Owner>" 8 [⟨2⟩]).addField "value" ⟨2⟩ 0]

theorem exists_ofRecords_boxOwner : ∃ g w, TypeGraph.ofRecords {} boxOwner = .ok (g, w) ∧
    g.arena.loop? = none ∧ (g.catalog {}).subjects = [.user 3, .generic 0] ∧
    ∀ x ∈ (g.catalog {}).entries, ∀ t ∈ (g.catalog {}).struct? true x.2.ident x.1,
      t.references.length = 1 :=
  TypeGraph.exists_ofRecords_and (by decide +kernel)

/-- The class and the template are declared and written, each with one reference, which is
well-formed. -/
theorem boxOwner_references : ∃ b, ofRecords {} boxOwner = .ok b ∧
    ∃ g w, TypeGraph.ofRecords {} boxOwner = .ok (g, w) ∧ b.declarations.length = 2 ∧
      (g.catalog {}).subjects = [.user 3, .generic 0] ∧
      ∀ x ∈ (g.catalog {}).entries, ∃ t, (g.catalog {}).struct? true x.2.ident x.1 = some t ∧
        t.WrittenAs ((g.catalog {}).declaration true x.1 x.2).text ∧ t.references.length = 1 ∧
          ∀ r ∈ t.references, (g.catalog {}).WellFormed true t.params r := by
  obtain ⟨g, w, h, hloop, hsubjects, hlength⟩ := exists_ofRecords_boxOwner
  obtain ⟨b, hb⟩ : ∃ b, ofRecords {} boxOwner = .ok b := exists_eq_ok (by decide +kernel)
  obtain ⟨g', w', h', hperm, hwf, hends⟩ := ofRecords_references hb
  obtain ⟨rfl, rfl⟩ := Prod.mk.inj (Except.ok.inj (h.symm.trans h'))
  have hread := hends ((TypeGraph.tidy_of_ofRecords h).closed.spellingEnds_of_loop? hloop)
  refine ⟨b, hb, g, w, h, ?_, hsubjects, fun x hx => ?_⟩
  · rw [hperm.length_eq, List.length_map, Catalog.length_entries, hsubjects]
    rfl
  · obtain ⟨t, ht, htext, hrefs⟩ := hwf x hx
    exact ⟨t, ht, htext, hlength x hx t ht, hrefs.2 (hread x hx)⟩

end Bindings

end NativeBindings
