import NativeBindings.Proofs.Declaration.Circles
import NativeBindings.Proofs.Template.Families

/-!
# What covers a class

Every kept class is covered by a declaration that has a name, and all instantiations of a
generic family by the one of the family. So the reference to an instantiation of such a family
is the path of the family's declaration, applied to the references to the arguments
(`Catalog.ref?_instantiation`).

What is read of a node within some links, however many, is told by a relation without links to
count (`Catalog.Refers`, `Catalog.refers_of_readWithin`). All that holds of references is shown by
induction on it.

What a generic declaration writes describes each instantiation that it covers, and mentions no
family but generic ones (`Catalog.Writes`).
-/

namespace NativeBindings

/-- The named declarations of a graph. -/
def TypeGraph.catalog (g : TypeGraph) (options : Options) : Catalog :=
  (Catalog.ofPlanned (g.planned options) options.omitNamespaces).1

namespace Catalog

/-! ## References -/

section

variable {c : Catalog} {x : NodeId}

/-- The reference to a node's type, if reading it comes to an end. -/
def ref? (c : Catalog) (x : NodeId) : Option TypeRef :=
  c.graph.arena.read? c.reading x

theorem refTo_eq {t : TypeRef} (h : c.ref? x = some t) : c.refTo x = t := by
  rw [refTo, show c.graph.arena.read? c.reading x = some t from h, Option.getD_some]

/-- The reference to a node is read off the references to the nodes that it links to. -/
theorem ref?_eq {n : Node} (hn : c.graph.arena.node? x = some n) :
    c.ref? x = c.reading x n c.ref? := by
  rw [ref?, Arena.read?_eq c.reading_stable, hn, Option.bind_some]
  rfl

/-- Lists of one length are paired entry by entry. -/
theorem exists_zip_of_mem_right {α β : Type} {xs : List α} {ys : List β}
    (hlen : xs.length = ys.length) {y : β} (hy : y ∈ ys) : ∃ x, (x, y) ∈ xs.zip ys := by
  have hsnd : (xs.zip ys).map Prod.snd = ys := List.map_snd_zip hlen.ge
  obtain ⟨⟨x, _⟩, hmem, rfl⟩ := List.mem_map.1 (hsnd.symm ▸ hy)
  exact ⟨x, hmem⟩

/-- How a node is referred to, by what it is made of and by what covers it. -/
inductive Refers (c : Catalog) : NodeId → TypeRef → Prop
  | scalar {x : NodeId} {name : String} (hn : c.graph.arena.node? x = some (.primitive name)) :
    Refers c x (.scalar (Scalar.render name))
  | pointer {x y : NodeId} {t : TypeRef} (hn : c.graph.arena.node? x = some (.pointer y))
    (h : Refers c y t) : Refers c x (.pointer t)
  | array {x y : NodeId} {t : TypeRef} (hn : c.graph.arena.node? x = some (.array y))
    (h : Refers c y t) : Refers c x (.array t)
  | enumeration {x : NodeId} {e : EnumType} {t : TypeRef}
    (hn : c.graph.arena.node? x = some (.enumeration e)) (h : Refers c e.underlying t) :
    Refers c x t
  | user {x : NodeId} {u : UserType} {n : Nat} (hn : c.graph.arena.node? x = some (.user u))
    (hcovered : c.coveredBy? x = some n) : Refers c x (.declared (c.path n))
  | special {x l : NodeId} {args : List NodeId} {n : Nat}
    (hn : c.graph.arena.node? x = some (.template l args)) (hcovered : c.coveredBy? x = some n)
    (hspecial : c.isGeneric n = false) : Refers c x (.declared (c.path n))
  | generic {x l : NodeId} {args : List NodeId} {n : Nat} {ts : List TypeRef}
    (hn : c.graph.arena.node? x = some (.template l args)) (hcovered : c.coveredBy? x = some n)
    (hgeneric : c.isGeneric n = true) (hlen : args.length = ts.length)
    (h : ∀ p ∈ args.zip ts, Refers c p.1 p.2) : Refers c x (.applied (c.path n) ts)
  | uncovered {x : NodeId} {n : Node} (hn : c.graph.arena.node? x = some n)
    (hclass : n.isClass = true) (hnone : c.coveredBy? x = none) : Refers c x (c.foreign x)
  | placeholder {x : NodeId} {s : SymbolId}
    (hn : c.graph.arena.node? x = some (.placeholder s)) : Refers c x (c.foreign x)

/-- What is read of a node within any number of links refers to it. -/
theorem refers_of_readWithin {k : Nat} {t : TypeRef}
    (ht : c.graph.arena.readWithin c.reading k x = some t) : c.Refers x t := by
  induction k generalizing x t with
  | zero => cases ht
  | succ k ih =>
    rw [Arena.readWithin_succ, Option.bind_eq_some_iff] at ht
    obtain ⟨n, hn, ht⟩ := ht
    cases n with
    | primitive name =>
      obtain rfl := Option.some.inj ht
      exact .scalar hn
    | pointer y =>
      obtain ⟨t', ht', rfl⟩ := Option.map_eq_some_iff.1 ht
      exact .pointer hn (ih ht')
    | array y =>
      obtain ⟨t', ht', rfl⟩ := Option.map_eq_some_iff.1 ht
      exact .array hn (ih ht')
    | enumeration e => exact .enumeration hn (ih ht)
    | user u =>
      simp only [reading] at ht
      split at ht
      · next n hcovered =>
        obtain rfl := Option.some.inj ht
        exact .user hn hcovered
      · next hnone =>
        obtain rfl := Option.some.inj ht
        exact .uncovered hn rfl hnone
    | template l args =>
      simp only [reading] at ht
      split at ht
      · next n hcovered =>
        split at ht
        · next hgeneric =>
          obtain ⟨ts, hts, rfl⟩ := Option.map_eq_some_iff.1 ht
          obtain ⟨hlen, hall⟩ := List.forall₂_iff_zip.1 (Reading.mapM_eq_some_iff.1 hts)
          exact .generic hn hcovered hgeneric hlen fun p hp => ih (hall hp)
        · next hspecial =>
          obtain rfl := Option.some.inj ht
          exact .special hn hcovered (Bool.eq_false_iff.2 hspecial)
      · next hnone =>
        obtain rfl := Option.some.inj ht
        exact .uncovered hn rfl hnone
    | placeholder s =>
      obtain rfl := Option.some.inj ht
      exact .placeholder hn

/-- A reference refers to its node, or reading it does not end and it is foreign. -/
theorem refTo_cases (c : Catalog) (x : NodeId) :
    c.Refers x (c.refTo x) ∨ c.refTo x = c.foreign x := by
  cases ht : c.ref? x with
  | some t => exact .inl (refTo_eq ht ▸ refers_of_readWithin ht)
  | none => exact .inr (by rw [refTo, show c.graph.arena.read? c.reading x = none from ht]; rfl)

theorem spelledAll_eq_map (c : Catalog) (ss : List Scheme) :
    c.spelledAll ss = ss.map c.spelled := by
  induction ss with
  | nil => rfl
  | cons s ss ih => rw [spelledAll, ih, List.map_cons]

end

/-! ## Numbers and names -/

end Catalog

theorem PlannedGraph.length_nameAll (p : PlannedGraph) (short : Bool) (taken : List String)
    (ss : List Subject) : (p.nameAll short taken ss).1.length = ss.length := by
  induction ss generalizing taken with
  | nil => rfl
  | cons s ss ih => rw [nameAll, List.length_cons, ih, List.length_cons]

namespace Catalog

variable {options : Options} {g : TypeGraph}

/-- No subject has two numbers. -/
theorem nodup_subjects (g : TypeGraph) (options : Options) : (g.catalog options).subjects.Nodup :=
  nodup_eraseDups _

theorem length_names (g : TypeGraph) (options : Options) :
    (g.catalog options).names.length = (g.catalog options).subjects.length :=
  PlannedGraph.length_nameAll _ _ _ _

/-- Every declaration has a name, and is referred to by its path. -/
theorem exists_name {n : Nat} {s : Subject} (hs : (g.catalog options).subjects[n]? = some s) :
    ∃ name, (g.catalog options).names[n]? = some name ∧
      (g.catalog options).path n = name.path := by
  obtain ⟨hlt, -⟩ := List.getElem?_eq_some_iff.1 hs
  rw [← length_names] at hlt
  refine ⟨(g.catalog options).names[n], List.getElem?_eq_getElem hlt, ?_⟩
  rw [path, List.getElem?_eq_getElem hlt]
  rfl

/-- A kept class is covered by the declaration of its subject. -/
theorem exists_coveredBy? {x : NodeId} {s : Subject} (hx : x ∈ g.classes)
    (hs : (g.planned options).subjectOf? x = some s) :
    ∃ n, (g.catalog options).coveredBy? x = some n ∧
      (g.catalog options).subjects[n]? = some s := by
  have hmem : s ∈ (g.catalog options).subjects := PlannedGraph.mem_subjects_iff.2 ⟨x, hx, hs⟩
  obtain ⟨n, hn⟩ := List.mem_iff_getElem?.1 hmem
  exact ⟨n, (coveredBy?_eq_some_iff (nodup_subjects g options)).2 ⟨s, hs, hn⟩, hn⟩

/-! ## Generic families -/

variable {f : Nat} {l : SharedLayout}

theorem layout?_of_policy {F : Family} (hF : (g.planned options).plan.families[f]? = some F)
    (hl : F.policy = .generic l) : (g.planned options).plan.layout? f = some l := by
  rw [Plan.layout?, hF, Option.bind_some, Plan.policy_eq_generic_iff.1 hl]

/-- An instantiation of a generic family is covered by the family. -/
theorem subjectOf?_instantiation {F : Family}
    (hF : (g.planned options).plan.families[f]? = some F) (hl : F.policy = .generic l)
    {x : NodeId} (hx : x ∈ F.instantiations) :
    (g.planned options).subjectOf? x = some (.generic f) := by
  obtain ⟨-, args, u, k, hn, -⟩ := Plan.exists_instantiates (List.mem_of_getElem? hF) hx
  have hfamily : (g.planned options).plan.familyOf? x = some f :=
    Plan.familyOf?_eq_some_iff.2 ⟨F, hF, hx⟩
  have hnode : (g.planned options).graph.arena.node? x = some (.template k args) := hn
  rw [PlannedGraph.subjectOf?, hnode]
  simp only [hfamily, layout?_of_policy hF hl, Option.isSome_some, if_true]

/-- A generic family has a declaration. -/
theorem exists_numberOf?_generic {F : Family}
    (hF : (g.planned options).plan.families[f]? = some F) (hl : F.policy = .generic l) :
    ∃ n, (g.catalog options).subjects[n]? = some (.generic f) ∧
      (g.catalog options).familyPath f = (g.catalog options).path n ∧
      ∀ x ∈ F.instantiations, (g.catalog options).coveredBy? x = some n := by
  have hmem := List.mem_of_getElem? hF
  have hcovered {x : NodeId} (hx : x ∈ F.instantiations) :
      ∃ n, (g.catalog options).coveredBy? x = some n ∧
        (g.catalog options).subjects[n]? = some (.generic f) :=
    exists_coveredBy? (Plan.exists_instantiates hmem hx).1 (subjectOf?_instantiation hF hl hx)
  obtain ⟨x, hx⟩ := List.exists_mem_of_ne_nil _ (Plan.instantiations_ne_nil hmem)
  obtain ⟨n, -, hn⟩ := hcovered hx
  have hnumber := (numberOf?_eq_some_iff (nodup_subjects g options)).2 hn
  refine ⟨n, hn, ?_, fun y hy => ?_⟩
  · rw [familyPath, hnumber]
    rfl
  · obtain ⟨m, hm, hm'⟩ := hcovered hy
    obtain ⟨hlt, -⟩ := List.getElem?_eq_some_iff.1 hm'
    rwa [(List.getElem?_inj hlt (nodup_subjects g options)).1 (hm'.trans hn.symm)] at hm

/-- The reference to an instantiation of a generic family applies the family's declaration. -/
theorem ref?_instantiation {F : Family}
    (hF : (g.planned options).plan.families[f]? = some F) (hl : F.policy = .generic l)
    {x : NodeId} (hx : x ∈ F.instantiations) {args : List NodeId} {u : UserType}
    (hu : g.Instantiates x args u) : (g.catalog options).ref? x =
      (args.mapM (g.catalog options).ref?).map (.applied ((g.catalog options).familyPath f)) := by
  obtain ⟨k, hn, -⟩ := hu
  obtain ⟨n, hs, hpath, hcovered⟩ := exists_numberOf?_generic hF hl
  have hnode : (g.catalog options).graph.arena.node? x = some (.template k args) := hn
  have hgeneric : (g.catalog options).isGeneric n = true := by
    rw [isGeneric, hs]
    rfl
  rw [ref?_eq hnode, reading]
  simp only [hcovered x hx, hgeneric, if_true, hpath]

/-- Where spelling ends, every proper node can be referred to. -/
theorem exists_ref? (hg : g.Tidy) (hends : g.arena.SpellingEnds) {x : NodeId} (hx : g.Proper x) :
    ∃ t, (g.catalog options).ref? x = some t :=
  hg.closed.exists_read? (g.catalog options).reading_stable (g.catalog options).reading_total
    (hends.acc x) hx.lt_size

/-- What a generic declaration may write of a node inside an instantiation: a scheme that fits
the node, gives proper nodes alone, by their names, and mentions no family but generic ones. -/
structure Writes (p : PlannedGraph) (args : List NodeId) (s : Scheme) (x : NodeId) : Prop where
  fits : p.graph.arena.Fits p.plan.familyOf? (args.map p.graph.native) s x
  spelled : s.Spelled fun id name => p.graph.Proper id ∧ name = p.graph.native id
  families : ∀ f ∈ s.families, ∀ F, p.plan.families[f]? = some F → F.policy.isGeneric = true

namespace Writes

variable {p : PlannedGraph} {args : List NodeId} {x : NodeId}

/-- A scheme of a pointer writes pointers, by what they point at. -/
theorem pointer {s : Scheme} (h : Writes p args (.pointer s) x) :
    ∃ y, p.graph.arena.node? x = some (.pointer y) ∧ Writes p args s y := by
  obtain ⟨y, hn, hfits⟩ := h.fits
  exact ⟨y, hn, hfits, h.spelled, h.families⟩

theorem array {s : Scheme} (h : Writes p args (.array s) x) :
    ∃ y, p.graph.arena.node? x = some (.array y) ∧ Writes p args s y := by
  obtain ⟨y, hn, hfits⟩ := h.fits
  exact ⟨y, hn, hfits, h.spelled, h.families⟩

/-- A scheme of a template writes instantiations of one family, by their arguments. -/
theorem template {f : Nat} {ss : List Scheme} (h : Writes p args (.template f ss) x) :
    ∃ k xs, p.graph.arena.node? x = some (.template k xs) ∧ p.plan.familyOf? x = some f ∧
      List.Forall₂ (Writes p args) ss xs := by
  obtain ⟨k, xs, hn, hfamily, hfits⟩ := h.fits
  have hparts : ∀ s ∈ ss,
      (s.Spelled fun id name => p.graph.Proper id ∧ name = p.graph.native id) ∧
        ∀ f ∈ s.families, ∀ F, p.plan.families[f]? = some F → F.policy.isGeneric = true := by
    refine fun s hs => ⟨Scheme.allSpelled_iff.1 h.spelled s hs, fun f' hf' => ?_⟩
    exact h.families f' (List.mem_cons_of_mem _ (Scheme.mem_familiesOfAll.2 ⟨s, hs, hf'⟩))
  have hall := (List.forall₂_and_left _ _).2 ⟨hparts, (Arena.fitAll_iff ..).1 hfits⟩
  exact ⟨k, xs, hn, hfamily, hall.imp fun s y hs => ⟨hs.2, hs.1.1, hs.1.2⟩⟩

end Writes

/-- A generic declaration writes every part of every instantiation that it covers. -/
theorem writes_parts (hg : g.Tidy) {F : Family}
    (hF : F ∈ (g.planned options).plan.families) (hl : F.policy = .generic l) {x : NodeId}
    (hx : x ∈ F.instantiations) {args : List NodeId} {u : UserType}
    (hu : g.Instantiates x args u) :
    args.length = l.arity ∧ List.Forall₂ (Writes (g.planned options) args) l.schemes u.parts := by
  have hinst : ∀ id ∈ F.instantiations, ∃ args u, g.Instantiates id args u :=
    fun id hid => (Plan.exists_instantiates hF hid).2
  have hlayout := Plan.ofInstantiations_of_policy hF hl
  have hcovers := SharedLayout.covers_of_ofInstantiations hinst hlayout
  obtain ⟨args', u', hu', hdesc⟩ := hcovers.admits x hx
  obtain ⟨rfl, rfl⟩ := hu.unique hu'
  have hsound : l.Sound fun id name => g.Proper id ∧ name = g.native id := by
    refine SharedLayout.sound_ofInstantiations (P := g.Proper) (fun x y _ => hg.proper_spells)
      (fun x hx => ⟨hx, rfl⟩) (fun id hid args u hu => ?_) hlayout
    exact hg.proper_parts (Plan.exists_instantiates hF hid).1 hu.layoutType?
  have hparts : ∀ s ∈ l.schemes,
      (s.Spelled fun id name => g.Proper id ∧ name = g.native id) ∧ ∀ f ∈ s.families, ∀ F,
        (g.planned options).plan.families[f]? = some F → F.policy.isGeneric = true := by
    refine fun s hs => ⟨hsound.spelled s hs, fun f hf F' => ?_⟩
    exact Plan.isGeneric_of_mem_dependencies hF hl (Scheme.mem_familiesOfAll.2 ⟨s, hs, hf⟩)
  have hall := (List.forall₂_and_left _ _).2 ⟨hparts, hdesc.schemes⟩
  exact ⟨hdesc.arity, hall.imp fun s y hs => ⟨hs.2, hs.1.1, hs.1.2⟩⟩

end Catalog

end NativeBindings
