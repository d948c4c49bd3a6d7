import NativeBindings.Proofs.Declaration.WholeTexts

/-!
# Instantiated declarations

A generic declaration stands for those of all its instantiations: with the references to the
arguments written in place of its parameters (`TypeRef.WrittenAs`), what it writes at a position
should read as the reference to the type that the instantiation has there.

A parameter stands for every type that is natively named like the argument, and a node that is
named for every type of the same native name (`Arena.Faces`). Native names do not determine
references, though: of two enums with one name each is written as its own underlying type. So a
declaration is right about a position exactly if all that the position's scheme identifies is
referred to by the same text (`Catalog.Represents`), and not always (`Bindings.twoColors_differs`).
-/

namespace NativeBindings

/-! ## What a scheme identifies -/

/-- A scheme for a node writes the second node in place of the third: an argument for the node
that a parameter stands for, a named node for the one found in its place. -/
inductive Arena.Faces (a : Arena) (args : List NodeId) : Scheme → NodeId → NodeId → NodeId → Prop
  | param {i : Nat} {x y : NodeId} (h : args[i]? = some y) : Faces a args (.param i) x y x
  | concrete {id x : NodeId} {native : String} : Faces a args (.concrete id native) x id x
  | pointer {s : Scheme} {x x' y z : NodeId} (hn : a.node? x = some (.pointer x'))
    (h : Faces a args s x' y z) : Faces a args (.pointer s) x y z
  | array {s : Scheme} {x x' y z : NodeId} (hn : a.node? x = some (.array x'))
    (h : Faces a args s x' y z) : Faces a args (.array s) x y z
  | template {f : Nat} {ss : List Scheme} {k x x' y z : NodeId} {xs : List NodeId} {s : Scheme}
    (hn : a.node? x = some (.template k xs)) (hs : (s, x') ∈ ss.zip xs)
    (h : Faces a args s x' y z) : Faces a args (.template f ss) x y z

namespace Catalog

variable {options : Options} {records : List SymbolRecord} {g : TypeGraph} {w : Diagnostics}
  {args : List NodeId}

/-- A parameter stands for an argument. -/
theorem Writes.exists_arg {p : PlannedGraph} {i : Nat} {x : NodeId}
    (h : Writes p args (.param i) x) :
    ∃ y, args[i]? = some y ∧ p.graph.native y = p.graph.native x := by
  have hfits : (args.map p.graph.native)[i]? = some (p.graph.native x) := h.fits
  rw [List.getElem?_map] at hfits
  exact Option.map_eq_some_iff.1 hfits

/-- What faces each other has the same native name. -/
theorem native_eq_of_faces {s : Scheme} {x y z : NodeId}
    (h : g.arena.Faces args s x y z) (hs : Writes (g.planned options) args s x) :
    g.native y = g.native z := by
  induction h with
  | param hi =>
    obtain ⟨y, hy, hnative⟩ := hs.exists_arg
    obtain rfl := Option.some.inj (hi.symm.trans hy)
    exact hnative
  | concrete => exact hs.spelled.2.symm.trans hs.fits.symm
  | pointer hn _ ih =>
    obtain ⟨x', hn', hs'⟩ := hs.pointer
    obtain rfl := Node.pointer.inj (Option.some.inj (hn.symm.trans hn'))
    exact ih hs'
  | array hn _ ih =>
    obtain ⟨x', hn', hs'⟩ := hs.array
    obtain rfl := Node.array.inj (Option.some.inj (hn.symm.trans hn'))
    exact ih hs'
  | template hn hmem _ ih =>
    obtain ⟨k, xs, hn', -, hss⟩ := hs.template
    obtain ⟨-, rfl⟩ := Node.template.inj (Option.some.inj (hn.symm.trans hn'))
    exact ih ((List.forall₂_iff_zip.1 hss).2 hmem)

/-- The text of the reference to a node. -/
def refText (c : Catalog) (x : NodeId) : String :=
  (c.refTo x).text 0

/-- What faces each other is referred to by the same text. -/
def Alike (c : Catalog) (args : List NodeId) (s : Scheme) (x : NodeId) : Prop :=
  ∀ y z, c.graph.arena.Faces args s x y z → c.refText y = c.refText z

section

variable {c : Catalog} {s : Scheme} {x x' : NodeId}

theorem alike_param_iff {i : Nat} {y : NodeId} (h : args[i]? = some y) :
    c.Alike args (.param i) x ↔ c.refText y = c.refText x := by
  refine ⟨fun hall => hall y x (.param h), fun heq _ _ hfaces => ?_⟩
  cases hfaces with
  | param h' =>
    obtain rfl := Option.some.inj (h.symm.trans h')
    exact heq

theorem alike_concrete_iff {id : NodeId} {native : String} :
    c.Alike args (.concrete id native) x ↔ c.refText id = c.refText x := by
  refine ⟨fun hall => hall id x .concrete, fun heq _ _ hfaces => ?_⟩
  cases hfaces with
  | concrete => exact heq

theorem alike_pointer_iff (hn : c.graph.arena.node? x = some (.pointer x')) :
    c.Alike args (.pointer s) x ↔ c.Alike args s x' := by
  refine ⟨fun hall y z hfaces => hall y z (.pointer hn hfaces), fun hall y z hfaces => ?_⟩
  cases hfaces with
  | pointer hn' hfaces =>
    obtain rfl := Node.pointer.inj (Option.some.inj (hn.symm.trans hn'))
    exact hall y z hfaces

theorem alike_array_iff (hn : c.graph.arena.node? x = some (.array x')) :
    c.Alike args (.array s) x ↔ c.Alike args s x' := by
  refine ⟨fun hall y z hfaces => hall y z (.array hn hfaces), fun hall y z hfaces => ?_⟩
  cases hfaces with
  | array hn' hfaces =>
    obtain rfl := Node.array.inj (Option.some.inj (hn.symm.trans hn'))
    exact hall y z hfaces

theorem alike_template_iff {f : Nat} {ss : List Scheme} {k : NodeId} {xs : List NodeId}
    (hn : c.graph.arena.node? x = some (.template k xs)) (hlen : ss.length = xs.length) :
    c.Alike args (.template f ss) x ↔ List.Forall₂ (c.Alike args) ss xs := by
  rw [List.forall₂_iff_zip]
  refine ⟨fun hall => ⟨hlen, fun hmem y z hfaces => hall y z (.template hn hmem hfaces)⟩,
    fun ⟨_, hall⟩ y z hfaces => ?_⟩
  cases hfaces with
  | template hn' hmem hfaces =>
    obtain ⟨-, rfl⟩ := Node.template.inj (Option.some.inj (hn.symm.trans hn'))
    exact hall hmem y z hfaces

end

/-! ## Texts of references -/

theorem refText_eq {c : Catalog} {x : NodeId} {t : TypeRef} (ht : c.ref? x = some t) :
    c.refText x = t.text 0 := by
  rw [refText, refTo_eq ht]

/-- The reference to a pointer wraps the reference to its target. -/
theorem refText_pointer {c : Catalog} {x y : NodeId}
    (hn : c.graph.arena.node? x = some (.pointer y)) (hread : ∃ t, c.ref? x = some t) :
    (∃ t, c.ref? y = some t) ∧ c.refText x = "Pointer<" ++ c.refText y ++ ">" := by
  obtain ⟨t, ht⟩ := hread
  rw [refText_eq ht]
  rw [ref?_eq hn, reading, Option.map_eq_some_iff] at ht
  obtain ⟨t, ht, rfl⟩ := ht
  exact ⟨⟨t, ht⟩, by rw [refText_eq ht, TypeRef.text]⟩

/-- The reference to an array wraps the reference to its element. -/
theorem refText_array {c : Catalog} {x y : NodeId}
    (hn : c.graph.arena.node? x = some (.array y)) (hread : ∃ t, c.ref? x = some t) :
    (∃ t, c.ref? y = some t) ∧ c.refText x = "Array<" ++ c.refText y ++ ">" := by
  obtain ⟨t, ht⟩ := hread
  rw [refText_eq ht]
  rw [ref?_eq hn, reading, Option.map_eq_some_iff] at ht
  obtain ⟨t, ht, rfl⟩ := ht
  exact ⟨⟨t, ht⟩, by rw [refText_eq ht, TypeRef.text]⟩

/-- The reference to an instantiation of a generic family applies the family's path to the
references to the arguments. -/
theorem refText_template (hg : g.Tidy) {f : Nat} {ss : List Scheme} {x : NodeId}
    (h : Writes (g.planned options) args (.template f ss) x)
    (hread : ∃ t, (g.catalog options).ref? x = some t) :
    ∃ k xs, g.arena.node? x = some (.template k xs) ∧
      List.Forall₂ (Writes (g.planned options) args) ss xs ∧
      (∀ y ∈ xs, ∃ t, (g.catalog options).ref? y = some t) ∧
      (g.catalog options).refText x = (g.catalog options).familyPath f ++ "<"
        ++ ", ".intercalate (xs.map (g.catalog options).refText) ++ ">" := by
  obtain ⟨k, xs, hn, hfamily, hss⟩ := h.template
  obtain ⟨F, hF, hx⟩ := Plan.familyOf?_eq_some_iff.1 hfamily
  obtain ⟨l, hl⟩ := Plan.exists_generic_of_isGeneric (h.families f List.mem_cons_self F hF)
  obtain ⟨u, hu⟩ := hg.closed.layout hn
  obtain ⟨t, ht⟩ := hread
  rw [refText_eq ht]
  rw [ref?_instantiation hF hl hx ⟨k, hn, hu⟩, Option.map_eq_some_iff] at ht
  obtain ⟨ts, hts, rfl⟩ := ht
  have hall := Reading.mapM_eq_some_iff.1 hts
  have htexts : List.Forall₂ (· = ·) (xs.map (g.catalog options).refText)
      (ts.map (TypeRef.text 0)) := by
    rw [List.forall₂_map_left_iff, List.forall₂_map_right_iff]
    exact hall.imp fun _ _ ht => refText_eq ht
  rw [List.forall₂_eq_eq_eq] at htexts
  refine ⟨k, xs, hn, hss, fun y hy => ?_, by rw [htexts, TypeRef.text, TypeRef.texts_eq_map]⟩
  obtain ⟨i, hi, rfl⟩ := List.mem_iff_getElem.1 hy
  exact ⟨_, hall.get hi (hall.length_eq ▸ hi)⟩

/-! ## Schemes with texts for their parameters -/

mutual

/-- Where all that a scheme identifies is referred to by the same text, the scheme is written as
the reference to the node, with the references to the arguments in place of the parameters. -/
theorem writtenAs_of_alike (hg : g.Tidy) : ∀ (s : Scheme) {x : NodeId},
    Writes (g.planned options) args s x → (∃ t, (g.catalog options).ref? x = some t) →
      (g.catalog options).Alike args s x →
        ((g.catalog options).spelled s).WrittenAs (args.map (g.catalog options).refText)
          ((g.catalog options).refText x)
  | .unspelled, _, h, _, _ => h.fits.elim
  | .param i, x, h, _, halike => by
    obtain ⟨y, hy, -⟩ := h.exists_arg
    refine .param ?_
    rw [List.getElem?_map, hy, Option.map_some, (alike_param_iff hy).1 halike]
  | .concrete id name, x, _, _, halike => by
    rw [← alike_concrete_iff.1 halike]
    exact writtenAs_refTo ..
  | .pointer s, _, h, hread, halike => by
    obtain ⟨y, hn, hs⟩ := h.pointer
    obtain ⟨hread, htext⟩ := refText_pointer (c := g.catalog options) hn hread
    rw [alike_pointer_iff (c := g.catalog options) hn] at halike
    rw [htext]
    exact .pointer (writtenAs_of_alike hg s hs hread halike)
  | .array s, _, h, hread, halike => by
    obtain ⟨y, hn, hs⟩ := h.array
    obtain ⟨hread, htext⟩ := refText_array (c := g.catalog options) hn hread
    rw [alike_array_iff (c := g.catalog options) hn] at halike
    rw [htext]
    exact .array (writtenAs_of_alike hg s hs hread halike)
  | .template f ss, x, h, hread, halike => by
    obtain ⟨k, xs, hn, hss, hread, htext⟩ := refText_template hg h hread
    rw [alike_template_iff (c := g.catalog options) hn hss.length_eq] at halike
    rw [htext, spelled]
    exact TypeRef.writtenAs_applied_iff.2 ⟨_, allWrittenAs_of_alike hg ss hss hread halike, rfl⟩

/-- The same for rows of schemes. -/
theorem allWrittenAs_of_alike (hg : g.Tidy) : ∀ (ss : List Scheme) {xs : List NodeId},
    List.Forall₂ (Writes (g.planned options) args) ss xs →
      (∀ x ∈ xs, ∃ t, (g.catalog options).ref? x = some t) →
        List.Forall₂ ((g.catalog options).Alike args) ss xs →
          List.Forall₂ (TypeRef.WrittenAs (args.map (g.catalog options).refText))
            ((g.catalog options).spelledAll ss) (xs.map (g.catalog options).refText)
  | [], _, .nil, _, _ => .nil
  | s :: ss, _, .cons hs hss, hread, .cons halike halikes => by
    obtain ⟨hx, hxs⟩ := List.forall_mem_cons.1 hread
    exact .cons (writtenAs_of_alike hg s hs hx halike) (allWrittenAs_of_alike hg ss hss hxs halikes)

end

/-- The reference to a proper node is written as a whole. -/
theorem whole_refText (hgraph : TypeGraph.ofRecords options records = .ok (g, w)) {x : NodeId}
    (hx : g.Proper x) (hread : ∃ t, (g.catalog options).ref? x = some t) :
    Name.Whole ((g.catalog options).refText x) := by
  have hwf : (g.catalog options).WellFormed true 0 ((g.catalog options).refTo x) :=
    (wellFormed_refTo_iff (TypeGraph.tidy_of_ofRecords hgraph) 0 hx).2 hread
  exact hwf.whole hgraph (fun _ hp => absurd hp List.not_mem_nil) (writtenAs_refTo _ [] 0 x)

mutual

/-- If a scheme is written as the reference to the node, all that it identifies is referred to by
the same text. In a list of arguments it takes that no entry is cut by the commas. -/
theorem alike_of_writtenAs (hgraph : TypeGraph.ofRecords options records = .ok (g, w))
    (hargs : ∀ y ∈ args, Name.Whole ((g.catalog options).refText y)) : ∀ (s : Scheme) {x : NodeId},
      Writes (g.planned options) args s x → g.Proper x →
        (∃ t, (g.catalog options).ref? x = some t) →
          (∀ y ∈ s.nodes, ∃ t, (g.catalog options).ref? y = some t) →
            ((g.catalog options).spelled s).WrittenAs (args.map (g.catalog options).refText)
              ((g.catalog options).refText x) → (g.catalog options).Alike args s x
  | .unspelled, _, h, _, _, _, _ => h.fits.elim
  | .param i, x, h, _, _, _, hwritten => by
    obtain ⟨y, hy, -⟩ := h.exists_arg
    have htext := TypeRef.writtenAs_param_iff.1 hwritten
    rw [List.getElem?_map, hy, Option.map_some] at htext
    exact (alike_param_iff hy).2 (Option.some.inj htext)
  | .concrete id name, x, _, _, _, _, hwritten =>
    alike_concrete_iff.2 ((writtenAs_refTo _ _ 0 id).unique hwritten)
  | .pointer s, _, h, _, hread, hnodes, hwritten => by
    obtain ⟨y, hn, hs⟩ := h.pointer
    obtain ⟨hread, htext⟩ := refText_pointer (c := g.catalog options) hn hread
    have hy := (TypeGraph.tidy_of_ofRecords hgraph).proper_spells
      (Arena.spells_iff.2 ⟨_, hn, List.mem_singleton_self y⟩)
    rw [htext, spelled, TypeRef.writtenAs_pointer_iff] at hwritten
    rw [alike_pointer_iff (c := g.catalog options) hn]
    exact alike_of_writtenAs hgraph hargs s hs hy hread hnodes hwritten
  | .array s, _, h, _, hread, hnodes, hwritten => by
    obtain ⟨y, hn, hs⟩ := h.array
    obtain ⟨hread, htext⟩ := refText_array (c := g.catalog options) hn hread
    have hy := (TypeGraph.tidy_of_ofRecords hgraph).proper_spells
      (Arena.spells_iff.2 ⟨_, hn, List.mem_singleton_self y⟩)
    rw [htext, spelled, TypeRef.writtenAs_array_iff] at hwritten
    rw [alike_array_iff (c := g.catalog options) hn]
    exact alike_of_writtenAs hgraph hargs s hs hy hread hnodes hwritten
  | .template f ss, x, h, _, hread, hnodes, hwritten => by
    have hg := TypeGraph.tidy_of_ofRecords hgraph
    obtain ⟨k, xs, hn, hss, hread, htext⟩ := refText_template hg h hread
    have hxs : ∀ y ∈ xs, g.Proper y := fun y hy =>
      hg.proper_spells (Arena.spells_iff.2 ⟨_, hn, hy⟩)
    rw [htext, spelled, TypeRef.writtenAs_applied_iff] at hwritten
    obtain ⟨texts, htexts, heq⟩ := hwritten
    have hwhole : ∀ text ∈ texts, Name.Whole text := by
      have hwf : ∀ t ∈ (g.catalog options).spelledAll ss,
          (g.catalog options).WellFormed true args.length t :=
        (wellFormed_spelledAll_iff hg ss hss).2 hnodes
      exact TypeRef.forall_text_of_args htexts fun t ht _ hs =>
        (hwf t ht).whole hgraph (List.forall_mem_map.2 hargs) hs
    have hlen : texts.length = (xs.map (g.catalog options).refText).length := by
      rw [← htexts.length_eq, spelledAll_eq_map, List.length_map, List.length_map, hss.length_eq]
    obtain rfl := Name.eq_of_intercalate_eq hwhole
      (List.forall_mem_map.2 fun y hy => whole_refText hgraph (hxs y hy) (hread y hy)) hlen heq
    rw [alike_template_iff (c := g.catalog options) hn hss.length_eq]
    exact allAlike_of_writtenAs hgraph hargs ss hss hxs hread hnodes htexts

/-- The same for rows of schemes. -/
theorem allAlike_of_writtenAs (hgraph : TypeGraph.ofRecords options records = .ok (g, w))
    (hargs : ∀ y ∈ args, Name.Whole ((g.catalog options).refText y)) :
    ∀ (ss : List Scheme) {xs : List NodeId}, List.Forall₂ (Writes (g.planned options) args) ss xs →
      (∀ x ∈ xs, g.Proper x) → (∀ x ∈ xs, ∃ t, (g.catalog options).ref? x = some t) →
        (∀ y ∈ Scheme.nodesOfAll ss, ∃ t, (g.catalog options).ref? y = some t) →
          List.Forall₂ (TypeRef.WrittenAs (args.map (g.catalog options).refText))
            ((g.catalog options).spelledAll ss) (xs.map (g.catalog options).refText) →
              List.Forall₂ ((g.catalog options).Alike args) ss xs
  | [], _, .nil, _, _, _, _ => .nil
  | s :: ss, _, .cons hs hss, hxs, hread, hnodes, .cons hwritten hwrittenAll => by
    obtain ⟨hx, hxs⟩ := List.forall_mem_cons.1 hxs
    obtain ⟨hreadx, hreadxs⟩ := List.forall_mem_cons.1 hread
    rw [Scheme.nodesOfAll, List.forall_mem_append] at hnodes
    exact .cons (alike_of_writtenAs hgraph hargs s hs hx hreadx hnodes.1 hwritten)
      (allAlike_of_writtenAs hgraph hargs ss hss hxs hreadxs hnodes.2 hwrittenAll)

end

/-- How a scheme stands for a node inside an instantiation. What it identifies has the same native
name; with the references to the arguments in place of the parameters it has a text; and this is
the reference to the node if and only if all that it identifies is referred to by the same text,
as far as what is compared can be read. -/
structure Represents (c : Catalog) (args : List NodeId) (s : Scheme) (x : NodeId) : Prop where
  native : ∀ y z, c.graph.arena.Faces args s x y z → c.graph.native y = c.graph.native z
  written : ∃ text, (c.spelled s).WrittenAs (args.map c.refText) text
  of_alike : (∃ t, c.ref? x = some t) → c.Alike args s x →
    (c.spelled s).WrittenAs (args.map c.refText) (c.refText x)
  alike : (∀ y ∈ x :: (args ++ s.nodes), ∃ t, c.ref? y = some t) →
    (c.spelled s).WrittenAs (args.map c.refText) (c.refText x) → c.Alike args s x

theorem represents_of_writes (hgraph : TypeGraph.ofRecords options records = .ok (g, w))
    (hargs : ∀ y ∈ args, g.Proper y) {s : Scheme} {x : NodeId} (hx : g.Proper x)
    (h : Writes (g.planned options) args s x) : (g.catalog options).Represents args s x where
  native _ _ hfaces := native_eq_of_faces hfaces h
  written := exists_writtenAs_spelled _ (List.length_map ..).symm s h
  of_alike := writtenAs_of_alike (TypeGraph.tidy_of_ofRecords hgraph) s h
  alike hread hwritten := by
    obtain ⟨hreadx, hread⟩ := List.forall_mem_cons.1 hread
    obtain ⟨hreadargs, hnodes⟩ := List.forall_mem_append.1 hread
    have hwhole : ∀ y ∈ args, Name.Whole ((g.catalog options).refText y) := fun y hy =>
      whole_refText hgraph (hargs y hy) (hreadargs y hy)
    exact alike_of_writtenAs hgraph hwhole s h hx hreadx hnodes hwritten

/-- Where native names determine the texts of references, a scheme is written as the reference to
the node. -/
theorem Represents.writtenAs {c : Catalog} {s : Scheme} {x : NodeId} (h : c.Represents args s x)
    (hnames : ∀ y z, c.graph.native y = c.graph.native z → c.refText y = c.refText z)
    (hread : ∃ t, c.ref? x = some t) :
    (c.spelled s).WrittenAs (args.map c.refText) (c.refText x) :=
  h.of_alike hread fun y z hfaces => hnames y z (h.native y z hfaces)

end Catalog

namespace Bindings

/-- A generic declaration is written with the references that its schemes spell. For every
instantiation that it covers, each of them reads as the reference to the type that the
instantiation has in the same place, with the references to the arguments in place of the
parameters, if and only if all nodes that it identifies by their native names are referred to by
the same text. So it does where native names determine references. -/
theorem ofRecords_represents_parts {options : Options} {records : List SymbolRecord}
    {b : Bindings} (h : ofRecords options records = .ok b) :
    ∃ g w, TypeGraph.ofRecords options records = .ok (g, w) ∧
      ∀ f F l, (g.planned options).plan.families[f]? = some F → F.policy = .generic l →
        (∃ name t, (.generic f, name) ∈ (g.catalog options).entries ∧
          (g.catalog options).struct? options.documented name.ident (.generic f) = some t ∧
          t.references = l.schemes.map (g.catalog options).spelled ∧ t.WrittenAs
            ((g.catalog options).declaration options.documented (.generic f) name).text) ∧
        ∀ x ∈ F.instantiations, ∃ args u, g.Instantiates x args u ∧ args.length = l.arity ∧
          List.Forall₂ ((g.catalog options).Represents args) l.schemes u.parts ∧
          (g.arena.SpellingEnds → (g.catalog options).Ends (.generic f) ∧
            ∀ y ∈ args ++ u.parts, ∃ t, (g.catalog options).ref? y = some t) ∧
          (g.arena.SpellingEnds → (∀ y z, g.native y = g.native z →
            (g.catalog options).refText y = (g.catalog options).refText z) →
              List.Forall₂ (fun s y => ((g.catalog options).spelled s).WrittenAs
                (args.map (g.catalog options).refText) ((g.catalog options).refText y))
                l.schemes u.parts) := by
  obtain ⟨g, w, hgraph, -, hstructs⟩ := exists_structs h
  have hg := TypeGraph.tidy_of_ofRecords hgraph
  refine ⟨g, w, hgraph, fun f F l hF hl => ?_⟩
  have hlayout := Catalog.layout?_of_policy hF hl
  obtain ⟨n, hs, -⟩ := Catalog.exists_numberOf?_generic hF hl
  obtain ⟨name, hentry⟩ := Catalog.exists_mem_entries hs
  obtain ⟨t, ht, htext, z, hz, hdeclaring⟩ := hstructs _ hentry
  have hstruct : (g.catalog options).struct? options.documented name.ident (.generic f) =
      some ((g.catalog options).genericStruct options.documented name.ident f l) :=
    Option.map_eq_some_iff.2 ⟨l, hlayout, rfl⟩
  obtain rfl := Option.some.inj (ht.symm.trans hstruct)
  refine ⟨⟨name, _, hentry, hstruct, Catalog.references_genericStruct .., ?_⟩, fun x hx => ?_⟩
  · rw [htext]
    exact hdeclaring.writtenAs_text hg
  · have hmem := List.mem_of_getElem? hF
    obtain ⟨hclass, args, u, hu⟩ := Plan.exists_instantiates hmem hx
    obtain ⟨hlen, hwrites⟩ := Catalog.writes_parts hg hmem hl hx hu
    obtain ⟨k, hn, -⟩ := id hu
    have hargs : ∀ y ∈ args, g.Proper y := fun y hy =>
      hg.proper_spells (Arena.spells_iff.2 ⟨_, hn, hy⟩)
    have hparts := hg.proper_parts hclass hu.layoutType?
    have hread (hends : g.arena.SpellingEnds) (y : NodeId) (hy : y ∈ args ++ u.parts) :
        ∃ t, (g.catalog options).ref? y = some t :=
      Catalog.exists_ref? hg hends ((List.mem_append.1 hy).elim (hargs y) (hparts y))
    have hrep : List.Forall₂ ((g.catalog options).Represents args) l.schemes u.parts :=
      List.forall₂_iff_zip.2 ⟨hwrites.length_eq, fun hmem => Catalog.represents_of_writes hgraph
        hargs (hparts _ (List.of_mem_zip hmem).2) ((List.forall₂_iff_zip.1 hwrites).2 hmem)⟩
    refine ⟨args, u, hu, hlen, hrep, fun hends => ⟨hdeclaring.ends hg hz hends, hread hends⟩,
      fun hends hnames => List.forall₂_iff_zip.2 ⟨hrep.length_eq, fun hmem => ?_⟩⟩
    have hy := List.mem_append_right args (List.of_mem_zip hmem).2
    exact ((List.forall₂_iff_zip.1 hrep).2 hmem).writtenAs hnames (hread hends _ hy)

/-- An instantiation with an enum, and fields of this enum and of another one of the same native
name that is written as another scalar. -/
def twoColors : List SymbolRecord :=
  [.ofPrimitive ⟨1⟩ "int" 4,
    .ofPrimitive ⟨2⟩ "char" 1,
    .ofEnumeration ⟨3⟩ "Color" 4 (some ⟨1⟩),
    .ofEnumeration ⟨4⟩ "Color" 1 (some ⟨2⟩),
    ((SymbolRecord.ofInstantiation ⟨5⟩ "Paint<Color>" 8 [⟨3⟩]).addField "front" ⟨3⟩ 0).addField
      "back" ⟨4⟩ 4]

theorem exists_ofRecords_twoColors : ∃ g w, TypeGraph.ofRecords {} twoColors = .ok (g, w) ∧
    g.arena.loop? = none ∧ ((g.planned {}).plan.families[0]?).map (·.instantiations) = some [6] ∧
    g.arena.spellingLinks 6 = [4] ∧
    (((g.planned {}).plan.layout? 0).bind (·.schemes[1]?)).any
      (fun | .param 0 => true | _ => false) = true ∧
    (g.layoutType? 6).bind (·.parts[1]?) = some 5 ∧
    (g.catalog {}).refText 4 = "i32" ∧ (g.catalog {}).refText 5 = "i8" :=
  TypeGraph.exists_ofRecords_and (by decide +kernel)

/-- One generic declaration covers the instantiation and writes its second field by the parameter.
The argument and the type of the field are referred to by different texts. -/
theorem exists_param_twoColors : ∃ g w, TypeGraph.ofRecords {} twoColors = .ok (g, w) ∧
    g.arena.loop? = none ∧ ∃ F l u, (g.planned {}).plan.families[0]? = some F ∧
      F.policy = .generic l ∧ 6 ∈ F.instantiations ∧ g.Instantiates 6 [4] u ∧
      (.param 0, 5) ∈ l.schemes.zip u.parts ∧
      (g.catalog {}).refText 4 ≠ (g.catalog {}).refText 5 := by
  obtain ⟨g, w, h, hloop, hfamily, hlinks, hscheme, hpart, hfour, hfive⟩ :=
    exists_ofRecords_twoColors
  obtain ⟨F, hF, hids⟩ := Option.map_eq_some_iff.1 hfamily
  obtain ⟨s, hs, hparam⟩ := (Option.any_eq_true ..).1 hscheme
  obtain ⟨l, hl, hs⟩ := Option.bind_eq_some_iff.1 hs
  obtain ⟨u, hu, hy⟩ := Option.bind_eq_some_iff.1 hpart
  obtain ⟨F', hF', hpolicy⟩ := Plan.exists_family_of_layout? hl
  obtain rfl := Option.some.inj (hF.symm.trans hF')
  have hx : 6 ∈ F.instantiations := by rw [hids]; exact List.mem_cons_self
  obtain ⟨-, args, v, k, hn, hv⟩ := Plan.exists_instantiates (List.mem_of_getElem? hF) hx
  obtain rfl : args = [4] := by rwa [Arena.spellingLinks, hn] at hlinks
  obtain rfl := Option.some.inj (hu.symm.trans (TypeGraph.Instantiates.layoutType? ⟨k, hn, hv⟩))
  refine ⟨g, w, h, hloop, F, l, u, hF, hpolicy, hx, ⟨k, hn, hv⟩, ?_, ?_⟩
  · split at hparam
    · exact List.mem_of_getElem? (List.getElem?_zip_eq_some.2 ⟨hs, hy⟩)
    · cases hparam
  · rw [hfour, hfive]
    decide

/-- With the reference to the argument in place of its parameter, the generic declaration writes
the second field of the instantiation by another text than the reference to the field's type. -/
theorem twoColors_differs : (∃ b, ofRecords {} twoColors = .ok b) ∧
    ∃ g w, TypeGraph.ofRecords {} twoColors = .ok (g, w) ∧
      ∃ F l x args u, F ∈ (g.planned {}).plan.families ∧ F.policy = .generic l ∧
        x ∈ F.instantiations ∧ g.Instantiates x args u ∧ ∃ s y, (s, y) ∈ l.schemes.zip u.parts ∧
          ∃ text, ((g.catalog {}).spelled s).WrittenAs (args.map (g.catalog {}).refText) text ∧
            text ≠ (g.catalog {}).refText y := by
  obtain ⟨g, w, h, -, F, l, u, hF, hl, hx, hu, hmem, hne⟩ := exists_param_twoColors
  exact ⟨exists_eq_ok (by decide +kernel), g, w, h, F, l, 6, [4], u, List.mem_of_getElem? hF, hl,
    hx, hu, _, 5, hmem, _, .param rfl, hne⟩

/-- It is so because two enums of the same native name are referred to by different texts. -/
theorem twoColors_faces : ∃ g w, TypeGraph.ofRecords {} twoColors = .ok (g, w) ∧
    ∃ F l u, F ∈ (g.planned {}).plan.families ∧ F.policy = .generic l ∧ 6 ∈ F.instantiations ∧
      g.Instantiates 6 [4] u ∧ ∃ s y, (s, y) ∈ l.schemes.zip u.parts ∧
        ∃ z z', g.arena.Faces [4] s y z z' ∧ g.native z = g.native z' ∧
          (g.catalog {}).refText z ≠ (g.catalog {}).refText z' := by
  obtain ⟨g, w, h, hloop, F, l, u, hF, hl, hx, hu, hmem, hne⟩ := exists_param_twoColors
  obtain ⟨b, hb⟩ : ∃ b, ofRecords {} twoColors = .ok b := exists_eq_ok (by decide +kernel)
  obtain ⟨g', w', h', hall⟩ := ofRecords_represents_parts hb
  obtain ⟨rfl, rfl⟩ := Prod.mk.inj (Except.ok.inj (h.symm.trans h'))
  obtain ⟨args, u', hu', -, hparts, hread, -⟩ := (hall 0 F l hF hl).2 6 hx
  obtain ⟨rfl, rfl⟩ := hu.unique hu'
  have hends := (TypeGraph.tidy_of_ofRecords h).closed.spellingEnds_of_loop? hloop
  have hy := (hread hends).2 5 (List.mem_append_right _ (List.of_mem_zip hmem).2)
  have hrep := (List.forall₂_iff_zip.1 hparts).2 hmem
  refine ⟨g, w, h, F, l, _, List.mem_of_getElem? hF, hl, hx, hu, _, 5, hmem, ?_⟩
  by_contra hnone
  simp only [not_exists, not_and, not_not] at hnone
  have hwritten := hrep.of_alike hy fun z z' hfaces =>
    hnone z z' hfaces (hrep.native z z' hfaces)
  exact hne (Option.some.inj (TypeRef.writtenAs_param_iff.1 hwritten))

end Bindings

end NativeBindings
