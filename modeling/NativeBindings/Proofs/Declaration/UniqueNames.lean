import NativeBindings.Proofs.Declaration.BareNames
import NativeBindings.Proofs.Declaration.Partition
import NativeBindings.Proofs.Declaration.Written

/-!
# Names are unique

Whenever bindings are generated, no path and no name of a declaration is used twice, whether
namespaces are left out or not. Subjects choose in the order in which records of classes come to
them, and the reports of renamed declarations are exactly the notes of those that got a number
(`Bindings.ofRecords_names`).

So what is written for a user type or for an instantiation with a declaration of its own is the
name of that declaration and of no other one (`Catalog.means_refTo`).
-/

namespace NativeBindings

/-! ## Reports of renamed declarations -/

namespace Diagnostics

theorem ofFinding_append (ds es : Diagnostics) (f : Finding) :
    ofFinding (ds ++ es) f = ofFinding ds f ++ ofFinding es f :=
  List.filter_append ds es

theorem ofFinding_eq_nil {ds : Diagnostics} {f : Finding} (h : ∀ d ∈ ds, d.finding ≠ f) :
    ds.ofFinding f = [] :=
  List.filter_eq_nil_iff.2 fun d hd => by simpa using h d hd

theorem ofFinding_eq_self {ds : Diagnostics} {f : Finding} (h : ∀ d ∈ ds, d.finding = f) :
    ds.ofFinding f = ds :=
  List.filter_eq_self.2 fun d hd => by simpa using h d hd

end Diagnostics

/-- Building a graph reports no renamed declaration. -/
theorem TypeGraph.finding_ne_of_ofRecords {options : Options} {records : List SymbolRecord}
    {g : TypeGraph} {w : Diagnostics} (h : ofRecords options records = .ok (g, w)) :
    ∀ x ∈ w, x.finding ≠ .declarationRenamed := by
  obtain ⟨draft, d, ws, hdraft, hsettle, -, -, -, rfl⟩ := ofRecords_eq_ok h
  have hs := Draft.settled_spec (Draft.settled_eq_ok_iff.2 ⟨draft, ws, hdraft, hsettle⟩)
  intro x hx
  rcases List.mem_append.1 hx with hx | hx
  · simp [Draft.finding_of_settle hsettle x hx]
  · rw [hs.conflicts_eq] at hx
    obtain ⟨r, -, rfl⟩ := List.mem_map.1 hx
    simp [sizeConflict]

/-- Nor does planning. -/
theorem Plan.finding_ne_of_ofGraph (options : Options) (g : TypeGraph) :
    ∀ x ∈ (ofGraph options g).2, x.finding ≠ .declarationRenamed := by
  cases h : options.unifyTemplates with
  | true =>
    rw [ofGraph_of_unify h]
    intro x hx
    rcases List.mem_append.1 hx with hx | hx
    · obtain ⟨_, hy, hx⟩ := List.mem_flatMap.1 hx
      obtain ⟨⟨key, ids⟩, -, rfl⟩ := List.mem_map.1 hy
      rw [judge] at hx
      split at hx
      · cases hx
      · obtain rfl := List.mem_singleton.1 hx
        simp [ambiguousWarning]
    · simp [finding_demoteAll x hx]
  | false =>
    rw [ofGraph_of_not_unify h]
    simp

namespace Catalog

/-! ## Subjects with names -/

/-- The subjects of a catalog have chosen their names one after the other. -/
structure Named (c : Catalog) (records : List SymbolRecord) : Prop where
  /-- Subjects stand in the order in which records of classes first come to them. -/
  order : c.subjects = ((records.filter (·.kind.isClass)).filterMap fun r =>
    (c.graph.nodeOf? r.id).bind c.planned.subjectOf?).eraseDups
  /-- Each of them has a name. -/
  length : c.names.length = c.subjects.length
  /-- It is chosen when the paths of the subjects before it are taken. -/
  chosen : ∀ {n : Nat} {s : Subject} {name : DeclaredName}, c.subjects[n]? = some s →
    c.names[n]? = some name → name.Chosen c.short ((c.names.take n).map (·.path))
      (c.planned.preferred s).1 (c.planned.preferred s).2
  /-- It has a number exactly if the preferred path is among these. -/
  ident_ne_iff : ∀ {n : Nat} {s : Subject} {name : DeclaredName}, c.subjects[n]? = some s →
    c.names[n]? = some name → (name.ident ≠ (c.planned.preferred s).2 ↔
      DeclaredName.pathOf c.short (c.planned.preferred s).1 (c.planned.preferred s).2 ∈
        (c.names.take n).map (·.path))
  /-- No path is used twice. -/
  nodup : (c.names.map (·.path)).Nodup

/-- The entries of a catalog that did not get the identifier they prefer. -/
def renamed (c : Catalog) : List (Subject × DeclaredName) :=
  c.entries.filter fun x => x.2.ident ≠ (c.planned.preferred x.1).2

/-- A text is the name of a subject's declaration and of no other one. -/
def Means (c : Catalog) (documented : Bool) (text : String) (s : Subject) : Prop :=
  ∃ e ∈ c.entries, e.1 = s ∧
    ∀ e' ∈ c.entries, (c.declaration documented e'.1 e'.2).name = text ↔ e' = e

variable {options : Options} {records : List SymbolRecord} {g : TypeGraph} {w : Diagnostics}

/-- Subjects come in the order of the first records that they cover. -/
theorem subjects_eq (h : TypeGraph.ofRecords options records = .ok (g, w)) :
    (g.catalog options).subjects = ((records.filter (·.kind.isClass)).filterMap fun r =>
      (g.nodeOf? r.id).bind (g.planned options).subjectOf?).eraseDups := by
  obtain ⟨d, -, -, hs, hf⟩ := TypeGraph.exists_finishes h
  have hsubjects : (g.catalog options).subjects =
      (g.classes.filterMap (g.planned options).subjectOf?).eraseDups := rfl
  rw [hsubjects, hf.classes_eq_eraseDups hs, eraseDups_filterMap_eraseDups,
    List.filterMap_filterMap]

/-- The subjects of a catalog are named in this order. -/
theorem named_of_ofRecords (h : TypeGraph.ofRecords options records = .ok (g, w)) :
    (g.catalog options).Named records := by
  have hchosen {n : Nat} {s : Subject} {name : DeclaredName}
      (hs : (g.catalog options).subjects[n]? = some s)
      (hname : (g.catalog options).names[n]? = some name) :
      name.Chosen options.omitNamespaces (((g.catalog options).names.take n).map (·.path))
        ((g.planned options).preferred s).1 ((g.planned options).preferred s).2 := by
    have hchosen := PlannedGraph.chosen_of_getElem?_nameAll _ _ [] hs hname
    rwa [List.append_nil] at hchosen
  exact ⟨subjects_eq h, length_names g options, hchosen,
    fun hs hname => (hchosen hs hname).ident_ne_iff, PlannedGraph.nodup_path_nameAll _ _ _ _⟩

theorem Named.map_path_entries {c : Catalog} (h : c.Named records) :
    c.entries.map (·.2.path) = c.names.map (·.path) := by
  calc
    c.entries.map (·.2.path) = (c.entries.map Prod.snd).map (·.path) := (List.map_map ..).symm
    _ = c.names.map (·.path) := by rw [entries, List.map_snd_zip (Nat.le_of_eq h.length)]

/-- A path belongs to one subject. -/
theorem Named.entry_eq {c : Catalog} (h : c.Named records) {e e' : Subject × DeclaredName}
    (he : e ∈ c.entries) (he' : e' ∈ c.entries) (hpath : e.2.path = e'.2.path) : e = e' :=
  List.inj_on_of_nodup_map (h.map_path_entries ▸ h.nodup) he he' hpath

/-! ## Names of declarations -/

/-- The name of a declaration is its path, with the parameters behind it if there are any. -/
theorem exists_declaration_name (c : Catalog) (documented : Bool) (s : Subject)
    (name : DeclaredName) : ∃ l : List Char, (∀ x ∈ l.head?, x = '<') ∧
      (c.declaration documented s name).name.toList = name.path.toList ++ l := by
  unfold declaration
  split
  · next t _ =>
    refine ⟨t.paramList.toList, ?_, String.toList_append⟩
    unfold Struct.paramList
    split
    · simp [String.toList_append]
    · simp
  · exact ⟨[], by simp, (List.append_nil _).symm⟩

/-- A declaration without parameters is called by its path. -/
theorem declaration_name_of_not_generic (c : Catalog) (documented : Bool) {s : Subject}
    (hs : s.isGeneric = false) (name : DeclaredName) :
    (c.declaration documented s name).name = name.path := by
  unfold declaration
  split
  · next t ht =>
    have hlist : t.paramList = "" := by
      cases s with
      | generic f => cases hs
      | user id | specialized id =>
        obtain ⟨u, -, rfl⟩ := Option.map_eq_some_iff.1 ht
        rfl
    rw [hlist, String.append_empty]
  · rfl

/-- Declarations with one name are one. -/
theorem entry_eq_of_declaration_name (h : TypeGraph.ofRecords options records = .ok (g, w))
    (documented : Bool) {e e' : Subject × DeclaredName} (he : e ∈ (g.catalog options).entries)
    (he' : e' ∈ (g.catalog options).entries)
    (hname : ((g.catalog options).declaration documented e.1 e.2).name =
      ((g.catalog options).declaration documented e'.1 e'.2).name) : e = e' := by
  obtain ⟨l, hl, heq⟩ := exists_declaration_name (g.catalog options) documented e.1 e.2
  obtain ⟨l', hl', heq'⟩ := exists_declaration_name (g.catalog options) documented e'.1 e'.2
  have hpath : e.2.path = e'.2.path := by
    refine Name.Bare.eq_of_append_eq_append (bare_path h he) (bare_path h he') hl hl' ?_
    rw [← heq, ← heq', hname]
  exact (named_of_ofRecords h).entry_eq he he' hpath

/-! ## References -/

/-- A class with a declaration of its own is referred to by the path of that. -/
theorem refTo_of_not_generic {x : NodeId} {s : Subject} (hx : x ∈ g.classes)
    (hs : (g.planned options).subjectOf? x = some s) (hspecial : s.isGeneric = false) :
    ∃ name, (s, name) ∈ (g.catalog options).entries ∧
      (g.catalog options).refTo x = .declared name.path := by
  obtain ⟨n, hcovered, hn⟩ := exists_coveredBy? hx hs
  obtain ⟨name, hname, hpath⟩ := exists_name hn
  refine ⟨name, List.mem_of_getElem? (List.getElem?_zip_eq_some.2 ⟨hn, hname⟩), refTo_eq ?_⟩
  have hgeneric : (g.catalog options).isGeneric n = false := by
    rw [isGeneric, hn]
    exact hspecial
  rcases PlannedGraph.subjectOf?_cases hs with
    ⟨-, u, hnode⟩ | ⟨k, args, hnode, -⟩
  · have hnode : (g.catalog options).graph.arena.node? x = some (.user u) := hnode
    simp only [ref?_eq hnode, reading, hcovered, hpath]
  · have hnode : (g.catalog options).graph.arena.node? x = some (.template k args) := hnode
    simp only [ref?_eq hnode, reading, hcovered, hgeneric, hpath]
    rfl

/-- What is written for a class with a declaration of its own means that declaration. -/
theorem means_refTo (h : TypeGraph.ofRecords options records = .ok (g, w)) (documented : Bool)
    {x : NodeId} {s : Subject} (hx : x ∈ g.classes)
    (hs : (g.planned options).subjectOf? x = some s) (hspecial : s.isGeneric = false)
    (arity : Nat) : (g.catalog options).Means documented
      (((g.catalog options).refTo x).text arity) s := by
  obtain ⟨name, hentry, href⟩ := refTo_of_not_generic hx hs hspecial
  have hname := declaration_name_of_not_generic (g.catalog options) documented hspecial name
  refine ⟨(s, name), hentry, rfl, fun e he => ?_⟩
  rw [href, TypeRef.text, ← hname]
  refine ⟨entry_eq_of_declaration_name h documented he hentry, ?_⟩
  rintro rfl
  rfl

end Catalog

namespace Bindings

open Catalog

/-- Whenever bindings are generated, subjects have chosen their names one after the other, in
record order; no path and no name of a declaration is used twice; the reports of renamed
declarations are the notes of those that got a number, in order; and what is written for a user
type or an instantiation with a declaration of its own is the name of this declaration alone. -/
theorem ofRecords_names {options : Options} {records : List SymbolRecord} {b : Bindings}
    (h : ofRecords options records = .ok b) :
    ∃ g w, TypeGraph.ofRecords options records = .ok (g, w) ∧
      (g.catalog options).Named records ∧
      b.declarations.Perm ((g.catalog options).entries.map fun x =>
        (g.catalog options).declaration options.documented x.1 x.2) ∧
      (b.declarations.map (·.name)).Nodup ∧
      b.diagnostics.ofFinding .declarationRenamed = (g.catalog options).renamed.map (fun x =>
        x.2.renamedNote options.omitNamespaces ((g.planned options).preferred x.1).2) ∧
      ∀ x ∈ g.classes, ∀ s, (g.planned options).subjectOf? x = some s → s.isGeneric = false →
        ∀ arity, (g.catalog options).Means options.documented
          (((g.catalog options).refTo x).text arity) s := by
  obtain ⟨g, w, hgraph, hwritten, hdiagnostics⟩ := ofRecords_eq_ok h
  have hperm := declarations_perm hwritten
  refine ⟨g, w, hgraph, named_of_ofRecords hgraph, hperm, ?_, ?_, fun x hx s hs hspecial =>
    means_refTo hgraph options.documented hx hs hspecial⟩
  · rw [(hperm.map _).nodup_iff, List.map_map]
    have hnodup : (g.catalog options).entries.Nodup :=
      .of_map _ ((named_of_ofRecords hgraph).map_path_entries ▸ (named_of_ofRecords hgraph).nodup)
    exact hnodup.map_on fun e he e' he' => entry_eq_of_declaration_name hgraph _ he he'
  · have hnotes : (ofPlanned (g.planned options) options.omitNamespaces).2 =
        (g.catalog options).renamed.map fun x =>
          x.2.renamedNote options.omitNamespaces ((g.planned options).preferred x.1).2 :=
      PlannedGraph.notes_nameAll _ _ _ _
    rw [hdiagnostics, Diagnostics.ofFinding_append, Diagnostics.ofFinding_append,
      Diagnostics.ofFinding_eq_nil (TypeGraph.finding_ne_of_ofRecords hgraph),
      Diagnostics.ofFinding_eq_nil (Plan.finding_ne_of_ofGraph options g), hnotes]
    refine Diagnostics.ofFinding_eq_self fun x hx => ?_
    obtain ⟨e, -, rfl⟩ := List.mem_map.1 hx
    rfl

/-- Two classes that differ in their namespaces alone, and one with the name that the second of
them gets when namespaces are left out. -/
def threePoints : List SymbolRecord :=
  [.ofUserType ⟨1⟩ "a::Point" 8, .ofUserType ⟨2⟩ "b::Point" 8, .ofUserType ⟨3⟩ "Point2" 4]

theorem exists_ofRecords_threePoints :
    ∃ g w, TypeGraph.ofRecords { omitNamespaces := true } threePoints = .ok (g, w) ∧
      (g.catalog { omitNamespaces := true }).names.map (·.ident) =
        ["Point", "Point2", "Point2_2"] ∧
      ((g.catalog { omitNamespaces := true }).renamed.map fun x => x.2.ident) =
        ["Point2", "Point2_2"] :=
  TypeGraph.exists_ofRecords_and (by decide +kernel)

/-- The second class takes the name of the third, which gets a number itself: two notes. -/
theorem threePoints_distinct : ∃ b, ofRecords { omitNamespaces := true } threePoints = .ok b ∧
    (b.declarations.map (·.name)).Nodup ∧
    (b.diagnostics.ofFinding .declarationRenamed).length = 2 ∧
    ∃ g w, TypeGraph.ofRecords { omitNamespaces := true } threePoints = .ok (g, w) ∧
      (g.catalog { omitNamespaces := true }).names.map (·.ident) =
        ["Point", "Point2", "Point2_2"] := by
  obtain ⟨g, w, hgraph, hidents, hrenamed⟩ := exists_ofRecords_threePoints
  obtain ⟨b, hb⟩ : ∃ b, ofRecords { omitNamespaces := true } threePoints = .ok b :=
    exists_eq_ok (by decide +kernel)
  obtain ⟨g', w', hgraph', -, -, hnodup, hnotes, -⟩ := ofRecords_names hb
  obtain ⟨rfl, rfl⟩ := Prod.mk.inj (Except.ok.inj (hgraph.symm.trans hgraph'))
  have hlength := congrArg List.length hrenamed
  rw [List.length_map] at hlength
  refine ⟨b, hb, hnodup, ?_, g, w, hgraph, hidents⟩
  rw [hnotes, List.length_map, hlength]
  rfl

end Bindings

end NativeBindings
