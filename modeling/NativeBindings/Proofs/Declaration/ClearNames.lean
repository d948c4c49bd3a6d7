import NativeBindings.Proofs.Declaration.References
import NativeBindings.Proofs.Declaration.WordNames

/-!
# Names that are not clear

References write words of different origins beside each other: paths of declarations, wrappers,
what primitives are written as, and parameters. Declarations are told apart from each other only.
A class called `T` can be written inside `Box<T>`, where it means the parameter
(`Bindings.shadowedClass_ambiguous`), and a class called `Array` is declared beside the wrapper.

Only a class whose namespace is not written can be mistaken, since every other path has a
separator in it, and only for what its name can become: itself, or itself with digits or an
underscore behind it (`Catalog.NamedAfter.isVariant_ident`). Where no such class has a name of
another meaning, all names are clear (`Bindings.ofRecords_unambiguous`).
-/

namespace NativeBindings

namespace TypeRef

/-! ## Paths in references -/

/-- The wrappers that the runtime library provides. -/
def wrappers : List String :=
  ["Array", "Pointer", "Void", "Variable"]

mutual

/-- The paths of declarations that a reference writes. -/
def paths : TypeRef → List String
  | scalar _ | param _ | foreign _ => []
  | pointer t | array t => t.paths
  | declared path => [path]
  | applied path args => path :: pathsOfAll args

/-- The paths that several references write. -/
def pathsOfAll : List TypeRef → List String
  | [] => []
  | t :: ts => t.paths ++ pathsOfAll ts

end

theorem mem_pathsOfAll {path : String} {ts : List TypeRef} :
    path ∈ pathsOfAll ts ↔ ∃ t ∈ ts, path ∈ t.paths := by
  induction ts with
  | nil => simp [pathsOfAll]
  | cons t ts ih => simp [pathsOfAll, ih]

/-- Parameters are called by words. -/
theorem word_paramName (i arity : Nat) : Name.Word (paramName i arity) := by
  have hT : Name.Word "T" := by decide
  unfold paramName
  split
  · exact hT
  · exact hT.append fun c => Name.isWord_of_mem_toString

end TypeRef

open Name

namespace Catalog

variable {options : Options} {g : TypeGraph}

/-- References write the paths of declarations. -/
theorem exists_entry_of_coveredBy? {x : NodeId} {n : Nat}
    (h : (g.catalog options).coveredBy? x = some n) :
    ∃ e ∈ (g.catalog options).entries, e.2.path = (g.catalog options).path n := by
  obtain ⟨s, -, hn⟩ := (coveredBy?_eq_some_iff (nodup_subjects g options)).1 h
  obtain ⟨name, hname, hpath⟩ := exists_name hn
  exact ⟨(s, name), List.mem_of_getElem? (List.getElem?_zip_eq_some.2 ⟨hn, hname⟩), hpath.symm⟩

/-- The paths in what refers to a node are those of declarations. -/
theorem Refers.exists_entry {x : NodeId} {t : TypeRef} (h : (g.catalog options).Refers x t)
    {path : String} (hpath : path ∈ t.paths) :
    ∃ e ∈ (g.catalog options).entries, e.2.path = path := by
  induction h with
  | scalar | uncovered | placeholder => cases hpath
  | pointer _ _ ih | array _ _ ih | enumeration _ _ ih => exact ih hpath
  | user _ hcovered | special _ hcovered =>
    obtain rfl := List.mem_singleton.1 hpath
    exact exists_entry_of_coveredBy? hcovered
  | generic _ hcovered _ hlen _ ih =>
    rcases List.mem_cons.1 hpath with rfl | hpath
    · exact exists_entry_of_coveredBy? hcovered
    · obtain ⟨t, ht, hpath⟩ := TypeRef.mem_pathsOfAll.1 hpath
      obtain ⟨y, hmem⟩ := exists_zip_of_mem_right hlen ht
      exact ih _ hmem hpath

/-- The paths in a reference to a node are those of declarations. -/
theorem exists_entry_of_refTo {x : NodeId} {path : String}
    (hpath : path ∈ ((g.catalog options).refTo x).paths) :
    ∃ e ∈ (g.catalog options).entries, e.2.path = path := by
  obtain h | h := (g.catalog options).refTo_cases x
  · exact h.exists_entry hpath
  · rw [h] at hpath
    cases hpath

mutual

/-- A scheme writes paths of declarations, unless it mentions a family without one. -/
theorem exists_entry_of_spelled : ∀ {s : Scheme} {path : String},
    path ∈ ((g.catalog options).spelled s).paths → path ≠ "" →
      ∃ e ∈ (g.catalog options).entries, e.2.path = path
  | .unspelled, _, h, _ | .param _, _, h, _ => by cases h
  | .concrete id _, _, h, _ => exists_entry_of_refTo h
  | .pointer s, _, h, hne => exists_entry_of_spelled (s := s) h hne
  | .array s, _, h, hne => exists_entry_of_spelled (s := s) h hne
  | .template f ss, path, h, hne => by
    rcases List.mem_cons.1 h with rfl | h
    · unfold familyPath at hne ⊢
      cases hn : (g.catalog options).numberOf? (.generic f) with
      | none => simp [hn] at hne
      | some n =>
        have hsubject := (numberOf?_eq_some_iff (nodup_subjects g options)).1 hn
        obtain ⟨name, hname, hpath⟩ := exists_name hsubject
        rw [Option.map_some, Option.getD_some, hpath]
        exact ⟨(_, name), List.mem_of_getElem? (List.getElem?_zip_eq_some.2 ⟨hsubject, hname⟩), rfl⟩
    · exact exists_entry_of_spelledAll h hne

theorem exists_entry_of_spelledAll : ∀ {ss : List Scheme} {path : String},
    path ∈ TypeRef.pathsOfAll ((g.catalog options).spelledAll ss) → path ≠ "" →
      ∃ e ∈ (g.catalog options).entries, e.2.path = path
  | [], _, h, _ => by cases h
  | s :: ss, _, h, hne => by
    rcases List.mem_append.1 h with h | h
    · exact exists_entry_of_spelled h hne
    · exact exists_entry_of_spelledAll h hne

end

end Catalog

/-! ## What an identifier can become -/

namespace Name

/-- A text, or the text with something behind it that starts with a digit or an underscore. -/
def IsVariant (base s : String) : Prop :=
  ∃ rest : String, s = base ++ rest ∧ ∀ c ∈ rest.toList.head?, c.isDigit = true ∨ c = '_'

namespace IsVariant

variable {a b c : String}

theorem refl (a : String) : IsVariant a a :=
  ⟨"", String.append_empty.symm, by simp⟩

theorem trans (h : IsVariant a b) (h' : IsVariant b c) : IsVariant a c := by
  obtain ⟨rest, rfl, hrest⟩ := h
  obtain ⟨rest', rfl, hrest'⟩ := h'
  refine ⟨rest ++ rest', String.append_assoc, fun c hc => ?_⟩
  rw [String.toList_append, List.head?_append, Option.mem_def, Option.or_eq_some_iff] at hc
  exact hc.elim (hrest c) fun hc => hrest' c hc.2

theorem numbered (base : String) (k : Nat) : IsVariant base (DeclaredName.numbered base k) := by
  rw [DeclaredName.numbered_eq, String.append_assoc]
  refine ⟨_, rfl, fun c hc => ?_⟩
  unfold DeclaredName.separator at hc
  split at hc
  · exact Or.inr (by simpa [String.toList_append, eq_comm] using hc)
  · rw [String.empty_append, Nat.toString_eq_repr, Nat.toList_repr] at hc
    exact Or.inl (Nat.isDigit_of_mem_toDigits (by omega) (by omega) (List.mem_of_mem_head? hc))

/-- A variant starts with what it is a variant of. -/
theorem isPrefix (h : IsVariant a b) : a.toList <+: b.toList := by
  obtain ⟨rest, rfl, -⟩ := h
  rw [String.toList_append]
  exact List.prefix_append ..

end IsVariant

end Name

/-- A declaration wants to be called by a variant of the name of its class. -/
theorem PlannedGraph.Prefers.isVariant {p : PlannedGraph} {u : UserType} {s : Subject}
    {name : Option String × String} (h : p.Prefers u s name) : IsVariant u.name name.2 := by
  cases h with
  | plain => exact .refl u.name
  | @specialized id args hargs =>
    obtain ⟨arg, args, rfl⟩ := List.exists_cons_of_ne_nil hargs
    refine ⟨_, rfl, fun c hc => Or.inr ?_⟩
    simpa [String.toList_join, eq_comm] using hc

namespace Catalog

/-- A declaration is called by a variant of the name of its class. -/
theorem NamedAfter.isVariant_ident {c : Catalog} {r : SymbolRecord} {s : Subject}
    {name : DeclaredName} (h : c.NamedAfter r s name) : IsVariant r.ownName name.ident := by
  obtain ⟨u, hown, -, hprefers⟩ := h.prefers
  obtain ⟨taken, -, hchosen⟩ := h.chosen
  have hvariant : IsVariant r.ownName (c.planned.preferred s).2 := hown ▸ hprefers.isVariant
  rcases hchosen.ident_eq with heq | ⟨k, heq⟩
  · exact heq ▸ hvariant
  · exact heq ▸ hvariant.trans (.numbered _ k)

/-! ## Clear names -/

/-- The name of a wrapper, or what some primitive of the graph is written as. -/
def IsBuiltin (c : Catalog) (word : String) : Prop :=
  word ∈ TypeRef.wrappers ∨
    ∃ x native, c.graph.arena.node? x = some (.primitive native) ∧ word = Scalar.render native

/-- No path has another meaning: none is the name of something that is not declared, and none is
written where it is the name of a parameter. -/
structure Unambiguous (c : Catalog) (documented : Bool) : Prop where
  declared : ∀ e ∈ c.entries, ¬c.IsBuiltin e.2.path
  written : ∀ e ∈ c.entries, ∀ t ∈ c.struct? documented e.2.ident e.1, ∀ arity ∈ t.arity,
    ∀ ref ∈ t.references, ∀ path ∈ ref.paths, path ∉ TypeRef.paramNames arity

/-- The namespace of the record's class is not written. -/
def Exposes (c : Catalog) (r : SymbolRecord) : Prop :=
  c.short = true ∨ r.scopeWords = none

/-- The identifier of the record's class has no other meaning, not even where it is written. -/
structure Clear (c : Catalog) (documented : Bool) (r : SymbolRecord) : Prop where
  builtin : ∀ e ∈ c.entries, c.NamedAfter r e.1 e.2 → ¬c.IsBuiltin e.2.ident
  param : ∀ e ∈ c.entries, c.NamedAfter r e.1 e.2 →
    ∀ e' ∈ c.entries, ∀ t ∈ c.struct? documented e'.2.ident e'.1, ∀ arity ∈ t.arity,
      ∀ ref ∈ t.references, e.2.path ∈ ref.paths → e.2.ident ∉ TypeRef.paramNames arity

theorem Exposes.pathWords {c : Catalog} {r : SymbolRecord} (h : c.Exposes r) (ident : String) :
    r.pathWords c.short ident = [ident] := by
  rcases h with hshort | hnone <;> simp [SymbolRecord.pathWords, *]

theorem IsBuiltin.word {c : Catalog} {word : String} (h : c.IsBuiltin word) : Word word := by
  have hwrappers : ∀ s ∈ TypeRef.wrappers, Word s := by decide +kernel
  rcases h with h | ⟨x, native, -, rfl⟩
  · exact hwrappers _ h
  · exact Scalar.word_render native

namespace NamedAfter

variable {c : Catalog} {r : SymbolRecord} {s : Subject} {name : DeclaredName}
  (h : c.NamedAfter r s name)

include h

/-- A path that is a word is the identifier, and comes without a namespace. -/
theorem exposes_of_word (hword : Word name.path) : c.Exposes r ∧ name.path = name.ident := by
  have hsegments := h.pathSegments_eq
  rw [pathSegments, segments_word hword.chars, List.map_singleton, String.ofList_toList,
    SymbolRecord.pathWords] at hsegments
  have hpath : name.path = name.ident := by
    have hlast := congrArg List.getLast? hsegments
    rw [List.getLast?_singleton, List.getLast?_append, List.getLast?_singleton] at hlast
    exact Option.some.inj hlast
  refine ⟨?_, hpath⟩
  cases hshort : c.short with
  | true => exact Or.inl hshort
  | false =>
    right
    cases hns : r.scopeWords with
    | none => rfl
    | some ns =>
      have hlength := congrArg List.length hsegments
      rw [hshort, hns] at hlength
      obtain ⟨scope, -, rfl⟩ := Option.map_eq_some_iff.1 hns
      obtain ⟨p, ps, hps⟩ := List.exists_cons_of_ne_nil (cut_ne_nil separator 0 scope)
      simp [segments, hps] at hlength

/-- A declaration that is exposed has its identifier for a path. -/
theorem path_eq_ident (hr : c.Exposes r) : name.path = name.ident := by
  rw [h.path_eq, hr.pathWords, String.intercalate_singleton]

end NamedAfter

variable {options : Options} {records : List SymbolRecord} {g : TypeGraph} {w : Diagnostics}

/-- A generic declaration writes paths of declarations. -/
theorem exists_entry_of_mem_paths {documented : Bool} {ident : String} {s : Subject} {t : Struct}
    (ht : (g.catalog options).struct? documented ident s = some t) {arity : Nat}
    (harity : t.arity = some arity) {ref : TypeRef} (href : ref ∈ t.references) {path : String}
    (hpath : path ∈ ref.paths) (hne : path ≠ "") :
    ∃ e ∈ (g.catalog options).entries, e.2.path = path := by
  cases s with
  | user id | specialized id =>
    obtain ⟨u, -, rfl⟩ := Option.map_eq_some_iff.1 ht
    cases harity
  | generic f =>
    obtain ⟨l, -, rfl⟩ := Option.map_eq_some_iff.1 ht
    rw [references_genericStruct] at href
    obtain ⟨scheme, -, rfl⟩ := List.mem_map.1 href
    exact exists_entry_of_spelled hpath hne

theorem exists_of_mem_paramNames {arity : Nat} {path : String}
    (h : path ∈ TypeRef.paramNames arity) : ∃ i, path = TypeRef.paramName i arity := by
  obtain ⟨i, -, rfl⟩ := List.mem_map.1 h
  exact ⟨i, rfl⟩

/-- Names are ambiguous exactly if a class whose namespace is not written is not clear. -/
theorem unambiguous_iff (h : TypeGraph.ofRecords options records = .ok (g, w))
    (documented : Bool) : (g.catalog options).Unambiguous documented ↔
      ∀ r ∈ records, r.kind.isClass = true → (g.catalog options).Exposes r →
        (g.catalog options).Clear documented r := by
  constructor
  · intro hnames r hr hk hexposes
    have hpath {e : Subject × DeclaredName} (hnamed : (g.catalog options).NamedAfter r e.1 e.2) :
        e.2.ident = e.2.path := (hnamed.path_eq_ident hexposes).symm
    refine ⟨fun e he hnamed => ?_, fun e he hnamed e' he' t ht arity harity ref href hmem => ?_⟩
    · rw [hpath hnamed]
      exact hnames.declared e he
    · rw [hpath hnamed]
      exact hnames.written e' he' t ht arity harity ref href _ hmem
  · intro hclear
    have hword {e : Subject × DeclaredName} (he : e ∈ (g.catalog options).entries)
        (hword : Word e.2.path) : ∃ r, (g.catalog options).Clear documented r ∧
          (g.catalog options).NamedAfter r e.1 e.2 ∧ e.2.path = e.2.ident := by
      obtain ⟨r, hr, hk, hnamed⟩ := exists_namedAfter h he
      obtain ⟨hexposes, hpath⟩ := hnamed.exposes_of_word hword
      exact ⟨r, hclear r hr hk hexposes, hnamed, hpath⟩
    refine ⟨fun e he hbuiltin => ?_, fun e he t ht arity harity ref href path hpath hmem => ?_⟩
    · obtain ⟨r, hr, hnamed, hpath⟩ := hword he hbuiltin.word
      exact hr.builtin e he hnamed (hpath ▸ hbuiltin)
    · obtain ⟨i, rfl⟩ := exists_of_mem_paramNames hmem
      have hparam := TypeRef.word_paramName i arity
      obtain ⟨e', he', heq⟩ := exists_entry_of_mem_paths ht harity href hpath hparam.ne_empty
      obtain ⟨r, hr, hnamed, hident⟩ := hword he' (heq ▸ hparam)
      refine hr.param e' he' hnamed e he t ht arity harity ref href (heq ▸ hpath) ?_
      rw [← hident, heq]
      exact hmem

end Catalog

namespace Bindings

open Catalog

/-- Names in bindings are clear exactly if no class whose namespace is not written has an
identifier with another meaning. They are if nothing that the names of such classes can become is
the name of a wrapper, of a primitive or of a parameter; and they are not if one of these classes
is called like a wrapper or a primitive. -/
theorem ofRecords_unambiguous {options : Options} {records : List SymbolRecord} {b : Bindings}
    (h : ofRecords options records = .ok b) :
    ∃ g w, TypeGraph.ofRecords options records = .ok (g, w) ∧
      b.declarations.Perm ((g.catalog options).entries.map fun e =>
        (g.catalog options).declaration options.documented e.1 e.2) ∧
      ((g.catalog options).Unambiguous options.documented ↔
        ∀ r ∈ records, r.kind.isClass = true → (g.catalog options).Exposes r →
          (g.catalog options).Clear options.documented r) ∧
      ((∀ r ∈ records, r.kind.isClass = true → (g.catalog options).Exposes r →
          ∀ word, IsVariant r.ownName word →
            ¬(g.catalog options).IsBuiltin word ∧ ∀ i arity, word ≠ TypeRef.paramName i arity) →
        (g.catalog options).Unambiguous options.documented) ∧
      ((g.catalog options).Unambiguous options.documented →
        ∀ r ∈ records, r.kind.isClass = true → (g.catalog options).Exposes r →
          ∀ s, (g.nodeOf? r.id).bind (g.planned options).subjectOf? = some s →
            (∀ id, s ≠ .specialized id) → ¬(g.catalog options).IsBuiltin r.ownName) := by
  obtain ⟨g, w, hgraph, hwritten⟩ := exists_of_ofRecords h
  have hiff := unambiguous_iff hgraph options.documented
  refine ⟨g, w, hgraph, declarations_perm hwritten, hiff, fun hwords => ?_,
    fun hnames r hr hk hexposes s hs hplain hbuiltin => ?_⟩
  · refine hiff.2 fun r hr hk hexposes => ⟨fun e he hnamed => ?_, fun e he hnamed => ?_⟩
    · exact (hwords r hr hk hexposes _ hnamed.isVariant_ident).1
    · intro e' he' t ht arity harity ref href hpath hmem
      obtain ⟨i, heq⟩ := exists_of_mem_paramNames hmem
      exact (hwords r hr hk hexposes _ hnamed.isVariant_ident).2 i arity heq
  · obtain ⟨s', name, he, hnamed⟩ := exists_entry_of_record hgraph hr hk
    obtain rfl := Option.some.inj (hnamed.covers.symm.trans hs)
    obtain ⟨e, he', hpath⟩ := hnamed.exists_preferred_path he hplain
    refine hnames.declared e he' ?_
    rwa [hpath, SymbolRecord.pathOf_eq_intercalate, hexposes.pathWords,
      String.intercalate_singleton]

/-- A class `T` in a namespace, and a template with a field of this class. -/
def qualifiedClass : List SymbolRecord :=
  [.ofPrimitive ⟨1⟩ "int" 4, .ofUserType ⟨2⟩ "geo::T" 4,
    ((SymbolRecord.ofInstantiation ⟨3⟩ "Box<int>" 8 [⟨1⟩]).addField "a" ⟨1⟩ 0).addField "b" ⟨2⟩ 4]

/-- The names of these records, and the primitives that they come to. -/
theorem exists_ofRecords_qualifiedClass : ∃ g w,
    TypeGraph.ofRecords {} qualifiedClass = .ok (g, w) ∧
      (g.catalog {}).names.map (·.path) = ["geo::T", "Box"] ∧
      ∀ n ∈ g.arena.nodes.toList, ∀ native, n = .primitive native →
        native ∈ ["void", "Variable", "int"] := by
  obtain ⟨g, w, h, hpaths, hall⟩ : ∃ g w, TypeGraph.ofRecords {} qualifiedClass = .ok (g, w) ∧
      (g.catalog {}).names.map (·.path) = ["geo::T", "Box"] ∧
      ∀ n ∈ g.arena.nodes.toList, (match n with
        | .primitive native => decide (native ∈ ["void", "Variable", "int"])
        | _ => true) = true := TypeGraph.exists_ofRecords_and (by decide +kernel)
  refine ⟨g, w, h, hpaths, ?_⟩
  rintro _ hn native rfl
  simpa using hall _ hn

/-- The class is written by its path, which is not the parameter. -/
theorem qualifiedClass_unambiguous : ∃ b, ofRecords {} qualifiedClass = .ok b ∧ ∃ g w,
    TypeGraph.ofRecords {} qualifiedClass = .ok (g, w) ∧ (g.catalog {}).Unambiguous true ∧
      (g.catalog {}).names.map (·.path) = ["geo::T", "Box"] := by
  obtain ⟨g, w, hgraph, hpaths, hprimitives⟩ := exists_ofRecords_qualifiedClass
  obtain ⟨b, hb⟩ : ∃ b, ofRecords {} qualifiedClass = .ok b := exists_eq_ok (by decide +kernel)
  obtain ⟨g', w', hgraph', -, -, hclear, -⟩ := ofRecords_unambiguous hb
  obtain ⟨rfl, rfl⟩ := Prod.mk.inj (Except.ok.inj (hgraph.symm.trans hgraph'))
  refine ⟨b, hb, g, w, hgraph, hclear fun r hr hk hexposes word hword => ?_, hpaths⟩
  have hown : r.ownName = "Box" := by
    have hnames : ∀ r ∈ qualifiedClass, r.kind.isClass = true → r.scopeWords = none →
        r.ownName = "Box" := by decide +kernel
    exact hnames r hr hk (hexposes.resolve_left (by simp [TypeGraph.catalog, ofPlanned]))
  have hprefix := hown ▸ hword.isPrefix
  refine ⟨?_, fun i arity heq => ?_⟩
  · rintro (hwrapper | ⟨x, native, hx, rfl⟩)
    · have hall : ∀ s ∈ TypeRef.wrappers, ¬"Box".toList <+: s.toList := by decide
      exact hall word hwrapper hprefix
    · have hall : ∀ native ∈ ["void", "Variable", "int"],
          ¬"Box".toList <+: (Scalar.render native).toList := by decide +kernel
      exact hall native (hprimitives _ (Array.mem_toList_iff.2 (Array.mem_of_getElem? hx)) _ rfl)
        hprefix
  · rw [heq, TypeRef.paramName] at hprefix
    split at hprefix <;> simp [String.toList_append] at hprefix

/-- A class `T`, and a template with a field of this class. -/
def shadowedClass : List SymbolRecord :=
  [.ofPrimitive ⟨1⟩ "int" 4, .ofUserType ⟨2⟩ "T" 4,
    ((SymbolRecord.ofInstantiation ⟨3⟩ "Box<int>" 8 [⟨1⟩]).addField "a" ⟨1⟩ 0).addField "b" ⟨2⟩ 4]

/-- The class is written inside the template, where it is the parameter. -/
theorem shadowedClass_ambiguous : ∃ b, ofRecords {} shadowedClass = .ok b ∧
    b.declarations.map (·.name) = ["T", "Box<T>"] ∧ ∃ g w,
      TypeGraph.ofRecords {} shadowedClass = .ok (g, w) ∧ ¬(g.catalog {}).Unambiguous true := by
  obtain ⟨g, w, hgraph, e, he, t, ht, arity, harity, ref, href, path, hpath, hparam⟩ : ∃ g w,
      TypeGraph.ofRecords {} shadowedClass = .ok (g, w) ∧ ∃ e ∈ (g.catalog {}).entries,
        ∃ t ∈ (g.catalog {}).struct? true e.2.ident e.1, ∃ arity ∈ t.arity, ∃ ref ∈ t.references,
          ∃ path ∈ ref.paths, path ∈ TypeRef.paramNames arity :=
    TypeGraph.exists_ofRecords_and (by decide +kernel)
  obtain ⟨b, hb, hnames⟩ : ∃ b, ofRecords {} shadowedClass = .ok b ∧
      b.declarations.map (·.name) = ["T", "Box<T>"] := exists_eq_ok_and (by decide +kernel)
  exact ⟨b, hb, hnames, g, w, hgraph,
    fun h => h.written e he t ht arity harity ref href path hpath hparam⟩

end Bindings

end NativeBindings
