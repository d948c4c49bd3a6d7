import NativeBindings.Proofs.Declaration.References
import NativeBindings.Proofs.Declaration.WordNames

/-!
# Legal identifiers

The identifiers of declarations are words, but a word may be reserved. For members there is a
rule for that (`Name.memberIdentifier`), for declarations and namespaces there is none: a class
called `type` is declared under a reserved word (`Bindings.keywordNamed_illegal`).

Nothing else goes wrong. No reserved word has a digit, so none comes from a number; none but `_`
has an underscore, so none is put together from the arguments of an instantiation. What remains
are the names and the namespaces of the classes themselves, so all names are legal exactly if
these are not reserved (`Bindings.ofRecords_legal_iff`).
-/

namespace NativeBindings

namespace Name

/-! ## Reserved words -/

/-- The words that are no identifiers. -/
def reserved : List String :=
  keywords ++ unrawable

/-- An identifier that may stand in a path. -/
structure Legal (s : String) : Prop where
  word : Word s
  free : s ∉ reserved

/-- A text without digits does not end in a number. -/
theorem append_toString_ne {t : String} (ht : t.toList.all (!·.isDigit) = true) (s : String)
    (k : Nat) : s ++ toString k ≠ t := by
  rintro rfl
  obtain ⟨c, hc⟩ := List.exists_mem_of_ne_nil _ (Nat.toDigits_ne_nil (n := k) (b := 10))
  have hdigit := Nat.isDigit_of_mem_toDigits (by omega) (by omega) hc
  have hc' : c ∈ (s ++ toString k).toList := by
    rw [String.toList_append, Nat.toString_eq_repr, Nat.toList_repr]
    exact List.mem_append_right _ hc
  simpa [hdigit] using List.all_eq_true.1 ht c hc'

/-- A number makes a word that is not reserved. -/
theorem append_toString_not_mem_reserved (s : String) (k : Nat) : s ++ toString k ∉ reserved := by
  have hall : ∀ t ∈ reserved, t.toList.all (!·.isDigit) = true := by decide +kernel
  exact fun hmem => append_toString_ne (hall _ hmem) s k rfl

theorem eq_of_mem_reserved {s : String} (hs : s ∈ reserved) (hc : '_' ∈ s.toList) : s = "_" := by
  have hall : ∀ s ∈ reserved, '_' ∈ s.toList → s = "_" := by decide +kernel
  exact hall s hs hc

end Name

open Name

/-- No class is named by a single underscore. -/
theorem SymbolRecord.ownName_ne_underscore (r : SymbolRecord) : r.ownName ≠ "_" := by
  have hname (ident : String) : (if ident = "_" then Draft.anonymous else ident) ≠ "_" := by
    split
    · decide
    · next h => exact h
  unfold ownName Draft.unfilled
  dsimp only
  exact hname _

theorem DeclaredName.numbered_not_mem_reserved (base : String) (k : Nat) :
    numbered base k ∉ reserved := by
  rw [numbered_eq]
  exact append_toString_not_mem_reserved _ k

namespace PlannedGraph

variable {p : PlannedGraph} {u : UserType}

/-- The arguments of an instantiation make an identifier that is not reserved either. -/
theorem specializedIdent_not_mem_reserved (hu : Word u.name) {args : List NodeId}
    (hargs : args ≠ []) : p.specializedIdent u args ∉ reserved := by
  obtain ⟨arg, args, rfl⟩ := List.exists_cons_of_ne_nil hargs
  have hname : (p.specializedIdent u (arg :: args)).toList = u.name.toList ++ '_' ::
      ((Name.identifier (p.graph.render true arg).toList) ++
        (String.join (args.map fun arg =>
          "_" ++ String.ofList (Name.identifier (p.graph.render true arg).toList))).toList) := by
    simp [specializedIdent, String.toList_join]
  intro hmem
  have heq := eq_of_mem_reserved hmem (by simp [hname])
  obtain ⟨c, hc⟩ := List.exists_mem_of_ne_nil _ (mt String.toList_eq_nil_iff.1 hu.ne_empty)
  have hlength := congrArg (fun s => s.toList.length) heq
  simp only [hname, List.length_append, List.length_cons] at hlength
  have hone : "_".toList.length = 1 := rfl
  have hpos := List.length_pos_of_mem hc
  omega

end PlannedGraph

/-! ## Texts -/

/-- A declaration introduces an identifier as the name of a struct. -/
def Declaration.Introduces (d : Declaration) (ident : String) : Prop :=
  ∃ above below, d.text = above ++ ("pub struct " ++ ident ++ below) ∧
    ∃ c ∈ below.toList.head?, isWord c = false

theorem Struct.introduces (t : Struct) (name : String) (scope : Option String) :
    Declaration.Introduces ⟨name, scope, t.text⟩ t.ident := by
  let rest := if t.members.isEmpty then " \x7b\x7d\n"
    else " \x7b\n" ++ String.join (t.members.map (·.text t.params)) ++ "\x7d\n"
  refine ⟨t.docText ++ t.native.attr t.params ++
    (if t.anyCase then "#[allow(non_camel_case_types)]\n" else ""), t.paramList ++ rest, ?_, ?_⟩
  · have hbody : t.body = "pub struct " ++ t.ident ++ (t.paramList ++ rest) := by
      unfold body
      simp only [rest]
      split <;> simp [String.append_assoc]
    rw [Struct.text, hbody]
  · have hrest : ∃ c ∈ rest.toList.head?, isWord c = false := by
      simp only [rest]
      split <;> simp [String.toList_append, isWord]
    unfold paramList
    split
    · simp [String.toList_append, isWord]
    · simpa using hrest

theorem Catalog.ident_of_struct? {c : Catalog} {documented : Bool} {ident : String} {s : Subject}
    {t : Struct} (h : c.struct? documented ident s = some t) : t.ident = ident := by
  cases s <;> obtain ⟨_, -, rfl⟩ := Option.map_eq_some_iff.1 h <;> rfl

namespace Catalog

/-- All names of a catalog are legal, those of the declarations and those in paths. -/
def LegallyNamed (c : Catalog) : Prop :=
  ∀ e ∈ c.entries, Legal e.2.ident ∧ ∀ s ∈ pathSegments e.2.path, Legal s

/-- The name and the namespace of a record's class are not reserved, as far as they are written:
one instantiation with a declaration of its own never has the bare name, and namespaces may be
left out. -/
structure Unreserved (c : Catalog) (r : SymbolRecord) : Prop where
  own : ∀ s, (c.graph.nodeOf? r.id).bind c.planned.subjectOf? = some s →
    (∀ id, s ≠ .specialized id) → r.ownName ∉ reserved
  scope : c.short = false → ∀ ns ∈ r.scopeWords, ∀ w ∈ ns, w ∉ reserved

namespace NamedAfter

variable {c : Catalog} {r : SymbolRecord} {s : Subject} {name : DeclaredName}
  (h : c.NamedAfter r s name)

include h

/-- A declaration has the bare name of a class, or an identifier that is not reserved. -/
theorem ident_cases :
    (name.ident = r.ownName ∧ ∀ id, s ≠ .specialized id) ∨ name.ident ∉ reserved := by
  obtain ⟨taken, -, hchosen⟩ := h.chosen
  rcases hchosen.ident_eq with heq | ⟨k, heq⟩
  · obtain ⟨u, hname, -, hprefers⟩ := h.prefers
    generalize c.planned.preferred s = p at heq hprefers
    cases hprefers with
    | plain hs => exact Or.inl ⟨heq.trans hname, hs⟩
    | specialized hargs =>
      right
      rw [heq]
      exact PlannedGraph.specializedIdent_not_mem_reserved (hname ▸ r.word_ownName) hargs
  · exact Or.inr (heq ▸ DeclaredName.numbered_not_mem_reserved _ k)

theorem ident_ne_underscore : name.ident ≠ "_" := by
  rcases h.ident_cases with ⟨heq, -⟩ | hfree
  · exact heq ▸ r.ownName_ne_underscore
  · rintro heq
    exact hfree (heq ▸ by decide)

/-- A declaration of a class whose name is not reserved has a legal identifier. -/
theorem legal_ident (hr : c.Unreserved r) : Legal name.ident := by
  refine ⟨h.word_ident, ?_⟩
  rcases h.ident_cases with ⟨heq, hs⟩ | hfree
  · exact heq ▸ hr.own s h.covers hs
  · exact hfree

theorem legal_pathSegments (hr : c.Unreserved r) {w : String} (hw : w ∈ pathSegments name.path) :
    Legal w := by
  rw [h.pathSegments_eq] at hw
  refine ⟨h.word_of_mem_pathWords hw, ?_⟩
  rcases List.mem_append.1 hw with hw | hw
  · cases hshort : c.short with
    | true => simp [hshort] at hw
    | false =>
      rw [hshort] at hw
      cases hns : r.scopeWords with
      | none => simp [hns] at hw
      | some ns =>
        rw [hns] at hw
        exact hr.scope hshort ns hns w hw
  · exact List.mem_singleton.1 hw ▸ (h.legal_ident hr).free

/-- If all names are legal, the class does not have a reserved one. -/
theorem unreserved (he : (s, name) ∈ c.entries) (hlegal : c.LegallyNamed) : c.Unreserved r where
  own s' hs' hplain := by
    obtain rfl := Option.some.inj (h.covers.symm.trans hs')
    obtain ⟨e, he', hpath⟩ := h.exists_preferred_path he hplain
    refine ((hlegal e he').2 r.ownName ?_).free
    rw [hpath, r.pathSegments_pathOf c.short r.word_ownName]
    exact List.mem_append_right _ (List.mem_singleton_self _)
  scope hshort ns hns w hw := by
    refine ((hlegal _ he).2 w ?_).free
    rw [h.pathSegments_eq, SymbolRecord.pathWords, hshort, Option.mem_def.1 hns]
    exact List.mem_append_left _ hw

end NamedAfter

end Catalog

namespace Bindings

open Catalog

/-- Whenever bindings are generated, every declaration introduces a word that is not the single
underscore, and every path is cut into words. They are all legal if and only if no class has a
reserved name or a reserved word in its namespace, as far as these are written. -/
theorem ofRecords_legal_iff {options : Options} {records : List SymbolRecord} {b : Bindings}
    (h : ofRecords options records = .ok b) :
    ∃ g w, TypeGraph.ofRecords options records = .ok (g, w) ∧
      b.declarations.Perm ((g.catalog options).entries.map fun e =>
        (g.catalog options).declaration options.documented e.1 e.2) ∧
      (∀ e ∈ (g.catalog options).entries, Word e.2.ident ∧ e.2.ident ≠ "_" ∧
        (∀ s ∈ pathSegments e.2.path, Word s) ∧
        ((g.catalog options).declaration options.documented e.1 e.2).Introduces e.2.ident) ∧
      ((g.catalog options).LegallyNamed ↔
        ∀ r ∈ records, r.kind.isClass = true → (g.catalog options).Unreserved r) := by
  obtain ⟨g, w, hgraph, hperm, hstructs⟩ := exists_structs h
  refine ⟨g, w, hgraph, hperm, fun e he => ?_, fun hlegal r hr hk => ?_, fun hfree e he => ?_⟩
  · obtain ⟨r, hr, hk, hnamed⟩ := exists_namedAfter hgraph he
    obtain ⟨t, ht, -⟩ := hstructs e he
    refine ⟨hnamed.word_ident, hnamed.ident_ne_underscore, fun s hs => ?_, ?_⟩
    · rw [hnamed.pathSegments_eq] at hs
      exact hnamed.word_of_mem_pathWords hs
    · rw [declaration, ht, ← ident_of_struct? ht]
      exact t.introduces _ _
  · obtain ⟨s, name, he, hnamed⟩ := exists_entry_of_record hgraph hr hk
    exact hnamed.unreserved he hlegal
  · obtain ⟨r, hr, hk, hnamed⟩ := exists_namedAfter hgraph he
    exact ⟨hnamed.legal_ident (hfree r hr hk), fun s => hnamed.legal_pathSegments (hfree r hr hk)⟩

/-- Classes whose native names are no identifiers. -/
def oddlyNamed : List SymbolRecord :=
  [.ofUserType ⟨1⟩ "(anonymous namespace)::<unnamed-tag>" 4, .ofUserType ⟨2⟩ "" 4,
    .ofUserType ⟨3⟩ "größe::3d" 8, .ofUserType ⟨4⟩ "type2" 8]

theorem exists_ofRecords_oddlyNamed : ∃ g w, TypeGraph.ofRecords {} oddlyNamed = .ok (g, w) ∧
    (g.catalog {}).names.map (·.path) =
      ["anonymous_namespace::unnamed_tag", "Anonymous", "gr_e::_3d", "type2"] :=
  TypeGraph.exists_ofRecords_and (by decide +kernel)

/-- Their names in the bindings are legal. -/
theorem oddlyNamed_legal : ∃ b, ofRecords {} oddlyNamed = .ok b ∧ ∃ g w,
    TypeGraph.ofRecords {} oddlyNamed = .ok (g, w) ∧ (g.catalog {}).LegallyNamed ∧
      (g.catalog {}).names.map (·.path) =
        ["anonymous_namespace::unnamed_tag", "Anonymous", "gr_e::_3d", "type2"] := by
  obtain ⟨g, w, hgraph, hpaths⟩ := exists_ofRecords_oddlyNamed
  obtain ⟨b, hb⟩ : ∃ b, ofRecords {} oddlyNamed = .ok b := exists_eq_ok (by decide +kernel)
  obtain ⟨g', w', hgraph', -, -, hlegal⟩ := ofRecords_legal_iff hb
  obtain ⟨rfl, rfl⟩ := Prod.mk.inj (Except.ok.inj (hgraph.symm.trans hgraph'))
  have hown : ∀ r ∈ oddlyNamed, r.ownName ∉ reserved := by decide +kernel
  have hscope : ∀ r ∈ oddlyNamed, ∀ ns ∈ r.scopeWords, ∀ w ∈ ns, w ∉ reserved := by
    decide +kernel
  exact ⟨b, hb, g, w, hgraph,
    hlegal.2 fun r hr _ => ⟨fun _ _ _ => hown r hr, fun _ => hscope r hr⟩, hpaths⟩

/-- A class that is called by a keyword. -/
def keywordNamed : List SymbolRecord :=
  [.ofUserType ⟨1⟩ "type" 8]

/-- It is declared under the keyword. -/
theorem keywordNamed_illegal : ∃ b, ofRecords {} keywordNamed = .ok b ∧
    ∃ d ∈ b.declarations, d.name = "type" ∧ d.Introduces "type" ∧ ¬Legal "type" := by
  obtain ⟨b, hb, hall⟩ : ∃ b, ofRecords {} keywordNamed = .ok b ∧ b.declarations =
      [⟨"type", none, "/// Native type `type` (8 bytes).\n" ++
        "#[native_type(name = \"type\", size = 8)]\n" ++ ("pub struct " ++ "type" ++
          " \x7b\x7d\n")⟩] := exists_eq_ok_and (by decide +kernel)
  exact ⟨b, hb, _, hall ▸ List.mem_singleton_self _, rfl, ⟨_, _, rfl, ' ', rfl, rfl⟩,
    fun h => h.free (by decide)⟩

end Bindings

end NativeBindings
