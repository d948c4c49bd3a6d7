import NativeBindings.Proofs.Declaration.Preferred
import NativeBindings.Proofs.Declaration.Written
import NativeBindings.Proofs.Name.Segments
import NativeBindings.Proofs.Text.Literals

/-!
# Names are made of words

Whatever the native names are, the identifier of a declaration is a word: letters, digits and
underscores, with no digit in front (`Catalog.NamedAfter.word_ident`). Its path is the identifier
behind the words of the namespace, if that is written, and cutting the path gives them back
(`Catalog.NamedAfter.pathSegments_eq`).
-/

namespace NativeBindings

namespace Name

/-! ## Words -/

/-- Letters, digits and underscores, with no digit in front. -/
structure Word (s : String) : Prop where
  chars : ∀ c ∈ s.toList, isWord c = true
  head : ∃ c ∈ s.toList.head?, c.isDigit = false

theorem word_iff {s : String} : Word s ↔
    s.toList.all isWord = true ∧ s.toList.head?.any (!·.isDigit) = true := by
  rw [List.all_eq_true, Option.any_eq_true]
  simp only [Bool.not_eq_true']
  exact ⟨fun h => ⟨h.chars, h.head⟩, fun h => ⟨h.1, h.2⟩⟩

instance : DecidablePred Word :=
  fun _ => decidable_of_iff' _ word_iff

theorem isWord_of_isDigit {c : Char} (h : c.isDigit = true) : isWord c = true := by
  simp [isWord, Char.isAlphanum, h]

theorem isWord_of_mem_toString {k : Nat} {c : Char} (h : c ∈ (toString k).toList) :
    isWord c = true :=
  isWord_of_isDigit (Text.isDigit_of_mem_toString h)

namespace Word

variable {s t : String}

theorem ne_empty (h : Word s) : s ≠ "" := by
  rintro rfl
  obtain ⟨c, hc, -⟩ := h.head
  simp at hc

theorem append (hs : Word s) (ht : ∀ c ∈ t.toList, isWord c = true) : Word (s ++ t) where
  chars c hc := by
    rw [String.toList_append, List.mem_append] at hc
    exact hc.elim (hs.chars c) (ht c)
  head := by
    obtain ⟨c, hc, hdigit⟩ := hs.head
    refine ⟨c, ?_, hdigit⟩
    rw [String.toList_append, List.head?_append, Option.mem_def.1 hc]
    rfl

/-- Every identifier is a word. -/
theorem identifier (native : List Char) : Word (String.ofList (Name.identifier native)) where
  chars c hc := isWord_of_mem_identifier (String.toList_ofList ▸ hc)
  head := by
    rw [String.toList_ofList]
    unfold Name.identifier
    split
    · exact ⟨'_', rfl, rfl⟩
    · next c r _ =>
      split
      · exact ⟨'_', rfl, rfl⟩
      · next hdigit => exact ⟨c, rfl, Bool.eq_false_iff.2 hdigit⟩

end Word

/-! ## Cutting paths -/

/-- The segments of a path. -/
def pathSegments (path : String) : List String :=
  (segments path.toList).map String.ofList

theorem plain_of_isWord {c : Char} (hc : isWord c = true) : opens c = false ∧ closes c = false := by
  constructor
  · by_contra h
    simp only [opens, Bool.not_eq_false, Bool.or_eq_true, beq_iff_eq] at h
    rcases h with (rfl | rfl) | rfl <;> simp [isWord, Char.isAlphanum] at hc
  · by_contra h
    simp only [closes, Bool.not_eq_false, Bool.or_eq_true, beq_iff_eq] at h
    rcases h with (rfl | rfl) | rfl <;> simp [isWord, Char.isAlphanum] at hc

/-- There are no brackets and no colons in words. -/
theorem balanced_word {p : List Char} (hp : ∀ c ∈ p, isWord c = true) :
    Balanced p ∧ ':' ∉ outside 0 p := by
  refine ⟨depthBehind_plain (fun c hc => plain_of_isWord (hp c hc)) 0, fun hmem => ?_⟩
  exact absurd (hp _ (mem_of_mem_outside hmem)) (by decide)

theorem segments_word {p : List Char} (hp : ∀ c ∈ p, isWord c = true) : segments p = [p] :=
  segments_single (balanced_word hp).1 (balanced_word hp).2

/-- Cutting a path gives the words that it was put together from. -/
theorem pathSegments_intercalate {ws : List String} (hne : ws ≠ []) (h : ∀ w ∈ ws, Word w) :
    pathSegments ("::".intercalate ws) = ws := by
  have hwords : ∀ p ∈ ws.map String.toList, Balanced p ∧ ':' ∉ outside 0 p :=
    List.forall_mem_map.2 fun w hw => balanced_word (h w hw).chars
  rw [pathSegments, String.toList_intercalate, show "::".toList = separator from rfl,
    segments_intercalate (by simpa using hne) hwords, List.map_map]
  simp

end Name

open Name

/-- What a primitive is written as is a word. -/
theorem Scalar.word_render (native : String) : Word (Scalar.render native) := by
  have hscalars : ∀ s ∈ spellings, Word s.1 := by decide +kernel
  unfold render
  split
  · next scalar h =>
    obtain ⟨s, hs, rfl⟩ := Option.map_eq_some_iff.1 h
    exact hscalars s (List.mem_of_find?_eq_some hs)
  · exact Word.identifier native.toList

/-! ## Names of classes -/

namespace SymbolRecord

/-- The name of the record's class in the bindings. -/
def ownName (r : SymbolRecord) : String :=
  (Draft.unfilled r r.isApplied).name

/-- The words of the namespace of the record's class, if it is in one. -/
def scopeWords (r : SymbolRecord) : Option (List String) :=
  (Name.split r.name.toList).1.map fun ns =>
    (segments ns).map fun s => String.ofList (Name.identifier s)

/-- A class is called by a word. -/
theorem word_ownName (r : SymbolRecord) : Word r.ownName := by
  have hname (native : List Char) : Word (if String.ofList (Name.identifier native) = "_" then
      Draft.anonymous else String.ofList (Name.identifier native)) := by
    split
    · decide
    · exact Word.identifier native
  unfold ownName Draft.unfilled
  dsimp only
  exact hname _

/-- The namespaces of a class are words. -/
theorem word_of_mem_scopeWords {r : SymbolRecord} {ns : List String} (hns : ns ∈ r.scopeWords)
    {w : String} (hw : w ∈ ns) : Word w := by
  obtain ⟨scope, -, rfl⟩ := Option.map_eq_some_iff.1 hns
  obtain ⟨s, -, rfl⟩ := List.mem_map.1 hw
  exact Word.identifier s

/-- The namespace of a class is made of the words in front of its name. -/
theorem scope_unfilled (r : SymbolRecord) (isTemplate : Bool) :
    (Draft.unfilled r isTemplate).scope = r.scopeWords.map ("::".intercalate ·) := by
  rw [scopeWords, Option.map_map]
  rfl

/-- The words of a path in the namespace of the record's class. -/
def pathWords (short : Bool) (r : SymbolRecord) (ident : String) : List String :=
  (if short then [] else r.scopeWords.getD []) ++ [ident]

/-- A path is made of the words of the namespace and the identifier. -/
theorem pathOf_eq_intercalate (short : Bool) (r : SymbolRecord) (ident : String) :
    DeclaredName.pathOf short (Draft.unfilled r r.isApplied).scope ident =
      "::".intercalate (r.pathWords short ident) := by
  rw [scope_unfilled, pathWords]
  cases hscope : r.scopeWords with
  | none => cases short <;> simp [DeclaredName.pathOf]
  | some ns =>
    cases short with
    | true => simp [DeclaredName.pathOf]
    | false =>
      have hne : ns ≠ [] := by
        obtain ⟨scope, -, rfl⟩ := Option.map_eq_some_iff.1 hscope
        exact mt List.map_eq_nil_iff.1 (cut_ne_nil separator 0 scope)
      simp [DeclaredName.pathOf, String.intercalate_append_of_ne_nil hne]

/-- A path is made of words if its identifier is one. -/
theorem word_of_mem_pathWords {short : Bool} {r : SymbolRecord} {ident w : String}
    (h : Word ident) (hw : w ∈ r.pathWords short ident) : Word w := by
  rcases List.mem_append.1 hw with hw | hw
  · cases short with
    | true => simp at hw
    | false =>
      cases hscope : r.scopeWords with
      | none => simp [hscope] at hw
      | some ns =>
        rw [hscope] at hw
        exact word_of_mem_scopeWords hscope hw
  · exact List.mem_singleton.1 hw ▸ h

/-- A path in the namespace of a class is cut into its words. -/
theorem pathSegments_pathOf (short : Bool) (r : SymbolRecord) {ident : String} (h : Word ident) :
    pathSegments (DeclaredName.pathOf short (Draft.unfilled r r.isApplied).scope ident) =
      r.pathWords short ident := by
  rw [pathOf_eq_intercalate]
  exact pathSegments_intercalate (by simp [pathWords]) fun w => word_of_mem_pathWords h

end SymbolRecord

/-! ## Names of declarations -/

namespace DeclaredName

theorem word_numbered {base : String} (h : Word base) (k : Nat) : Word (numbered base k) := by
  rw [numbered_eq]
  refine (h.append ?_).append fun c => isWord_of_mem_toString
  unfold separator
  split <;> simp [isWord]

end DeclaredName

/-- A declaration wants to be called by a word if its class is. -/
theorem PlannedGraph.Prefers.word {p : PlannedGraph} {u : UserType} {s : Subject}
    {name : Option String × String} (h : p.Prefers u s name) (hu : Word u.name) :
    Word name.2 := by
  cases h with
  | plain => exact hu
  | @specialized id args =>
    refine hu.append fun c hc => ?_
    rw [String.toList_join, List.mem_flatMap] at hc
    obtain ⟨part, hpart, hc⟩ := hc
    obtain ⟨arg, -, rfl⟩ := List.mem_map.1 hpart
    rw [String.toList_append, List.mem_append] at hc
    rcases hc with hc | hc
    · obtain rfl := List.mem_singleton.1 hc
      rfl
    · exact (Word.identifier _).chars c hc

namespace Catalog

/-- A declaration that covers the class of a record has a name. -/
structure NamedAfter (c : Catalog) (r : SymbolRecord) (s : Subject) (name : DeclaredName) :
    Prop where
  /-- It covers the class. -/
  covers : (c.graph.nodeOf? r.id).bind c.planned.subjectOf? = some s
  /-- It prefers the name of the class. -/
  prefers : ∃ u, u.name = r.ownName ∧ u.scope = (Draft.unfilled r r.isApplied).scope ∧
    c.planned.Prefers u s (c.planned.preferred s)
  /-- Its name was chosen when some paths of other declarations were taken. -/
  chosen : ∃ taken, (∀ path ∈ taken, ∃ e ∈ c.entries, e.2.path = path) ∧
    name.Chosen c.short taken (c.planned.preferred s).1 (c.planned.preferred s).2

namespace NamedAfter

variable {c : Catalog} {r : SymbolRecord} {s : Subject} {name : DeclaredName}
  (h : c.NamedAfter r s name)

include h

/-- A declaration stands in the namespace of the class that it covers. -/
theorem scope_eq : (c.planned.preferred s).1 = (Draft.unfilled r r.isApplied).scope := by
  obtain ⟨u, -, hscope, hprefers⟩ := h.prefers
  generalize c.planned.preferred s = p at hprefers
  cases hprefers <;> exact hscope

/-- A declaration wants to be called by a word. -/
theorem word_preferred : Word (c.planned.preferred s).2 := by
  obtain ⟨u, hname, -, hprefers⟩ := h.prefers
  exact hprefers.word (hname ▸ r.word_ownName)

/-- The identifier of a declaration is a word. -/
theorem word_ident : Word name.ident := by
  obtain ⟨taken, -, hchosen⟩ := h.chosen
  rcases hchosen.ident_eq with heq | ⟨k, heq⟩
  · exact heq ▸ h.word_preferred
  · exact heq ▸ DeclaredName.word_numbered h.word_preferred k

theorem word_of_mem_pathWords {w : String} (hw : w ∈ r.pathWords c.short name.ident) : Word w :=
  SymbolRecord.word_of_mem_pathWords h.word_ident hw

/-- Its path is put together from the words of the namespace and the identifier. -/
theorem path_eq : name.path = "::".intercalate (r.pathWords c.short name.ident) := by
  obtain ⟨taken, -, hchosen⟩ := h.chosen
  rw [hchosen.path_eq, h.scope_eq, SymbolRecord.pathOf_eq_intercalate]

/-- The path of a declaration is cut into its words again. -/
theorem pathSegments_eq : pathSegments name.path = r.pathWords c.short name.ident := by
  obtain ⟨taken, -, hchosen⟩ := h.chosen
  rw [hchosen.path_eq, h.scope_eq]
  exact r.pathSegments_pathOf c.short h.word_ident

/-- Some declaration has the path that the name of the class gives: the one that covers the class,
unless that is one of a single instantiation, or the one that took the path. -/
theorem exists_preferred_path (he : (s, name) ∈ c.entries) (hs : ∀ id, s ≠ .specialized id) :
    ∃ e ∈ c.entries, e.2.path =
      DeclaredName.pathOf c.short (Draft.unfilled r r.isApplied).scope r.ownName := by
  obtain ⟨u, hname, hscope, hprefers⟩ := h.prefers
  obtain ⟨taken, htaken, hchosen⟩ := h.chosen
  have hpreferred : c.planned.preferred s = ((Draft.unfilled r r.isApplied).scope, r.ownName) := by
    generalize c.planned.preferred s = p at hprefers
    cases hprefers with
    | plain => rw [hname, hscope]
    | specialized => exact absurd rfl (hs _)
  rw [hpreferred] at hchosen
  dsimp only at hchosen
  by_cases hfree :
      DeclaredName.pathOf c.short (Draft.unfilled r r.isApplied).scope r.ownName ∈ taken
  · exact htaken _ hfree
  · have hident : name.ident = r.ownName := not_ne_iff.1 (mt hchosen.ident_ne_iff.1 hfree)
    exact ⟨(s, name), he, by rw [hchosen.path_eq, hident]⟩

end NamedAfter

variable {options : Options} {records : List SymbolRecord} {g : TypeGraph} {w : Diagnostics}

/-- A subject chooses its name when only paths of other declarations are taken. -/
theorem exists_chosen {n : Nat} {s : Subject} {name : DeclaredName}
    (hs : (g.catalog options).subjects[n]? = some s)
    (hname : (g.catalog options).names[n]? = some name) :
    ∃ taken, (∀ path ∈ taken, ∃ e ∈ (g.catalog options).entries, e.2.path = path) ∧
      name.Chosen options.omitNamespaces taken ((g.planned options).preferred s).1
        ((g.planned options).preferred s).2 := by
  refine ⟨_, fun path hpath => ?_, PlannedGraph.chosen_of_getElem?_nameAll _ _ [] hs hname⟩
  rw [List.append_nil] at hpath
  obtain ⟨other, hother, rfl⟩ := List.mem_map.1 hpath
  have hmem : other ∈ (g.catalog options).names := List.mem_of_mem_take hother
  rw [← map_snd_entries] at hmem
  obtain ⟨e, he, rfl⟩ := List.mem_map.1 hmem
  exact ⟨e, he, rfl⟩

/-- Every name is the name of a declaration that covers the class of a record. -/
theorem exists_namedAfter (h : TypeGraph.ofRecords options records = .ok (g, w))
    {s : Subject} {name : DeclaredName} (he : (s, name) ∈ (g.catalog options).entries) :
    ∃ r ∈ records, r.kind.isClass = true ∧ (g.catalog options).NamedAfter r s name := by
  obtain ⟨n, hn⟩ := List.mem_iff_getElem?.1 he
  obtain ⟨hs, hname⟩ := List.getElem?_zip_eq_some.1 hn
  obtain ⟨x, hx, hsubject, u, hu, hprefers⟩ :=
    PlannedGraph.prefers_of_mem_subjects h (List.mem_of_getElem? hs)
  obtain ⟨r, hr, hk, hnode, hhead⟩ := TypeGraph.exists_record_of_class h hx hu
  have hnode' : (g.catalog options).graph.nodeOf? r.id = some x := hnode
  have hown : u.head.name = r.ownName := congrArg UserType.name hhead
  have hscope : u.head.scope = (Draft.unfilled r r.isApplied).scope :=
    congrArg UserType.scope hhead
  exact ⟨r, hr, hk, by rw [hnode']; exact hsubject, ⟨u, hown, hscope, hprefers⟩,
    exists_chosen hs hname⟩

/-- The class of every record is covered by a declaration with a name. -/
theorem exists_entry_of_record (h : TypeGraph.ofRecords options records = .ok (g, w))
    {r : SymbolRecord} (hr : r ∈ records) (hk : r.kind.isClass = true) :
    ∃ s name, (s, name) ∈ (g.catalog options).entries ∧
      (g.catalog options).NamedAfter r s name := by
  obtain ⟨x, hx, hnode, u, hu, hname, hscope⟩ := TypeGraph.exists_class_of_record h hr hk
  obtain ⟨s, hs⟩ := PlannedGraph.exists_subjectOf? (p := g.planned options) hu
  have hmem : s ∈ (g.catalog options).subjects := PlannedGraph.mem_subjects_iff.2 ⟨x, hx, hs⟩
  obtain ⟨n, hn⟩ := List.mem_iff_getElem?.1 hmem
  obtain ⟨name, hentry, -⟩ := exists_name hn
  have hnode' : (g.catalog options).graph.nodeOf? r.id = some x := hnode
  exact ⟨s, name, List.mem_of_getElem? (List.getElem?_zip_eq_some.2 ⟨hn, hentry⟩),
    by rw [hnode']; exact hs, ⟨u, hname, hscope, PlannedGraph.prefers_of_subjectOf? h hs hu⟩,
    exists_chosen hn hentry⟩

end Catalog

end NativeBindings
