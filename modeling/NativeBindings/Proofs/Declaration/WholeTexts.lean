import NativeBindings.Proofs.Declaration.References
import NativeBindings.Proofs.Declaration.WordNames
import NativeBindings.Proofs.Name.Applied

/-!
# References stay whole in lists

Applied paths are written with a list of their arguments. A reference that is well-formed closes
all brackets that it opens, and has commas inside of them alone, so a list is not cut within one
(`Catalog.WellFormed.whole`). The text of a list determines its entries, then, as far as it has so
many (`Name.eq_of_intercalate_eq`).
-/

namespace NativeBindings

/-! ## Lists -/

namespace Name

/-- A text that is not cut as an entry of a list with commas. -/
structure Whole (s : String) : Prop where
  balanced : Balanced s.toList
  single : ',' ∉ outside 0 s.toList

variable {s t path inner : String}

theorem outside_append {d e : Nat} {l : List Char} (h : depthBehind d l = some e)
    (m : List Char) : outside d (l ++ m) = outside d l ++ outside e m := by
  fun_induction depthBehind d l with
  | case1 d =>
    obtain rfl := Option.some.inj h
    rfl
  | case2 d c r ho ih => rw [List.cons_append, outside, if_pos ho, ih h, outside, if_pos ho]
  | case3 => cases h
  | case4 d c r ho hc hd ih =>
    rw [List.cons_append, outside, if_neg ho, if_pos hc, ih h, outside, if_neg ho, if_pos hc]
  | case5 d c r ho hc ih =>
    rw [List.cons_append, outside, if_neg ho, if_neg hc, ih h, outside, if_neg ho, if_neg hc]
    split <;> rfl

/-- Characters of words and colons alone open no bracket and cut no list. -/
theorem whole_of_plain (h : ∀ c ∈ s.toList, isWord c = true ∨ c = ':') : Whole s := by
  have hplain (c : Char) (hc : c ∈ s.toList) : opens c = false ∧ closes c = false := by
    rcases h c hc with hword | rfl
    · exact plain_of_isWord hword
    · decide
  refine ⟨depthBehind_plain hplain 0, fun hmem => ?_⟩
  rcases h _ (mem_of_mem_outside hmem) with hword | heq
  · exact absurd hword (by decide)
  · exact absurd heq (by decide)

theorem whole_word (h : Word s) : Whole s :=
  whole_of_plain fun c hc => Or.inl (h.chars c hc)

/-- Whatever stands in brackets, they are not cut. -/
theorem whole_bracketed (hpath : Whole path) (hinner : Balanced inner.toList) :
    Whole (path ++ "<" ++ inner ++ ">") := by
  have hlist : (path ++ "<" ++ inner ++ ">").toList =
      path.toList ++ '<' :: (inner.toList ++ ['>']) := by simp
  have hdepth : depthBehind 1 inner.toList = some 1 := depthBehind_add hinner 1
  have houtside : outside 1 inner.toList = [] := outside_add hinner 0
  constructor
  · have hclose : depthBehind 1 (inner.toList ++ ['>']) = some 0 := by
      rw [depthBehind_append, hdepth]
      rfl
    rw [hlist, Balanced, depthBehind_append, hpath.balanced]
    exact hclose
  · have hopen : outside 0 ('<' :: (inner.toList ++ ['>'])) = [] := by
      have hrest : outside 1 (inner.toList ++ ['>']) = [] := by
        rw [outside_append hdepth, houtside]
        rfl
      exact hrest
    rw [hlist, outside_append hpath.balanced, hopen, List.append_nil]
    exact hpath.single

theorem balanced_commaList {ss : List String} (h : ∀ s ∈ ss, Whole s) :
    Balanced (", ".intercalate ss).toList := by
  rw [String.toList_intercalate]
  exact balanced_intercalate (List.forall_mem_map.2 fun s hs => (h s hs).balanced)

/-- A whole entry is told apart from what comes behind it in a list. -/
theorem Whole.eq_of_append_eq {l m : List Char} (hs : Whole s) (ht : Whole t)
    (h : s.toList ++ ',' :: l = t.toList ++ ',' :: m) : s = t := by
  have hcomma (l : List Char) : cut [','] 0 (',' :: l) = [] :: cut [','] 0 l := by
    rw [cut]
    simp [opens, closes]
  have hleft := cut_append (hcomma l) hs.balanced hs.single
  have hright := cut_append (hcomma m) ht.balanced ht.single
  rw [h, hright, List.append_nil, List.append_nil] at hleft
  exact String.toList_inj.1 (List.cons.inj hleft).1.symm

/-- Lists of so many whole entries are told apart by their texts. -/
theorem eq_of_intercalate_eq : ∀ {ss ts : List String}, (∀ s ∈ ss, Whole s) → (∀ t ∈ ts, Whole t) →
    ss.length = ts.length → ", ".intercalate ss = ", ".intercalate ts → ss = ts
  | [], [], _, _, _, _ => rfl
  | [s], [t], _, _, _, h => by
    rw [String.intercalate_singleton, String.intercalate_singleton] at h
    rw [h]
  | s :: s' :: ss, t :: t' :: ts, hs, ht, hlen, h => by
    obtain ⟨hs, hss⟩ := List.forall_mem_cons.1 hs
    obtain ⟨ht, hts⟩ := List.forall_mem_cons.1 ht
    rw [String.intercalate_cons_cons, String.intercalate_cons_cons, String.append_assoc,
      String.append_assoc] at h
    have hchars := congrArg String.toList h
    rw [String.toList_append, String.toList_append, String.toList_append,
      String.toList_append] at hchars
    obtain rfl := hs.eq_of_append_eq ht hchars
    rw [String.append_right_inj, String.append_right_inj] at h
    rw [eq_of_intercalate_eq hss hts (Nat.succ.inj hlen) h]

end Name

/-! ## References -/

namespace Catalog

open Name

variable {options : Options} {records : List SymbolRecord} {g : TypeGraph} {w : Diagnostics}
  {documented : Bool}

/-- The path of a declaration is made of words with colons between them. -/
theorem whole_path (h : TypeGraph.ofRecords options records = .ok (g, w)) {s : Subject}
    {name : DeclaredName} (he : (s, name) ∈ (g.catalog options).entries) : Whole name.path := by
  obtain ⟨r, -, -, hnamed⟩ := exists_namedAfter h he
  refine whole_of_plain fun c hc => ?_
  by_contra hnone
  obtain ⟨hword, hcolon⟩ := not_or.1 hnone
  rw [hnamed.path_eq] at hc
  refine Text.not_mem_intercalate (by simpa using hcolon) (fun u hu hmem => hword ?_) hc
  exact (hnamed.word_of_mem_pathWords hu).chars c hmem

theorem whole_of_declares (h : TypeGraph.ofRecords options records = .ok (g, w)) {path : String}
    {arity : Option Nat} (hdeclares : (g.catalog options).Declares documented path arity) :
    Whole path := by
  obtain ⟨n, s, name, t, hs, hname, -, rfl, -⟩ := hdeclares
  exact whole_path h (List.mem_of_getElem? (List.getElem?_zip_eq_some.2 ⟨hs, hname⟩))

/-- A well-formed reference is written as a whole if the parameters are. -/
theorem WellFormed.whole {arity : Nat} {t : TypeRef}
    (ht : (g.catalog options).WellFormed documented arity t)
    (h : TypeGraph.ofRecords options records = .ok (g, w)) {params : List String}
    (hparams : ∀ p ∈ params, Whole p) {text : String} (hs : t.WrittenAs params text) :
    Whole text := by
  induction ht generalizing text with
  | scalar =>
    cases hs
    exact whole_word (Scalar.word_render _)
  | param =>
    cases hs with
    | param hi => exact hparams _ (List.mem_of_getElem? hi)
  | pointer _ ih =>
    cases hs with
    | pointer hs =>
      have hword : Word "Pointer" := by decide
      exact whole_bracketed (whole_word hword) (ih hs).balanced
  | array _ ih =>
    cases hs with
    | array hs =>
      have hword : Word "Array" := by decide
      exact whole_bracketed (whole_word hword) (ih hs).balanced
  | declared hdeclares =>
    cases hs
    exact whole_of_declares h hdeclares
  | applied hdeclares _ ih =>
    cases hs with
    | applied hlen hs =>
      have hall := List.forall₂_iff_zip.2 ⟨hlen, fun hmem => hs _ hmem⟩
      have hwhole := TypeRef.forall_text_of_args hall ih
      exact whole_bracketed (whole_of_declares h hdeclares) (balanced_commaList hwhole)

end Catalog

end NativeBindings
