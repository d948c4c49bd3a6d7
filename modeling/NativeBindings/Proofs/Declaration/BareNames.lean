import NativeBindings.Proofs.Declaration.WordNames

/-!
# Names without brackets

An argument list starts with an opening angle bracket, and nothing that names a declaration
contains one, because paths are words with separators between them (`Catalog.bare_path`). So the
name of a declaration, its path with a parameter list if it has one, gives the path back
(`Name.Bare.eq_of_append_eq_append`).
-/

namespace NativeBindings

namespace Name

/-- Text in which no argument list is opened. -/
def Bare (s : String) : Prop :=
  '<' ∉ s.toList

namespace Bare

variable {s t : String}

theorem intercalate {sep : String} (hsep : Bare sep) {ss : List String} (h : ∀ s ∈ ss, Bare s) :
    Bare (sep.intercalate ss) :=
  Text.not_mem_intercalate hsep h

theorem of_word (h : Word s) : Bare s :=
  fun hmem => absurd (h.chars _ hmem) (by decide)

/-- A bare text can be told from what is behind it, if that is nothing or an argument list. -/
theorem eq_of_append_eq_append {l m : List Char} (hs : Bare s) (ht : Bare t)
    (hl : ∀ c ∈ l.head?, c = '<') (hm : ∀ c ∈ m.head?, c = '<')
    (h : s.toList ++ l = t.toList ++ m) : s = t := by
  have hcut {s : String} {l : List Char} (hs : Bare s) (hl : ∀ c ∈ l.head?, c = '<') :
      (s.toList ++ l).takeWhile (· ≠ '<') = s.toList := by
    have hlist : l.takeWhile (· ≠ '<') = [] := by
      cases l with
      | nil => rfl
      | cons c l => simp [hl c rfl]
    rw [List.takeWhile_append_of_pos, hlist, List.append_nil]
    intro c hc
    exact decide_eq_true fun heq => hs (heq ▸ hc)
  refine String.toList_injective ?_
  rw [← hcut hs hl, h, hcut ht hm]

end Bare

end Name

/-- The paths of declarations have no brackets. -/
theorem Catalog.bare_path {options : Options} {records : List SymbolRecord} {g : TypeGraph}
    {w : Diagnostics} (h : TypeGraph.ofRecords options records = .ok (g, w)) {s : Subject}
    {name : DeclaredName} (he : (s, name) ∈ (g.catalog options).entries) :
    Name.Bare name.path := by
  obtain ⟨r, -, -, hnamed⟩ := exists_namedAfter h he
  rw [hnamed.path_eq]
  exact Name.Bare.intercalate (show '<' ∉ "::".toList by decide)
    fun w hw => .of_word (hnamed.word_of_mem_pathWords hw)

end NativeBindings
