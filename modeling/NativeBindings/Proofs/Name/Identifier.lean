import NativeBindings.Proofs.Name.Spaced

/-!
# Identifiers of any name

Whatever a native name is, its identifier is a letter or an underscore with letters, digits and
underscores behind it. It has the letters and digits of the name in their order, an underscore at
neither end but before a leading digit, and it is its own identifier
(`Name.identifier_wellFormed`).

All of this is read off the text that an identifier starts from: word characters with no underscore
at either end (`Name.IsSnug`).
-/

namespace NativeBindings.Name

variable {c : Char} {s : List Char}

/-! ## Letters and digits -/

/-- The letters and digits of a name are kept in order. -/
theorem map_snd_spacedFrom (gap : Option Nat) (s : List Char) :
    (spacedFrom gap s).map (·.2) = s.filter (·.isAlphanum) := by
  fun_induction spacedFrom gap s with
  | case1 => rfl
  | case2 gap c r hc ih => rw [List.map_cons, ih, List.filter_cons_of_pos hc]
  | case3 gap c r hc ih => rw [ih, List.filter_cons_of_neg hc]

theorem filter_spelled {ps : List (Nat × Char)} (h : ∀ p ∈ ps, p.2.isAlphanum = true) :
    (spelled ps).filter (·.isAlphanum) = ps.map (·.2) := by
  induction ps with
  | nil => rfl
  | cons p ps ih =>
    obtain ⟨n, c⟩ := p
    obtain ⟨hc, hps⟩ := List.forall_mem_cons.1 h
    have hgap : (List.replicate n '_').filter (·.isAlphanum) = [] :=
      List.filter_eq_nil_iff.2 fun d hd => by rw [List.eq_of_mem_replicate hd]; decide
    rw [spelled_cons, List.filter_append, hgap, List.nil_append, List.filter_cons_of_pos hc, ih hps,
      List.map_cons]

/-- An underscore in front adds no letter or digit. -/
theorem filter_started (s : List Char) :
    (started s).filter (·.isAlphanum) = s.filter (·.isAlphanum) := by
  have hunderscore : ¬Char.isAlphanum '_' = true := by decide
  unfold started
  split
  · exact List.filter_cons_of_neg hunderscore
  · split
    · exact List.filter_cons_of_neg hunderscore
    · rfl

/-- An identifier has the letters and digits of the name in their order. -/
theorem filter_identifier (name : List Char) :
    (identifier name).filter (·.isAlphanum) = name.filter (·.isAlphanum) := by
  rw [identifier_eq_started, filter_started, spaced,
    filter_spelled fun _ => isAlphanum_of_mem_spacedFrom, map_snd_spacedFrom]

/-! ## Once more -/

/-- What is spelled of a name has no more underscores than it needs. -/
theorem isSnug_spelled_spaced (name : List Char) : IsSnug (spelled (spaced name)) where
  chars c hc := by
    rw [← stripUnderscores_squeeze] at hc
    exact isWord_of_mem_squeeze (mem_of_mem_stripUnderscores hc)
  head := head?_spelled_spaced name
  last := getLast?_spelled_spaced name

/-- An underscore in front counts for nothing. -/
theorem spaced_started (s : List Char) : spaced (started s) = spaced s := by
  have hunderscore (s : List Char) : spaced ('_' :: s) = spaced s := by
    rw [spaced, spacedFrom, if_neg (by decide)]
    rfl
  unfold started
  split
  · exact hunderscore []
  · split
    · exact hunderscore _
    · rfl

/-- What is spelled so is its own identifier. -/
theorem IsSnug.identifier_started (h : IsSnug s) : identifier (started s) = started s := by
  rw [identifier_eq_started, spaced_started, h.spelled_spaced]

/-! ## Shape -/

/-- Behind a letter or an underscore come word characters only. -/
theorem IsSnug.exists_started_eq_cons (h : IsSnug s) : ∃ c r, started s = c :: r ∧
    (c.isAlpha = true ∨ c = '_') ∧ ∀ d ∈ r, d.isAlphanum = true ∨ d = '_' := by
  have hword {d : Char} (hd : d ∈ s) : d.isAlphanum = true ∨ d = '_' := by
    simpa [isWord] using h.chars d hd
  cases s with
  | nil => exact ⟨'_', [], rfl, Or.inr rfl, by simp⟩
  | cons c r =>
    rw [started]
    split
    · exact ⟨'_', c :: r, rfl, Or.inr rfl, fun d => hword⟩
    · next hdigit =>
      refine ⟨c, r, rfl, ?_, fun d hd => hword (List.mem_cons_of_mem c hd)⟩
      refine (hword List.mem_cons_self).imp_left fun halphanum => ?_
      rw [Char.isAlphanum, Bool.or_eq_true] at halphanum
      exact halphanum.resolve_right hdigit

theorem IsSnug.eq_underscore_of_getLast? (h : IsSnug s)
    (hlast : (started s).getLast? = some '_') : started s = ['_'] := by
  cases s with
  | nil => rfl
  | cons c r =>
    rw [started] at hlast
    split at hlast
    · rw [List.getLast?_cons_cons] at hlast
      exact absurd hlast h.last
    · exact absurd hlast h.last

theorem IsSnug.digit_of_head? (h : IsSnug s) (hhead : (started s).head? = some '_') :
    started s = ['_'] ∨ ∃ c r, started s = '_' :: c :: r ∧ c.isDigit = true := by
  cases s with
  | nil => exact Or.inl rfl
  | cons c r =>
    rw [started] at hhead ⊢
    split at hhead
    · next hdigit => exact Or.inr ⟨c, r, if_pos hdigit, hdigit⟩
    · exact absurd hhead h.head

/-- Only names without letters and digits become a bare underscore. -/
theorem identifier_eq_underscore_iff (name : List Char) :
    identifier name = ['_'] ↔ ∀ c ∈ name, c.isAlphanum = false := by
  have hfilter := filter_identifier name
  have hnone : name.filter (·.isAlphanum) = [] ↔ ∀ c ∈ name, c.isAlphanum = false := by
    simp
  rw [← hnone]
  constructor
  · intro h
    rw [← hfilter, h]
    rfl
  · intro h
    have hspaced : spaced name = [] := by
      rw [← List.map_eq_nil_iff, spaced, map_snd_spacedFrom, h]
    rw [identifier_eq_started, hspaced]
    rfl

/-- Every name has an identifier that can be written as one, keeps its letters and digits, and
needs no change to be one. -/
theorem identifier_wellFormed (name : List Char) :
    (∃ c r, identifier name = c :: r ∧ (c.isAlpha = true ∨ c = '_') ∧
      ∀ d ∈ r, d.isAlphanum = true ∨ d = '_') ∧
    ((identifier name).getLast? = some '_' → identifier name = ['_']) ∧
    ((identifier name).head? = some '_' → identifier name = ['_'] ∨
      ∃ c r, identifier name = '_' :: c :: r ∧ c.isDigit = true) ∧
    (identifier name = ['_'] ↔ ∀ c ∈ name, c.isAlphanum = false) ∧
    (identifier name).filter (·.isAlphanum) = name.filter (·.isAlphanum) ∧
    identifier (identifier name) = identifier name := by
  have hsnug := isSnug_spelled_spaced name
  refine ⟨?_, ?_, ?_, identifier_eq_underscore_iff name, filter_identifier name, ?_⟩ <;>
    rw [identifier_eq_started name]
  · exact hsnug.exists_started_eq_cons
  · exact hsnug.eq_underscore_of_getLast?
  · exact hsnug.digit_of_head?
  · exact hsnug.identifier_started

example : identifier "3d::<größe>__x_".toList = "_3d_gr_e___x".toList := by
  decide +kernel

end NativeBindings.Name
