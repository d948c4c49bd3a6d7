import Mathlib.Data.List.Basic
import NativeBindings.Text.Quoted

/-!
# Literals

What the literals of a source file denote: a numeral in hexadecimal a number
(`Text.SpellsHexadecimal`), and a string literal a text (`Text.Literal`). In a string literal a
backslash starts an escape, a line break is one character however it is written, and a backslash
before a line break leaves out the blanks that follow.

A quoted text is a literal that denotes this text (`Text.literal_quoteBody`). A text that only
stands between quotes is one if and only if it holds no quote, no backslash and no carriage return
(`Text.literal_verbatim_iff`).
-/

namespace NativeBindings.Text

/-- What stands neither in texts nor between them is not in the list of them. -/
theorem not_mem_intercalate {x : Char} {sep : String} (hsep : x ∉ sep.toList) :
    ∀ {ss : List String}, (∀ s ∈ ss, x ∉ s.toList) → x ∉ (sep.intercalate ss).toList
  | [], _ => List.not_mem_nil
  | [s], h => by
    rw [String.intercalate_singleton]
    exact h s List.mem_cons_self
  | s :: t :: ss, h => by
    have ih := not_mem_intercalate hsep fun u hu => h u (List.mem_cons_of_mem s hu)
    rw [String.intercalate_cons_cons, String.toList_append, String.toList_append]
    exact List.not_mem_append (List.not_mem_append (h s List.mem_cons_self) hsep) ih

/-! ## Numerals -/

theorem isDigit_of_mem_toString {n : Nat} {c : Char} (h : c ∈ (toString n).toList) :
    c.isDigit = true := by
  rw [Nat.toString_eq_repr, Nat.toList_repr] at h
  exact Nat.isDigit_of_mem_toDigits (by omega) (by omega) h

theorem isDigit_of_mem_toString_int {n : Int} {c : Char} (h : c ∈ (toString n).toList) :
    c = '-' ∨ c.isDigit = true := by
  cases n with
  | ofNat m => exact Or.inr (isDigit_of_mem_toString h)
  | negSucc m =>
    have hminus : (toString (Int.negSucc m)).toList = "-".toList ++ (toString (m + 1)).toList :=
      String.toList_append
    rw [hminus] at h
    rcases List.mem_append.1 h with h | h
    · exact Or.inl (List.mem_singleton.1 h)
    · exact Or.inr (isDigit_of_mem_toString h)

/-- Digits of a number in lower-case hexadecimal, as few as possible. -/
structure SpellsHexadecimal (n : Nat) (digits : List Char) : Prop where
  ne_nil : digits ≠ []
  lower : ∀ c ∈ digits, c.isDigit = true ∨ 'a' ≤ c ∧ c ≤ 'f'
  value : digits.foldl (fun v c => 16 * v + (hexValue? c).getD 0) 0 = n
  fewest : digits.head? = some '0' → n = 0

/-- Hexadecimal digits are worth the number that they write. -/
theorem spellsHexadecimal (n : Nat) : SpellsHexadecimal n (hexadecimal n) := by
  induction n using Nat.strongRecOn with
  | _ n ih =>
    have hdigit : ∀ k < 16, (k.digitChar.isDigit = true ∨ 'a' ≤ k.digitChar ∧ k.digitChar ≤ 'f') ∧
        hexValue? k.digitChar = some k ∧ (k.digitChar = '0' → k = 0) := by decide
    rw [hexadecimal]
    by_cases hlt : n < 16
    · obtain ⟨hlower, hvalue, hzero⟩ := hdigit n hlt
      rw [Nat.toDigits_of_lt_base hlt]
      exact ⟨List.cons_ne_nil _ _, List.forall_mem_singleton.2 hlower, by simp [hvalue],
        fun hhead => hzero (Option.some.inj hhead)⟩
    · obtain ⟨hne, hlower, hvalue, hfewest⟩ := ih (n / 16) (by omega)
      obtain ⟨hlower', hvalue', -⟩ := hdigit (n % 16) (by omega)
      rw [hexadecimal] at hne hlower hvalue hfewest
      rw [Nat.toDigits_of_base_le (by decide) (by omega)]
      refine ⟨by simp, fun c hc => ?_, ?_, fun hhead => ?_⟩
      · rcases List.mem_append.1 hc with hc | hc
        · exact hlower c hc
        · exact List.mem_singleton.1 hc ▸ hlower'
      · rw [List.foldl_append, hvalue]
        simp only [List.foldl_cons, List.foldl_nil, hvalue', Option.getD_some]
        omega
      · rw [List.head?_append_of_ne_nil _ hne] at hhead
        have hsmall := hfewest hhead
        omega

/-! ## String literals -/

/-- The letters behind a backslash that stand for one character each. -/
def letterEscapes : List (Char × Char) :=
  [('n', '\n'), ('r', '\r'), ('t', '\t'), ('0', '\x00'), ('\\', '\\'), ('"', '"'),
    ('\x27', '\x27')]

/-- The blanks that a backslash before a line break leaves out. -/
def layoutBlanks : List Char :=
  [' ', '\t', '\n', '\r']

/-- What may stand behind a backslash, and the character that it denotes: one letter, two digits
for an ASCII character, or up to six digits in braces for any one, with underscores between. -/
inductive Escape : List Char → Char → Prop
  | letter {e c : Char} (h : (e, c) ∈ letterEscapes) : Escape [e] c
  | ascii {a b c : Char} {m n : Nat} (ha : hexValue? a = some m) (hb : hexValue? b = some n)
    (hm : m < 8) (hc : c.toNat = 16 * m + n) : Escape ['x', a, b] c
  | point {digits : List Char} {c : Char} (hhead : digits.head? ≠ some '_')
    (hdigits : ∀ d ∈ digits, d = '_' ∨ (hexValue? d).isSome = true)
    (hone : 1 ≤ (digits.filter (· != '_')).length) (hsix : (digits.filter (· != '_')).length ≤ 6)
    (hc : (digits.filter (· != '_')).foldl (fun v d => 16 * v + (hexValue? d).getD 0) 0 = c.toNat) :
    Escape ('u' :: '{' :: (digits ++ ['}'])) c

/-- Behind the opening quote, a text goes on as a string literal that denotes `s`, up to a closing
quote and the rest behind it. -/
inductive Literal : List Char → List Char → List Char → Prop
  | close (rest : List Char) : Literal ('"' :: rest) [] rest
  | char {c : Char} {t s rest : List Char} (hc : c ≠ '"' ∧ c ≠ '\\' ∧ c ≠ '\r')
    (h : Literal t s rest) : Literal (c :: t) (c :: s) rest
  | newline {t s rest : List Char} (h : Literal t s rest) :
    Literal ('\r' :: '\n' :: t) ('\n' :: s) rest
  | escape {e t s rest : List Char} {c : Char} (he : Escape e c) (h : Literal t s rest) :
    Literal ('\\' :: (e ++ t)) (c :: s) rest
  | continued {newline blanks t s rest : List Char} (hnewline : newline ∈ [['\n'], ['\r', '\n']])
    (hblanks : ∀ c ∈ blanks, c ∈ layoutBlanks) (hhead : ∀ c ∈ t.head?, c ∉ layoutBlanks)
    (h : Literal t s rest) : Literal ('\\' :: (newline ++ blanks ++ t)) s rest

/-- A text all of which stands for itself in a string literal. -/
def Verbatim (s : List Char) : Prop :=
  ∀ c ∈ s, c ≠ '"' ∧ c ≠ '\\' ∧ c ≠ '\r'

instance : DecidablePred Verbatim :=
  List.decidableBAll fun c => c ≠ '"' ∧ c ≠ '\\' ∧ c ≠ '\r'

variable {s t rest tail : List Char} {c : Char}

theorem Escape.length_pos {e : List Char} (h : Escape e c) : 1 ≤ e.length := by
  cases h <;> simp

/-- A literal is as long as the text that it denotes if it is this text, and longer otherwise. -/
theorem Literal.exists_body (h : Literal t s rest) : ∃ body, t = body ++ '"' :: rest ∧
    s.length ≤ body.length ∧ (s.length = body.length → s = body ∧ Verbatim body) := by
  induction h with
  | close rest => exact ⟨[], rfl, Nat.le_refl _, fun _ => ⟨rfl, by simp [Verbatim]⟩⟩
  | @char c t s rest hc _ ih =>
    obtain ⟨body, rfl, hle, heq⟩ := ih
    refine ⟨c :: body, rfl, Nat.succ_le_succ hle, fun hlength => ?_⟩
    obtain ⟨rfl, hverbatim⟩ := heq (Nat.succ.inj hlength)
    exact ⟨rfl, List.forall_mem_cons.2 ⟨hc, hverbatim⟩⟩
  | newline _ ih =>
    obtain ⟨body, rfl, hle, -⟩ := ih
    refine ⟨'\r' :: '\n' :: body, rfl, ?_, fun hlength => ?_⟩
    · simp only [List.length_cons]
      omega
    · simp only [List.length_cons] at hlength
      omega
  | @escape e t s rest c he _ ih =>
    obtain ⟨body, rfl, hle, -⟩ := ih
    have hpos := he.length_pos
    refine ⟨'\\' :: (e ++ body), by simp, ?_, fun hlength => ?_⟩
    · simp only [List.length_cons, List.length_append]
      omega
    · simp only [List.length_cons, List.length_append] at hlength
      omega
  | @continued newline blanks t s rest _ _ _ _ ih =>
    obtain ⟨body, rfl, hle, -⟩ := ih
    refine ⟨'\\' :: (newline ++ blanks ++ body), by simp, ?_, fun hlength => ?_⟩
    · simp only [List.length_cons, List.length_append]
      omega
    · simp only [List.length_cons, List.length_append] at hlength
      omega

/-! ## Quoted texts -/

theorem escape_hexadecimal (c : Char) :
    Escape ('u' :: '{' :: (hexadecimal c.toNat ++ ['}'])) c := by
  have hspells := spellsHexadecimal c.toNat
  have hdigit {d : Char} (hd : d ∈ hexadecimal c.toNat) :
      (d != '_') = true ∧ (hexValue? d).isSome = true := by
    have hlower := hspells.lower d hd
    constructor
    · rw [bne_iff_ne]
      rintro rfl
      exact absurd hlower (by decide)
    · unfold hexValue?
      rcases hlower with hdigit | hletter
      · rw [if_pos hdigit]
        rfl
      · split <;> rfl
  have hfilter : (hexadecimal c.toNat).filter (· != '_') = hexadecimal c.toNat :=
    List.filter_eq_self.2 fun d hd => (hdigit hd).1
  have hlength : (hexadecimal c.toNat).length ≤ 6 := by
    have hvalid : c.toNat < 0xd800 ∨ 0xdfff < c.toNat ∧ c.toNat < 0x110000 := c.valid
    exact (Nat.length_toDigits_le_iff (by decide) (by decide)).2 (by omega)
  refine .point (fun hhead => ?_) (fun d hd => Or.inr (hdigit hd).2) ?_ ?_ ?_
  · exact absurd (hdigit (List.mem_of_mem_head? hhead)).1 (by decide)
  · rw [hfilter]
    exact List.length_pos_iff.2 hspells.ne_nil
  · rw [hfilter]
    exact hlength
  · rw [hfilter]
    exact hspells.value

/-- A character is quoted as something that a literal reads as it. -/
theorem literal_quoteChar (c : Char) (h : Literal t s rest) :
    Literal (quoteChar c ++ t) (c :: s) rest := by
  unfold quoteChar
  split
  · exact .escape (.letter (e := '0') (by decide)) h
  · exact .escape (.letter (e := 't') (by decide)) h
  · exact .escape (.letter (e := 'n') (by decide)) h
  · exact .escape (.letter (e := 'r') (by decide)) h
  · exact .escape (.letter (e := '"') (by decide)) h
  · exact .escape (.letter (e := '\\') (by decide)) h
  · next hreturn hquote hbackslash =>
    split
    · exact .char ⟨hquote, hbackslash, hreturn⟩ h
    · exact .escape (escape_hexadecimal _) h

/-- A text is written in quotes so that it is read back. -/
theorem literal_quoteBody (s rest : List Char) : Literal (quoteBody s ++ '"' :: rest) s rest := by
  induction s with
  | nil => exact .close rest
  | cons c s ih =>
    rw [quoteBody, List.flatMap_cons, List.append_assoc]
    exact literal_quoteChar c ih

/-! ## Texts between quotes -/

/-- A text without quotes, backslashes and line breaks stands for itself. -/
theorem literal_of_verbatim (hs : Verbatim s) (tail : List Char) :
    Literal (s ++ '"' :: tail) s tail := by
  induction s with
  | nil => exact .close tail
  | cons c s ih =>
    obtain ⟨hc, hs⟩ := List.forall_mem_cons.1 hs
    exact .char hc (ih hs)

/-- With no quote behind it, what stands between two quotes denotes itself only if all of it stands
for itself. The closing quote is then the one behind it. -/
theorem literal_verbatim_iff (htail : '"' ∉ tail) :
    Literal (s ++ '"' :: tail) s rest ↔ Verbatim s ∧ rest = tail := by
  constructor
  · intro h
    obtain ⟨body, heq, hle, hsame⟩ := h.exists_body
    rcases List.append_eq_append_iff.1 heq with ⟨more, rfl, hmore⟩ | ⟨more, rfl, hmore⟩
    · cases more with
      | nil =>
        rw [List.append_nil] at hsame
        exact ⟨(hsame rfl).2, (List.cons.inj hmore).2.symm⟩
      | cons d more =>
        obtain ⟨-, rfl⟩ := List.cons.inj hmore
        exact absurd (List.mem_append_right more List.mem_cons_self) htail
    · have hnil : more = [] := by
        rw [List.length_append] at hle
        exact List.length_eq_zero_iff.1 (by omega)
      rw [hnil, List.append_nil] at hsame ⊢
      rw [hnil] at hmore
      exact ⟨(hsame rfl).2, (List.cons.inj hmore).2⟩
  · rintro ⟨hs, rfl⟩
    exact literal_of_verbatim hs rest

/-! ## Strings -/

/-- A text starts with a string literal, which denotes another text and is followed by the rest. -/
def Quotes (text s rest : String) : Prop :=
  ∃ t, text.toList = '"' :: t ∧ Literal t s.toList rest.toList

/-- A quoted text is read back, whatever comes behind it. -/
theorem quotes_quoted (s rest : String) : Quotes (quoted s ++ rest) s rest :=
  ⟨quoteBody s.toList ++ '"' :: rest.toList, by simp [quoted, String.toList_append],
    literal_quoteBody _ _⟩

/-- A text between quotes is read back exactly if it stands for itself. -/
theorem quotes_verbatim_iff {s tail rest : String} (htail : '"' ∉ tail.toList) :
    Quotes ("\"" ++ s ++ "\"" ++ tail) s rest ↔ Verbatim s.toList ∧ rest = tail := by
  have htext : ("\"" ++ s ++ "\"" ++ tail).toList = '"' :: (s.toList ++ '"' :: tail.toList) := by
    simp [String.toList_append]
  rw [← String.toList_inj, ← literal_verbatim_iff htail, Quotes, htext]
  constructor
  · rintro ⟨t, heq, h⟩
    exact (List.cons.inj heq).2 ▸ h
  · intro h
    exact ⟨_, rfl, h⟩

end NativeBindings.Text
