/-!
# Identifiers of the bindings

Native names become identifiers by keeping their ASCII letters, digits and
underscores. What lies between is squeezed into one underscore, none remain at
the ends, and a name that would start with a digit gets an underscore in
front. A name without a letter or digit becomes `_`.

The result is made of letters, digits and underscores only
(`isWord_of_mem_identifier`) and is never empty (`identifier_ne_nil`).
-/

namespace NativeBindings.Name

/-- The characters of an identifier: ASCII letters, digits and the underscore. -/
def isWord (c : Char) : Bool :=
  c.isAlphanum || c == '_'

/-! ## Sanitizing -/

/-- The word characters of a text, with one underscore for each gap between
them. `last` is the character written last, and `gap` says whether something
was skipped since. A gap is silent at the start and beside an underscore. -/
def squeeze (last : Option Char) (gap : Bool) : List Char → List Char
  | [] => []
  | c :: r =>
    if isWord c then
      if gap && last.isSome && last != some '_' then '_' :: c :: squeeze (some c) false r
      else c :: squeeze (some c) false r
    else squeeze last true r

/-- A text without the underscores at its start. -/
def dropUnderscores (s : List Char) : List Char :=
  s.dropWhile (· == '_')

/-- A text without the underscores at its ends. -/
def stripUnderscores (s : List Char) : List Char :=
  (dropUnderscores (dropUnderscores s).reverse).reverse

/-- The identifier that stands for a native name. -/
def identifier (name : List Char) : List Char :=
  match stripUnderscores (squeeze none false name) with
  | [] => ['_']
  | c :: r => if c.isDigit then '_' :: c :: r else c :: r

/-- Only word characters come out of squeezing. -/
theorem isWord_of_mem_squeeze {last : Option Char} {gap : Bool} {s : List Char} {c : Char}
    (h : c ∈ squeeze last gap s) : isWord c := by
  fun_induction squeeze last gap s with
  | case1 => simp at h
  | case2 last gap d r hd _ ih =>
    simp only [List.mem_cons] at h
    rcases h with rfl | rfl | h
    · rfl
    · exact hd
    · exact ih h
  | case3 last gap d r hd _ ih =>
    simp only [List.mem_cons] at h
    rcases h with rfl | h
    · exact hd
    · exact ih h
  | case4 last gap d r _ ih => exact ih h

/-- Dropping underscores adds no character. -/
theorem mem_of_mem_stripUnderscores {s : List Char} {c : Char} (h : c ∈ stripUnderscores s) :
    c ∈ s := by
  have drop {t : List Char} (h : c ∈ dropUnderscores t) : c ∈ t :=
    List.dropWhile_sublist _ |>.subset h
  have h1 : c ∈ (dropUnderscores s).reverse := drop (List.mem_reverse.1 h)
  exact drop (List.mem_reverse.1 h1)

/-- An identifier is made of word characters. -/
theorem isWord_of_mem_identifier {name : List Char} {c : Char} (h : c ∈ identifier name) :
    isWord c := by
  have strip {d : Char} (hd : d ∈ stripUnderscores (squeeze none false name)) : isWord d :=
    isWord_of_mem_squeeze (mem_of_mem_stripUnderscores hd)
  unfold identifier at h
  split at h
  · obtain rfl := List.mem_singleton.1 h
    rfl
  · rename_i d r hs
    rw [hs] at strip
    split at h
    · rcases List.mem_cons.1 h with rfl | h
      · rfl
      · exact strip h
    · exact strip h

/-- An identifier has at least one character. -/
theorem identifier_ne_nil (name : List Char) : identifier name ≠ [] := by
  unfold identifier
  split
  · simp
  · split <;> simp

/-! ## Reserved words -/

/-- The reserved words that may be written as a raw identifier. -/
def keywords : List String :=
  ["as", "async", "await", "break", "const", "continue", "dyn", "else", "enum", "extern", "false",
    "fn", "for", "gen", "if", "impl", "in", "let", "loop", "match", "mod", "move", "mut", "pub",
    "ref", "return", "static", "struct", "trait", "true", "type", "unsafe", "use", "where",
    "while", "abstract", "become", "box", "do", "final", "macro", "override", "priv", "try",
    "typeof", "unsized", "virtual", "yield"]

/-- The words that cannot be written as a raw identifier either. -/
def unrawable : List String :=
  ["self", "Self", "super", "crate", "_"]

/-- The identifier of a field with a given native name: a reserved word is
written raw, or gets an underscore behind it where that is not allowed. -/
def memberIdentifier (name : List Char) : List Char :=
  let ident := identifier name
  if String.ofList ident ∈ unrawable then ident ++ ['_']
  else if String.ofList ident ∈ keywords then 'r' :: '#' :: ident
  else ident

end NativeBindings.Name
