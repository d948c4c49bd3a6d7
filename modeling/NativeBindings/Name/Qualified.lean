import NativeBindings.Text.Blank

/-!
# Qualified native names

A native name comes fully qualified and may carry template argument lists
that hold qualified names of their own, as in `std::map<ns::Key, ns::Value>`.
A separator counts only at the top level: outside every `<`, `(` and `[`. The
kinds of bracket are not told apart, and a closing bracket that nothing opened
is an ordinary character.

Joining the pieces of a text with the separator gives the text back
(`intercalate_cut`), and there is always at least one piece (`cut_ne_nil`).
-/

namespace NativeBindings.Name

/-! ## Cutting at the top level -/

/-- Whether a character opens a bracket. -/
def opens (c : Char) : Bool :=
  c == '<' || c == '(' || c == '['

/-- Whether a character closes a bracket. -/
def closes (c : Char) : Bool :=
  c == '>' || c == ')' || c == ']'

/-- Put a character in front of the first piece. -/
def extendFirst (c : Char) : List (List Char) → List (List Char)
  | [] => [[c]]
  | p :: ps => (c :: p) :: ps

/-- The pieces of a text between the top-level separators, where `depth`
brackets are open already. A separator that is cut away is skipped as a whole. -/
def cut (sep : List Char) (depth : Nat) : List Char → List (List Char)
  | [] => [[]]
  | c :: r =>
    if opens c then extendFirst c (cut sep (depth + 1) r)
    else if closes c then extendFirst c (cut sep (depth - 1) r)
    else if depth = 0 ∧ sep <+: c :: r then [] :: cut sep 0 (r.drop (sep.length - 1))
    else extendFirst c (cut sep depth r)
termination_by s => s.length
decreasing_by all_goals simp only [List.length_cons, List.length_drop]; omega

/-- A text has at least one piece. -/
theorem cut_ne_nil (sep : List Char) (depth : Nat) (s : List Char) : cut sep depth s ≠ [] := by
  have extendFirst_ne_nil (c : Char) (ps : List (List Char)) : extendFirst c ps ≠ [] := by
    cases ps <;> simp [extendFirst]
  fun_cases cut sep depth s <;> simp_all

/-- Extending the first piece extends the joined text. -/
theorem intercalate_extendFirst (sep : List Char) (c : Char) {ps : List (List Char)}
    (h : ps ≠ []) : sep.intercalate (extendFirst c ps) = c :: sep.intercalate ps := by
  match ps with
  | [] => exact absurd rfl h
  | [p] => simp [extendFirst, List.intercalate]
  | p :: q :: ps => simp [extendFirst, List.intercalate]

/-- Nothing but the separators is lost by cutting. -/
theorem intercalate_cut {sep : List Char} (hsep : sep ≠ []) (depth : Nat) (s : List Char) :
    sep.intercalate (cut sep depth s) = s := by
  fun_induction cut sep depth s with
  | case1 => simp [List.intercalate]
  | case2 _ c r _ ih => rw [intercalate_extendFirst _ _ (cut_ne_nil _ _ _), ih]
  | case3 _ c r _ _ ih => rw [intercalate_extendFirst _ _ (cut_ne_nil _ _ _), ih]
  | case4 _ c r _ _ h ih =>
    obtain ⟨t, ht⟩ := h.2
    obtain ⟨d, sep, rfl⟩ := List.exists_cons_of_ne_nil hsep
    obtain ⟨p, ps, hps⟩ := List.exists_cons_of_ne_nil
      (cut_ne_nil (d :: sep) 0 (r.drop ((d :: sep).length - 1)))
    rw [hps] at ih ⊢
    simp only [List.cons_append, List.cons.injEq] at ht
    obtain ⟨rfl, rfl⟩ := ht
    simp only [List.intercalate, List.intersperse_cons_cons, List.flatten_cons,
      List.nil_append] at ih ⊢
    rw [ih]
    simp
  | case5 _ c r _ _ _ ih => rw [intercalate_extendFirst _ _ (cut_ne_nil _ _ _), ih]

/-! ## Segments -/

/-- What separates the segments of a qualified name. -/
def separator : List Char :=
  [':', ':']

/-- The segments of a qualified name, the namespaces first. -/
def segments (name : List Char) : List (List Char) :=
  cut separator 0 name

/-- The namespace of a qualified name, if it has one, and its last segment. -/
def split (name : List Char) : Option (List Char) × List Char :=
  match segments name with
  | [] => (none, [])
  | [last] => (none, last)
  | ss@(_ :: _ :: _) => (some (separator.intercalate ss.dropLast), ss.getLastD [])

/-- Joining the segments of a name gives the name. -/
theorem intercalate_segments (name : List Char) : separator.intercalate (segments name) = name :=
  intercalate_cut (by simp [separator]) 0 name

/-! ## Template argument lists -/

/-- A name up to the argument list that follows it. A name that starts with `<`
has no part before the list and stays whole. -/
def withoutArguments (name : List Char) : List Char :=
  match name.takeWhile (· != '<') with
  | [] => name
  | base@(_ :: _) => if base.length = name.length then name else Text.trimEnd base

/-- A text up to its last `>`, if it has one. -/
def upToLastClose (s : List Char) : Option (List Char) :=
  match s.reverse.dropWhile (· != '>') with
  | [] => none
  | _ :: r => some r.reverse

/-- The top-level arguments between the first `<` of a name and its last `>`,
trimmed. An argument list may end in a comma. -/
def arguments (name : List Char) : List (List Char) :=
  match name.dropWhile (· != '<') with
  | [] => []
  | _ :: r =>
    match upToLastClose r with
    | none => []
    | some inner =>
      let pieces := (cut [','] 0 inner).map Text.trim
      if (pieces.getLastD []).isEmpty then pieces.dropLast else pieces

/-- The native name of the template that an instantiated name applies. -/
def template (name : List Char) : List Char :=
  match split name with
  | (none, last) => withoutArguments last
  | (some ns, last) => ns ++ separator ++ withoutArguments last

end NativeBindings.Name
