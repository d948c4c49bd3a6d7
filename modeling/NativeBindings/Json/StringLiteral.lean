import NativeBindings.Json.Fault
import NativeBindings.Text.Numeral

/-!
# String literals in JSON

What stands between the quotes of a JSON string is read one character or
escape at a time. `read` gives the characters that a literal denotes;
`skip` only looks for its end, and does not ask whether surrogate escapes
come in pairs.

An escape is at least one character long (`length_escape_lt`,
`length_skipEscape_lt`), so both readings end with the text.
-/

namespace NativeBindings.Json.StringLiteral

/-- What a reading step gives: a result and the rest of the text. -/
abbrev Step (α : Type) := Except Fault (α × List Char)

/-! ## Escapes -/

/-- The character that a one-letter escape denotes. -/
def letterEscape? : Char → Option Char
  | '"' => some '"'
  | '\\' => some '\\'
  | '/' => some '/'
  | 'b' => some '\x08'
  | 'f' => some '\x0c'
  | 'n' => some '\n'
  | 'r' => some '\r'
  | 't' => some '\t'
  | _ => none

/-- The number that four hexadecimal digits spell. -/
def hexUnit? (a b c d : Char) : Option Nat := do
  let a ← Text.hexValue? a
  let b ← Text.hexValue? b
  let c ← Text.hexValue? c
  let d ← Text.hexValue? d
  some (((a * 16 + b) * 16 + c) * 16 + d)

/-- The four digits that follow `\u`. A text ends too early when fewer than four
bytes of it are left, whatever they are. -/
def hexUnit : List Char → Step Nat
  | a :: b :: c :: d :: r =>
    match hexUnit? a b c d with
    | some n => .ok (n, r)
    | none => .error .badEscape
  | s => if s.foldl (fun n c => n + c.utf8Size) 0 < 4 then .error .endInString else .error .badEscape

/-- Whether a 16-bit unit is the first of a surrogate pair. -/
def isLeading (n : Nat) : Bool :=
  0xd800 ≤ n && n ≤ 0xdbff

/-- Whether a 16-bit unit is the second of a surrogate pair. -/
def isTrailing (n : Nat) : Bool :=
  0xdc00 ≤ n && n ≤ 0xdfff

/-- The character of a surrogate pair. -/
def pairChar (lead trail : Nat) : Char :=
  Char.ofNat (0x10000 + (lead - 0xd800) * 0x400 + (trail - 0xdc00))

/-- The second unit of a pair, which must follow as an escape of its own. -/
def trailingUnit : List Char → Step Nat
  | [] => .error .endInString
  | '\\' :: r =>
    match r with
    | [] => .error .endInString
    | 'u' :: r =>
      match hexUnit r with
      | .ok (n, r) => if isTrailing n then .ok (n, r) else .error .loneSurrogate
      | .error e => .error e
    | _ :: _ => .error .surrogateCutShort
  | _ :: _ => .error .surrogateCutShort

/-- The character of an escape, read from behind its backslash. -/
def escape : List Char → Step Char
  | [] => .error .endInString
  | 'u' :: r =>
    match hexUnit r with
    | .error e => .error e
    | .ok (n, r) =>
      if isTrailing n then .error .loneSurrogate
      else if isLeading n then
        match trailingUnit r with
        | .ok (m, r) => .ok (pairChar n m, r)
        | .error e => .error e
      else .ok (Char.ofNat n, r)
  | c :: r =>
    match letterEscape? c with
    | some c => .ok (c, r)
    | none => .error .badEscape

/-- The rest of a text behind an escape, read from behind its backslash. -/
def skipEscape : List Char → Step Unit
  | [] => .error .endInString
  | 'u' :: r =>
    match hexUnit r with
    | .error e => .error e
    | .ok (_, r) => .ok ((), r)
  | c :: r => if (letterEscape? c).isSome then .ok ((), r) else .error .badEscape

/-! ## Escapes use up text -/

/-- Four digits are used up. -/
theorem length_hexUnit_lt {s r : List Char} {n : Nat} (h : hexUnit s = .ok (n, r)) :
    r.length < s.length := by
  unfold hexUnit at h
  split at h
  · split at h
    · simp only [Except.ok.injEq, Prod.mk.injEq] at h
      obtain ⟨_, rfl⟩ := h
      simp only [List.length_cons]
      omega
    · simp at h
  · split at h <;> simp at h

/-- A trailing unit is used up. -/
theorem length_trailingUnit_lt {s r : List Char} {n : Nat} (h : trailingUnit s = .ok (n, r)) :
    r.length < s.length := by
  unfold trailingUnit at h
  split at h
  · simp at h
  · split at h
    · simp at h
    · rename_i t
      split at h
      · rename_i m t' hm
        have := length_hexUnit_lt hm
        split at h
        · simp only [Except.ok.injEq, Prod.mk.injEq] at h
          obtain ⟨_, rfl⟩ := h
          simp only [List.length_cons]
          omega
        · simp at h
      · simp at h
    · simp at h
  · simp at h

/-- An escape is used up. -/
theorem length_escape_lt {s r : List Char} {c : Char} (h : escape s = .ok (c, r)) :
    r.length < s.length := by
  unfold escape at h
  split at h
  · simp at h
  · split at h
    · simp at h
    · rename_i n t hn
      have := length_hexUnit_lt hn
      split at h
      · simp at h
      · split at h
        · split at h
          · rename_i m t' hm
            have := length_trailingUnit_lt hm
            simp only [Except.ok.injEq, Prod.mk.injEq] at h
            obtain ⟨_, rfl⟩ := h
            simp only [List.length_cons]
            omega
          · simp at h
        · simp only [Except.ok.injEq, Prod.mk.injEq] at h
          obtain ⟨_, rfl⟩ := h
          simp only [List.length_cons]
          omega
  · split at h
    · simp only [Except.ok.injEq, Prod.mk.injEq] at h
      obtain ⟨_, rfl⟩ := h
      simp
    · simp at h

/-- A skipped escape is used up. -/
theorem length_skipEscape_lt {s r : List Char} {u : Unit} (h : skipEscape s = .ok (u, r)) :
    r.length < s.length := by
  unfold skipEscape at h
  split at h
  · simp at h
  · split at h
    · simp at h
    · rename_i n t hn
      have := length_hexUnit_lt hn
      simp only [Except.ok.injEq, Prod.mk.injEq] at h
      obtain ⟨_, rfl⟩ := h
      simp only [List.length_cons]
      omega
  · split at h
    · simp only [Except.ok.injEq, Prod.mk.injEq] at h
      obtain ⟨_, rfl⟩ := h
      simp
    · simp at h

/-! ## Whole literals -/

/-- The characters up to the closing quote, read from behind the opening one. -/
def read : List Char → Step (List Char)
  | [] => .error .endInString
  | c :: r =>
    if c = '"' then .ok ([], r)
    else if c = '\\' then
      match h : escape r with
      | .error e => .error e
      | .ok (d, r') =>
        have := length_escape_lt h
        match read r' with
        | .error e => .error e
        | .ok (s, r'') => .ok (d :: s, r'')
    else if c < ' ' then .error .controlCharacter
    else
      match read r with
      | .error e => .error e
      | .ok (s, r') => .ok (c :: s, r')
termination_by s => s.length

/-- The rest of a text behind the closing quote, read from behind the opening one. -/
def skip : List Char → Step Unit
  | [] => .error .endInString
  | c :: r =>
    if c = '"' then .ok ((), r)
    else if c = '\\' then
      match h : skipEscape r with
      | .error e => .error e
      | .ok (_, r') =>
        have := length_skipEscape_lt h
        skip r'
    else if c < ' ' then .error .controlCharacter
    else skip r
termination_by s => s.length

end NativeBindings.Json.StringLiteral
