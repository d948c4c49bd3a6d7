import Mathlib.Data.List.Forall2
import NativeBindings.Json.NumberLiteral

/-!
# The grammar of JSON texts

Which texts are JSON, told without a reader. Arrays and objects share one form, parts between
brackets with commas and blanks (`Bracketed`); a value that may be anything is a `ValueText`, and
a member is a key, a colon and a value (`MemberText`).

There are two grammars of strings. `StringText s` are the ways to write the characters of `s`,
where a character outside the basic plane is one character or a pair of surrogate escapes.
`RawString` are all literals, also those with lone surrogates, which denote no text.
-/

namespace NativeBindings.Json

/-! ## Parts between brackets -/

/-- The characters that may stand between any two symbols. -/
def blanks : List Char :=
  [' ', '\n', '\t', '\r']

/-- A text of blanks only. -/
def Blanks (b : List Char) : Prop :=
  b ⊆ blanks

instance (b : List Char) : Decidable (Blanks b) :=
  inferInstanceAs (Decidable (b ⊆ blanks))

theorem Blanks.nil : Blanks [] :=
  List.nil_subset blanks

/-- What stands between brackets that hold the texts `ts`, or behind an earlier part of them:
`first` says that there is none, so that no comma stands in front. -/
inductive Items : Bool → List (List Char) → List Char → Prop
  | done {first : Bool} {b : List Char} : Blanks b → Items first [] b
  | first {b t u : List Char} {ts : List (List Char)} :
    Blanks b → Items false ts u → Items true (t :: ts) (b ++ (t ++ u))
  | next {b b' t u : List Char} {ts : List (List Char)} :
    Blanks b → Blanks b' → Items false ts u → Items false (t :: ts) (b ++ ',' :: (b' ++ (t ++ u)))

/-- Brackets with the texts `ts` as their parts. -/
def Bracketed (opening closing : Char) (ts : List (List Char)) (s : List Char) : Prop :=
  ∃ u, Items true ts u ∧ s = opening :: (u ++ [closing])

/-- A key, a colon and the value `v`. -/
def MemberText (Key : List Char → Prop) (v t : List Char) : Prop :=
  ∃ k b b', Key k ∧ Blanks b ∧ Blanks b' ∧ t = k ++ (b ++ ':' :: (b' ++ v))

/-- What may come behind a value: nothing, a blank, a comma or a closing bracket. -/
def Follows (rest : List Char) : Prop :=
  ∀ c ∈ rest.head?, c ∈ blanks ∨ c ∈ [',', ']', '}']

/-- A text that starts as a value does: neither with a blank nor with a closing bracket. -/
def Starts (s : List Char) : Prop :=
  ∃ c r, s = c :: r ∧ c ∉ blanks ∧ c ≠ ']' ∧ c ≠ '}'

/-! ## Strings -/

/-- A character that may stand in a string as it is. -/
def Plain (c : Char) : Prop :=
  ' ' ≤ c ∧ c ≠ '"' ∧ c ≠ '\\'

instance (c : Char) : Decidable (Plain c) :=
  inferInstanceAs (Decidable (' ' ≤ c ∧ c ≠ '"' ∧ c ≠ '\\'))

/-- The letters of the short escapes, with the characters that they denote. -/
def shortEscapes : List (Char × Char) :=
  [('"', '"'), ('\\', '\\'), ('/', '/'), ('b', '\x08'), ('f', '\x0c'), ('n', '\n'), ('r', '\r'),
    ('t', '\t')]

/-- A hexadecimal digit of either case. -/
def HexDigit (n : Nat) (c : Char) : Prop :=
  c = n.digitChar ∨ c = n.digitChar.toUpper

instance (n : Nat) (c : Char) : Decidable (HexDigit n c) :=
  inferInstanceAs (Decidable (c = n.digitChar ∨ c = n.digitChar.toUpper))

/-- The escape of a 16-bit unit. -/
def UnitText (n : Nat) (t : List Char) : Prop :=
  n < 0x10000 ∧ ∃ a b c d, HexDigit (n / 4096) a ∧ HexDigit (n / 256 % 16) b ∧
    HexDigit (n / 16 % 16) c ∧ HexDigit (n % 16) d ∧ t = ['\\', 'u', a, b, c, d]

/-- The ways to write a character in a string. -/
inductive CharText (c : Char) : List Char → Prop
  | plain : Plain c → CharText c [c]
  | short {e : Char} : (e, c) ∈ shortEscapes → CharText c ['\\', e]
  | unit {t : List Char} : UnitText c.toNat t → CharText c t
  | pair {m : Nat} {t u : List Char} :
    c.toNat = 0x10000 + m → UnitText (0xd800 + m / 0x400) t → UnitText (0xdc00 + m % 0x400) u →
    CharText c (t ++ u)

/-- The ways to write a text as a string. -/
def StringText (s : String) (t : List Char) : Prop :=
  ∃ ts : List (List Char), List.Forall₂ CharText s.toList ts ∧ t = '"' :: (ts.flatten ++ ['"'])

/-- A text without controls, quotes and backslashes stands between its quotes as it is. -/
theorem StringText.of_plain {s : String} {cs : List Char} (hs : s = String.ofList cs)
    (hcs : cs.all (Plain ·)) : StringText s ('"' :: (cs ++ ['"'])) := by
  refine ⟨cs.map fun c => [c], ?_, ?_⟩
  · rw [hs, String.toList_ofList, List.forall₂_map_right_iff]
    exact List.forall₂_same.mpr fun c hc =>
      .plain (of_decide_eq_true (List.all_eq_true.mp hcs c hc))
  · rw [← List.flatMap_def, List.flatMap_singleton']

/-- A part of a string literal, whether it denotes a character or not. -/
inductive RawPart : List Char → Prop
  | plain {c : Char} : Plain c → RawPart [c]
  | short {e c : Char} : (e, c) ∈ shortEscapes → RawPart ['\\', e]
  | unit {n : Nat} {t : List Char} : UnitText n t → RawPart t

/-- A string literal. -/
def RawString (t : List Char) : Prop :=
  ∃ ts : List (List Char), (∀ p ∈ ts, RawPart p) ∧ t = '"' :: (ts.flatten ++ ['"'])

/-! ## Numbers -/

namespace NumberLiteral

/-- One decimal digit or more. -/
def Digits (s : List Char) : Prop :=
  s ≠ [] ∧ ∀ c ∈ s, c.isDigit

/-- Digits that do not start with a zero, unless it stands alone. -/
def Whole (s : List Char) : Prop :=
  Digits s ∧ (s.head? = some '0' → s = ['0'])

/-- A point and the digits `ds`, or nothing. -/
def Fraction (ds s : List Char) : Prop :=
  ds = [] ∧ s = [] ∨ Digits ds ∧ s = '.' :: ds

/-- The sign of an exponent, which may be left out if it is positive. -/
def Sign : Bool → List Char → Prop
  | true, s => s = ['-']
  | false, s => s = [] ∨ s = ['+']

/-- An exponent with its letter and sign, or nothing. -/
def Exponent : Option (Bool × List Char) → List Char → Prop
  | none, s => s = []
  | some (down, ds), s =>
    ∃ e sign, (e = 'e' ∨ e = 'E') ∧ Sign down sign ∧ Digits ds ∧ s = e :: (sign ++ ds)

end NumberLiteral

/-- The ways to write a number literal. -/
def NumberText (l : NumberLiteral) (s : List Char) : Prop :=
  ∃ f x, NumberLiteral.Whole l.whole ∧ NumberLiteral.Fraction l.fraction f ∧
    NumberLiteral.Exponent l.exponent x ∧
    s = (if l.negative then ['-'] else []) ++ (l.whole ++ (f ++ x))

/-- The digits of a number from 0 to below `2^64`. -/
def NaturalText (n : UInt64) (s : List Char) : Prop :=
  s = Text.decimal n.toNat

/-- Sign and digits of a number from `-2^63` to below `2^63`. -/
def IntegerText (n : Int64) (s : List Char) : Prop :=
  s = (if n.toInt < 0 then ['-'] else []) ++ Text.decimal n.toInt.natAbs

/-! ## Values -/

/-- The fixed words. -/
def words : List (List Char) :=
  [['n', 'u', 'l', 'l'], ['t', 'r', 'u', 'e'], ['f', 'a', 'l', 's', 'e']]

/-- Any JSON value. -/
inductive ValueText : List Char → Prop
  | word {s : List Char} : s ∈ words → ValueText s
  | number {l : NumberLiteral} {s : List Char} : NumberText l s → ValueText s
  | string {s : List Char} : RawString s → ValueText s
  | array {ts : List (List Char)} {s : List Char} :
    (∀ t ∈ ts, ValueText t) → Bracketed '[' ']' ts s → ValueText s
  | object {vs ts : List (List Char)} {s : List Char} :
    (∀ v ∈ vs, ValueText v) → List.Forall₂ (MemberText RawString) vs ts → Bracketed '{' '}' ts s →
    ValueText s

/-- An object with the keys and values `ms`, in this order. -/
def ObjectText (ms : List (String × List Char)) (s : List Char) : Prop :=
  ∃ ts, List.Forall₂ (fun m t => MemberText (StringText m.1) m.2 t) ms ts ∧
    Bracketed '{' '}' ts s

/-- A member with a plain key, without blanks. -/
theorem MemberText.of_plain {key : String} {ks v : List Char} (hkey : key = String.ofList ks)
    (hks : ks.all (Plain ·)) :
    MemberText (StringText key) v ('"' :: (ks ++ ['"']) ++ ([] ++ ':' :: ([] ++ v))) :=
  ⟨_, [], [], .of_plain hkey hks, .nil, .nil, rfl⟩

/-- Among the keys and values `ms` of an object, at most one has a key of `names`, and its value
is written as `Text` says. It may be left out if `omissible` holds. -/
structure HasMember (ms : List (String × List Char)) (names : List String)
    (Text : List Char → Prop) (omissible : Prop) : Prop where
  once : ms.countP (fun m => m.1 ∈ names) ≤ 1
  written : ∀ m ∈ ms, m.1 ∈ names → Text m.2
  present : omissible ∨ ∃ m ∈ ms, m.1 ∈ names

namespace HasMember

variable {p q : List (String × List Char)} {names : List String} {Text : List Char → Prop}
  {omissible : Prop} {k : String} {v : List Char}

/-- A member may stand anywhere if no other has its name. -/
theorem of_append (hk : k ∈ names) (hv : Text v) (hothers : ∀ m ∈ p ++ q, m.1 ∉ names) :
    HasMember (p ++ (k, v) :: q) names Text omissible where
  once := by
    have hp : p.countP (fun m => m.1 ∈ names) = 0 := List.countP_eq_zero.mpr fun m hm => by
      simpa using hothers m (List.mem_append_left q hm)
    have hq : q.countP (fun m => m.1 ∈ names) = 0 := List.countP_eq_zero.mpr fun m hm => by
      simpa using hothers m (List.mem_append_right p hm)
    rw [List.countP_append, List.countP_cons_of_pos (by simpa using hk)]
    omega
  written m hm hnames := by
    obtain hm | hm := List.mem_append.mp hm
    · exact absurd hnames (hothers m (List.mem_append_left q hm))
    · obtain rfl | hm := List.mem_cons.mp hm
      · exact hv
      · exact absurd hnames (hothers m (List.mem_append_right p hm))
  present := .inr ⟨(k, v), by simp, hk⟩

/-- A member that is not there holds its default. -/
theorem of_omitted (hp : ∀ m ∈ p, m.1 ∉ names) (homitted : omissible) :
    HasMember p names Text omissible where
  once := by
    rw [List.countP_eq_zero.mpr fun m hm => by simpa using hp m hm]
    exact Nat.zero_le 1
  written m hm hnames := absurd hnames (hp m hm)
  present := .inl homitted

end HasMember

/-- A value, or `null` where there is none. -/
def OptionText {α : Type} (Text : α → List Char → Prop) : Option α → List Char → Prop
  | none, s => s = ['n', 'u', 'l', 'l']
  | some a, s => Text a s

/-- An array whose elements are written as `Text` says. -/
def ListText {α : Type} (Text : α → List Char → Prop) (xs : List α) (s : List Char) : Prop :=
  ∃ ts, List.Forall₂ Text xs ts ∧ Bracketed '[' ']' ts s

theorem ListText.nil {α : Type} {Text : α → List Char → Prop} : ListText Text [] ['[', ']'] :=
  ⟨[], .nil, [], .done .nil, rfl⟩

/-- An array of elements that are written as `elements` say, one after the other, or an object
whose keys and values are as `Members` says. -/
def StructText (elements : List (List Char → Prop)) (Members : List (String × List Char) → Prop)
    (s : List Char) : Prop :=
  ListText (fun Text => Text) elements s ∨ ∃ ms, ObjectText ms s ∧ Members ms

/-- A document with one value that is written as `Text` says, and blanks around it. -/
def DocumentText (Text : List Char → Prop) (s : List Char) : Prop :=
  ∃ b t b', Blanks b ∧ Text t ∧ Blanks b' ∧ s = b ++ (t ++ b')

end NativeBindings.Json
