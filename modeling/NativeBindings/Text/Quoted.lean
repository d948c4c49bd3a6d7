import NativeBindings.Text.Numeral
import NativeBindings.Text.Printable

/-!
# Quoted text

A text in quotes as a source file spells it: the quote, the backslash and
four control characters have a two-character escape, every other character
that cannot be shown is given by its code point, and the rest stands for
itself.
-/

namespace NativeBindings.Text

/-- How one character of a text is written between the quotes. -/
def quoteChar (c : Char) : List Char :=
  match c with
  | '\x00' => ['\\', '0']
  | '\t' => ['\\', 't']
  | '\n' => ['\\', 'n']
  | '\r' => ['\\', 'r']
  | '"' => ['\\', '"']
  | '\\' => ['\\', '\\']
  | c =>
    if isPrintable c && !extendsGrapheme c then [c]
    else '\\' :: 'u' :: '{' :: (hexadecimal c.toNat ++ ['}'])

/-- The characters of a text as they are written between the quotes. -/
def quoteBody (s : List Char) : List Char :=
  s.flatMap quoteChar

/-- A text in quotes. -/
def quoted (s : String) : String :=
  String.ofList ('"' :: (quoteBody s.toList ++ ['"']))

/-- What is written for two texts in a row is what is written for each. -/
theorem quoteBody_append (s t : List Char) : quoteBody (s ++ t) = quoteBody s ++ quoteBody t :=
  List.flatMap_append

end NativeBindings.Text
