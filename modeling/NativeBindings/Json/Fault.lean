import NativeBindings.Text.Quoted
import NativeBindings.Decimal.Shortest

/-!
# Faults of a JSON document

A document is read from left to right and refused at the first fault. A fault
is one of three kinds: the document ends too early, it is not JSON, or it is
JSON of the wrong form.
-/

namespace NativeBindings.Json

/-! ## What was found and what was expected -/

/-- The start of a JSON value that a reader did not want. -/
inductive Found where
  | null
  | boolean (b : Bool)
  | integer (n : Int)
  | floating (x : Float)
  | text (s : String)
  | sequence
  | map
deriving Inhabited

/-- Floats in messages are positional from `10^-5` to below `10^16`. -/
def floatLayout : Decimal.Layout :=
  { leastPositional := -5, greatestPositional := 15 }

/-- A found value as messages spell it. -/
def Found.spelling : Found → String
  | null => "null"
  | boolean b => "boolean `" ++ (if b then "true" else "false") ++ "`"
  | integer n => "integer `" ++ toString n ++ "`"
  | floating x => "floating point `" ++ Decimal.text floatLayout x ++ "`"
  | text s => "string " ++ Text.quoted s
  | sequence => "sequence"
  | map => "map"

/-- A form that a value can be required to have. -/
inductive Expected where
  | natural64
  | integer64
  | text
  | sequence
  | struct (name : String)
  | unit
deriving DecidableEq, Inhabited

/-- An expected form as messages spell it. -/
def Expected.spelling : Expected → String
  | natural64 => "u64"
  | integer64 => "i64"
  | text => "a string"
  | sequence => "a sequence"
  | struct name => "struct " ++ name
  | unit => "unit"

/-! ## Faults -/

/-- Why a document is refused. -/
inductive Fault where
  | endInList
  | endInObject
  | endInString
  | endInValue
  | missingColon
  | listNotContinued
  | objectNotContinued
  | unknownLiteral
  | valueMissing
  | badEscape
  | badNumber
  | numberOutOfRange
  | controlCharacter
  | keyNotString
  | loneSurrogate
  | surrogateCutShort
  | trailingComma
  | trailingCharacters
  /-- A value of another form. -/
  | wrongForm (found : Found) (expected : Expected)
  /-- A value of the right form that does not fit. -/
  | wrongValue (found : Found) (expected : Expected)
  /-- An array with too few elements for a structure of `size` members. -/
  | tooShort (length : Nat) (name : String) (size : Nat)
  | unknownVariant (word : String) (known : List String)
  | missingMember (name : String)
  | repeatedMember (name : String)
deriving Inhabited

/-- The three kinds of fault. -/
inductive Category where
  | endOfDocument
  | notJson
  | wrongData
deriving DecidableEq, Inhabited

/-- A word in backticks. -/
def ticked (s : String) : String :=
  "`" ++ s ++ "`"

namespace Fault

/-- The kind of a fault. -/
def category : Fault → Category
  | endInList | endInObject | endInString | endInValue => .endOfDocument
  | wrongForm .. | wrongValue .. | tooShort .. | unknownVariant .. | missingMember _
  | repeatedMember _ => .wrongData
  | _ => .notJson

/-- A fault in words. -/
def message : Fault → String
  | endInList => "EOF while parsing a list"
  | endInObject => "EOF while parsing an object"
  | endInString => "EOF while parsing a string"
  | endInValue => "EOF while parsing a value"
  | missingColon => "expected `:`"
  | listNotContinued => "expected `,` or `]`"
  | objectNotContinued => "expected `,` or `\x7d`"
  | unknownLiteral => "expected ident"
  | valueMissing => "expected value"
  | badEscape => "invalid escape"
  | badNumber => "invalid number"
  | numberOutOfRange => "number out of range"
  | controlCharacter => "control character (\\u0000-\\u001F) found while parsing a string"
  | keyNotString => "key must be a string"
  | loneSurrogate => "lone leading surrogate in hex escape"
  | surrogateCutShort => "unexpected end of hex escape"
  | trailingComma => "trailing comma"
  | trailingCharacters => "trailing characters"
  | wrongForm f e => "invalid type: " ++ f.spelling ++ ", expected " ++ e.spelling
  | wrongValue f e => "invalid value: " ++ f.spelling ++ ", expected " ++ e.spelling
  | tooShort n name size =>
    "invalid length " ++ toString n ++ ", expected struct " ++ name ++ " with " ++ toString size
      ++ " elements"
  | unknownVariant w known =>
    "unknown variant " ++ ticked w ++ ", expected one of " ++ ", ".intercalate (known.map ticked)
  | missingMember name => "missing field " ++ ticked name
  | repeatedMember name => "duplicate field " ++ ticked name

end Fault

end NativeBindings.Json
