import NativeBindings.Json.NumberLiteral
import NativeBindings.Json.StringLiteral

/-!
# Reading JSON from left to right

A `Reader` takes its value from the front of a text and leaves the rest, or
refuses the text. The readers here are the parts that all others share: blanks,
fixed words, strings and numbers, the step from one array element or object
member to the next, and values that nobody wants.

Skipping an unwanted value needs no recursion: the brackets that are still open
are kept in a list, so values nest to any depth. Loops are bounded by the text
that is left when they start, since every round uses up a character of it.
-/

namespace NativeBindings.Json

/-- A step over the text of a document. -/
abbrev Reader (α : Type) := StateT (List Char) (Except Fault) α

namespace Reader

/-- The four blanks of JSON. -/
def isBlank (c : Char) : Bool :=
  c == ' ' || c == '\n' || c == '\t' || c == '\r'

/-- Refuse the text. -/
def refuse {α : Type} (f : Fault) : Reader α :=
  throw f

/-- The next character that is not blank, which stays where it is. -/
def peek : Reader (Option Char) := do
  let s := (← get).dropWhile isBlank
  set s
  pure s.head?

/-- Drop one character. -/
def advance : Reader Unit :=
  modify (·.drop 1)

/-- A reader for a step on the text itself. -/
def ofStep {α : Type} (step : List Char → Except Fault (α × List Char)) : Reader α := do
  let (a, rest) ← liftM (step (← get))
  set rest
  pure a

/-! ## Words, strings, numbers -/

/-- The letters of a fixed word. -/
def word : List Char → Reader Unit
  | [] => pure ()
  | c :: w => do
    match ← get with
    | [] => refuse .endInValue
    | d :: r => if d = c then set r *> word w else refuse .unknownLiteral

/-- A string, from behind its opening quote. -/
def stringBody : Reader String :=
  ofStep fun s => StringLiteral.read s |>.map fun (cs, r) => (String.ofList cs, r)

/-- A number. -/
def number : Reader Number := do
  liftM (← ofStep (NumberLiteral.read .endInValue)).value

/-- Whether a character starts a number. -/
def startsNumber (c : Char) : Bool :=
  c == '-' || c.isDigit

/-- Refuse the next value because another form is expected. A word, string or
number is read to its end first, and a fault in it comes before the refusal. -/
def mismatch {α : Type} (expected : Expected) : Reader α := do
  match ← peek with
  | none => refuse .endInValue
  | some c =>
    let found : Found ← match c with
      | 'n' => word ['n', 'u', 'l', 'l'] *> pure .null
      | 't' => word ['t', 'r', 'u', 'e'] *> pure (.boolean true)
      | 'f' => word ['f', 'a', 'l', 's', 'e'] *> pure (.boolean false)
      | '"' => advance *> (Found.text <$> stringBody)
      | '[' => pure .sequence
      | '{' => pure .map
      | c => if startsNumber c then Number.found <$> number else refuse .valueMissing
    refuse (.wrongForm found expected)

/-! ## Unwanted values -/

/-- A bracket that is still open. -/
inductive Bracket where
  | list
  | object
deriving DecidableEq, Inhabited

/-- The character that closes a bracket. -/
def Bracket.close : Bracket → Char
  | list => ']'
  | object => '}'

/-- The fault where a text ends inside a bracket. -/
def Bracket.atEnd : Bracket → Fault
  | list => .endInList
  | object => .endInObject

/-- The fault where neither a comma nor the closing bracket follows a value. -/
def Bracket.notContinued : Bracket → Fault
  | list => .listNotContinued
  | object => .objectNotContinued

/-- A string that is not looked at, from behind its opening quote. -/
def skipString : Reader Unit :=
  ofStep StringLiteral.skip

/-- The key and colon in front of an unwanted member. -/
def skipKey : Reader Unit := do
  match ← peek with
  | some '"' => advance *> skipString
  | some _ => refuse .keyNotString
  | none => refuse .endInObject
  match ← peek with
  | some ':' => advance
  | some _ => refuse .missingColon
  | none => refuse .endInObject

/-- The start of an unwanted value: a whole word, string or number, or an
opening bracket, which is returned. -/
def skipStart : Reader (Option Bracket) := do
  match ← peek with
  | none => refuse .endInValue
  | some c =>
    match c with
    | 'n' => word ['n', 'u', 'l', 'l'] *> pure none
    | 't' => word ['t', 'r', 'u', 'e'] *> pure none
    | 'f' => word ['f', 'a', 'l', 's', 'e'] *> pure none
    | '"' => advance *> skipString *> pure none
    | '[' => advance *> pure (some .list)
    | '{' => advance *> pure (some .object)
    | c =>
      if startsNumber c then ofStep (NumberLiteral.read .badNumber) *> pure none
      else refuse .valueMissing

/-- Skip up to the start of the next value inside the open brackets, the
innermost first, or to the end of the outermost. `filled` says whether a value
has just ended, so that a comma may come. The brackets left open are returned. -/
def skipToValue : Bool → List Bracket → Reader (List Bracket)
  | _, [] => pure []
  | filled, b :: bs => do
    match ← peek with
    | none => refuse b.atEnd
    | some c =>
      if filled ∧ c = ',' then
        advance
        if b = .object then skipKey
        pure (b :: bs)
      else if c = b.close then advance *> skipToValue true bs
      else if filled then refuse b.notContinued
      else
        if b = .object then skipKey
        pure (b :: bs)

/-- Skip one value after the other until no bracket is open. Each takes at least
one character, so there are no more than `budget` has. -/
def skipValues : List Char → List Bracket → Reader Unit
  | [], _ => refuse .endInValue
  | _ :: budget, outer => do
    let left ← match ← skipStart with
      | none => skipToValue true outer
      | some b => skipToValue false (b :: outer)
    if left.isEmpty then pure () else skipValues budget left

/-- Skip a value of any form. -/
def skipValue : Reader Unit := do
  skipValues (← get) []

/-! ## Elements and members -/

/-- Go to the next element of an array; `false` at its end, which stays unread.
`first` says that none has been read. -/
def nextElement (first : Bool) : Reader Bool := do
  match ← peek with
  | none => refuse .endInList
  | some c =>
    if c = ']' then pure false
    else if first then pure true
    else if c = ',' then
      advance
      match ← peek with
      | none => refuse .endInValue
      | some d => if d = ']' then refuse .trailingComma else pure true
    else refuse .listNotContinued

/-- The end of an array from which no more elements are wanted. -/
def endList : Reader Unit := do
  match ← peek with
  | none => refuse .endInList
  | some c =>
    if c = ']' then advance
    else if c = ',' then
      advance
      if (← peek) = some ']' then refuse .trailingComma else refuse .trailingCharacters
    else refuse .trailingCharacters

/-- The elements of an array up to its end. Each takes at least one character, so
there are no more than `budget` has. -/
def elements {α : Type} (element : Reader α) : List Char → Bool → Reader (List α)
  | [], _ => refuse .endInList
  | _ :: budget, first => do
    if ← nextElement first then
      let a ← element
      return a :: (← elements element budget false)
    else return []

/-- Go to the next member of an object and read its key; `none` at the end of
the object, which stays unread. -/
def nextKey (first : Bool) : Reader (Option String) := do
  match ← peek with
  | none => refuse .endInObject
  | some c =>
    if c = '}' then pure none
    else
      if !first then
        if c = ',' then advance else refuse .objectNotContinued
      match ← peek with
      | none => refuse .endInValue
      | some '"' => advance *> (some <$> stringBody)
      | some d => if d = '}' then refuse .trailingComma else refuse .keyNotString

/-- The colon between a key and its value. -/
def colon : Reader Unit := do
  match ← peek with
  | some ':' => advance
  | some _ => refuse .missingColon
  | none => refuse .endInObject

/-- Feed the members of an object to `member`, which is given the key and reads
the colon and the value. Each takes at least one character, so there are no more
than `budget` has. -/
def members {σ : Type} (member : σ → String → Reader σ) : List Char → Bool → σ → Reader σ
  | [], _, _ => refuse .endInObject
  | _ :: budget, first, acc => do
    match ← nextKey first with
    | none => pure acc
    | some key => members member budget false (← member acc key)

/-! ## Values of one form -/

/-- An array with elements of one kind. -/
def list {α : Type} (element : Reader α) : Reader (List α) := do
  if (← peek) = some '[' then
    advance
    let xs ← elements element (← get) true
    endList
    pure xs
  else mismatch .sequence

/-- A string. -/
def text : Reader String := do
  if (← peek) = some '"' then advance *> stringBody else mismatch .text

/-- An integer from 0 to below `2^64`. -/
def natural64 : Reader UInt64 := do
  match ← peek with
  | some c =>
    if startsNumber c then
      match ← number with
      | .natural n => pure n
      | .negative n => refuse (.wrongValue (.integer n.toInt) .natural64)
      | .floating x => refuse (.wrongForm (.floating x) .natural64)
    else mismatch .natural64
  | none => mismatch .natural64

/-- An integer from `-2^63` to below `2^63`. -/
def integer64 : Reader Int64 := do
  match ← peek with
  | some c =>
    if startsNumber c then
      match ← number with
      | .natural n =>
        if n.toNat < Nat.pow 2 63 then pure (.ofNat n.toNat)
        else refuse (.wrongValue (.integer n.toNat) .integer64)
      | .negative n => pure n
      | .floating x => refuse (.wrongForm (.floating x) .integer64)
    else mismatch .integer64
  | none => mismatch .integer64

/-- A value or `null`. -/
def optional {α : Type} (value : Reader α) : Reader (Option α) := do
  if (← peek) = some 'n' then word ['n', 'u', 'l', 'l'] *> pure none
  else some <$> value

/-! ## Structures -/

/-- A structure of `size` members: an array that `fromElements` reads, or an
object whose members are collected by `member` and put together by `finish`. -/
def struct {α σ : Type} (name : String) (fromElements : Reader α) (start : σ)
    (member : σ → String → Reader σ) (finish : σ → Except Fault α) : Reader α := do
  match ← peek with
  | some '[' =>
    advance
    let a ← fromElements
    endList
    pure a
  | some '{' =>
    advance
    let acc ← members member (← get) true start
    let a ← liftM (finish acc)
    advance
    pure a
  | _ => mismatch (.struct name)

/-- The value of a known member, which must not have come before. -/
def once {α : Type} (name : String) (old : Option α) (value : Reader α) : Reader (Option α) := do
  if old.isSome then refuse (.repeatedMember name)
  colon
  some <$> value

/-- A member that has no meaning. -/
def ignored : Reader Unit := do
  colon
  skipValue

/-- A member that must have come. -/
def required {α : Type} (name : String) : Option α → Except Fault α
  | some a => .ok a
  | none => .error (.missingMember name)

/-- The element at a position of a structure that is written as an array. -/
def elementAt {α : Type} (index : Nat) (value : Reader α) : Reader (Option α) := do
  if ← nextElement (index = 0) then some <$> value else pure none

/-- An element without which a structure of `size` members is too short. -/
def requiredAt {α : Type} (name : String) (size index : Nat) (value : Reader α) : Reader α := do
  match ← elementAt index value with
  | some a => pure a
  | none => refuse (.tooShort index name size)

/-! ## Documents -/

/-- Read a whole document: nothing but blanks may follow the value. -/
def document {α : Type} (value : Reader α) (s : List Char) : Except Fault α := do
  let (a, rest) ← (value <* peek).run s
  if rest.isEmpty then .ok a else .error .trailingCharacters

end Reader

end NativeBindings.Json
