import NativeBindings.Json.Fault
import NativeBindings.Text.Numeral

/-!
# Number literals in JSON

A number literal is read as text first (`read`) and given a value afterwards
(`NumberLiteral.value`). Integers of 64 bits keep their value; everything with
a fraction, an exponent or too many digits, and a negative zero, is a
floating-point number.

A float is the product of a 64-bit significand and a power of ten, rounded
twice. Digits that no longer fit into the significand only count as powers of
ten before the point, and not at all behind it.
-/

namespace NativeBindings.Json

/-- A number literal as it is written; digits are kept as characters. -/
structure NumberLiteral where
  /-- Whether a minus sign stands in front. -/
  negative : Bool
  /-- Digits before the point. -/
  whole : List Char
  /-- Digits behind the point, empty when there is none. -/
  fraction : List Char
  /-- Sign and digits of the exponent. -/
  exponent : Option (Bool × List Char)
deriving DecidableEq, Inhabited

/-- The value of a number literal. -/
inductive Number where
  | natural (n : UInt64)
  /-- An integer below zero. -/
  | negative (n : Int64)
  | floating (x : Float)
deriving Inhabited

/-- A number as messages about wrong values know it. -/
def Number.found : Number → Found
  | natural n => .integer n.toNat
  | negative n => .integer n.toInt
  | floating x => .floating x

namespace NumberLiteral

/-! ## Reading -/

/-- The digits at the start of a text, and what follows. -/
def digits (s : List Char) : List Char × List Char :=
  s.span Char.isDigit

/-- At least one digit; `atEnd` is the fault where the text ends instead. -/
def someDigits (atEnd : Fault) (s : List Char) : Except Fault (List Char × List Char) :=
  match digits s, s with
  | ([], _), [] => .error atEnd
  | ([], _), _ :: _ => .error .badNumber
  | (ds@(_ :: _), r), _ => .ok (ds, r)

/-- The digits before the point: a zero stands alone. -/
def wholeDigits (atEnd : Fault) (s : List Char) : Except Fault (List Char × List Char) := do
  let (ds, r) ← someDigits atEnd s
  if ds.head? = some '0' ∧ 1 < ds.length then .error .badNumber
  .ok (ds, r)

/-- The point and the digits behind it, if there is a point. -/
def fractionDigits (atEnd : Fault) : List Char → Except Fault (List Char × List Char)
  | '.' :: r => someDigits atEnd r
  | s => .ok ([], s)

/-- The exponent, if there is one: a sign may precede its digits. The flag says
whether the exponent is negative. -/
def exponentPart (atEnd : Fault) :
    List Char → Except Fault (Option (Bool × List Char) × List Char)
  | c :: r =>
    if c = 'e' ∨ c = 'E' then do
      let (sign, r) := match r with
        | '+' :: r => (false, r)
        | '-' :: r => (true, r)
        | r => (false, r)
      let (ds, r) ← someDigits atEnd r
      .ok (some (sign, ds), r)
    else .ok (none, c :: r)
  | [] => .ok (none, [])

/-- A number literal at the start of a text. Where the text ends inside the
literal the fault is `atEnd`. -/
def read (atEnd : Fault) (s : List Char) : Except Fault (NumberLiteral × List Char) := do
  let (negative, r) := match s with
    | '-' :: r => (true, r)
    | s => (false, s)
  let (whole, r) ← wholeDigits atEnd r
  let (fraction, r) ← fractionDigits atEnd r
  let (exponent, r) ← exponentPart atEnd r
  .ok (⟨negative, whole, fraction, exponent⟩, r)

/-! ## Value -/

/-- Append digits to a number as long as the result is below `bound`, and return
the digits that were left over. -/
def absorb (bound n : Nat) : List Char → Nat × List Char
  | [] => (n, [])
  | c :: r =>
    let next := n * 10 + Text.digitValue c
    if next < bound then absorb bound next r else (n, c :: r)

/-- The power of ten nearest to `10^e`. -/
def powerOfTen (e : Nat) : Float :=
  Float.ofScientific 1 false e

/-- A number divided by `10^e`, in steps that a power of ten can express. -/
def scaleDown (x : Float) (e : Nat) : Float :=
  if e ≤ 308 then x / powerOfTen e
  else if x == 0 then x
  else scaleDown (x / powerOfTen 308) (e - 308)
termination_by e

/-- A significand scaled by a power of ten, unless that is too large. -/
def scale (significand : Nat) (e : Int) : Except Fault Float :=
  let x := (UInt64.ofNat significand).toFloat
  if 0 ≤ e then
    if 308 < e then if x == 0 then .ok x else .error .numberOutOfRange
    else
      let y := x * powerOfTen e.toNat
      if y.isInf then .error .numberOutOfRange else .ok y
  else .ok (scaleDown x (-e).toNat)

/-- The floating-point value of a literal without its sign, where `significand`
holds the whole part up to the digits `extra`. An exponent past 31 bits is too
large, or makes the value zero. -/
def magnitude (l : NumberLiteral) (significand : Nat) (extra : List Char) : Except Fault Float :=
  let (significand, unread) := absorb (Nat.pow 2 64) significand l.fraction
  let places : Int := extra.length - (l.fraction.length - unread.length)
  match l.exponent with
  | none => scale significand places
  | some (down, ds) =>
    match absorb (Nat.pow 2 31) 0 ds with
    | (e, []) => scale significand (if down then places - e else places + e)
    | (_, _ :: _) => if significand ≠ 0 ∧ !down then .error .numberOutOfRange else .ok 0

/-- The value of a literal. -/
def value (l : NumberLiteral) : Except Fault Number :=
  match absorb (Nat.pow 2 64) 0 l.whole, l.fraction, l.exponent with
  | (n, []), [], none =>
    if !l.negative then .ok (.natural (.ofNat n))
    else if 0 < n ∧ n ≤ Nat.pow 2 63 then .ok (.negative (.ofInt (-n)))
    else .ok (.floating (-(UInt64.ofNat n).toFloat))
  | (n, extra), _, _ => do
    let x ← l.magnitude n extra
    .ok (.floating (if l.negative then -x else x))

end NumberLiteral

end NativeBindings.Json
