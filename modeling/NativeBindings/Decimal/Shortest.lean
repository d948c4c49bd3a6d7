import NativeBindings.Text.Numeral

/-!
# The shortest decimal that reads back

A binary floating-point number stands for an interval of reals, those that
round to it. `Decimal.shortest` finds the fewest significant digits with which
some decimal lies in that interval, and of the decimals with so many digits the
one nearest to the number. `Decimal.Layout` says how such a decimal is written.

All of it is exact arithmetic on natural numbers: a number `m · 2^q` is taken
apart by `Decimal.ofBits`, and lies halfway between its neighbours' midpoints.
-/

namespace NativeBindings

/-- The decimal number `digits · 10^exponent`. -/
structure Decimal where
  /-- The digits, read as an integer. -/
  digits : Nat
  /-- The power of ten that scales them. -/
  exponent : Int
deriving DecidableEq, Repr, Inhabited

namespace Decimal

/-! ## Binary numbers and the reals that round to them -/

/-- A positive binary number `mantissa · 2^exponent`. -/
structure Binary where
  /-- The integer significand. -/
  mantissa : Nat
  /-- The power of two. -/
  exponent : Int
  /-- Whether the neighbour below is only half as far away as the one above. -/
  lowerIsNear : Bool
deriving DecidableEq, Repr, Inhabited

/-- The finite positive number whose sign-free bit pattern is given. -/
def ofBits (bits : Nat) : Binary :=
  let fraction : Nat := bits % Nat.pow 2 52
  let exponent : Nat := bits / Nat.pow 2 52 % Nat.pow 2 11
  if exponent = 0 then ⟨fraction, -1074, false⟩
  else ⟨fraction + Nat.pow 2 52, (exponent : Int) - 1075, fraction = 0 && exponent != 1⟩

/-- Reals as quarters of the unit in the last place over a common scale:
`value`, the midpoints `low` and `high` to the neighbours, and the `unit` that
stands for one, all multiplied by the same number. -/
structure Interval where
  /-- Midpoint to the neighbour below. -/
  low : Nat
  /-- The number itself. -/
  value : Nat
  /-- Midpoint to the neighbour above. -/
  high : Nat
  /-- What stands for one. -/
  unit : Nat
  /-- Whether the midpoints themselves round to the number. -/
  closed : Bool
deriving Repr

/-- The interval of reals that round to a binary number, ties going to even. -/
def Binary.interval (b : Binary) : Interval :=
  let up := Nat.pow 2 b.exponent.toNat
  { low := (4 * b.mantissa - if b.lowerIsNear then 1 else 2) * up
    value := 4 * b.mantissa * up
    high := (4 * b.mantissa + 2) * up
    unit := 4 * Nat.pow 2 (-b.exponent).toNat
    closed := b.mantissa % 2 = 0 }

/-- Whether the real `n / d`, on the interval's scale, rounds to the number. -/
def Interval.holds (i : Interval) (n d : Nat) : Bool :=
  if i.closed then i.low * d ≤ n && n ≤ i.high * d else i.low * d < n && n < i.high * d

/-! ## The search -/

/-- The multiple of `10^e` that the interval holds, if it holds one. Only the
value's two neighbours on that grid are looked at: if any point of the grid lies
in the interval, one of them does. Of two the nearer is taken, and of two
equally near ones the even one. -/
def Interval.onGrid? (i : Interval) (e : Int) : Option Nat :=
  let up := i.unit * Nat.pow 10 e.toNat
  let down := Nat.pow 10 (-e).toNat
  let below := i.value * down / up
  let rest := i.value * down % up
  let lowHolds := i.holds (below * up) down
  let highHolds := i.holds ((below + 1) * up) down
  if lowHolds && highHolds then
    if 2 * rest < up || (2 * rest = up && below % 2 = 0) then some below else some (below + 1)
  else if lowHolds then some below
  else if highHolds then some (below + 1)
  else none

/-- The first hit on ever finer grids: `fuel` grids from `10^e` on. -/
def Interval.search (i : Interval) (e : Int) : Nat → Decimal
  | 0 => ⟨0, 0⟩
  | fuel + 1 =>
    match i.onGrid? e with
    | some n => ⟨n, e⟩
    | none => i.search (e - 1) fuel

/-- A decimal without trailing zero digits. -/
def strip (d : Decimal) : Nat → Decimal
  | 0 => d
  | fuel + 1 =>
    if d.digits ≠ 0 ∧ d.digits % 10 = 0 then strip ⟨d.digits / 10, d.exponent + 1⟩ fuel else d

/-- The shortest decimal for a positive binary number. No binary number is as
large as `10^310`, and 17 digits suffice for the smallest. -/
def shortest (b : Binary) : Decimal :=
  strip (b.interval.search 310 660) 330

/-! ## Layout -/

/-- How decimals are written. -/
structure Layout where
  /-- Least decimal exponent that is written positionally. -/
  leastPositional : Int
  /-- Greatest decimal exponent that is written positionally. -/
  greatestPositional : Int
deriving Repr

/-- The decimal exponent of the first digit. -/
def leading (d : Decimal) : Int :=
  d.exponent + (Text.decimal d.digits).length - 1

/-- The text of a positive decimal under a layout: positional with at least one
digit on either side of the point, or one digit before the point and a signed
exponent behind. -/
def render (layout : Layout) (d : Decimal) : List Char :=
  let ds := Text.decimal d.digits
  let lead := d.leading
  if layout.leastPositional ≤ lead ∧ lead ≤ layout.greatestPositional then
    if lead < 0 then '0' :: '.' :: (List.replicate (-lead - 1).toNat '0' ++ ds)
    else
      let whole := lead.toNat + 1
      if ds.length ≤ whole then ds ++ List.replicate (whole - ds.length) '0' ++ ['.', '0']
      else ds.take whole ++ '.' :: ds.drop whole
  else
    let head := match ds with
      | [] => []
      | [c] => [c]
      | c :: r => c :: '.' :: r
    let sign := if lead < 0 then '-' else '+'
    head ++ 'e' :: sign :: Text.decimal lead.natAbs

/-- The text of a finite number. -/
def text (layout : Layout) (x : Float) : String :=
  let bits := x.toBits.toNat
  let sign := if bits < Nat.pow 2 63 then [] else ['-']
  let magnitude := bits % Nat.pow 2 63
  let body := if magnitude = 0 then ['0', '.', '0'] else (shortest (ofBits magnitude)).render layout
  String.ofList (sign ++ body)

end Decimal

end NativeBindings
