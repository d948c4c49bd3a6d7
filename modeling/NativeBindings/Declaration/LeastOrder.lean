import NativeBindings.Template.ParamSet

/-!
# The least order

A number comes after those it depends on. Each number waits for its dependencies;
one that waits for none is ready. The least that is ready is taken, and those
that wait for it are told, which may make them ready. So the order is the least
of all that respect the dependencies.

What is left when nothing is ready contains a circle, which is found by going
from one to the next that is left.
-/

namespace NativeBindings.LeastOrder

/-- How far sorting has come. -/
structure Progress where
  /-- For each number the numbers that it still waits for. -/
  waits : Array (List Nat)
  /-- The numbers that wait for none and were not taken, in ascending order. -/
  ready : List Nat

namespace Progress

/-- What a number still waits for. -/
def waitsFor (s : Progress) (k : Nat) : List Nat :=
  s.waits[k]?.getD []

/-- The start for the numbers below `n`. -/
def start (n : Nat) (deps : Nat → List Nat) : Progress :=
  { waits := ((List.range n).map deps).toArray
    ready := (List.range n).filter fun k => (deps k).isEmpty }

/-- Tell a number that another one was taken. -/
def tell (taken : Nat) (s : Progress) (k : Nat) : Progress :=
  let rest := (s.waitsFor k).filter (· != taken)
  { waits := s.waits.setIfInBounds k rest
    ready := if rest.isEmpty then ParamSet.insertSorted k s.ready else s.ready }

end Progress

/-- Note that a number depends on another one, which the table is about. -/
def note (k : Nat) (table : Array (List Nat)) (i : Nat) : Array (List Nat) :=
  table.setIfInBounds i (table[i]?.getD [] ++ [k])

/-- For each number below `n` those that depend on it. -/
def dependents (n : Nat) (deps : Nat → List Nat) : Array (List Nat) :=
  (List.range n).foldl (fun table k => (deps k).foldl (note k) table) (Array.replicate n [])

/-- Take what is ready, each time the least, and tell its dependents. There are
at most `fuel` numbers to take. The result is the order of those taken and how
far sorting has come. -/
def run (table : Array (List Nat)) : Nat → Progress → List Nat × Progress
  | 0, s => ([], s)
  | fuel + 1, s =>
    match s.ready with
    | [] => ([], s)
    | i :: ready =>
      let (order, last) :=
        run table fuel ((table[i]?.getD []).foldl (Progress.tell i) { s with ready })
      (i :: order, last)

/-- Go from the last number of a path to its first dependency that is left,
until a number comes again; the result starts and ends with that number. A path
that ends otherwise is returned as it is. -/
def circleFrom (deps : Nat → List Nat) (left : List Nat) : Nat → List Nat → Nat → List Nat
  | 0, path, _ => path
  | fuel + 1, path, current =>
    match (deps current).find? (· ∈ left) with
    | none => path
    | some next =>
      if next ∈ path then path.dropWhile (· != next) ++ [next]
      else circleFrom deps left fuel (path ++ [next]) next

/-- A circle among numbers none of which can come next. -/
def circle (deps : Nat → List Nat) (left : List Nat) : List Nat :=
  match left with
  | [] => []
  | start :: _ => circleFrom deps left (left.length + 1) [start] start

/-- The numbers below `n` with dependencies first, or a circle. -/
def sort (n : Nat) (deps : Nat → List Nat) : Except (List Nat) (List Nat) :=
  let (order, last) := run (dependents n deps) n (.start n deps)
  if order.length < n then
    let left := (List.range n).filter fun k => !(last.waitsFor k).isEmpty
    .error (circle last.waitsFor left)
  else .ok order

end NativeBindings.LeastOrder
