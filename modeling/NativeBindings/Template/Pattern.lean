import NativeBindings.Node.Spelling
import NativeBindings.Template.ParamSet

/-!
# Patterns

A pattern abstracts a type inside a template instantiation from the arguments: it
says of every place which arguments the type there equals, which node it is and
how it is made up. Types are compared by their native names, so a `long` inside
`Box<int>` is not the parameter.

`Pattern.unify` is what two patterns have in common, and fails if nothing is. The
`scheme` of a pattern is how one generic declaration writes the type for all
the instantiations that were unified.
-/

namespace NativeBindings

/-! ## Patterns -/

/-- What is known of a place without looking inside. -/
structure Label where
  /-- The parameters whose arguments equal the type in every instantiation. -/
  params : ParamSet
  /-- The node on whose native name all instantiations agree, with that name. -/
  agreed : Option (NodeId × String)
deriving DecidableEq, Inhabited

namespace Label

/-- Whether nothing is known. -/
def isEmpty (l : Label) : Bool :=
  l.params.isEmpty && l.agreed.isNone

/-- What is known of both of two places. -/
def meet (a b : Label) : Label :=
  { params := a.params.inter b.params
    agreed :=
      match a.agreed, b.agreed with
      | some x, some y => if x.2 = y.2 then some x else none
      | _, _ => none }

end Label

/-- A type inside an instantiation, abstracted from the arguments. -/
inductive Pattern where
  /-- The instantiations have no structure in common. -/
  | mixed (label : Label)
  /-- A type that is not taken apart. -/
  | leaf (label : Label)
  | pointer (label : Label) (target : Pattern)
  | array (label : Label) (element : Pattern)
  /-- An instantiation of the template family with an index. -/
  | template (label : Label) (family : Nat) (arguments : List Pattern)
deriving Inhabited

namespace Pattern

/-- What is known of a pattern's outermost place. -/
def label : Pattern → Label
  | mixed l | leaf l | pointer l _ | array l _ | template l _ _ => l

/-- The label of a type inside an instantiation with natively named arguments. -/
def labelOf (arguments : List String) (id : NodeId) (native : String) : Label :=
  { params := .ofList ((List.range arguments.length).filter fun i => arguments[i]? == some native)
    agreed := some (id, native) }

/-- The pattern of a type inside an instantiation with natively named arguments.
`native` gives native names, and `familyOf` the template family of an
instantiation. -/
def reading (native : NodeId → String) (familyOf : NodeId → Option Nat)
    (arguments : List String) : Reading Pattern := fun id n linked =>
  let label := labelOf arguments id (native id)
  match n with
  | .pointer t => (linked t).map (pointer label)
  | .array e => (linked e).map (array label)
  | .template _ args =>
    match familyOf id with
    | some g => (args.mapM linked).map (template label g)
    | none => some (leaf label)
  | .primitive _ | .enumeration _ | .user _ | .placeholder _ => some (leaf label)

/-- A pattern does not change when more is known of the linked nodes. -/
theorem reading_stable (native : NodeId → String) (familyOf : NodeId → Option Nat)
    (arguments : List String) : (reading native familyOf arguments).Stable := by
  intro id n known more h x hx
  cases n with
  | template l args =>
    simp only [reading] at hx ⊢
    split at hx
    · rw [Option.map_eq_some_iff] at hx ⊢
      obtain ⟨inside, hargs, rfl⟩ := hx
      exact ⟨inside, Reading.mapM_stable h hargs, rfl⟩
    · exact hx
  | _ =>
    simp only [reading, Option.map_eq_some_iff] at hx ⊢
    grind

/-- The pattern of a node's type inside an instantiation of a graph. -/
def ofNode (a : Arena) (familyOf : NodeId → Option Nat) (arguments : List String) (id : NodeId) :
    Pattern :=
  (a.read? (reading a.native familyOf arguments) id).getD
    (leaf (labelOf arguments id (a.native id)))

/-! ## Unification -/

/-- A place of which only a label is left, if that says anything. -/
def ofLabel (l : Label) : Option Pattern :=
  if l.isEmpty then none else some (mixed l)

mutual

/-- What two patterns have in common, or nothing if no scheme fits both. -/
def unify : Pattern → Pattern → Option Pattern
  | leaf a, leaf b =>
    let l := a.meet b
    if l.agreed.isSome then some (leaf l) else ofLabel l
  | pointer a s, pointer b t =>
    match unify s t with
    | some u => some (pointer (a.meet b) u)
    | none => ofLabel (a.meet b)
  | array a s, array b t =>
    match unify s t with
    | some u => some (array (a.meet b) u)
    | none => ofLabel (a.meet b)
  | template a g ss, template b h ts =>
    if g = h then
      match unifyAll ss ts with
      | some us => some (template (a.meet b) g us)
      | none => ofLabel (a.meet b)
    else ofLabel (a.meet b)
  | s, t => ofLabel (s.label.meet t.label)

/-- What two rows of patterns have in common, place by place. -/
def unifyAll : List Pattern → List Pattern → Option (List Pattern)
  | [], [] => some []
  | s :: ss, t :: ts =>
    match unify s t, unifyAll ss ts with
    | some u, some us => some (u :: us)
    | _, _ => none
  | _, _ => none

end

/-! ## Parameters inside -/

mutual

/-- Whether a parameter equals the type or a part of it. -/
def hasParams : Pattern → Bool
  | mixed l | leaf l => !l.params.isEmpty
  | pointer l s | array l s => !l.params.isEmpty || s.hasParams
  | template l _ ss => !l.params.isEmpty || anyHasParams ss

/-- Whether a parameter equals one of several types or a part of it. -/
def anyHasParams : List Pattern → Bool
  | [] => false
  | s :: ss => s.hasParams || anyHasParams ss

end

end Pattern

/-! ## Schemes -/

/-- How a type is written inside a generic declaration. -/
inductive Scheme where
  /-- There is no common way to write the type. -/
  | unspelled
  | param (index : Nat)
  /-- The same type everywhere: a node with its native name. -/
  | concrete (id : NodeId) (native : String)
  | pointer (target : Scheme)
  | array (element : Scheme)
  /-- The generic declaration of a template family, applied. -/
  | template (family : Nat) (arguments : List Scheme)
deriving Inhabited

namespace Scheme

/-- Choose how to write a place: a parameter comes first, then a node unless
parameters stand inside the type, and then the type's structure. -/
def choose (l : Label) (paramsInside : Bool) (inside : Scheme) : Scheme :=
  match l.params.first? with
  | some p => param p
  | none =>
    match l.agreed, paramsInside with
    | some (id, native), false => concrete id native
    | _, _ => inside

end Scheme

namespace Pattern

mutual

/-- How a pattern is written inside a generic declaration. -/
def scheme : Pattern → Scheme
  | mixed l | leaf l => .choose l false .unspelled
  | pointer l s => .choose l s.hasParams (.pointer s.scheme)
  | array l s => .choose l s.hasParams (.array s.scheme)
  | template l g ss => .choose l (anyHasParams ss) (.template g (schemes ss))

/-- How several patterns are written. -/
def schemes : List Pattern → List Scheme
  | [] => []
  | s :: ss => s.scheme :: schemes ss

end

end Pattern

namespace Scheme

mutual

/-- The template families whose generic declarations are written, outer before
inner. -/
def families : Scheme → List Nat
  | pointer s | array s => s.families
  | template g ss => g :: familiesOfAll ss
  | unspelled | param _ | concrete .. => []

/-- The template families that several schemes write. -/
def familiesOfAll : List Scheme → List Nat
  | [] => []
  | s :: ss => s.families ++ familiesOfAll ss

end

mutual

/-- The parameters that are written. -/
def params : Scheme → ParamSet
  | param p => .ofList [p]
  | pointer s | array s => s.params
  | template _ ss => paramsOfAll ss
  | unspelled | concrete .. => .empty

/-- The parameters that several schemes write. -/
def paramsOfAll : List Scheme → ParamSet
  | [] => .empty
  | s :: ss => s.params.union (paramsOfAll ss)

end

end Scheme

end NativeBindings
