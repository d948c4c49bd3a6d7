import NativeBindings.Graph.Basic
import NativeBindings.Template.Pattern

/-!
# Shared layouts

The layout of one instantiation, with its types abstracted from the arguments,
is a shared layout that covers that instantiation alone. Folding `unify` over
the instantiations of a template gives the layout that covers them all, or the
first reason why there is none.

Offsets and sizes may differ; only those on which all agree are kept.
-/

namespace NativeBindings

/-- A field of a shared layout. -/
structure SharedField where
  /-- Native name. -/
  name : String
  /-- Byte offset, when all instantiations agree. -/
  offset : Option UInt64
  /-- What the types of the field have in common. -/
  pattern : Pattern
deriving Inhabited

/-- A layout that covers several instantiations. -/
structure SharedLayout where
  /-- Number of parameters. -/
  arity : Nat
  /-- Data members, in order. -/
  fields : List SharedField
  /-- Base classes, in order. -/
  bases : List Pattern
  /-- Size in bytes, when all instantiations agree. -/
  size : Option UInt64
deriving Inhabited

/-- Why instantiations cannot share a layout. -/
inductive Mismatch where
  | noLayout
  | arity (m n : Nat)
  | fieldCount (m n : Nat)
  | fieldName (name other : String)
  | fieldType (name : String)
  | bases
deriving DecidableEq, Repr, Inhabited

/-- A mismatch in words. -/
def Mismatch.message : Mismatch → String
  | noLayout => "no instantiation has a layout"
  | arity m n => "argument counts differ (" ++ toString m ++ " and " ++ toString n ++ ")"
  | fieldCount m n => "field counts differ (" ++ toString m ++ " and " ++ toString n ++ ")"
  | fieldName name other => "field `" ++ name ++ "` faces field `" ++ other ++ "`"
  | fieldType name => "field `" ++ name ++ "` has incompatible types"
  | bases => "base classes differ"

/-- The first of two values if they are equal. -/
def agreeing {α : Type} [DecidableEq α] (a b : Option α) : Option α :=
  if a = b then a else none

namespace SharedLayout

/-! ## The layout of one instantiation -/

/-- The layout of one instantiation, abstracted from its arguments. -/
def ofInstantiation (g : TypeGraph) (familyOf : NodeId → Option Nat) (id : NodeId) :
    Option SharedLayout :=
  match g.arena.node? id with
  | some (.template l args) =>
    (g.arena.user? l).map fun u =>
      let arguments := args.map g.native
      let pattern := Pattern.ofNode g.arena familyOf arguments
      { arity := args.length
        fields := u.fields.map fun f => ⟨f.name, some f.offset, pattern f.type⟩
        bases := u.bases.map pattern
        size := some u.size }
  | _ => none

/-! ## Unification -/

/-- What two rows of fields of equal length have in common. -/
def unifyFields : List SharedField → List SharedField → Except Mismatch (List SharedField)
  | f :: fs, h :: hs =>
    if f.name ≠ h.name then .error (.fieldName f.name h.name)
    else
      match f.pattern.unify h.pattern with
      | none => .error (.fieldType f.name)
      | some pattern =>
        (unifyFields fs hs).map ({ f with pattern, offset := agreeing f.offset h.offset } :: ·)
  | _, _ => .ok []

/-- What two rows of bases have in common. -/
def unifyBases (ss ts : List Pattern) : Except Mismatch (List Pattern) :=
  match Pattern.unifyAll ss ts with
  | some us => .ok us
  | none => .error .bases

/-- What two layouts have in common. -/
def unify (a b : SharedLayout) : Except Mismatch SharedLayout := do
  if b.arity ≠ a.arity then .error (.arity a.arity b.arity)
  if b.fields.length ≠ a.fields.length then
    .error (.fieldCount a.fields.length b.fields.length)
  let fields ← unifyFields a.fields b.fields
  let bases ← unifyBases a.bases b.bases
  return { arity := a.arity, fields, bases, size := agreeing a.size b.size }

/-- The layout that covers all of the given instantiations. -/
def ofInstantiations (g : TypeGraph) (familyOf : NodeId → Option Nat) (ids : List NodeId) :
    Except Mismatch SharedLayout :=
  match ids.filterMap (ofInstantiation g familyOf) with
  | [] => .error .noLayout
  | l :: ls => ls.foldlM unify l

/-! ## What a layout writes -/

/-- The schemes of the fields and then of the bases. -/
def schemes (l : SharedLayout) : List Scheme :=
  l.fields.map (·.pattern.scheme) ++ l.bases.map Pattern.scheme

/-- The template families whose generic declarations a layout writes, in order. -/
def dependencies (l : SharedLayout) : List Nat :=
  Scheme.familiesOfAll l.schemes

end SharedLayout

end NativeBindings
