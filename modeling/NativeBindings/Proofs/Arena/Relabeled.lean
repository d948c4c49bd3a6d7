import Mathlib.Logic.Function.Basic
import NativeBindings.Node.Spelling
import NativeBindings.Proofs.Arena.Growth

/-!
# Arenas with other symbols

The ids that a backend gives to types are only compared with each other. If all of them are
replaced, different ones by different ones, then an arena keeps its nodes in their places, and
only the symbols in it are replaced (`Arena.relabel`). Each operation on arenas commutes with
the replacement. Operations that look symbols up need that it is injective; the others do not.

Names are read off the nodes without their symbols (`Reading.Blind`), so they are the same as
long as every node has its record (`Arena.Placed`).
-/

namespace NativeBindings

variable {f : SymbolId → SymbolId}

/-- A record with its id and every id that it mentions replaced. -/
def SymbolRecord.relabel (f : SymbolId → SymbolId) (r : SymbolRecord) : SymbolRecord :=
  { r with
    id := f r.id
    element := r.element.map f
    bases := r.bases.map f
    fields := r.fields.map fun d => { d with typeId := f d.typeId }
    templateArguments := r.templateArguments.map f }

/-! ## Nodes -/

/-- The user type of a replaced symbol. -/
def UserType.relabel (f : SymbolId → SymbolId) (u : UserType) : UserType :=
  { u with symbol := f u.symbol }

namespace Node

/-- A node with its symbol replaced, if it has one. -/
def relabel (f : SymbolId → SymbolId) : Node → Node
  | user u => user (u.relabel f)
  | placeholder s => placeholder (f s)
  | n => n

@[simp] theorem userType?_relabel (n : Node) :
    (n.relabel f).userType? = n.userType?.map (UserType.relabel f) := by
  cases n <;> rfl

@[simp] theorem isClass_relabel (n : Node) : (n.relabel f).isClass = n.isClass := by
  cases n <;> rfl

@[simp] theorem isTemplate_relabel (n : Node) : (n.relabel f).isTemplate = n.isTemplate := by
  cases n <;> rfl

@[simp] theorem isPlaceholder_relabel (n : Node) :
    (n.relabel f).isPlaceholder = n.isPlaceholder := by
  cases n <;> rfl

@[simp] theorem spellingLinks_relabel (n : Node) :
    (n.relabel f).spellingLinks = n.spellingLinks := by
  cases n <;> rfl

/-- Links and symbols of a node are changed independently. -/
theorem mapLinks_relabel (k : NodeId → NodeId) (n : Node) :
    (n.relabel f).mapLinks k = (n.mapLinks k).relabel f := by
  cases n <;> rfl

end Node

/-- A reading that does not look at symbols where a node has its record. -/
def Reading.Blind {α : Type} (r : Reading α) : Prop :=
  ∀ (f : SymbolId → SymbolId) (id : NodeId) (n : Node) (known : NodeId → Option α),
    n.isPlaceholder = false → r id (n.relabel f) known = r id n known

/-- The native name of a node does not depend on symbols. -/
theorem Reading.native_blind : native.Blind := by
  intro f id n known hp
  cases n with
  | placeholder => cases hp
  | _ => rfl

/-- Nor does its name in the bindings. -/
theorem Reading.rendered_blind (short : Bool) : (rendered short).Blind := by
  intro f id n known hp
  cases n with
  | placeholder => cases hp
  | _ => rfl

/-- A lookup by replaced keys finds what the lookup by the keys finds. -/
theorem lookup_relabel {β : Type} (hf : Function.Injective f) (xs : List (SymbolId × β))
    (s : SymbolId) : (xs.map fun x => (f x.1, x.2)).lookup (f s) = xs.lookup s := by
  induction xs with
  | nil => rfl
  | cons x xs ih =>
    have hkey : (f s == f x.1) = (s == x.1) := by
      rw [Bool.eq_iff_iff, beq_iff_eq, beq_iff_eq, hf.eq_iff]
    rw [List.map_cons, List.lookup_cons, List.lookup_cons, hkey, ih]

namespace Arena

/-- An arena with every symbol replaced. -/
def relabel (f : SymbolId → SymbolId) (a : Arena) : Arena :=
  { a with
    nodes := a.nodes.map (Node.relabel f)
    bindings := a.bindings.map fun x => (f x.1, x.2) }

/-! ## Looking things up -/

variable (a : Arena) (id : NodeId)

@[simp] theorem node?_relabel : (a.relabel f).node? id = (a.node? id).map (Node.relabel f) := by
  simp [relabel, node?]

@[simp] theorem size_relabel : (a.relabel f).size = a.size := by
  simp [relabel, size]

/-- A symbol with another id has the slot that it had. -/
theorem slot?_relabel (hf : Function.Injective f) (s : SymbolId) :
    (a.relabel f).slot? (f s) = a.slot? s :=
  lookup_relabel hf a.bindings s

@[simp] theorem user?_relabel :
    (a.relabel f).user? id = (a.user? id).map (UserType.relabel f) := by
  unfold user?
  rw [node?_relabel]
  cases a.node? id <;> simp

/-- What a type is laid out as does not depend on symbols. -/
@[simp] theorem layout?_relabel : (a.relabel f).layout? id = a.layout? id := by
  unfold layout?
  rw [node?_relabel]
  cases a.node? id with
  | none => rfl
  | some n => cases n <;> rfl

@[simp] theorem layoutType?_relabel :
    (a.relabel f).layoutType? id = (a.layoutType? id).map (UserType.relabel f) := by
  unfold layoutType?
  rw [layout?_relabel]
  cases a.layout? id <;> simp

/-! ## Changing an arena -/

/-- Nodes with other symbols are added in the same places. -/
theorem add_relabel (n : Node) :
    (a.relabel f).add (n.relabel f) = ((a.add n).1, (a.add n).2.relabel f) := by
  simp [add, relabel]

/-- Nodes with other symbols are written in the same places. -/
theorem write_relabel (n : Node) :
    (a.relabel f).write id (n.relabel f) = (a.write id n).relabel f := by
  simp [write, relabel, Array.map_setIfInBounds]

/-- A user type is updated as before if the update does not look at symbols. -/
theorem updateUser_relabel {k k' : UserType → UserType}
    (hk : ∀ u, k' (u.relabel f) = (k u).relabel f) :
    (a.relabel f).updateUser id k' = (a.updateUser id k).relabel f := by
  unfold updateUser
  rw [user?_relabel]
  cases a.user? id with
  | none => rfl
  | some u =>
    simp only [Option.map_some, hk]
    exact a.write_relabel id (.user (k u))

/-- Slots are reserved for other symbols in the same places. -/
theorem reserve_relabel (hf : Function.Injective f) (s : SymbolId) :
    (a.relabel f).reserve (f s) = ((a.reserve s).1, (a.reserve s).2.relabel f) := by
  unfold reserve
  rw [slot?_relabel a hf]
  cases a.slot? s with
  | some id => rfl
  | none => simp [add, relabel, Node.relabel]

theorem reserveAll_relabel (hf : Function.Injective f) (ss : List SymbolId) :
    (a.relabel f).reserveAll (ss.map f) = (a.reserveAll ss).relabel f := by
  unfold reserveAll
  induction ss generalizing a with
  | nil => rfl
  | cons s ss ih => rw [List.map_cons, List.foldl_cons, List.foldl_cons, reserve_relabel a hf, ih]

/-- Primitives have no symbols, so they are shared as before. -/
theorem sharedPrimitive_relabel (name : String) : (a.relabel f).sharedPrimitive name =
    ((a.sharedPrimitive name).1, (a.sharedPrimitive name).2.relabel f) := by
  have hshared : (a.relabel f).shared = a.shared := rfl
  unfold sharedPrimitive
  rw [hshared]
  cases a.shared.lookup name with
  | some id => rfl
  | none => simp [add, relabel, Node.relabel]

/-- Links are redirected as before. -/
theorem relink_relabel (forward : List (NodeId × NodeId)) :
    (a.relabel f).relink forward = (a.relink forward).relabel f := by
  simp [relink, relabel, Node.mapLinks_relabel]

/-! ## Reading names -/

variable {a} (h : a.Placed)

include h

/-- Placeholders stand for their symbols, also after these have changed. -/
theorem Placed.relabel : (a.relabel f).Placed := by
  intro id n hn
  rw [node?_relabel, Option.map_eq_some_iff] at hn
  obtain ⟨m, hm, rfl⟩ := hn
  rw [Node.isPlaceholder_relabel, h hm]

/-- A reading that is blind for symbols reads every node as before. -/
theorem Placed.readWithin_relabel {α : Type} {r : Reading α} (hr : r.Blind) (k : Nat) :
    (a.relabel f).readWithin r k id = a.readWithin r k id := by
  induction k generalizing id with
  | zero => rfl
  | succ k ih =>
    have hknown : (a.relabel f).readWithin r k = a.readWithin r k := funext ih
    simp only [readWithin, node?_relabel, hknown]
    cases hn : a.node? id with
    | none => rfl
    | some n => exact hr f id n _ (h hn)

theorem Placed.read?_relabel {α : Type} {r : Reading α} (hr : r.Blind) :
    (a.relabel f).read? r id = a.read? r id := by
  rw [read?, size_relabel, h.readWithin_relabel id hr, read?]

theorem Placed.native_relabel : (a.relabel f).native id = a.native id :=
  congrArg (·.getD "") (h.read?_relabel id Reading.native_blind)

theorem Placed.render_relabel (short : Bool) :
    (a.relabel f).render short id = a.render short id :=
  congrArg (·.getD "") (h.read?_relabel id (Reading.rendered_blind short))

end Arena

end NativeBindings
