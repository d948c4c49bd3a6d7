import NativeBindings.Node.Reading
import NativeBindings.Node.Scalar

/-!
# Names of nodes

A node has two names, and both are readings along its links: `Reading.native` as
the native symbols spell it, and `Reading.rendered` as the bindings do. A name is
known if all the nodes it depends on are there; an instantiation's native name
depends on its layout alone.
-/

namespace NativeBindings

/-- The path of a user type in the bindings, without its namespace if `short`. -/
def UserType.path (u : UserType) (short : Bool) : String :=
  match u.scope with
  | some ns => if short then u.name else ns ++ "::" ++ u.name
  | none => u.name

namespace Reading

/-! ## Native names -/

/-- The name of a type as the native symbols spell it: `int`, `ns::Box<int>`,
`char*`, `Point[]`. An instantiation has the name of its layout. -/
def native : Reading String := fun _ n linked =>
  match n with
  | .primitive name => some name
  | .pointer t => (linked t).map (· ++ "*")
  | .array e => (linked e).map (· ++ "[]")
  | .enumeration e => some e.nativeName
  | .user u => some u.nativeName
  | .template l _ => linked l
  | .placeholder s => some s.spelling

/-- A native name does not change when more is known. -/
theorem native_stable : native.Stable := by
  intro id n known more h x hx
  cases n <;> simp only [native, Option.map_eq_some_iff] at hx ⊢ <;> grind

/-! ## Names in the bindings -/

/-- The name of a type as the bindings spell it. An enum is written as its
underlying type. -/
def rendered (short : Bool) : Reading String := fun _ n linked =>
  match n with
  | .primitive name => some (Scalar.render name)
  | .pointer t => (linked t).map fun s => "Pointer<" ++ s ++ ">"
  | .array e => (linked e).map fun s => "Array<" ++ s ++ ">"
  | .enumeration e => linked e.underlying
  | .user u => some (u.path short)
  | .template l args =>
    (linked l).bind fun head =>
      (args.mapM linked).map fun inside => head ++ "<" ++ ", ".intercalate inside ++ ">"
  | .placeholder s => some ("Unresolved<" ++ s.spelling ++ ">")

/-- A name in the bindings does not change when more is known. -/
theorem rendered_stable (short : Bool) : (rendered short).Stable := by
  intro id n known more h x hx
  cases n with
  | template l args =>
    simp only [rendered, Option.bind_eq_some_iff, Option.map_eq_some_iff] at hx ⊢
    obtain ⟨head, hl, inside, hargs, rfl⟩ := hx
    exact ⟨head, h l head hl, inside, mapM_stable h hargs, rfl⟩
  | _ =>
    simp only [rendered, Option.map_eq_some_iff] at hx ⊢
    grind

end Reading

namespace Arena

/-- The native name of a node, if all the nodes it depends on are there. -/
def native? (a : Arena) (id : NodeId) : Option String :=
  a.read? .native id

/-- The name of a node in the bindings, if all the nodes it depends on are there. -/
def render? (a : Arena) (short : Bool) (id : NodeId) : Option String :=
  a.read? (.rendered short) id

/-- The native name of a node, empty if it is not known. -/
def native (a : Arena) (id : NodeId) : String :=
  (a.native? id).getD ""

/-- The name of a node in the bindings, empty if it is not known. -/
def render (a : Arena) (short : Bool) (id : NodeId) : String :=
  (a.render? short id).getD ""

end Arena

end NativeBindings
