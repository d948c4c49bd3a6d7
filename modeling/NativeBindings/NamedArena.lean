import NativeBindings.NameTable
import NativeBindings.Arena

/-!
# Named arenas

A named arena also numbers the names that its nodes mention, in the order of
first mention. It is changed one step at a time; a step that needs a
node which is not there changes nothing, except that names it has already
mentioned keep their numbers.
-/

namespace NativeBindings

/-- An arena and the names mentioned in it. -/
structure NamedArena where
  /-- The nodes. -/
  arena : Arena
  /-- The names. -/
  names : NameTable
deriving Inhabited

namespace NamedArena

/-- The arena with nothing but `void` and the unknown type. -/
def initial : NamedArena :=
  { arena := .initial, names := NameTable.empty.mentionAll ["void", Arena.unknownName] }

/-- Mention a symbol: its slot, and whether it is new. -/
def reserve (a : NamedArena) (s : SymbolId) : (NodeId × Bool) × NamedArena :=
  let (id, arena) := a.arena.reserve s
  ((id, (a.arena.slot? s).isNone), { a with arena })

/-- Mention a name: its number. -/
def mention (a : NamedArena) (name : String) : UInt32 × NamedArena :=
  let (n, names) := a.names.mention name
  (n, { a with names })

/-- Add a node. -/
def add (a : NamedArena) (n : Node) : NodeId × NamedArena :=
  let (id, arena) := a.arena.add n
  (id, { arena, names := a.names.mentionAll n.names })

/-- The shared primitive with a native name. -/
def sharedPrimitive (a : NamedArena) (native : String) : NodeId × NamedArena :=
  let (id, arena) := a.arena.sharedPrimitive native
  (id, { arena, names := a.names.mentionAll [native] })

/-- Write a node over the one at a position, if there is one; the node that is
there now is the result. -/
def write (a : NamedArena) (id : NodeId) (n : Node) : Option Node × NamedArena :=
  let a := { a with names := a.names.mentionAll n.names }
  match a.arena.node? id with
  | some _ => (some n, { a with arena := a.arena.write id n })
  | none => (none, a)

/-- Try to move the user type at a position to another state. The result is
whether it moved and where it is now. -/
def advance (a : NamedArena) (id : NodeId) (next : BuildState) :
    Option (Bool × BuildState) × NamedArena :=
  match a.arena.user? id with
  | none => (none, a)
  | some u =>
    let now := u.state.advance next
    (some (u.state.movesTo next, now),
      { a with arena := a.arena.updateUser id ({ · with state := now }) })

/-- Send every link and every binding where a forwarding list says. -/
def relink (a : NamedArena) (forward : List (NodeId × NodeId)) : NamedArena :=
  { a with arena := a.arena.relink forward }

end NamedArena

end NativeBindings
