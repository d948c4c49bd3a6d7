import NativeBindings.Arena

/-!
# Reading nodes along their links

What a node means often rests on what the nodes it links to mean: the name of a
pointer contains the name of its target. A `Reading` says how one node is read
when the nodes it links to can be asked for. `Arena.read?` applies it along the
links, and asks for no node that the reading does not ask for: types that share
parts are read part by part only where a result shows every part.

A result does not change when more links may be followed: `readWithin_mono`.
-/

namespace NativeBindings

/-- How a node at a position is read, given how the nodes it links to are read
as far as that is known. -/
abbrev Reading (α : Type) :=
  NodeId → Node → (NodeId → Option α) → Option α

namespace Arena

variable {α : Type}

/-- Read a node, following at most so many links in a row. There is no result
where a link leads out of the arena or does not end in time. -/
def readWithin (a : Arena) (r : Reading α) : Nat → NodeId → Option α
  | 0, _ => none
  | fuel + 1, id => (a.node? id).bind fun n => r id n (a.readWithin r fuel)

/-- Read a node. Links that do not loop pass no node twice, so the size of the
arena bounds their number. -/
def read? (a : Arena) (r : Reading α) (id : NodeId) : Option α :=
  a.readWithin r a.size id

end Arena

/-! ## Readings that only gain from more knowledge -/

namespace Reading

variable {α : Type}

/-- Whether a result stays when more becomes known of the linked nodes. -/
def Stable (r : Reading α) : Prop :=
  ∀ (id : NodeId) (n : Node) (known more : NodeId → Option α),
    (∀ link x, known link = some x → more link = some x) →
      ∀ x, r id n known = some x → r id n more = some x

/-- Several nodes that are known stay known. -/
theorem mapM_stable {known more : NodeId → Option α}
    (h : ∀ link x, known link = some x → more link = some x) {links : List NodeId}
    {xs : List α} (hx : links.mapM known = some xs) : links.mapM more = some xs := by
  induction links generalizing xs with
  | nil => exact hx
  | cons link links ih =>
    simp only [List.mapM_cons, Option.bind_eq_bind, Option.pure_def, Option.bind_eq_some_iff]
      at hx ⊢
    obtain ⟨y, hy, ys, hys, hx⟩ := hx
    exact ⟨y, h link y hy, ys, ih hys, hx⟩

end Reading

namespace Arena

variable {α : Type}

/-- A result does not change when more links may be followed. -/
theorem readWithin_mono (a : Arena) {r : Reading α} (hr : r.Stable) {k m : Nat} (h : k ≤ m)
    {id : NodeId} {x : α} (hx : a.readWithin r k id = some x) :
    a.readWithin r m id = some x := by
  induction k generalizing m id x with
  | zero => simp [readWithin] at hx
  | succ k ih =>
    obtain ⟨m, rfl⟩ : ∃ m', m = m' + 1 := ⟨m - 1, by omega⟩
    simp only [readWithin, Option.bind_eq_some_iff] at hx ⊢
    obtain ⟨n, hn, hx⟩ := hx
    exact ⟨n, hn, hr id n _ _ (fun link y hy => ih (by omega) hy) x hx⟩

end Arena

end NativeBindings
