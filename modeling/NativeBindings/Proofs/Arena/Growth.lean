import NativeBindings.Arena

/-!
# How arenas grow

Between an empty arena and a finished draft only two things happen. Symbols get
slots, nodes are added and shared primitives appear, which touches no node that is
there already (`Arena.Extends`). And a node is written over: a record's node over the
placeholder in its slot, a user type over itself with its bases and fields
(`Arena.Grows`, `Node.Becomes`).

`Arena.Sound` holds throughout: distinct symbols have distinct slots, a placeholder
stands in the slot of its symbol, shared primitives are primitives, and links stay
inside the arena. Each operation has one lemma for each of the two facts.
-/

namespace NativeBindings

/-! ## Nodes -/

/-- A user type without what is filled in after it was created. -/
def UserType.head (u : UserType) : UserType :=
  { u with bases := [], fields := [], state := .stub }

namespace Node

/-- All links of a node. -/
def links : Node → List NodeId
  | pointer t => [t]
  | array e => [e]
  | enumeration e => [e.underlying]
  | user u => u.bases ++ u.fields.map (·.type)
  | template l args => l :: args
  | primitive _ | placeholder _ => []

/-- Whether a node is made from other nodes and is no user type. -/
def isCompound : Node → Bool
  | pointer _ | array _ | enumeration _ | template .. => true
  | primitive _ | user _ | placeholder _ => false

/-- Only nodes that are made of others are spelled with their names. -/
theorem isCompound_of_mem_spellingLinks {n : Node} {link : NodeId} (h : link ∈ n.spellingLinks) :
    n.isCompound = true := by
  cases n <;> simp_all [isCompound, spellingLinks]

/-- The nodes that a name shows are linked to. -/
theorem mem_links_of_mem_spellingLinks {n : Node} {link : NodeId} (h : link ∈ n.spellingLinks) :
    link ∈ n.links := by
  cases n <;> simp_all [links, spellingLinks]

/-- What may stand in the place of a node later: anything for a placeholder, a user type
with the same head for a user type, and nothing new for another node. -/
inductive Becomes : Node → Node → Prop
  | placeholder (s : SymbolId) (n : Node) : Becomes (.placeholder s) n
  | user {u v : UserType} (h : v.head = u.head) : Becomes (.user u) (.user v)
  | same (n : Node) : Becomes n n

namespace Becomes

theorem trans {n m k : Node} (h : n.Becomes m) (h' : m.Becomes k) : n.Becomes k := by
  cases h with
  | placeholder s m => exact .placeholder s k
  | same => exact h'
  | user h =>
    cases h' with
    | user h' => exact .user (h'.trans h)
    | same => exact .user h

/-- A node that is neither a user type nor a placeholder stays what it is. -/
theorem eq_of_userType?_eq_none {n m : Node} (h : n.Becomes m) (hu : n.userType? = none)
    (hp : n.isPlaceholder = false) : m = n := by
  cases h with
  | placeholder => simp [isPlaceholder] at hp
  | user => simp [userType?] at hu
  | same => rfl

/-- A user type stays one, with the same head. -/
theorem exists_user {u : UserType} {m : Node} (h : (Node.user u).Becomes m) :
    ∃ v, m = .user v ∧ v.head = u.head := by
  cases h with
  | user h => exact ⟨_, rfl, h⟩
  | same => exact ⟨u, rfl, rfl⟩

end Becomes

end Node

namespace Arena

/-! ## Sound arenas -/

/-- What holds of every arena on the way to a finished draft. -/
structure Sound (a : Arena) : Prop where
  slot_lt : ∀ {s id}, a.slot? s = some id → id < a.size
  slot_inj : ∀ {s t id}, a.slot? s = some id → a.slot? t = some id → s = t
  shared : ∀ {name id}, a.shared.lookup name = some id → a.node? id = some (.primitive name)
  void : a.node? .void = some (.primitive "void")
  slot_of_placeholder : ∀ {id s}, a.node? id = some (.placeholder s) → a.slot? s = some id
  links_lt : ∀ {id n link}, a.node? id = some n → link ∈ n.links → link < a.size
  underway : ∀ {id u}, a.node? id = some (.user u) → u.state.rank ≤ 1

/-- An arena in which no symbol waits for its record. -/
def Placed (a : Arena) : Prop :=
  ∀ {id n}, a.node? id = some n → n.isPlaceholder = false

/-- A node that may be put into a sound arena. -/
structure Admits (a : Arena) (n : Node) : Prop where
  isPlaceholder : n.isPlaceholder = false
  links_lt : ∀ link ∈ n.links, link < a.size
  underway : ∀ {u}, n = .user u → u.state.rank ≤ 1

/-- The ids of an arena are the numbers below its size. -/
theorem node?_eq_none_iff {a : Arena} {id : NodeId} : a.node? id = none ↔ a.size ≤ id := by
  simp [node?, size]

theorem lt_size_of_node? {a : Arena} {id : NodeId} {n : Node} (h : a.node? id = some n) :
    id < a.size := by
  rcases Nat.lt_or_ge id a.size with hlt | hle
  · exact hlt
  · rw [node?_eq_none_iff.2 hle] at h
    simp at h

theorem exists_node?_of_lt {a : Arena} {id : NodeId} (h : id < a.size) :
    ∃ n, a.node? id = some n :=
  ⟨a.nodes[id], by simp [node?, size] at h ⊢⟩

theorem node?_user {a : Arena} {id : NodeId} {u : UserType} (h : a.user? id = some u) :
    a.node? id = some (.user u) := by
  simp only [user?, Option.bind_eq_some_iff] at h
  obtain ⟨n, hn, hu⟩ := h
  cases n <;> simp_all [Node.userType?]

theorem user?_of_node? {a : Arena} {id : NodeId} {u : UserType} (h : a.node? id = some (.user u)) :
    a.user? id = some u := by
  simp [user?, h, Node.userType?]

/-- What there is before the first record: `void`, the unknown type, and no symbol. -/
theorem initial_eq : initial =
    ⟨#[.primitive "void", .primitive unknownName], [], [(unknownName, 1), ("void", 0)]⟩ :=
  rfl

theorem node?_initial {id : NodeId} {n : Node} (h : initial.node? id = some n) :
    id = 0 ∧ n = .primitive "void" ∨ id = 1 ∧ n = .primitive unknownName := by
  match id with
  | 0 | 1 => simpa [initial_eq, node?, eq_comm] using h
  | id + 2 => simp [initial_eq, node?] at h

/-- The empty arena is sound. -/
theorem sound_initial : initial.Sound where
  slot_lt h := by simp [initial_eq, slot?] at h
  slot_inj h := by simp [initial_eq, slot?] at h
  shared {name id} h := by
    simp only [initial_eq, List.lookup_cons, List.lookup_nil] at h
    split at h
    · next heq =>
      obtain rfl := Option.some.inj h
      rw [eq_of_beq heq]
      rfl
    · split at h
      · next heq =>
        obtain rfl := Option.some.inj h
        rw [eq_of_beq heq]
        rfl
      · simp at h
  void := rfl
  slot_of_placeholder h := by
    rcases node?_initial h with ⟨-, h⟩ | ⟨-, h⟩ <;> simp at h
  links_lt h hl := by
    rcases node?_initial h with ⟨-, rfl⟩ | ⟨-, rfl⟩ <;> simp [Node.links] at hl
  underway h := by
    rcases node?_initial h with ⟨-, h⟩ | ⟨-, h⟩ <;> simp at h

/-! ## Adding to an arena -/

/-- `b` is `a` with more slots, nodes and shared primitives; a symbol that got its slot on the
way has a placeholder there, and no new node is compound. -/
structure Extends (a b : Arena) : Prop where
  size_le : a.size ≤ b.size
  slot : ∀ {s id}, a.slot? s = some id → b.slot? s = some id
  shared : ∀ {name id}, a.shared.lookup name = some id → b.shared.lookup name = some id
  node : ∀ {id n}, a.node? id = some n → b.node? id = some n
  fresh : ∀ {s id}, b.slot? s = some id → a.slot? s = some id ∨ b.node? id = some (.placeholder s)
  compound : ∀ {id n}, b.node? id = some n → n.isCompound = true → a.node? id = some n

theorem Extends.refl (a : Arena) : a.Extends a :=
  ⟨Nat.le_refl _, id, id, id, Or.inl, fun hn _ => hn⟩

theorem Extends.trans {a b c : Arena} (h : a.Extends b) (h' : b.Extends c) : a.Extends c where
  size_le := Nat.le_trans h.size_le h'.size_le
  slot hs := h'.slot (h.slot hs)
  shared hs := h'.shared (h.shared hs)
  node hn := h'.node (h.node hn)
  fresh hs := by
    rcases h'.fresh hs with hs | hp
    · rcases h.fresh hs with hs | hp
      · exact Or.inl hs
      · exact Or.inr (h'.node hp)
    · exact Or.inr hp
  compound hn hc := h.compound (h'.compound hn hc) hc

theorem size_add (a : Arena) (n : Node) : (a.add n).2.size = a.size + 1 := by
  simp [add, size]

/-- Adding a node leaves all others where they are. -/
theorem node?_add_of_node? {a : Arena} {id : NodeId} {m : Node} (h : a.node? id = some m)
    (n : Node) : (a.add n).2.node? id = some m := by
  rw [node?_add, if_neg (Nat.ne_of_lt (lt_size_of_node? h)), h]

/-- A node that is added stands behind all others. -/
theorem node?_add_self (a : Arena) (n : Node) : (a.add n).2.node? a.size = some n := by
  rw [node?_add, if_pos rfl]

/-- An arena grows by any node that is not made of others. -/
theorem add_extends (a : Arena) {n : Node} (h : n.isCompound = false) :
    a.Extends (a.add n).2 where
  size_le := by simp [size_add]
  slot hs := hs
  shared hs := hs
  node hn := node?_add_of_node? hn n
  fresh hs := Or.inl hs
  compound {id m} hm hc := by
    rw [node?_add] at hm
    split at hm
    · rw [Option.some.inj hm, hc] at h
      cases h
    · exact hm

/-- Adding an admitted node keeps an arena sound. -/
theorem Sound.add {a : Arena} (h : a.Sound) {n : Node} (hn : a.Admits n) :
    (a.add n).2.Sound where
  slot_lt hs := by
    rw [size_add]
    exact Nat.lt_succ_of_lt (h.slot_lt hs)
  slot_inj hs ht := h.slot_inj hs ht
  shared hs := node?_add_of_node? (h.shared hs) n
  void := node?_add_of_node? h.void n
  slot_of_placeholder {id s} hk := by
    rw [node?_add] at hk
    split at hk
    · have := hn.isPlaceholder
      rw [Option.some.inj hk] at this
      cases this
    · exact h.slot_of_placeholder hk
  links_lt {id m link} hk hlink := by
    rw [size_add]
    rw [node?_add] at hk
    split at hk
    · obtain rfl := Option.some.inj hk
      exact Nat.lt_succ_of_lt (hn.links_lt link hlink)
    · exact Nat.lt_succ_of_lt (h.links_lt hk hlink)
  underway hk := by
    rw [node?_add] at hk
    split at hk
    · exact hn.underway (Option.some.inj hk)
    · exact h.underway hk

/-! ### Slots -/

/-- A symbol that has a slot keeps it. -/
theorem reserve_of_slot? {a : Arena} {s : SymbolId} {id : NodeId} (h : a.slot? s = some id) :
    a.reserve s = (id, a) := by
  simp [reserve, h]

theorem node?_reserve_of_node? {a : Arena} {id : NodeId} {n : Node} (h : a.node? id = some n)
    (s : SymbolId) : (a.reserve s).2.node? id = some n := by
  unfold reserve
  split
  · exact h
  · exact node?_add_of_node? h _

/-- Reserving gives a slot to one symbol at most, with a placeholder at its end. -/
theorem slot?_eq_of_slot?_reserve {a : Arena} {s t : SymbolId} {id : NodeId}
    (h : (a.reserve s).2.slot? t = some id) :
    a.slot? t = some id ∨ a.slot? s = none ∧ t = s ∧ id = a.size ∧
      (a.reserve s).2.node? id = some (.placeholder s) := by
  by_cases ht : t = s
  · subst ht
    rw [slot?_reserve] at h
    cases hs : a.slot? t with
    | some k =>
      rw [reserve_of_slot? hs] at h
      exact Or.inl h
    | none =>
      refine Or.inr ⟨rfl, rfl, ?_⟩
      simp only [reserve, hs, Option.some.injEq] at h ⊢
      subst h
      exact ⟨rfl, node?_add_self a (.placeholder t)⟩
  · rw [slot?_reserve_of_ne a ht] at h
    exact Or.inl h

/-- Reserving a slot only adds to the arena. -/
theorem reserve_extends (a : Arena) (s : SymbolId) : a.Extends (a.reserve s).2 where
  size_le := by
    unfold reserve
    split
    · exact Nat.le_refl _
    · simp [Arena.add, size]
  slot {t id} ht := by
    by_cases h : t = s
    · subst h
      rwa [reserve_of_slot? ht]
    · rwa [slot?_reserve_of_ne a h]
  shared hn := by
    unfold reserve
    split <;> exact hn
  node hn := node?_reserve_of_node? hn s
  fresh ht := by
    rcases slot?_eq_of_slot?_reserve ht with ht | ⟨-, rfl, rfl, hn⟩
    · exact Or.inl ht
    · exact Or.inr hn
  compound {id n} hn hc := by
    cases hs : a.slot? s with
    | some k => rwa [reserve_of_slot? hs] at hn
    | none =>
      simp only [reserve, hs] at hn
      exact (a.add_extends (n := .placeholder s) rfl).compound hn hc

/-- Placeholders keep an arena sound. -/
theorem Sound.reserve {a : Arena} (h : a.Sound) (s : SymbolId) : (a.reserve s).2.Sound := by
  cases hs : a.slot? s with
  | some id => rwa [reserve_of_slot? hs]
  | none =>
    have hext := a.reserve_extends s
    have hsize : (a.reserve s).2.size = a.size + 1 := by
      simp [Arena.reserve, hs, Arena.add, size]
    have hnode (id : NodeId) : (a.reserve s).2.node? id =
        if id = a.size then some (.placeholder s) else a.node? id := by
      simp only [Arena.reserve, hs]
      exact node?_add a (.placeholder s) id
    refine ⟨fun {t id} ht => ?_, fun {t u id} ht hu => ?_, fun {name id} hn => ?_, ?_,
      fun {id t} hn => ?_, fun {id n link} hn hl => ?_, fun {id u} hn => ?_⟩
    · rcases slot?_eq_of_slot?_reserve ht with ht | ⟨-, -, rfl, -⟩
      · exact Nat.lt_of_lt_of_le (h.slot_lt ht) hext.size_le
      · rw [hsize]
        exact Nat.lt_succ_self _
    · rcases slot?_eq_of_slot?_reserve ht with ht' | ⟨-, hts, hid, -⟩ <;>
        rcases slot?_eq_of_slot?_reserve hu with hu' | ⟨-, hus, hid', -⟩
      · exact h.slot_inj ht' hu'
      · exact absurd (h.slot_lt ht') (hid' ▸ Nat.lt_irrefl _)
      · exact absurd (h.slot_lt hu') (hid ▸ Nat.lt_irrefl _)
      · rw [hts, hus]
    · have hn' : a.shared.lookup name = some id := by
        simpa [Arena.reserve, hs, Arena.add] using hn
      exact hext.node (h.shared hn')
    · exact hext.node h.void
    · rw [hnode] at hn
      split at hn
      · next hid =>
        simp only [Option.some.injEq, Node.placeholder.injEq] at hn
        rw [← hn, slot?_reserve, hid]
        simp [Arena.reserve, hs, Arena.add, size]
      · exact hext.slot (h.slot_of_placeholder hn)
    · rw [hnode] at hn
      rw [hsize]
      split at hn
      · simp only [Option.some.injEq] at hn
        subst hn
        simp [Node.links] at hl
      · exact Nat.lt_succ_of_lt (h.links_lt hn hl)
    · rw [hnode] at hn
      split at hn
      · simp at hn
      · exact h.underway hn

/-- Mention several symbols. -/
def reserveAll (a : Arena) (ss : List SymbolId) : Arena :=
  ss.foldl (fun a s => (a.reserve s).2) a

theorem reserveAll_extends (a : Arena) (ss : List SymbolId) : a.Extends (a.reserveAll ss) := by
  induction ss generalizing a with
  | nil => exact .refl a
  | cons s ss ih => exact (a.reserve_extends s).trans (ih _)

theorem Sound.reserveAll {a : Arena} (h : a.Sound) (ss : List SymbolId) :
    (a.reserveAll ss).Sound := by
  induction ss generalizing a with
  | nil => exact h
  | cons s ss ih => exact ih (h.reserve s)

/-- Every symbol of the list has a slot afterwards. -/
theorem exists_slot?_reserveAll (a : Arena) {ss : List SymbolId} {s : SymbolId} (h : s ∈ ss) :
    ∃ id, (a.reserveAll ss).slot? s = some id := by
  induction ss generalizing a with
  | nil => simp at h
  | cons t ss ih =>
    rcases List.mem_cons.1 h with rfl | h
    · exact ⟨_, (reserveAll_extends _ ss).slot (a.slot?_reserve s)⟩
    · exact ih _ h

/-! ### Shared primitives -/

/-- A primitive that is shared is found by its name afterwards. -/
theorem lookup_sharedPrimitive (a : Arena) (native : String) :
    (a.sharedPrimitive native).2.shared.lookup native = some (a.sharedPrimitive native).1 := by
  unfold sharedPrimitive
  split
  · assumption
  · simp

/-- Sharing a primitive gives no symbol a slot. -/
theorem slot?_sharedPrimitive (a : Arena) (native : String) (s : SymbolId) :
    (a.sharedPrimitive native).2.slot? s = a.slot? s := by
  unfold sharedPrimitive
  split <;> rfl

/-- Sharing a primitive only adds to the arena. -/
theorem sharedPrimitive_extends (a : Arena) (native : String) :
    a.Extends (a.sharedPrimitive native).2 := by
  unfold sharedPrimitive
  split
  · exact .refl a
  · next h =>
    have hext := a.add_extends (n := .primitive native) rfl
    refine ⟨hext.size_le, hext.slot, fun {name id} hn => ?_, hext.node, fun hs => Or.inl hs,
      hext.compound⟩
    have hne : (name == native) = false := by
      rw [beq_eq_false_iff_ne]
      rintro rfl
      simp [h] at hn
    simpa [List.lookup_cons, hne, Arena.add] using hn

/-- Shared primitives keep an arena sound. -/
theorem Sound.sharedPrimitive {a : Arena} (h : a.Sound) (native : String) :
    (a.sharedPrimitive native).2.Sound := by
  unfold Arena.sharedPrimitive
  split
  · exact h
  · have hadd := h.add (n := .primitive native) ⟨rfl, by simp [Node.links], by simp⟩
    refine ⟨hadd.slot_lt, hadd.slot_inj, fun {name id} hn => ?_, hadd.void,
      hadd.slot_of_placeholder, hadd.links_lt, hadd.underway⟩
    simp only [List.lookup_cons] at hn
    split at hn
    · next heq =>
      simp only [Option.some.injEq] at hn
      subst hn
      rw [eq_of_beq heq]
      exact node?_add_self a (.primitive native)
    · exact hadd.shared hn

/-! ## Writing over nodes -/

/-- `b` is `a` after additions and after nodes became others. -/
structure Grows (a b : Arena) : Prop where
  size_le : a.size ≤ b.size
  slot : ∀ {s id}, a.slot? s = some id → b.slot? s = some id
  shared : ∀ {name id}, a.shared.lookup name = some id → b.shared.lookup name = some id
  node : ∀ {id n}, a.node? id = some n → ∃ m, b.node? id = some m ∧ n.Becomes m

/-- What an arena only adds to has not become anything else. -/
theorem Extends.grows {a b : Arena} (h : a.Extends b) : a.Grows b :=
  ⟨h.size_le, h.slot, h.shared, fun {_ n} hn => ⟨n, h.node hn, .same n⟩⟩

/-- An arena that grows in two steps grows. -/
theorem Grows.trans {a b c : Arena} (h : a.Grows b) (h' : b.Grows c) : a.Grows c where
  size_le := Nat.le_trans h.size_le h'.size_le
  slot hs := h'.slot (h.slot hs)
  shared hs := h'.shared (h.shared hs)
  node hn := by
    obtain ⟨m, hm, hnm⟩ := h.node hn
    obtain ⟨k, hk, hmk⟩ := h'.node hm
    exact ⟨k, hk, hnm.trans hmk⟩

/-- A user type stays one with the same head. -/
theorem Grows.user {a b : Arena} (h : a.Grows b) {id : NodeId} {u : UserType}
    (hu : a.user? id = some u) : ∃ v, b.user? id = some v ∧ v.head = u.head := by
  obtain ⟨m, hm, hbec⟩ := h.node (node?_user hu)
  obtain ⟨v, rfl, hv⟩ := hbec.exists_user
  exact ⟨v, user?_of_node? hm, hv⟩

theorem size_write (a : Arena) (id : NodeId) (n : Node) : (a.write id n).size = a.size := by
  simp [write, size]

theorem node?_write_self {a : Arena} {id : NodeId} {m : Node} (h : a.node? id = some m) (n : Node) :
    (a.write id n).node? id = some n := by
  rw [node?_write, if_pos ⟨rfl, lt_size_of_node? h⟩]

/-- Writing a node leaves all others as they are. -/
theorem node?_write_of_ne (a : Arena) {id other : NodeId} (h : other ≠ id) (n : Node) :
    (a.write id n).node? other = a.node? other := by
  rw [node?_write, if_neg fun hid => h hid.1]

/-- An arena grows if a node is written over by what it may become. -/
theorem write_grows {a : Arena} {id : NodeId} {m n : Node} (hm : a.node? id = some m)
    (h : m.Becomes n) : a.Grows (a.write id n) where
  size_le := Nat.le_of_eq (size_write a id n).symm
  slot hs := hs
  shared hs := hs
  node {other k} hk := by
    by_cases hid : other = id
    · subst hid
      obtain rfl := Option.some.inj (hm.symm.trans hk)
      exact ⟨n, node?_write_self hm n, h⟩
    · exact ⟨k, by rw [node?_write_of_ne a hid, hk], .same k⟩

/-- Writing what a node may become over it keeps an arena sound. -/
theorem Sound.write {a : Arena} (h : a.Sound) {id : NodeId} {m n : Node}
    (hm : a.node? id = some m) (hbec : m.Becomes n) (hn : a.Admits n) :
    (a.write id n).Sound := by
  have keep {k : NodeId} {name : String} (hk : a.node? k = some (.primitive name)) :
      (a.write id n).node? k = some (.primitive name) := by
    obtain ⟨k', hk', hb⟩ := (write_grows hm hbec).node hk
    rw [hk', hb.eq_of_userType?_eq_none rfl rfl]
  have cases {k : NodeId} {m' : Node} (hk : (a.write id n).node? k = some m') :
      m' = n ∨ a.node? k = some m' := by
    by_cases hid : k = id
    · subst hid
      rw [node?_write_self hm n] at hk
      exact Or.inl (Option.some.inj hk).symm
    · rw [node?_write_of_ne a hid] at hk
      exact Or.inr hk
  refine ⟨fun hs => ?_, h.slot_inj, fun hs => keep (h.shared hs), keep h.void,
    fun hk => ?_, fun {k m' link} hk hlink => ?_, fun hk => ?_⟩
  · rw [size_write]
    exact h.slot_lt hs
  · rcases cases hk with rfl | hk
    · cases hn.isPlaceholder
    · exact h.slot_of_placeholder hk
  · rw [size_write]
    rcases cases hk with rfl | hk
    · exact hn.links_lt link hlink
    · exact h.links_lt hk hlink
  · rcases cases hk with rfl | hk
    · exact hn.underway rfl
    · exact h.underway hk

/-- Updating a user type writes the new one over it. -/
theorem updateUser_of_user? {a : Arena} {id : NodeId} {u : UserType} (h : a.user? id = some u)
    (f : UserType → UserType) : a.updateUser id f = a.write id (.user (f u)) := by
  simp [updateUser, h]

end Arena

end NativeBindings
