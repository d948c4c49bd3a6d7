import Mathlib.Data.Finset.Card
import Mathlib.Data.Finset.Range
import Mathlib.Data.List.Forall2
import NativeBindings.Node.Reading
import NativeBindings.Proofs.Arena.Growth

/-!
# Enough links

Following one more link either makes a further node known or nothing at all, now and later
(`Arena.readWithin_stable_or_card`). There are no more nodes than the size of the arena, so
as many links suffice for every result there is: `Arena.read?_eq_some_iff`. Loops do no
harm as long as the reading does not go round them. So a reading may be unfolded by one node
without counting links: `Arena.read?_eq`.
-/

namespace NativeBindings

namespace Reading

variable {α : Type} {known : NodeId → Option α} {links : List NodeId} {xs : List α}

/-- What is known of several nodes is what is known of each of them, in order. -/
theorem mapM_eq_some_iff : links.mapM known = some xs ↔
    List.Forall₂ (fun link x => known link = some x) links xs := by
  induction links generalizing xs with
  | nil => simp [eq_comm]
  | cons link links ih =>
    simp only [List.mapM_cons, Option.bind_eq_bind, Option.pure_def, Option.bind_eq_some_iff, ih,
      List.forall₂_cons_left_iff, Option.some.injEq]
    simp only [exists_and_left, eq_comm]

theorem exists_of_mapM (h : links.mapM known = some xs) :
    ∀ link ∈ links, ∃ x, known link = some x := by
  intro link hlink
  obtain ⟨i, hi, rfl⟩ := List.mem_iff_getElem.1 hlink
  have hall := mapM_eq_some_iff.1 h
  exact ⟨_, hall.get hi (hall.length_eq ▸ hi)⟩

/-- What is known of several nodes is what a function says that is right about each. -/
theorem map_eq_of_mapM {f : NodeId → α} (hf : ∀ link x, known link = some x → f link = x)
    (h : links.mapM known = some xs) : links.map f = xs := by
  have hall := (mapM_eq_some_iff.1 h).imp hf
  rwa [← List.forall₂_map_left_iff, List.forall₂_eq_eq_eq] at hall

end Reading

namespace Arena

variable {α : Type} {a : Arena} {r : Reading α}

theorem readWithin_succ (a : Arena) (r : Reading α) (k : Nat) (id : NodeId) :
    a.readWithin r (k + 1) id = (a.node? id).bind fun n => r id n (a.readWithin r k) :=
  rfl

/-- The nodes that are known when at most so many links are followed. -/
def knownWithin (a : Arena) (r : Reading α) (k : Nat) : Finset NodeId :=
  (Finset.range a.size).filter fun id => (a.readWithin r k id).isSome

/-- The nodes that are known are those that are read. -/
theorem mem_knownWithin {k : Nat} {id : NodeId} :
    id ∈ a.knownWithin r k ↔ ∃ x, a.readWithin r k id = some x := by
  simp only [knownWithin, Finset.mem_filter, Finset.mem_range, Option.isSome_iff_exists]
  refine ⟨fun h => h.2, fun ⟨x, hx⟩ => ⟨?_, x, hx⟩⟩
  cases k with
  | zero => simp [readWithin] at hx
  | succ k =>
    obtain ⟨n, hn, -⟩ := Option.bind_eq_some_iff.1 hx
    exact lt_size_of_node? hn

/-- One more link makes a further node known, or it changes nothing any more. -/
theorem readWithin_stable_or_card (hr : r.Stable) (k : Nat) :
    a.readWithin r (k + 1) = a.readWithin r k ∨ k < (a.knownWithin r (k + 1)).card := by
  have hsub (k : Nat) : a.knownWithin r k ⊆ a.knownWithin r (k + 1) := by
    intro id hid
    obtain ⟨x, hx⟩ := mem_knownWithin.1 hid
    exact mem_knownWithin.2 ⟨x, a.readWithin_mono hr (Nat.le_succ k) hx⟩
  have hsame (k : Nat) (h : a.knownWithin r (k + 1) = a.knownWithin r k) :
      a.readWithin r (k + 1) = a.readWithin r k := by
    funext id
    cases hx : a.readWithin r k id with
    | some x => exact a.readWithin_mono hr (Nat.le_succ k) hx
    | none =>
      cases hy : a.readWithin r (k + 1) id with
      | none => rfl
      | some y =>
        obtain ⟨x, hx'⟩ := mem_knownWithin.1 (h ▸ mem_knownWithin.2 ⟨y, hy⟩)
        simp [hx] at hx'
  induction k with
  | zero =>
    by_cases h : a.knownWithin r 1 = a.knownWithin r 0
    · exact Or.inl (hsame 0 h)
    · have hlt := Finset.card_lt_card (Finset.ssubset_iff_subset_ne.2 ⟨hsub 0, Ne.symm h⟩)
      exact Or.inr (Nat.zero_lt_of_lt hlt)
  | succ k ih =>
    rcases ih with hstable | hcard
    · refine Or.inl (funext fun id => ?_)
      rw [readWithin_succ a r (k + 1), hstable, ← readWithin_succ, hstable]
    · by_cases h : a.knownWithin r (k + 2) = a.knownWithin r (k + 1)
      · exact Or.inl (hsame (k + 1) h)
      · have hlt := Finset.card_lt_card (Finset.ssubset_iff_subset_ne.2 ⟨hsub (k + 1), Ne.symm h⟩)
        exact Or.inr (by omega)

/-- As many links as there are nodes are enough. -/
theorem readWithin_size_succ (hr : r.Stable) :
    a.readWithin r (a.size + 1) = a.readWithin r a.size := by
  refine (readWithin_stable_or_card hr a.size).resolve_right fun hcard => ?_
  have hle : (a.knownWithin r (a.size + 1)).card ≤ (Finset.range a.size).card :=
    Finset.card_filter_le _ _
  rw [Finset.card_range] at hle
  omega

/-- A result found by following any number of links is the result. -/
theorem read?_eq_some_iff (hr : r.Stable) {id : NodeId} {x : α} :
    a.read? r id = some x ↔ ∃ k, a.readWithin r k id = some x := by
  refine ⟨fun h => ⟨a.size, h⟩, fun ⟨k, hk⟩ => ?_⟩
  have hlater (m : Nat) : a.readWithin r (a.size + m) = a.readWithin r a.size := by
    induction m with
    | zero => rfl
    | succ m ih =>
      funext id
      rw [← Nat.add_assoc, readWithin_succ, ih, ← readWithin_succ, readWithin_size_succ hr]
  have hmore := a.readWithin_mono hr (Nat.le_add_left k a.size) hk
  rwa [hlater] at hmore

/-- The result at a node is what the reading makes of the results at its links. -/
theorem read?_eq (hr : r.Stable) (id : NodeId) :
    a.read? r id = (a.node? id).bind fun n => r id n (a.read? r) := by
  rw [read?, ← readWithin_size_succ hr]
  rfl

end Arena

end NativeBindings
