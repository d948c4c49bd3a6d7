import NativeBindings.Declaration.LeastOrder
import NativeBindings.Proofs.Ring

/-!
# What sorting comes to

While numbers are taken, the tables say of those that are pending what they said of all of them
at the start: each waits for its dependencies that are pending, and what waits for none is ready
(`LeastOrder.Progress.Reaches`). So sorting takes the pending numbers out one by one, each time
the first whose dependencies are all gone (`LeastOrder.arrange`, `LeastOrder.sort_eq_ok_iff`).

Numbers on a ring wait for each other, so none of them is ever taken out
(`LeastOrder.mem_left_of_waiting`). Whatever is left waits for something that is left too
(`LeastOrder.waiting_of_mem_left`), and among finitely many numbers that leads back
somewhere. So there is no order exactly if there is a ring: `LeastOrder.sort_eq_error_iff`.

Any order that respects the dependencies starts with a number that depends on none, and the least
of these is what sorting starts with. So if there is an order, the least one is found:
`LeastOrder.sort_least`.
-/

namespace NativeBindings.LeastOrder

open Relation

/-! ## Taking out what is free -/

section

variable {deps : Nat → List Nat} {pending : List Nat}

/-- Take numbers out of `pending`, each time the first whose dependencies are
all gone. The result is the order of those taken and what is left. -/
def arrange (deps : Nat → List Nat) (pending : List Nat) : List Nat × List Nat :=
  match h : pending.find? fun i => (deps i).all (· ∉ pending) with
  | none => ([], pending)
  | some i =>
    have : (pending.erase i).length < pending.length := by
      have hi := List.mem_of_find?_eq_some h
      rw [List.length_erase_of_mem hi]
      exact Nat.sub_one_lt_of_lt (List.length_pos_of_mem hi)
    let later := arrange deps (pending.erase i)
    (i :: later.1, later.2)
termination_by pending.length

theorem arrange_of_none (h : (pending.find? fun i => (deps i).all (· ∉ pending)) = none) :
    arrange deps pending = ([], pending) := by
  rw [arrange]
  split
  · rfl
  · next hsome =>
    rw [h] at hsome
    cases hsome

theorem arrange_of_some {i : Nat}
    (h : (pending.find? fun i => (deps i).all (· ∉ pending)) = some i) :
    arrange deps pending =
      (i :: (arrange deps (pending.erase i)).1, (arrange deps (pending.erase i)).2) := by
  rw [arrange]
  split
  · next hnone =>
    rw [h] at hnone
    cases hnone
  · next hsome =>
    rw [h] at hsome
    obtain rfl := Option.some.inj hsome
    rfl

/-- Taking numbers out and leaving the rest loses none. -/
theorem arrange_perm (deps : Nat → List Nat) (pending : List Nat) :
    ((arrange deps pending).1 ++ (arrange deps pending).2).Perm pending := by
  fun_induction arrange deps pending with
  | case1 => exact .refl _
  | case2 pending i hi _ later ih =>
    have hmem := List.mem_of_find?_eq_some hi
    exact (ih.cons i).trans (List.perm_cons_erase hmem).symm

/-- What is left waits for something that is left. -/
theorem waiting_of_mem_left (deps : Nat → List Nat) (pending : List Nat) :
    ∀ i ∈ (arrange deps pending).2, ∃ j ∈ deps i, j ∈ (arrange deps pending).2 := by
  fun_induction arrange deps pending with
  | case1 pending hnone =>
    intro i hi
    have hnot := List.find?_eq_none.1 hnone i hi
    simpa using hnot
  | case2 pending i hi _ later ih => exact ih

/-- Numbers that wait for each other are never taken out. -/
theorem mem_left_of_waiting (deps : Nat → List Nat) (pending : List Nat) {S : Nat → Prop}
    (hS : ∀ i, S i → ∃ j ∈ deps i, S j) (hp : ∀ i, S i → i ∈ pending) {i : Nat} (hi : S i) :
    i ∈ (arrange deps pending).2 := by
  fun_induction arrange deps pending with
  | case1 pending hnone => exact hp i hi
  | case2 pending k hk _ later ih =>
    refine ih fun j hj => ?_
    have hfree := List.find?_some hk
    have hne : j ≠ k := by
      rintro rfl
      obtain ⟨m, hm, hSm⟩ := hS j hj
      simp only [List.all_eq_true, decide_eq_true_eq] at hfree
      exact hfree m hm (hp m hSm)
    exact (List.mem_erase_of_ne hne).2 (hp j hj)

end

/-! ## The tables -/

theorem size_foldl_note (k : Nat) (is : List Nat) (table : Array (List Nat)) :
    (is.foldl (note k) table).size = table.size := by
  induction is generalizing table with
  | nil => rfl
  | cons i is ih => rw [List.foldl_cons, ih, note, Array.size_setIfInBounds]

theorem mem_foldl_note {k k' i : Nat} {is : List Nat} {table : Array (List Nat)}
    (hi : i < table.size) : k' ∈ (is.foldl (note k) table)[i]?.getD [] ↔
      k' ∈ table[i]?.getD [] ∨ k' = k ∧ i ∈ is := by
  induction is generalizing table with
  | nil => simp
  | cons j is ih =>
    rw [List.foldl_cons, ih (by rwa [note, Array.size_setIfInBounds]), note]
    by_cases hj : j = i
    · subst hj
      simp [hi]
      grind
    · rw [Array.getElem?_setIfInBounds_ne hj]
      simp [Ne.symm hj]

/-- The dependents of a number are those that depend on it. -/
theorem mem_dependents {n i k : Nat} {deps : Nat → List Nat} (hi : i < n) :
    k ∈ (dependents n deps)[i]?.getD [] ↔ k < n ∧ i ∈ deps k := by
  have key (ks : List Nat) (table : Array (List Nat)) (hi : i < table.size) :
      k ∈ (ks.foldl (fun table k => (deps k).foldl (note k) table) table)[i]?.getD [] ↔
        k ∈ table[i]?.getD [] ∨ k ∈ ks ∧ i ∈ deps k := by
    induction ks generalizing table with
    | nil => simp
    | cons k' ks ih =>
      rw [List.foldl_cons, ih _ (by rwa [size_foldl_note]), mem_foldl_note hi]
      grind
  rw [dependents, key _ _ (by simpa using hi)]
  simp [hi]

namespace Progress

theorem waitsFor_tell (s : Progress) (i k x : Nat) : (s.tell i k).waitsFor x =
    if x = k then (s.waitsFor x).filter (· != i) else s.waitsFor x := by
  by_cases hx : x = k
  · subst hx
    by_cases hlt : x < s.waits.size
    · simp [waitsFor, tell, hlt]
    · simp [waitsFor, tell, hlt]
  · rw [if_neg hx, waitsFor, tell]
    simp only [Array.getElem?_setIfInBounds_ne (Ne.symm hx), waitsFor]

/-- Those that are told no longer wait for what was taken. -/
theorem waitsFor_foldl_tell (s : Progress) (i x : Nat) (ks : List Nat) :
    (ks.foldl (tell i) s).waitsFor x =
      if x ∈ ks then (s.waitsFor x).filter (· != i) else s.waitsFor x := by
  induction ks generalizing s with
  | nil => simp
  | cons k ks ih =>
    rw [List.foldl_cons, ih, waitsFor_tell]
    by_cases hx : x = k <;> by_cases hmem : x ∈ ks <;> simp [hx, hmem]

/-- Those that are told become ready when they wait for nothing else. -/
theorem mem_ready_foldl_tell (s : Progress) (i x : Nat) (ks : List Nat) :
    x ∈ (ks.foldl (tell i) s).ready ↔
      x ∈ s.ready ∨ x ∈ ks ∧ (s.waitsFor x).filter (· != i) = [] := by
  induction ks generalizing s with
  | nil => simp
  | cons k ks ih =>
    have hready : x ∈ (s.tell i k).ready ↔
        x ∈ s.ready ∨ x = k ∧ (s.waitsFor k).filter (· != i) = [] := by
      rw [tell]
      cases hrest : (s.waitsFor k).filter (· != i) with
      | nil => simp [ParamSet.mem_insertSorted, or_comm]
      | cons j js => simp
    rw [List.foldl_cons, ih, hready, waitsFor_tell, List.mem_cons]
    by_cases hx : x = k
    · subst hx
      simp
      tauto
    · simp [hx]

theorem pairwise_ready_foldl_tell {s : Progress} (h : s.ready.Pairwise (· < ·)) (i : Nat)
    (ks : List Nat) : (ks.foldl (tell i) s).ready.Pairwise (· < ·) := by
  induction ks generalizing s with
  | nil => exact h
  | cons k ks ih =>
    refine ih ?_
    rw [tell]
    dsimp only
    split
    · exact ParamSet.pairwise_insertSorted h
    · exact h

/-! ## What is kept while numbers are taken -/

/-- The progress when the numbers in a list are pending: each number waits for the pending ones
among its dependencies, and ready is what is pending and waits for none. -/
structure Reaches (s : Progress) (n : Nat) (deps : Nat → List Nat) (pending : List Nat) :
    Prop where
  waits : ∀ k < n, s.waitsFor k = (deps k).filter (· ∈ pending)
  mem_ready : ∀ k, k ∈ s.ready ↔ k ∈ pending ∧ ∀ j ∈ deps k, j ∉ pending
  ready_ascending : s.ready.Pairwise (· < ·)
  pending_ascending : pending.Pairwise (· < ·)
  lt : ∀ k ∈ pending, k < n
  taken : ∀ k < n, k ∉ pending → ∀ j ∈ deps k, j ∉ pending

variable {n : Nat} {deps : Nat → List Nat} {pending : List Nat} {s : Progress}

/-- At the start all numbers are pending. -/
theorem reaches_start (hdeps : ∀ k < n, ∀ j ∈ deps k, j < n) :
    (start n deps).Reaches n deps (List.range n) where
  waits k hk := by
    have hall : (deps k).filter (· ∈ List.range n) = deps k :=
      List.filter_eq_self.2 fun j hj => by simpa using hdeps k hk j hj
    rw [hall]
    simp [waitsFor, start, hk]
  mem_ready k := by
    simp only [start, List.mem_filter, List.mem_range, List.isEmpty_iff,
      List.eq_nil_iff_forall_not_mem]
    exact and_congr_right fun hk => forall_congr' fun j =>
      ⟨fun h hj => absurd hj h, fun h hj => h hj (hdeps k hk j hj)⟩
  ready_ascending := List.pairwise_lt_range.filter _
  pending_ascending := List.pairwise_lt_range
  lt k hk := List.mem_range.1 hk
  taken k hk hmem := absurd (List.mem_range.2 hk) hmem

/-- The least number that is ready is the first pending one that is free. -/
theorem Reaches.find?_eq (h : s.Reaches n deps pending) :
    (pending.find? fun i => (deps i).all (· ∉ pending)) = s.ready.head? := by
  have hready : s.ready = pending.filter fun i => (deps i).all (· ∉ pending) := by
    refine congrArg ParamSet.toList (ParamSet.ext (s := ⟨_, h.ready_ascending⟩)
      (t := ⟨_, h.pending_ascending.filter _⟩) fun k => ?_)
    simp [ParamSet.mem_def, h.mem_ready]
  rw [hready, List.head?_filter]

/-- Taking the least number that is ready leaves the others pending. What still waits for it waits
for nothing else, or is not ready. -/
theorem Reaches.step (h : s.Reaches n deps pending) {i : Nat} {ready : List Nat}
    (hi : s.ready = i :: ready) :
    (((dependents n deps)[i]?.getD []).foldl (tell i) { s with ready }).Reaches n deps
      (pending.erase i) := by
  obtain ⟨hpend, hfree⟩ := (h.mem_ready i).1 (hi ▸ List.mem_cons_self)
  have hlt := h.lt i hpend
  have hnodup : pending.Nodup := h.pending_ascending.imp Nat.ne_of_lt
  have herase {j : Nat} : j ∈ pending.erase i ↔ j ≠ i ∧ j ∈ pending := hnodup.mem_erase_iff
  have hrest := List.pairwise_cons.1 (hi ▸ h.ready_ascending)
  have hready {k : Nat} : k ∈ ready ↔ k ≠ i ∧ k ∈ s.ready := by
    rw [hi, List.mem_cons]
    constructor
    · intro hk
      exact ⟨Nat.ne_of_gt (hrest.1 k hk), Or.inr hk⟩
    · rintro ⟨hne, hk⟩
      exact hk.resolve_left hne
  have htold {k : Nat} (hk : k < n) : ((s.waitsFor k).filter (· != i) = []) ↔
      ∀ j ∈ deps k, j ∉ pending.erase i := by
    rw [h.waits k hk, List.filter_filter, List.filter_eq_nil_iff]
    simp [herase]
  refine ⟨fun k hk => ?_, fun k => ?_, ?_, h.pending_ascending.sublist List.erase_sublist,
    fun k hk => h.lt k (herase.1 hk).2, fun k hk hmem j hj hje => ?_⟩
  · rw [waitsFor_foldl_tell]
    change (if _ then (s.waitsFor k).filter _ else s.waitsFor k) = _
    rw [h.waits k hk, List.filter_filter]
    split
    · exact List.filter_congr fun j _ => Bool.eq_iff_iff.2 (by simp [herase])
    · next hnot =>
      rw [mem_dependents hlt, not_and] at hnot
      refine List.filter_congr fun j hj => ?_
      have hne : j ≠ i := fun heq => hnot hk (heq ▸ hj)
      simp [herase, hne]
  · rw [mem_ready_foldl_tell]
    change k ∈ ready ∨ _ ∧ (s.waitsFor k).filter _ = [] ↔ _
    rw [mem_dependents hlt, hready, h.mem_ready, herase]
    constructor
    · rintro (⟨hne, hk, hno⟩ | ⟨⟨hk, hik⟩, hnone⟩)
      · exact ⟨⟨hne, hk⟩, fun j hj hje => hno j hj (herase.1 hje).2⟩
      · have hkp : k ∈ pending := by
          by_contra hnot
          exact h.taken k hk hnot i hik hpend
        refine ⟨⟨fun heq => hfree i (heq ▸ hik) hpend, hkp⟩, (htold hk).1 hnone⟩
    · rintro ⟨⟨hne, hkp⟩, hno⟩
      by_cases hik : i ∈ deps k
      · exact Or.inr ⟨⟨h.lt k hkp, hik⟩, (htold (h.lt k hkp)).2 hno⟩
      · exact Or.inl ⟨hne, hkp, fun j hj hjp =>
          hno j hj (herase.2 ⟨fun heq => hik (heq ▸ hj), hjp⟩)⟩
  · exact pairwise_ready_foldl_tell hrest.2 i _
  · obtain ⟨-, hjp⟩ := herase.1 hje
    by_cases hki : k = i
    · exact hfree j (hki ▸ hj) hjp
    · exact h.taken k hk (fun hkp => hmem (herase.2 ⟨hki, hkp⟩)) j hj hjp

end Progress

/-- Taking what is ready takes out what is free, and the others are still pending then. -/
theorem run_spec {n : Nat} {deps : Nat → List Nat} {fuel : Nat} {s : Progress}
    {pending : List Nat} (h : s.Reaches n deps pending) (hfuel : pending.length ≤ fuel) :
    (run (dependents n deps) fuel s).1 = (arrange deps pending).1 ∧
      (run (dependents n deps) fuel s).2.Reaches n deps (arrange deps pending).2 := by
  induction fuel generalizing s pending with
  | zero =>
    obtain rfl := List.length_eq_zero_iff.1 (Nat.le_zero.1 hfuel)
    rw [arrange_of_none rfl]
    exact ⟨rfl, h⟩
  | succ fuel ih =>
    rw [run]
    cases hready : s.ready with
    | nil =>
      rw [arrange_of_none (by rw [h.find?_eq, hready, List.head?_nil])]
      exact ⟨rfl, h⟩
    | cons i ready =>
      have hfirst := h.find?_eq
      rw [hready, List.head?_cons] at hfirst
      have hlen := List.length_erase_of_mem (List.mem_of_find?_eq_some hfirst)
      obtain ⟨horder, hlast⟩ := ih (h.step hready) (by omega)
      rw [arrange_of_some hfirst]
      exact ⟨congrArg (i :: ·) horder, hlast⟩

variable {n : Nat} {deps : Nat → List Nat}

/-- There is an order when everything can be taken out, and then it is the one of taking out. -/
theorem sort_eq_ok_iff (hdeps : ∀ k < n, ∀ j ∈ deps k, j < n) {order : List Nat} :
    sort n deps = .ok order ↔ arrange deps (List.range n) = (order, []) := by
  have hrun := (run_spec (Progress.reaches_start hdeps) (Nat.le_of_eq List.length_range)).1
  have hlen := (arrange_perm deps (List.range n)).length_eq
  rw [List.length_append, List.length_range] at hlen
  unfold sort
  dsimp only
  rw [hrun]
  split
  · next hlt =>
    constructor
    · intro h
      cases h
    · intro h
      rw [h] at hlt hlen
      exact absurd hlen (Nat.ne_of_lt hlt)
  · next hge =>
    have hnil : (arrange deps (List.range n)).2 = [] := List.length_eq_zero_iff.1 (by omega)
    rw [Except.ok.injEq, Prod.ext_iff]
    simp [hnil]

theorem sort_perm (hdeps : ∀ k < n, ∀ j ∈ deps k, j < n) {order : List Nat}
    (h : sort n deps = .ok order) : order.Perm (List.range n) := by
  have hperm := arrange_perm deps (List.range n)
  rwa [(sort_eq_ok_iff hdeps).1 h, List.append_nil] at hperm

/-! ## When there is no order -/

/-- Numbers below a bound cannot be put in order if and only if a ring leads through their
dependencies. The numbers of the ring wait for each other. -/
theorem sort_eq_error_iff (hdeps : ∀ k < n, ∀ j ∈ deps k, j < n) :
    (∃ circle, sort n deps = .error circle) ↔
      ∃ i, TransGen (fun i j => i < n ∧ j ∈ deps i) i i := by
  have hleft : (∃ circle, sort n deps = .error circle) ↔ (arrange deps (List.range n)).2 ≠ [] := by
    have hok : (arrange deps (List.range n)).2 = [] ↔ ∃ order, sort n deps = .ok order := by
      simp [sort_eq_ok_iff hdeps, Prod.ext_iff]
    rw [ne_eq, hok]
    cases sort n deps <;> simp
  rw [hleft]
  constructor
  · intro hne
    by_contra hno
    have hacc := acc_of_not_transGen (r := fun i j => i < n ∧ j ∈ deps i) (fun _ _ h => h.1)
      (not_exists.1 hno)
    have hnone (i : Nat) : i ∉ (arrange deps (List.range n)).2 := by
      induction hacc i with
      | intro i _ ih =>
        intro hi
        obtain ⟨j, hj, hleft⟩ := waiting_of_mem_left deps (List.range n) i hi
        have hmem := (arrange_perm deps (List.range n)).mem_iff.1 (List.mem_append_right _ hi)
        exact ih j ⟨List.mem_range.1 hmem, hj⟩ hleft
    exact hne (List.eq_nil_iff_forall_not_mem.2 hnone)
  · rintro ⟨i, hring⟩
    have hmem := mem_left_of_waiting deps (List.range n)
      (S := fun j => TransGen (fun i j => i < n ∧ j ∈ deps i) i j ∧
        TransGen (fun i j => i < n ∧ j ∈ deps i) j i)
      (fun j hj => by
        obtain ⟨k, hjk, hki⟩ := TransGen.head'_iff.1 hj.2
        exact ⟨k, hjk.2, hj.1.tail hjk, TransGen.trans_right hki hring⟩)
      (fun j hj => by
        obtain ⟨k, hjk, -⟩ := TransGen.head'_iff.1 hj.2
        exact List.mem_range.2 hjk.1)
      ⟨hring, hring⟩
    exact List.ne_nil_of_mem hmem

/-! ## The least order -/

/-- An order in which every number comes after those it needs. -/
def Respects (needs : Nat → Nat → Prop) (order : List Nat) : Prop :=
  ∀ before i after, order = before ++ i :: after → ∀ j, needs i j → j ∈ before

theorem Respects.tail {needs : Nat → Nat → Prop} {i : Nat} {order : List Nat}
    (h : Respects needs (i :: order)) : Respects (fun k j => needs k j ∧ j ≠ i) order := by
  intro before k after heq j hj
  have hmem := h (i :: before) k after (by rw [heq, List.cons_append]) j hj.1
  exact (List.mem_cons.1 hmem).resolve_left hj.2

/-- What is taken out comes after what it depends on. -/
theorem respects_arrange (deps : Nat → List Nat) (pending : List Nat) :
    Respects (fun i j => j ∈ deps i ∧ j ∈ pending) (arrange deps pending).1 := by
  fun_induction arrange deps pending with
  | case1 =>
    intro before i after heq
    simp at heq
  | case2 pending k hk _ later ih =>
    intro before i after heq j hj
    cases before with
    | nil =>
      obtain ⟨rfl, -⟩ := List.cons.inj heq
      have hfree := List.find?_some hk
      simp only [List.all_eq_true, decide_eq_true_eq] at hfree
      exact absurd hj.2 (hfree j hj.1)
    | cons b before =>
      obtain ⟨rfl, hlater⟩ := List.cons.inj heq
      by_cases hjk : j = k
      · exact hjk ▸ List.mem_cons_self
      · exact List.mem_cons_of_mem _
          (ih before i after hlater j ⟨hj.1, (List.mem_erase_of_ne hjk).2 hj.2⟩)

theorem le_of_find? {p : Nat → Bool} {ns : List Nat} (hns : ns.Pairwise (· < ·)) {i j : Nat}
    (hi : ns.find? p = some i) (hj : j ∈ ns) (hpj : p j = true) : i ≤ j := by
  obtain ⟨-, before, after, rfl, hnone⟩ := List.find?_eq_some_iff_append.1 hi
  rcases List.mem_append.1 hj with hj | hj
  · have hnot := hnone j hj
    rw [hpj] at hnot
    cases hnot
  · rcases List.mem_cons.1 hj with rfl | hj
    · exact Nat.le_refl _
    · exact Nat.le_of_lt ((List.pairwise_cons.1 (List.pairwise_append.1 hns).2.1).1 j hj)

/-- When everything can be taken out, any other order that respects the dependencies comes
later: it starts with a number that is free, and the first free one is taken out. -/
theorem lex_arrange {deps : Nat → List Nat} {pending other : List Nat}
    (hpending : pending.Pairwise (· < ·)) (hperm : other.Perm pending)
    (hother : Respects (fun i j => j ∈ deps i ∧ j ∈ pending) other)
    (hall : (arrange deps pending).2 = []) :
    other = (arrange deps pending).1 ∨ List.Lex (· < ·) (arrange deps pending).1 other := by
  fun_induction arrange deps pending generalizing other
  case case1 pending _ =>
    obtain rfl : pending = [] := hall
    exact Or.inl hperm.eq_nil
  case case2 pending i hi _ later ih =>
    have hmem := List.mem_of_find?_eq_some hi
    cases other with
    | nil => exact absurd (hperm.mem_iff.2 hmem) List.not_mem_nil
    | cons k other =>
      have hk : k ∈ pending := hperm.mem_iff.1 List.mem_cons_self
      have hfree : (deps k).all (· ∉ pending) = true := by
        refine List.all_eq_true.2 fun j hj => decide_eq_true fun hjp => ?_
        exact List.not_mem_nil (hother [] k other rfl j ⟨hj, hjp⟩)
      rcases Nat.lt_or_eq_of_le (le_of_find? hpending hi hk hfree) with hlt | rfl
      · exact Or.inr (.rel hlt)
      · have hnodup : pending.Nodup := hpending.imp Nat.ne_of_lt
        have hrest : other.Perm (pending.erase i) :=
          (List.cons_perm_iff_perm_erase.1 hperm).2
        have hrespects : Respects (fun k j => j ∈ deps k ∧ j ∈ pending.erase i) other := by
          refine fun before k after heq j hj => hother.tail before k after heq j ?_
          obtain ⟨hne, hjp⟩ := hnodup.mem_erase_iff.1 hj.2
          exact ⟨⟨hj.1, hjp⟩, hne⟩
        rcases ih (hpending.sublist List.erase_sublist) hrest hrespects hall with rfl | hlex
        · exact Or.inl rfl
        · exact Or.inr (.cons hlex)

/-- The numbers below a bound in an order in which each comes after those it needs, and which
is the lexicographically least of this kind. -/
structure IsLeast (n : Nat) (needs : Nat → Nat → Prop) (order : List Nat) : Prop where
  perm : order.Perm (List.range n)
  respects : Respects needs order
  least : ∀ other : List Nat, other.Perm (List.range n) → Respects needs other →
    other = order ∨ List.Lex (· < ·) order other

/-- Numbers are sorted into the least order. -/
theorem sort_least (hdeps : ∀ k < n, ∀ j ∈ deps k, j < n) {order : List Nat}
    (h : sort n deps = .ok order) : IsLeast n (fun i j => i < n ∧ j ∈ deps i) order := by
  have harrange := (sort_eq_ok_iff hdeps).1 h
  have hperm := sort_perm hdeps h
  refine ⟨hperm, fun before i after heq j hj => ?_, fun other hother hrespects => ?_⟩
  · have hrespects := respects_arrange deps (List.range n)
    rw [harrange] at hrespects
    exact hrespects before i after heq j ⟨hj.2, List.mem_range.2 (hdeps i hj.1 j hj.2)⟩
  · have hrespects' : Respects (fun i j => j ∈ deps i ∧ j ∈ List.range n) other := by
      intro before i after heq j hj
      have hmem : i ∈ other := heq ▸ List.mem_append_right before List.mem_cons_self
      exact hrespects before i after heq j ⟨List.mem_range.1 (hother.mem_iff.1 hmem), hj.1⟩
    have hlex := lex_arrange List.pairwise_lt_range hother hrespects' (by rw [harrange])
    rwa [harrange] at hlex

end NativeBindings.LeastOrder
