import Mathlib.Data.List.Sort
import NativeBindings.Proofs.Declaration.Naming
import NativeBindings.Proofs.Declaration.Ordered

/-!
# The circle that is reported

When declarations cannot be put in order, some of their numbers are stuck: each of them depends
on a stuck one. The search for a circle starts at the least of them and goes on to the least
stuck dependency, so it always goes on (`LeastOrder.Walk`), and since no number comes twice
before it ends, its fuel lasts until one does (`LeastOrder.walk_circleFrom`).

What it returns starts at that number and leads back to it (`LeastOrder.Walk.isCircle`); the
numbers on the way there are left out. So what is reported is a circle of declarations that need
each other, told by their paths: `PlannedGraph.reportsCircle`.
-/

namespace NativeBindings

open Relation

/-! ## Circles -/

/-- A way along a relation that ends where it starts and passes through nothing else twice. -/
structure IsCircle {α : Type} (r : α → α → Prop) (way : List α) : Prop where
  two_le : 2 ≤ way.length
  closed : way.head? = way.getLast?
  distinct : way.dropLast.Nodup
  steps : way.IsChain r

namespace IsCircle

variable {α β : Type} {r : α → α → Prop} {way : List α}

theorem exists_eq (h : IsCircle r way) : ∃ first others, way = first :: (others ++ [first]) := by
  have hpos : 0 < way.length := Nat.lt_of_lt_of_le Nat.zero_lt_two h.two_le
  obtain ⟨first, rest, rfl⟩ := List.exists_cons_of_length_pos hpos
  rcases List.eq_nil_or_concat rest with rfl | ⟨others, last, rfl⟩
  · exact absurd h.two_le (by simp)
  · obtain rfl : first = last := by simpa [List.getLast?_cons] using h.closed
    exact ⟨first, others, by rw [List.concat_eq_append]⟩

/-- What is on a circle leads back to itself. -/
theorem transGen (h : IsCircle r way) {a : α} (ha : a ∈ way) : TransGen r a a := by
  have hlater : way.Pairwise (TransGen r) :=
    List.isChain_iff_pairwise.1 (h.steps.imp fun _ _ => .single)
  obtain ⟨first, others, rfl⟩ := h.exists_eq
  obtain ⟨hfirst, hothers⟩ := List.pairwise_cons.1 hlater
  have hback : ∀ b ∈ others, TransGen r b first :=
    fun b hb => (List.pairwise_append.1 hothers).2.2 b hb first (by simp)
  rcases List.mem_cons.1 ha with rfl | ha
  · exact hfirst a (by simp)
  · rcases List.mem_append.1 ha with hmem | hmem
    · exact (hback a hmem).trans (hfirst a (by simp [hmem]))
    · obtain rfl := List.mem_singleton.1 hmem
      exact hfirst a (by simp)

theorem map {f : α → β} (h : IsCircle r way)
    (hf : ∀ a ∈ way, ∀ b ∈ way, f a = f b → a = b) : IsCircle (Relation.Map r f f) (way.map f) where
  two_le := by simpa using h.two_le
  closed := by rw [List.head?_map, List.getLast?_map, h.closed]
  distinct := by
    rw [← List.map_dropLast]
    exact h.distinct.map_on fun a ha b hb =>
      hf a (List.mem_of_mem_dropLast ha) b (List.mem_of_mem_dropLast hb)
  steps := List.isChain_map_of_isChain f (fun a b hab => ⟨a, b, hab, rfl, rfl⟩) h.steps

end IsCircle

namespace LeastOrder

/-! ## The walk -/

/-- The walk from the last number of a path to its first dependency that is left, and from
there on, until a number comes again. It is over then, and nowhere else. -/
inductive Walk (deps : Nat → List Nat) (left : List Nat) : List Nat → Nat → List Nat → Prop
  | closes {path : List Nat} {current next : Nat}
    (hnext : (deps current).find? (· ∈ left) = some next) (hmem : next ∈ path) :
    Walk deps left path current (path.dropWhile (· != next) ++ [next])
  | goes {path circle : List Nat} {current next : Nat}
    (hnext : (deps current).find? (· ∈ left) = some next) (hnew : next ∉ path)
    (h : Walk deps left (path ++ [next]) next circle) : Walk deps left path current circle

variable {deps waits : Nat → List Nat} {left path circle : List Nat} {current : Nat}

/-- Where every number that is left has a dependency that is left, the search walks until a
number comes again. The path and the fuel are together one longer than what is left. -/
theorem walk_circleFrom
    (hleft : ∀ k ∈ left, ∃ j ∈ left, (waits k).find? (· ∈ left) = some j ∧
      (deps k).find? (· ∈ left) = some j) {fuel : Nat} (hnodup : path.Nodup) (hsub : path ⊆ left)
    (hcurrent : current ∈ path) (hfuel : left.length + 1 ≤ fuel + path.length) :
    Walk deps left path current (circleFrom waits left fuel path current) := by
  induction fuel generalizing path current with
  | zero =>
    have hlen := (hnodup.subperm hsub).length_le
    omega
  | succ fuel ih =>
    obtain ⟨next, hmem, hwaits, hnext⟩ := hleft current (hsub hcurrent)
    rw [circleFrom, hwaits]
    dsimp only
    split
    · next hagain => exact .closes hnext hagain
    · next hnew =>
      refine .goes hnext hnew (ih ?_ ?_ (by simp) ?_)
      · exact List.concat_eq_append ▸ hnodup.concat hnew
      · exact List.append_subset.2 ⟨hsub, by simpa using hmem⟩
      · rw [List.length_append, List.length_singleton]
        omega

namespace Walk

variable {r : Nat → Nat → Prop} (hr : ∀ i ∈ left, ∀ j ∈ deps i, j ∈ left → r i j)

include hr

theorem hstep {current next : Nat} (hcurrent : current ∈ left)
    (hnext : (deps current).find? (· ∈ left) = some next) : r current next ∧ next ∈ left := by
  have hleft : next ∈ left := by simpa using List.find?_some hnext
  exact ⟨hr current hcurrent next (List.mem_of_find?_eq_some hnext) hleft, hleft⟩

/-- A walk ends with a circle. -/
theorem isCircle (h : Walk deps left path current circle) (hsub : path ⊆ left)
    (hnodup : path.Nodup) (hsteps : path.IsChain r) (hlast : path.getLast? = some current) :
    IsCircle r circle := by
  induction h with
  | @closes path current next hnext hmem =>
    have hstep := hstep hr (hsub (List.mem_of_getLast? hlast)) hnext
    obtain ⟨before, after, rfl, hbefore⟩ := List.eq_append_cons_of_mem hmem
    have hdrop : (before ++ next :: after).dropWhile (· != next) = next :: after := by
      rw [List.dropWhile_append_of_pos fun i hi => bne_iff_ne.2 (ne_of_mem_of_not_mem hi hbefore)]
      simp
    rw [hdrop]
    rw [List.getLast?_append_cons] at hlast
    refine ⟨by simp, by simp [List.getLast?_cons], ?_,
      List.isChain_append.2 ⟨?_, List.isChain_singleton next, ?_⟩⟩
    · rw [List.dropLast_concat]
      exact hnodup.sublist (List.sublist_append_right before _)
    · exact hsteps.suffix (List.suffix_append before _)
    · simpa [hlast] using hstep.1
  | @goes path circle current next hnext hnew h ih =>
    have hstep := hstep hr (hsub (List.mem_of_getLast? hlast)) hnext
    refine ih (List.append_subset.2 ⟨hsub, by simpa using hstep.2⟩)
      (List.concat_eq_append ▸ hnodup.concat hnew)
      (List.isChain_append.2 ⟨hsteps, List.isChain_singleton next, ?_⟩) (by simp)
    simpa [hlast] using hstep.1

/-- What a walk comes to is reached from its path. -/
theorem exists_reaches (h : Walk deps left path current circle) (hsub : path ⊆ left)
    (hcurrent : current ∈ path) : ∀ k ∈ circle, ∃ i ∈ path, ReflTransGen r i k := by
  induction h with
  | @closes path current next hnext hmem =>
    intro k hk
    refine ⟨k, ?_, .refl⟩
    rcases List.mem_append.1 hk with hk | hk
    · exact (List.dropWhile_suffix _).subset hk
    · exact List.mem_singleton.1 hk ▸ hmem
  | @goes path circle current next hnext hnew h ih =>
    have hstep := hstep hr (hsub hcurrent) hnext
    intro k hk
    obtain ⟨i, hi, hik⟩ :=
      ih (List.append_subset.2 ⟨hsub, by simpa using hstep.2⟩) (by simp) k hk
    rcases List.mem_append.1 hi with hi | hi
    · exact ⟨i, hi, hik⟩
    · obtain rfl := List.mem_singleton.1 hi
      exact ⟨current, hcurrent, .head hstep.1 hik⟩

end Walk

/-! ## What is stuck -/

variable {n : Nat}

/-- The numbers below `n` that cannot be put in order. -/
def stuck (n : Nat) (deps : Nat → List Nat) : List Nat :=
  (arrange deps (List.range n)).2

theorem lt_of_mem_stuck {k : Nat} (hk : k ∈ stuck n deps) : k < n :=
  List.mem_range.1 ((arrange_perm deps (List.range n)).mem_iff.1 (List.mem_append_right _ hk))

theorem exists_find?_stuck {k : Nat} (hk : k ∈ stuck n deps) :
    ∃ j ∈ stuck n deps, (deps k).find? (· ∈ stuck n deps) = some j := by
  obtain ⟨i, hi, hleft⟩ := waiting_of_mem_left deps (List.range n) k hk
  have hsome : ((deps k).find? (· ∈ stuck n deps)).isSome = true :=
    List.find?_isSome.2 ⟨i, hi, decide_eq_true hleft⟩
  obtain ⟨j, hj⟩ := Option.isSome_iff_exists.1 hsome
  exact ⟨j, by simpa using List.find?_some hj, hj⟩

/-- Once no number is ready, those that wait for something are the stuck ones. -/
theorem filter_waitsFor_eq_stuck {last : Progress} (h : last.Reaches n deps (stuck n deps)) :
    (List.range n).filter (fun k => !(last.waitsFor k).isEmpty) = stuck n deps := by
  refine (List.pairwise_lt_range.filter _).eq_of_mem_iff h.pending_ascending fun k => ?_
  rw [List.mem_filter, List.mem_range]
  constructor
  · rintro ⟨hk, hwaits⟩
    by_contra hnot
    rw [h.waits k hk, List.filter_eq_nil_iff.2 (by simpa using h.taken k hk hnot)] at hwaits
    cases hwaits
  · intro hk
    obtain ⟨j, hj, hjleft⟩ := waiting_of_mem_left deps (List.range n) k hk
    have hwaits : j ∈ last.waitsFor k := by
      rw [h.waits k (lt_of_mem_stuck hk)]
      exact List.mem_filter.2 ⟨hj, decide_eq_true hjleft⟩
    exact ⟨lt_of_mem_stuck hk, by simpa using List.ne_nil_of_mem hwaits⟩

/-- When numbers cannot be put in order, the search starts at the least that is stuck and walks
until a number comes again. -/
theorem walk_of_sort (hdeps : ∀ k < n, ∀ j ∈ deps k, j < n) {circle : List Nat}
    (h : sort n deps = .error circle) : ∃ start rest, stuck n deps = start :: rest ∧
      (stuck n deps).Pairwise (· < ·) ∧ Walk deps (stuck n deps) [start] start circle := by
  obtain ⟨horder, hlast⟩ :=
    run_spec (Progress.reaches_start hdeps) (Nat.le_of_eq List.length_range)
  have hlen := (arrange_perm deps (List.range n)).length_eq
  rw [List.length_append, List.length_range] at hlen
  unfold sort at h
  dsimp only at h
  rw [horder] at h
  split at h
  · next hlt =>
    generalize (run (dependents n deps) n (Progress.start n deps)).2 = last at h hlast
    change last.Reaches n deps (stuck n deps) at hlast
    rw [filter_waitsFor_eq_stuck hlast] at h
    obtain rfl := Except.error.inj h
    cases hstuck : stuck n deps with
    | nil =>
      rw [stuck, List.eq_nil_iff_length_eq_zero] at hstuck
      omega
    | cons start rest =>
      have hsorted := hlast.pending_ascending
      rw [← hstuck]
      refine ⟨start, rest, hstuck, hsorted, ?_⟩
      unfold LeastOrder.circle
      rw [hstuck]
      dsimp only
      rw [← hstuck]
      refine walk_circleFrom (fun k hk => ?_) (List.nodup_singleton start) (by simp [hstuck])
        (by simp) (by simp)
      obtain ⟨j, hj, hfind⟩ := exists_find?_stuck hk
      refine ⟨j, hj, ?_, hfind⟩
      rw [hlast.waits k (lt_of_mem_stuck hk), List.find?_filter, ← hfind]
      simp
  · cases h

/-- Stuck are the numbers whose dependencies lead to a ring. From any of them the search finds a
circle. -/
theorem mem_stuck_iff {r : Nat → Nat → Prop} (hr : ∀ i j, r i j ↔ i < n ∧ j ∈ deps i) {k : Nat} :
    k ∈ stuck n deps ↔ ∃ j, ReflTransGen r k j ∧ TransGen r j j := by
  constructor
  · intro hk
    have hstep : ∀ i ∈ stuck n deps, ∀ j ∈ deps i, j ∈ stuck n deps → r i j :=
      fun i hi j hj _ => (hr i j).2 ⟨lt_of_mem_stuck hi, hj⟩
    have hwalk : Walk deps (stuck n deps) [k] k (circleFrom deps (stuck n deps)
        ((stuck n deps).length + 1) [k] k) := by
      refine walk_circleFrom (fun i hi => ?_) (List.nodup_singleton k) (by simpa using hk)
        (by simp) (by simp)
      obtain ⟨j, hj, hfind⟩ := exists_find?_stuck hi
      exact ⟨j, hj, hfind, hfind⟩
    have hcircle := hwalk.isCircle hstep (by simpa using hk) (List.nodup_singleton k)
      (List.isChain_singleton k) rfl
    obtain ⟨first, others, heq⟩ := hcircle.exists_eq
    have hfirst := heq ▸ List.mem_cons_self
    obtain ⟨i, hi, hreach⟩ := hwalk.exists_reaches hstep (by simpa using hk) (by simp) first hfirst
    obtain rfl := List.mem_singleton.1 hi
    exact ⟨first, hreach, hcircle.transGen hfirst⟩
  · rintro ⟨j, hkj, hring⟩
    refine mem_left_of_waiting deps (List.range n)
      (S := fun i => ∃ j, ReflTransGen r i j ∧ TransGen r j j) ?_ ?_ ⟨j, hkj, hring⟩
    · rintro i ⟨j, hij, hring⟩
      rcases ReflTransGen.cases_head hij with rfl | ⟨m, him, hmj⟩
      · obtain ⟨m, him, hmi⟩ := TransGen.head'_iff.1 hring
        exact ⟨m, ((hr i m).1 him).2, i, hmi, hring⟩
      · exact ⟨m, ((hr i m).1 him).2, j, hmj, hring⟩
    · rintro i ⟨j, hij, hring⟩
      rcases ReflTransGen.cases_head hij with rfl | ⟨m, him, -⟩
      · obtain ⟨m, him, -⟩ := TransGen.head'_iff.1 hring
        exact List.mem_range.2 ((hr i m).1 him).1
      · exact List.mem_range.2 ((hr i m).1 him).1

end LeastOrder

/-! ## Declarations in a circle -/

namespace Catalog

variable {c : Catalog}

/-- What is reported of declarations that cannot be put in order: the paths of a circle of them.
It is where the walk along what they need ends up that starts with the least number that leads
to a ring. -/
structure ReportsCircle (c : Catalog) (numbers : List Nat) (names : List String) : Prop where
  /-- The declarations need each other, each the next one, and are distinct. -/
  circle : IsCircle c.planned.NeedsAt numbers
  /-- Each of them is on a ring itself. -/
  ring : ∀ n ∈ numbers, TransGen c.planned.NeedsAt n n
  /-- The search for them ends with a number that comes again. -/
  walk : ∃ start left, IsLeast {n | n ∈ left} start ∧
    (∀ n, n ∈ left ↔ ∃ m, ReflTransGen c.planned.NeedsAt n m ∧ TransGen c.planned.NeedsAt m m) ∧
    LeastOrder.Walk c.dependencies left [start] start numbers
  /-- They are told by their paths. -/
  paths : names = numbers.map c.path
  /-- So the paths are in a circle, and are distinct. -/
  named : IsCircle (Relation.Map c.planned.NeedsAt c.path c.path) names

/-- Sorting the numbers of declarations fails with a circle of declarations. -/
theorem isCircle_of_sort (hc : c.subjects = c.planned.subjects) {numbers : List Nat}
    (h : LeastOrder.sort c.subjects.length c.dependencies = .error numbers) :
    IsCircle c.planned.NeedsAt numbers := by
  obtain ⟨start, rest, hstuck, -, hwalk⟩ :=
    LeastOrder.walk_of_sort (fun _ _ _ => lt_of_mem_dependencies) h
  have hstep : ∀ i ∈ LeastOrder.stuck c.subjects.length c.dependencies,
      ∀ j ∈ c.dependencies i, j ∈ LeastOrder.stuck c.subjects.length c.dependencies →
        c.planned.NeedsAt i j :=
    fun i hi j hj _ => (needsAt_iff hc).2 ⟨LeastOrder.lt_of_mem_stuck hi, hj⟩
  exact hwalk.isCircle hstep (by simp [hstuck]) (List.nodup_singleton start)
    (List.isChain_singleton start) rfl

/-- Declarations that cannot be put in order are reported by a circle. -/
theorem reportsCircle (hc : c.subjects = c.planned.subjects)
    (hnames : c.names.length = c.subjects.length) (hpaths : (c.names.map (·.path)).Nodup)
    {names : List String} (h : c.order = .error (.circularBases names)) :
    ∃ numbers, c.ReportsCircle numbers names := by
  unfold order at h
  split at h
  · cases h
  · next numbers hsort =>
    obtain rfl := Failure.circularBases.inj (Except.error.inj h)
    have hcircle := isCircle_of_sort hc hsort
    obtain ⟨start, rest, hstuck, hsorted, hwalk⟩ :=
      LeastOrder.walk_of_sort (fun _ _ _ => lt_of_mem_dependencies) hsort
    have hring : ∀ n ∈ numbers, TransGen c.planned.NeedsAt n n := fun n hn => hcircle.transGen hn
    have hlt : ∀ n ∈ numbers, n < c.names.length := fun n hn => by
      obtain ⟨m, hnm, -⟩ := TransGen.head'_iff.1 (hring n hn)
      exact hnames ▸ ((needsAt_iff hc).1 hnm).1
    refine ⟨numbers, hcircle, hring, ⟨start, _, ⟨?_, ?_⟩, fun n => ?_, hwalk⟩, rfl,
      hcircle.map fun m hm n hn heq => ?_⟩
    · simp [hstuck]
    · intro n hn
      rw [hstuck] at hsorted hn
      rcases List.mem_cons.1 hn with rfl | hn
      · exact Nat.le_refl _
      · exact Nat.le_of_lt ((List.pairwise_cons.1 hsorted).1 n hn)
    · exact LeastOrder.mem_stuck_iff fun i j => needsAt_iff hc
    · have hm' : m < (c.names.map (·.path)).length := by simpa using hlt m hm
      have hn' : n < (c.names.map (·.path)).length := by simpa using hlt n hn
      have hpath : (c.names.map (·.path))[m] = (c.names.map (·.path))[n] := by
        simpa [path, hlt m hm, hlt n hn] using heq
      exact hpaths.getElem_inj_iff.1 hpath

end Catalog

namespace PlannedGraph

/-- Declarations that are refused for circular bases are reported by a circle of distinct
declarations, each of which has a base that the next one covers. -/
theorem declarations_reportsCircle {p : PlannedGraph} {options : Options} {names : List String}
    (h : p.declarations options = .error (.circularBases names)) :
    ∃ numbers, (Catalog.ofPlanned p options.omitNamespaces).1.ReportsCircle numbers names := by
  have hp : p.checkPlaceholders = .ok () := by
    cases hcheck : p.checkPlaceholders with
    | ok u => rfl
    | error e =>
      simp only [declarations, hcheck, bind, Except.bind] at h
      unfold checkPlaceholders at hcheck
      split at hcheck
      · cases hcheck
        cases h
      · cases hcheck
  exact Catalog.reportsCircle rfl (length_nameAll ..) (nodup_path_nameAll ..)
    ((declarations_eq_error_iff hp).1 h)

/-- Two classes derived from each other, and two more that are derived from them. -/
def behindRing : List SymbolRecord :=
  [(SymbolRecord.ofUserType ⟨1⟩ "Outer" 8).addBase ⟨2⟩,
    (SymbolRecord.ofUserType ⟨2⟩ "Inner" 8).addBase ⟨4⟩,
    (SymbolRecord.ofUserType ⟨3⟩ "X" 8).addBase ⟨4⟩,
    (SymbolRecord.ofUserType ⟨4⟩ "Y" 8).addBase ⟨3⟩]

/-- The classes that are only derived from the circle are not reported. -/
theorem behindRing_reported : ∃ g w, TypeGraph.ofRecords {} behindRing = .ok (g, w) ∧
    (g.planned {}).declarations {} = .error (.circularBases ["Y", "X", "Y"]) ∧
      ∃ numbers, (Catalog.ofPlanned (g.planned {}) false).1.ReportsCircle numbers
        ["Y", "X", "Y"] := by
  obtain ⟨g, w, h, hfails⟩ : ∃ g w, TypeGraph.ofRecords {} behindRing = .ok (g, w) ∧
      failsFor (.circularBases ["Y", "X", "Y"]) ((g.planned {}).declarations {}) = true :=
    TypeGraph.exists_ofRecords_and (by decide +kernel)
  exact ⟨g, w, h, eq_error hfails, declarations_reportsCircle (eq_error hfails)⟩

end PlannedGraph

end NativeBindings
