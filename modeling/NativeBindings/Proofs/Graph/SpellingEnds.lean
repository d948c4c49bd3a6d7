import Mathlib.Data.List.Perm.Subperm
import NativeBindings.Declaration.TypeRef
import NativeBindings.Graph.SpellingLoop
import NativeBindings.Proofs.Node.Reading
import NativeBindings.Proofs.Ring
import NativeBindings.Proofs.Steps

/-!
# Where spelling ends

The written name of a node depends on its spelling links, so it can only be written if no
node's links lead back to it (`Arena.SpellingEnds`). Two facts make the check worth having.

The depth-first search misses no loop: the nodes it is done with are ranked, each linking to
those before it alone, and they are all nodes in the end (`Arena.acc_of_loop?`).
Fuel never runs out, since a way without repetition is no longer than the arena. And what
the search meets again does lead back to itself, so the check is exact
(`Arena.checkSpelling_eq_ok_iff`).

And where spelling ends, every reading that asks along the links has a result
(`Arena.Closed.exists_read?`). Names in the bindings are asked for along all links, so they
are known at every node only if spelling ends.
-/

namespace NativeBindings.Arena

/-- The written name of one node depends on the other's. -/
def Spells (a : Arena) (x y : NodeId) : Prop :=
  y ∈ a.spellingLinks x

/-- No node's spelling links lead back to it. -/
def SpellingEnds (a : Arena) : Prop :=
  ∀ id, ¬Relation.TransGen a.Spells id id

theorem spells_iff {a : Arena} {x y : NodeId} :
    a.Spells x y ↔ ∃ n, a.node? x = some n ∧ y ∈ n.spellingLinks := by
  unfold Spells spellingLinks
  cases a.node? x <;> simp

/-! ## The search misses no loop -/

/-- Nodes each of which links to later ones alone. -/
def Ranked (a : Arena) : List NodeId → Prop
  | [] => True
  | x :: xs => (∀ y, a.Spells x y → y ∈ xs) ∧ a.Ranked xs

/-- Spelling ends at every node that was explored. -/
theorem Ranked.acc {a : Arena} {xs : List NodeId} (h : a.Ranked xs) :
    ∀ x ∈ xs, Acc (fun y x => a.Spells x y) x := by
  induction xs with
  | nil => simp
  | cons z xs ih =>
    obtain ⟨hz, hxs⟩ := h
    intro x hx
    rcases List.mem_cons.1 hx with rfl | hx
    · exact ⟨x, fun y hy => ih hxs y (hz y hy)⟩
    · exact ih hxs x hx

/-- Where no node's links lead back to it, every way along them ends. -/
theorem SpellingEnds.acc {a : Arena} (h : a.SpellingEnds) (id : NodeId) :
    Acc (fun y x => a.Spells x y) id := by
  have hlt (x y : NodeId) (hxy : a.Spells x y) : x < a.size := by
    obtain ⟨n, hn, -⟩ := spells_iff.1 hxy
    exact lt_size_of_node? hn
  exact acc_of_not_transGen hlt h id

/-- What one visit of the search adds. -/
def Visits (a : Arena) (done : List NodeId) (id : NodeId) (done' : List NodeId) : Prop :=
  a.Ranked done' ∧ done ⊆ done' ∧ id ∈ done'

/-- Exploring nodes one after the other ranks all of them, if each search does. -/
theorem foldlM_visits {a : Arena} {f : List NodeId → NodeId → Except NodeId (List NodeId)}
    {ids done done' : List NodeId}
    (hf : ∀ id ∈ ids, ∀ d d', a.Ranked d → f d id = .ok d' → a.Visits d id d')
    (hd : a.Ranked done) (h : ids.foldlM f done = .ok done') :
    a.Ranked done' ∧ done ⊆ done' ∧ ids ⊆ done' := by
  induction ids generalizing done with
  | nil =>
    obtain rfl := Except.ok.inj h
    exact ⟨hd, fun x hx => hx, by simp⟩
  | cons i ids ih =>
    obtain ⟨d, hi, h⟩ := foldlM_cons_eq_ok_iff.1 h
    obtain ⟨hranked, hsub, hmem⟩ := hf i (by simp) done d hd hi
    obtain ⟨hranked', hsub', hmem'⟩ := ih (fun j hj => hf j (by simp [hj])) hranked h
    refine ⟨hranked', fun x hx => hsub' (hsub hx), ?_⟩
    exact List.cons_subset.2 ⟨hsub' hmem, hmem'⟩

/-- A visit that ends well is done with the node. The fuel and the way to the node are
together one longer than the arena. -/
theorem explore_visits {a : Arena} (hb : ∀ x y, a.Spells x y → y < a.size) {fuel : Nat}
    {path done done' : List NodeId} {id : NodeId} (hnodup : path.Nodup)
    (hpath : ∀ x ∈ path, x < a.size) (hfuel : fuel + path.length = a.size + 1)
    (hid : id < a.size) (hd : a.Ranked done) (h : a.explore fuel path done id = .ok done') :
    a.Visits done id done' := by
  induction fuel generalizing path done done' id with
  | zero =>
    have hsub : path ⊆ List.range a.size := fun x hx => List.mem_range.2 (hpath x hx)
    have hlen := (hnodup.subperm hsub).length_le
    rw [List.length_range] at hlen
    omega
  | succ fuel ih =>
    rw [explore] at h
    split at h
    · next hmem =>
      obtain rfl := Except.ok.inj h
      exact ⟨hd, fun x hx => hx, hmem⟩
    · split at h
      · cases h
      · next hnot =>
        split at h
        · next d hf =>
          obtain rfl := Except.ok.inj h
          have hlinks := foldlM_visits (f := a.explore fuel (id :: path)) (fun y hy d d' hd' h' =>
            ih (List.nodup_cons.2 ⟨hnot, hnodup⟩)
              (fun x hx => by
                rcases List.mem_cons.1 hx with rfl | hx
                · exact hid
                · exact hpath x hx)
              (by rw [List.length_cons]; omega) (hb id y hy) hd' h') hd hf
          obtain ⟨hranked, hsub, hall⟩ := hlinks
          exact ⟨⟨fun y hy => hall hy, hranked⟩, fun x hx => List.mem_cons_of_mem id (hsub hx),
            List.mem_cons_self⟩
        · cases h

/-- If the search finds no loop, every way along spelling links ends. -/
theorem acc_of_loop? {a : Arena} (hb : ∀ x y, a.Spells x y → y < a.size) (h : a.loop? = none)
    (id : NodeId) : Acc (fun y x => a.Spells x y) id := by
  by_cases hid : id < a.size
  · unfold loop? at h
    split at h
    · next done hdone =>
      have hempty : a.Ranked [] := trivial
      obtain ⟨hranked, -, hall⟩ := foldlM_visits (fun x hx d d' hd hx' =>
        explore_visits hb List.nodup_nil (by simp) (by simp) (List.mem_range.1 hx) hd hx')
        hempty hdone
      exact hranked.acc id (hall (List.mem_range.2 hid))
    · cases h
  · refine ⟨id, fun y hy => ?_⟩
    obtain ⟨n, hn, -⟩ := spells_iff.1 hy
    exact absurd (lt_size_of_node? hn) hid

/-! ### What it finds is a loop -/

/-- A node that a visit meets again is on a ring: all nodes on the way lead to the one that
is visited. -/
theorem transGen_of_explore {a : Arena} {fuel : Nat} {path done : List NodeId}
    {id looped : NodeId} (hpath : ∀ x ∈ path, Relation.TransGen a.Spells x id)
    (h : a.explore fuel path done id = .error looped) :
    Relation.TransGen a.Spells looped looped := by
  induction fuel generalizing path done id with
  | zero => cases h
  | succ fuel ih =>
    rw [explore] at h
    split at h
    · cases h
    · split at h
      · next hmem =>
        obtain rfl := Except.error.inj h
        exact hpath id hmem
      · split at h
        · cases h
        · next looped hf =>
          obtain rfl := Except.error.inj h
          obtain ⟨y, hy, d, hd⟩ := exists_of_foldlM_error hf
          have hstep : a.Spells id y := hy
          refine ih (fun x hx => ?_) hd
          rcases List.mem_cons.1 hx with rfl | hx
          · exact .single hstep
          · exact (hpath x hx).tail hstep

/-- The search finds no loop if and only if there is none. -/
theorem loop?_eq_none_iff {a : Arena} (hb : ∀ x y, a.Spells x y → y < a.size) :
    a.loop? = none ↔ a.SpellingEnds := by
  refine ⟨fun h id => not_transGen_of_acc (acc_of_loop? hb h id), fun hends => ?_⟩
  unfold loop?
  split
  · rfl
  · next looped hlooped =>
    obtain ⟨x, -, done, hx⟩ := exists_of_foldlM_error hlooped
    exact absurd (transGen_of_explore (by simp) hx) (hends looped)

/-- The check is passed exactly if spelling ends. -/
theorem checkSpelling_eq_ok_iff {a : Arena} (hb : ∀ x y, a.Spells x y → y < a.size) :
    a.checkSpelling = .ok () ↔ a.SpellingEnds := by
  rw [← loop?_eq_none_iff hb]
  unfold checkSpelling
  split <;> simp_all

theorem acc_of_checkSpelling {a : Arena} (hb : ∀ x y, a.Spells x y → y < a.size)
    (h : a.checkSpelling = .ok ()) (id : NodeId) : Acc (fun y x => a.Spells x y) id := by
  refine acc_of_loop? hb ?_ id
  unfold checkSpelling at h
  split at h
  · assumption
  · cases h

end NativeBindings.Arena

/-! ## Readings have results -/

namespace NativeBindings

namespace Reading

variable {α : Type}

/-- Whether a reading has a result once the spelling links, and the layout of an
instantiation, are known. -/
def Total (r : Reading α) : Prop :=
  ∀ (id : NodeId) (n : Node) (known : NodeId → Option α),
    (∀ y ∈ n.spellingLinks, ∃ x, known y = some x) →
      (∀ l args, n = .template l args → ∃ x, known l = some x) → ∃ x, r id n known = some x

/-- If each of several nodes is known, they are known together. -/
theorem exists_mapM {known : NodeId → Option α} {links : List NodeId}
    (h : ∀ y ∈ links, ∃ x, known y = some x) : ∃ xs, links.mapM known = some xs := by
  induction links with
  | nil => exact ⟨[], rfl⟩
  | cons link links ih =>
    obtain ⟨x, hx⟩ := h link (by simp)
    obtain ⟨xs, hxs⟩ := ih fun y hy => h y (by simp [hy])
    exact ⟨x :: xs, by simp [List.mapM_cons, hx, hxs]⟩

/-- The name in the bindings is known if the names it shows are. -/
theorem rendered_total (short : Bool) : (rendered short).Total := by
  intro id n known hlinks hlayout
  cases n with
  | template l args =>
    obtain ⟨head, hhead⟩ := hlayout l args rfl
    obtain ⟨inside, hinside⟩ := exists_mapM hlinks
    simp only [Node.spellingLinks] at hinside
    exact ⟨_, by simp only [rendered, hhead, hinside, Option.bind_some, Option.map_some]; rfl⟩
  | _ => simp_all [rendered, Node.spellingLinks]

/-- The name of a node in the bindings shows all its spelling links. -/
theorem exists_of_rendered {short : Bool} {id : NodeId} {n : Node} {known : NodeId → Option String}
    {s : String} (h : rendered short id n known = some s) :
    ∀ y ∈ n.spellingLinks, ∃ x, known y = some x := by
  cases n with
  | template l args =>
    simp only [rendered, Option.bind_eq_some_iff, Option.map_eq_some_iff] at h
    obtain ⟨-, -, inside, hinside, -⟩ := h
    exact exists_of_mapM hinside
  | pointer t | array t =>
    simp only [rendered, Option.map_eq_some_iff] at h
    obtain ⟨x, hx, -⟩ := h
    simpa [Node.spellingLinks] using ⟨x, hx⟩
  | enumeration e => simpa [Node.spellingLinks] using ⟨s, h⟩
  | _ => simp [Node.spellingLinks]

end Reading

theorem Pattern.reading_total (native : NodeId → String) (familyOf : NodeId → Option Nat)
    (arguments : List String) : (reading native familyOf arguments).Total := by
  intro id n known hlinks hlayout
  cases n with
  | template l args =>
    obtain ⟨inside, hinside⟩ := Reading.exists_mapM hlinks
    simp only [Node.spellingLinks] at hinside
    simp only [reading]
    split
    · exact ⟨_, by rw [hinside]; rfl⟩
    · exact ⟨_, rfl⟩
  | _ => simp_all [reading, Node.spellingLinks]

theorem Catalog.reading_total (c : Catalog) : c.reading.Total := by
  intro id n known hlinks hlayout
  cases n with
  | template l args =>
    obtain ⟨inside, hinside⟩ := Reading.exists_mapM hlinks
    simp only [Node.spellingLinks] at hinside
    simp only [reading]
    split
    · split
      · exact ⟨_, by rw [hinside]; rfl⟩
      · exact ⟨_, rfl⟩
    · exact ⟨_, rfl⟩
  | user u =>
    simp only [reading]
    split <;> exact ⟨_, rfl⟩
  | _ => simp_all [reading, Node.spellingLinks]

namespace Arena

/-- An arena without stray links: they stay inside, and layouts are user types. -/
structure Closed (a : Arena) : Prop where
  spells_lt : ∀ {x y}, a.Spells x y → y < a.size
  layout : ∀ {x l args}, a.node? x = some (.template l args) → ∃ u, a.user? l = some u

variable {a : Arena} {α : Type} {r : Reading α}

theorem Closed.spellingEnds_of_loop? (h : a.Closed) (hloop : a.loop? = none) : a.SpellingEnds :=
  fun id => not_transGen_of_acc (acc_of_loop? (fun _ _ => h.spells_lt) hloop id)

/-- Several nodes that can be read can be read within the same number of links. -/
theorem exists_readWithin_all (hs : r.Stable) {ys : List NodeId}
    (h : ∀ y ∈ ys, ∃ k x, a.readWithin r k y = some x) :
    ∃ k, ∀ y ∈ ys, ∃ x, a.readWithin r k y = some x := by
  induction ys with
  | nil => exact ⟨0, by simp⟩
  | cons z ys ih =>
    obtain ⟨k, x, hx⟩ := h z (by simp)
    obtain ⟨m, hm⟩ := ih fun y hy => h y (by simp [hy])
    refine ⟨max k m, fun y hy => ?_⟩
    rcases List.mem_cons.1 hy with rfl | hy
    · exact ⟨x, a.readWithin_mono hs (Nat.le_max_left k m) hx⟩
    · obtain ⟨x', hx'⟩ := hm y hy
      exact ⟨x', a.readWithin_mono hs (Nat.le_max_right k m) hx'⟩

/-- Where spelling ends, a total reading has a result at every node. -/
theorem Closed.exists_read? (h : a.Closed) (hs : r.Stable) (hr : r.Total) {id : NodeId}
    (hacc : Acc (fun y x => a.Spells x y) id) (hid : id < a.size) :
    ∃ x, a.read? r id = some x := by
  simp only [read?_eq_some_iff hs]
  induction hacc with
  | intro id _ ih =>
    obtain ⟨n, hn⟩ := exists_node?_of_lt hid
    have hlinks : ∀ y ∈ n.spellingLinks, ∃ k x, a.readWithin r k y = some x := by
      intro y hy
      have hspells : a.Spells id y := spells_iff.2 ⟨n, hn, hy⟩
      obtain ⟨x, k, hx⟩ := ih y hspells (h.spells_lt hspells)
      exact ⟨k, x, hx⟩
    have hlayout : ∀ l args, n = .template l args → ∃ x, a.readWithin r 1 l = some x := by
      rintro l args rfl
      obtain ⟨u, hu⟩ := h.layout hn
      rw [readWithin_succ, node?_user hu]
      exact hr l (.user u) _ (by simp [Node.spellingLinks]) (by simp)
    obtain ⟨k, hk⟩ := exists_readWithin_all hs hlinks
    have hmore {m y : Nat} (hm : m ≤ k + 1) (hy : ∃ x, a.readWithin r m y = some x) :
        ∃ x, a.readWithin r (k + 1) y = some x := by
      obtain ⟨x, hx⟩ := hy
      exact ⟨x, a.readWithin_mono hs hm hx⟩
    obtain ⟨x, hx⟩ := hr id n (a.readWithin r (k + 1)) (fun y hy => hmore (Nat.le_succ k) (hk y hy))
      fun l args heq => hmore (Nat.le_add_left 1 k) (hlayout l args heq)
    exact ⟨x, k + 2, by rw [readWithin_succ, hn]; exact hx⟩

/-- Where a name in the bindings is known, spelling ends. -/
theorem acc_of_render {short : Bool} {k : Nat} {id : NodeId} {s : String}
    (h : a.readWithin (.rendered short) k id = some s) : Acc (fun y x => a.Spells x y) id := by
  induction k generalizing id s with
  | zero => simp [readWithin] at h
  | succ k ih =>
    simp only [readWithin, Option.bind_eq_some_iff] at h
    obtain ⟨n, hn, hs⟩ := h
    refine ⟨id, fun y hy => ?_⟩
    obtain ⟨n', hn', hy'⟩ := spells_iff.1 hy
    obtain rfl := Option.some.inj (hn.symm.trans hn')
    obtain ⟨x, hx⟩ := Reading.exists_of_rendered hs y hy'
    exact ih hx

end Arena

end NativeBindings
