import Mathlib.Data.List.Nodup
import NativeBindings.Declaration.Basic
import NativeBindings.Proofs.Declaration.LeastOrder
import NativeBindings.Proofs.FirstOccurrence

/-!
# Declarations that need each other

A declaration needs those of the bases of every class it covers
(`PlannedGraph.Needs`). Declarations are ordered by number, and the numbers depend on each
other as the declarations need each other (`Catalog.mem_dependencies_iff`), so there is no order
exactly if a ring of declarations need each other (`Catalog.order_eq_error_iff`).
-/

namespace NativeBindings

open Relation

namespace PlannedGraph

/-- A declaration needs another one first: a class that it covers is derived from one that the
other covers. A generic declaration does not wait for itself. -/
def Needs (p : PlannedGraph) (s t : Subject) : Prop :=
  s ∈ p.subjects ∧ t ∈ p.subjects ∧
    (∃ c ∈ p.covered s, ∃ u, p.graph.layoutType? c = some u ∧
      ∃ b ∈ u.bases, p.subjectOf? b = some t) ∧
    ¬(t = s ∧ s.isGeneric = true)

/-- The bases of a subject are those of the types that it covers. -/
theorem mem_bases_iff {p : PlannedGraph} {s : Subject} {b : NodeId} :
    b ∈ p.bases s ↔ ∃ c ∈ p.covered s, ∃ u, p.graph.layoutType? c = some u ∧ b ∈ u.bases := by
  simp only [bases, List.mem_eraseDups, List.mem_flatMap]
  refine exists_congr fun c => and_congr_right fun _ => ?_
  cases p.graph.layoutType? c <;> simp

end PlannedGraph

namespace Catalog

variable {c : Catalog}

/-- Subjects are numbered by their place in the list. -/
theorem numberOf?_eq_some_iff (h : c.subjects.Nodup) {s : Subject} {n : Nat} :
    c.numberOf? s = some n ↔ c.subjects[n]? = some s := by
  rw [numberOf?, List.idxOf?_eq_some_iff, List.getElem?_eq_some_iff]
  refine exists_congr fun hn => ⟨fun heq => heq.1, fun heq => ⟨heq, fun j hj hsame => ?_⟩⟩
  have hjn := (h.getElem_inj_iff).1 (hsame.trans heq.symm)
  omega

/-- A node is covered by the declaration whose number its subject has. -/
theorem coveredBy?_eq_some_iff (h : c.subjects.Nodup) {b : NodeId} {m : Nat} :
    c.coveredBy? b = some m ↔
      ∃ t, c.planned.subjectOf? b = some t ∧ c.subjects[m]? = some t := by
  rw [coveredBy?, Option.bind_eq_some_iff]
  exact exists_congr fun t => and_congr_right fun _ => numberOf?_eq_some_iff h

/-- A declaration depends on those that cover its bases, but a generic one not on itself. -/
theorem mem_dependencies_of_getElem? {n m : Nat} {s : Subject} (hs : c.subjects[n]? = some s) :
    m ∈ c.dependencies n ↔ m < c.subjects.length ∧
      (∃ b ∈ c.planned.bases s, c.coveredBy? b = some m) ∧ ¬(m = n ∧ s.isGeneric = true) := by
  rw [dependencies, hs]
  have hself : (!(m == n && s.isGeneric)) = true ↔ ¬(m = n ∧ s.isGeneric = true) := by
    rw [Bool.not_eq_true', ← Bool.not_eq_true, Bool.and_eq_true, beq_iff_eq]
  simp only [List.mem_filter, List.mem_range, List.mem_filterMap, Bool.and_eq_true,
    decide_eq_true_eq, hself]

/-- The numbers depend on each other as the subjects need each other. -/
theorem mem_dependencies_iff (hc : c.subjects = c.planned.subjects) {n m : Nat} :
    m ∈ c.dependencies n ↔
      ∃ s t, c.subjects[n]? = some s ∧ c.subjects[m]? = some t ∧ c.planned.Needs s t := by
  have hnodup : c.subjects.Nodup := hc ▸ nodup_eraseDups _
  have hsame {s t : Subject} (hs : c.subjects[n]? = some s) (ht : c.subjects[m]? = some t) :
      m = n ↔ t = s := by
    constructor
    · rintro rfl
      exact Option.some.inj (ht.symm.trans hs)
    · rintro rfl
      obtain ⟨hlt, -⟩ := List.getElem?_eq_some_iff.1 ht
      exact (List.getElem?_inj hlt hnodup).1 (ht.trans hs.symm)
  constructor
  · intro hm
    cases hs : c.subjects[n]? with
    | none => simp [dependencies, hs] at hm
    | some s =>
      obtain ⟨-, ⟨b, hb, hbm⟩, hself⟩ := (mem_dependencies_of_getElem? hs).1 hm
      obtain ⟨t, hbt, ht⟩ := (coveredBy?_eq_some_iff hnodup).1 hbm
      obtain ⟨e, he, u, hu, hbu⟩ := PlannedGraph.mem_bases_iff.1 hb
      rw [hsame hs ht] at hself
      exact ⟨s, t, rfl, ht, hc ▸ List.mem_of_getElem? hs, hc ▸ List.mem_of_getElem? ht,
        ⟨e, he, u, hu, b, hbu, hbt⟩, hself⟩
  · rintro ⟨s, t, hs, ht, -, -, ⟨e, he, u, hu, b, hbu, hbt⟩, hself⟩
    obtain ⟨hlt, -⟩ := List.getElem?_eq_some_iff.1 ht
    rw [← hsame hs ht] at hself
    exact (mem_dependencies_of_getElem? hs).2 ⟨hlt, ⟨b,
      PlannedGraph.mem_bases_iff.2 ⟨e, he, u, hu, hbu⟩,
      (coveredBy?_eq_some_iff hnodup).2 ⟨t, hbt, ht⟩⟩, hself⟩

theorem lt_of_mem_dependencies {n m : Nat} (h : m ∈ c.dependencies n) :
    m < c.subjects.length := by
  unfold dependencies at h
  split at h
  · cases h
  · exact List.mem_range.1 (List.mem_filter.1 h).1

/-- Declarations cannot be put in order if and only if a ring of them need each other. -/
theorem order_eq_error_iff (hc : c.subjects = c.planned.subjects) :
    (∃ names, c.order = .error (.circularBases names)) ↔
      ∃ s, TransGen c.planned.Needs s s := by
  have hnodup : c.subjects.Nodup := hc ▸ nodup_eraseDups _
  have horder : (∃ names, c.order = .error (.circularBases names)) ↔
      ∃ circle, LeastOrder.sort c.subjects.length c.dependencies = .error circle := by
    unfold order
    cases LeastOrder.sort c.subjects.length c.dependencies <;> simp
  rw [horder, LeastOrder.sort_eq_error_iff fun _ _ _ => lt_of_mem_dependencies]
  constructor
  · rintro ⟨i, hring⟩
    obtain ⟨j, ⟨-, hij⟩, -⟩ := TransGen.head'_iff.1 hring
    obtain ⟨s, -, hs, -⟩ := (mem_dependencies_iff hc).1 hij
    refine ⟨s, ring_of_steps (fun i s => c.subjects[i]? = some s) (fun hi hij _ => ?_)
      (fun hs ht => Option.some.inj (ht.symm.trans hs)) hs hring⟩
    obtain ⟨s', t, hs', ht, hst⟩ := (mem_dependencies_iff hc).1 hij.2
    obtain rfl := Option.some.inj (hi.symm.trans hs')
    exact ⟨t, hst, ht⟩
  · rintro ⟨s, hring⟩
    have hnumber {s : Subject} (hs : s ∈ c.planned.subjects) : ∃ i, c.subjects[i]? = some s :=
      List.mem_iff_getElem?.1 (hc.symm ▸ hs)
    obtain ⟨t, hst, -⟩ := TransGen.head'_iff.1 hring
    obtain ⟨i, hi⟩ := hnumber hst.1
    refine ⟨i, ring_of_steps (fun s i => c.subjects[i]? = some s) (fun hi hst _ => ?_)
      (fun hi hj => ?_) hi hring⟩
    · obtain ⟨j, hj⟩ := hnumber hst.2.1
      obtain ⟨hlt, -⟩ := List.getElem?_eq_some_iff.1 hi
      exact ⟨j, ⟨hlt, (mem_dependencies_iff hc).2 ⟨_, _, hi, hj, hst⟩⟩, hj⟩
    · obtain ⟨hlt, -⟩ := List.getElem?_eq_some_iff.1 hj
      exact (List.getElem?_inj hlt hnodup).1 (hj.trans hi.symm)

end Catalog

end NativeBindings
