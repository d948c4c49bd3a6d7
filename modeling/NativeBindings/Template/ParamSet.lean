/-!
# Sets of template parameters

A set of parameter positions is kept as an ascending list, so two sets with the
same members are equal (`ext`).
-/

namespace NativeBindings

/-- A finite set of parameter positions. -/
structure ParamSet where
  /-- The members, in ascending order. -/
  toList : List Nat
  /-- No member comes twice or too early. -/
  ascending : toList.Pairwise (· < ·)
deriving DecidableEq

namespace ParamSet

/-- The set without a member. -/
def empty : ParamSet :=
  ⟨[], .nil⟩

instance : Inhabited ParamSet := ⟨empty⟩

instance : Membership Nat ParamSet := ⟨fun s n => n ∈ s.toList⟩

instance (n : Nat) (s : ParamSet) : Decidable (n ∈ s) :=
  inferInstanceAs (Decidable (n ∈ s.toList))

/-- Put a number into an ascending list, unless it is there. -/
def insertSorted (n : Nat) : List Nat → List Nat
  | [] => [n]
  | m :: ms => if n < m then n :: m :: ms else if n = m then m :: ms else m :: insertSorted n ms

/-- Inserting adds the number and nothing else. -/
theorem mem_insertSorted {n k : Nat} {ms : List Nat} :
    k ∈ insertSorted n ms ↔ k = n ∨ k ∈ ms := by
  fun_induction insertSorted n ms <;> grind

/-- Inserting keeps the order. -/
theorem pairwise_insertSorted {n : Nat} {ms : List Nat} (h : ms.Pairwise (· < ·)) :
    (insertSorted n ms).Pairwise (· < ·) := by
  fun_induction insertSorted n ms with
  | case1 => simp
  | case2 m ms hlt =>
    refine List.pairwise_cons.2 ⟨fun k hk => ?_, h⟩
    rcases List.mem_cons.1 hk with rfl | hk
    · exact hlt
    · exact Nat.lt_trans hlt ((List.pairwise_cons.1 h).1 k hk)
  | case3 => exact h
  | case4 m ms _ hne ih =>
    obtain ⟨hm, hms⟩ := List.pairwise_cons.1 h
    refine List.pairwise_cons.2 ⟨fun k hk => ?_, ih hms⟩
    rcases mem_insertSorted.1 hk with rfl | hk
    · omega
    · exact hm k hk

/-- The set with one more member. -/
def insert (n : Nat) (s : ParamSet) : ParamSet :=
  ⟨insertSorted n s.toList, pairwise_insertSorted s.ascending⟩

/-- The set of the numbers in a list. -/
def ofList (ns : List Nat) : ParamSet :=
  ns.foldr insert empty

/-- The members of both sets. -/
def union (s t : ParamSet) : ParamSet :=
  s.toList.foldr insert t

/-- The members that two sets share. -/
def inter (s t : ParamSet) : ParamSet :=
  ⟨s.toList.filter (· ∈ t), s.ascending.filter _⟩

/-- The least member. -/
def first? (s : ParamSet) : Option Nat :=
  s.toList.head?

/-- Whether there is no member. -/
def isEmpty (s : ParamSet) : Bool :=
  s.toList.isEmpty

/-- How many members there are. -/
def size (s : ParamSet) : Nat :=
  s.toList.length

/-! ## Membership -/

theorem mem_def {n : Nat} {s : ParamSet} : n ∈ s ↔ n ∈ s.toList :=
  Iff.rfl

@[simp] theorem mem_insert {n k : Nat} {s : ParamSet} : k ∈ s.insert n ↔ k = n ∨ k ∈ s :=
  mem_insertSorted

@[simp] theorem mem_inter {n : Nat} {s t : ParamSet} : n ∈ s.inter t ↔ n ∈ s ∧ n ∈ t := by
  simp [mem_def, inter]

@[simp] theorem mem_ofList {n : Nat} {ns : List Nat} : n ∈ ofList ns ↔ n ∈ ns := by
  induction ns with
  | nil => simp [ofList, empty, mem_def]
  | cons m ns ih =>
    rw [show ofList (m :: ns) = (ofList ns).insert m from rfl, mem_insert, ih, List.mem_cons]

@[simp] theorem mem_union {n : Nat} {s t : ParamSet} : n ∈ s.union t ↔ n ∈ s ∨ n ∈ t := by
  obtain ⟨ms, hms⟩ := s
  show n ∈ ms.foldr insert t ↔ n ∈ ms ∨ n ∈ t
  clear hms
  induction ms with
  | nil => simp
  | cons m ms ih => rw [List.foldr_cons, mem_insert, ih, List.mem_cons, or_assoc]

theorem not_mem_empty (n : Nat) : n ∉ empty :=
  List.not_mem_nil

theorem mem_of_first? {n : Nat} {s : ParamSet} (h : s.first? = some n) : n ∈ s :=
  List.mem_of_head? h

theorem first?_eq_none_iff {s : ParamSet} : s.first? = none ↔ ∀ n, n ∉ s := by
  simp [first?, mem_def, List.eq_nil_iff_forall_not_mem]

theorem isEmpty_iff {s : ParamSet} : s.isEmpty = true ↔ ∀ n, n ∉ s := by
  simp [isEmpty, mem_def, List.eq_nil_iff_forall_not_mem]

/-- Sets with the same members are equal. -/
theorem ext {s t : ParamSet} (h : ∀ n, n ∈ s ↔ n ∈ t) : s = t := by
  have aux {l m : List Nat} (hl : l.Pairwise (· < ·)) (hm : m.Pairwise (· < ·))
      (h : ∀ n, n ∈ l ↔ n ∈ m) : l = m := by
    induction l generalizing m with
    | nil => cases m with
      | nil => rfl
      | cons b m => exact absurd ((h b).2 (by simp)) (by simp)
    | cons a l ih => cases m with
      | nil => exact absurd ((h a).1 (by simp)) (by simp)
      | cons b m =>
        obtain ⟨ha, hl'⟩ := List.pairwise_cons.1 hl
        obtain ⟨hb, hm'⟩ := List.pairwise_cons.1 hm
        have hab : a = b := by
          rcases List.mem_cons.1 ((h a).1 (by simp)) with rfl | h1
          · rfl
          · rcases List.mem_cons.1 ((h b).2 (by simp)) with rfl | h2
            · rfl
            · have := hb a h1
              have := ha b h2
              omega
        subst hab
        refine congrArg (a :: ·) (ih hl' hm' fun n => ⟨fun hn => ?_, fun hn => ?_⟩)
        · rcases List.mem_cons.1 ((h n).1 (by simp [hn])) with rfl | h1
          · exact absurd (ha _ hn) (by omega)
          · exact h1
        · rcases List.mem_cons.1 ((h n).2 (by simp [hn])) with rfl | h1
          · exact absurd (hb _ hn) (by omega)
          · exact h1
  obtain ⟨l, hl⟩ := s
  obtain ⟨m, hm⟩ := t
  obtain rfl : l = m := aux hl hm h
  rfl

theorem inter_comm (s t : ParamSet) : s.inter t = t.inter s :=
  ext fun _ => by simp [and_comm]

theorem inter_assoc (s t u : ParamSet) : (s.inter t).inter u = s.inter (t.inter u) :=
  ext fun _ => by simp [and_assoc]

end ParamSet

end NativeBindings
