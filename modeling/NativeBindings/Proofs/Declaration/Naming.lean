import Mathlib.Order.Bounds.Defs
import NativeBindings.Proofs.Declaration.Covering

/-!
# Choosing names

Subjects choose their names one after the other. Each takes its preferred identifier if the path
of that is free, and otherwise the least number from two on whose path is
(`DeclaredName.Chosen`). A chosen path is never taken (`DeclaredName.Chosen.path_not_mem`), so by
induction over the subjects none is given twice (`PlannedGraph.nodup_path_nameAll`), and what a
subject finds taken are the paths of those before it (`PlannedGraph.chosen_of_getElem?_nameAll`).
The notes are about the names with a number, in the same order (`PlannedGraph.notes_nameAll`).
-/

namespace NativeBindings

theorem Name.eq_of_toString_eq {i j : Nat} (h : toString i = toString j) : i = j := by
  have hdigits := congrArg String.toList h
  rw [Nat.toString_eq_repr, Nat.toString_eq_repr, Nat.toList_repr, Nat.toList_repr] at hdigits
  rw [← Nat.ofDigitChars_ten_toDigits (n := i), hdigits, Nat.ofDigitChars_ten_toDigits]

/-- The first free number is the least one from two on that is free. -/
theorem Name.isLeast_firstFree {taken : List String} {variant : Nat → String}
    (h : ∀ i j, variant i = variant j → i = j) :
    IsLeast {k | 2 ≤ k ∧ variant k ∉ taken} (firstFree taken variant) := by
  have hfree : variant (firstFree taken variant) ∉ taken := firstFree_not_mem h
  unfold firstFree at hfree ⊢
  cases hf : (List.range' 2 (taken.length + 1)).find? fun k => variant k ∉ taken with
  | none =>
    rw [hf] at hfree
    exact ⟨⟨Nat.le_refl 2, hfree⟩, fun k hk => hk.1⟩
  | some first =>
    rw [hf] at hfree
    obtain ⟨-, hmem, hbelow⟩ := List.find?_range'_eq_some.1 hf
    refine ⟨⟨(List.mem_range'_1.1 hmem).1, hfree⟩, fun k ⟨hk, hkfree⟩ => Nat.le_of_not_lt ?_⟩
    intro hlt
    have htaken := hbelow k hk hlt
    simp [hkfree] at htaken

namespace DeclaredName

variable {short : Bool} {taken : List String} {scope : Option String} {base : String}
  {name : DeclaredName}

/-! ## Numbered identifiers -/

/-- What stands between an identifier and its number: an underscore behind a digit. -/
def separator (base : String) : String :=
  if base.toList.getLast?.any Char.isDigit then "_" else ""

theorem numbered_eq (base : String) (k : Nat) :
    numbered base k = base ++ separator base ++ toString k := by
  unfold numbered separator
  cases base.toList.getLast? <;> simp

/-- Different numbers make different identifiers. -/
theorem numbered_inj {i j : Nat} (h : numbered base i = numbered base j) : i = j := by
  rw [numbered_eq, numbered_eq, String.append_right_inj] at h
  exact Name.eq_of_toString_eq h

/-- A number changes an identifier. -/
theorem numbered_ne_self (base : String) (k : Nat) : numbered base k ≠ base := by
  rw [numbered_eq, String.append_assoc]
  intro h
  have hempty := String.append_eq_left_iff.1 h
  rw [String.append_eq_empty_iff, Nat.toString_eq_repr] at hempty
  exact Nat.repr_ne_empty hempty.2

/-- Within a scope, different identifiers make different paths. -/
theorem pathOf_inj {i j : String} (h : pathOf short scope i = pathOf short scope j) : i = j := by
  unfold pathOf at h
  split at h
  · split at h
    · exact h
    · exact (String.append_right_inj _).1 h
  · exact h

/-! ## One choice -/

/-- What a subject that prefers an identifier is called when some paths are taken: by the
identifier if its path is free, and otherwise by the identifier with the least number from two on
whose path is. -/
inductive Chosen (short : Bool) (taken : List String) (scope : Option String) (base : String) :
    DeclaredName → Prop
  | preferred (h : pathOf short scope base ∉ taken) :
    Chosen short taken scope base ⟨base, pathOf short scope base, scope⟩
  | numbered {k : Nat} {ident : String} (h : pathOf short scope base ∈ taken)
    (hident : ident = base ++ separator base ++ toString k)
    (hk : IsLeast {k | 2 ≤ k ∧
      pathOf short scope (base ++ separator base ++ toString k) ∉ taken} k) :
    Chosen short taken scope base ⟨ident, pathOf short scope ident, scope⟩

/-- The identifier is chosen with the least number that makes its path free. -/
theorem chosen_choose (short : Bool) (taken : List String) (scope : Option String)
    (base : String) : (choose short taken scope base).Chosen short taken scope base := by
  unfold choose
  by_cases h : pathOf short scope base ∈ taken
  · simp only [h, if_true]
    refine .numbered h (numbered_eq _ _) ?_
    simp only [← numbered_eq]
    exact Name.isLeast_firstFree fun i j hij => numbered_inj (pathOf_inj hij)
  · simp only [h, if_false]
    exact .preferred h

namespace Chosen

variable (h : name.Chosen short taken scope base)

include h

/-- A choice depends on which paths are taken, not on their order. -/
theorem congr {taken' : List String} (htaken : ∀ path, path ∈ taken ↔ path ∈ taken') :
    name.Chosen short taken' scope base := by
  cases h with
  | preferred hfree => exact .preferred ((htaken _).not.1 hfree)
  | numbered hmem hident hk =>
    refine .numbered ((htaken _).1 hmem) hident ?_
    simpa only [htaken] using hk

theorem path_not_mem : name.path ∉ taken := by
  cases h with
  | preferred hfree => exact hfree
  | numbered _ hident hk => exact hident ▸ hk.1.2

theorem path_eq : name.path = pathOf short scope name.ident := by
  cases h <;> rfl

/-- The identifier is the base, or the base with a number. -/
theorem ident_eq : name.ident = base ∨ ∃ k, name.ident = DeclaredName.numbered base k := by
  cases h with
  | preferred => exact Or.inl rfl
  | @numbered k _ _ hident => exact Or.inr ⟨k, hident.trans (numbered_eq base k).symm⟩

/-- A subject gets another identifier than the preferred one if the path of that is taken. -/
theorem ident_ne_iff : name.ident ≠ base ↔ pathOf short scope base ∈ taken := by
  cases h with
  | preferred hfree => exact iff_of_false (fun hne => hne rfl) hfree
  | @numbered k _ hmem hident =>
    refine iff_of_true ?_ hmem
    rw [hident, ← numbered_eq]
    exact numbered_ne_self base k

end Chosen

/-- The note for a name with a number. -/
def renamedNote (short : Bool) (base : String) (name : DeclaredName) : Diagnostic :=
  { finding := .declarationRenamed
    message := "`" ++ pathOf short name.scope base ++ "` is already declared; using `"
      ++ name.path ++ "`" }

/-- A name is noted if it is not the one that was asked for. -/
theorem renamedNote?_eq (short : Bool) (base : String) (name : DeclaredName) :
    name.renamedNote? short base =
      if name.ident ≠ base then some (name.renamedNote short base) else none := by
  rw [renamedNote?, ite_not]
  rfl

end DeclaredName

/-! ## One after the other -/

namespace PlannedGraph

variable (p : PlannedGraph) (short : Bool) (taken : List String)

theorem nameAll_cons (s : Subject) (ss : List Subject) : p.nameAll short taken (s :: ss) =
    let name := DeclaredName.choose short taken (p.preferred s).1 (p.preferred s).2
    (name :: (p.nameAll short (name.path :: taken) ss).1,
      (name.renamedNote? short (p.preferred s).2).toList ++
        (p.nameAll short (name.path :: taken) ss).2) :=
  rfl

/-- A subject chooses its name when the paths of those before it are taken too. -/
theorem chosen_of_getElem?_nameAll {ss : List Subject} {n : Nat} {s : Subject}
    {name : DeclaredName} (hs : ss[n]? = some s)
    (hname : (p.nameAll short taken ss).1[n]? = some name) :
    name.Chosen short (((p.nameAll short taken ss).1.take n).map (·.path) ++ taken)
      (p.preferred s).1 (p.preferred s).2 := by
  induction ss generalizing taken n with
  | nil => cases hs
  | cons t ss ih =>
    rw [nameAll_cons] at hname ⊢
    cases n with
    | zero =>
      obtain rfl := Option.some.inj hs
      obtain rfl := Option.some.inj hname
      exact DeclaredName.chosen_choose ..
    | succ n =>
      refine (ih _ hs hname).congr fun path => ?_
      simp only [List.take_succ_cons, List.map_cons, List.mem_append, List.mem_cons]
      tauto

/-- No path is given that was taken. -/
theorem path_not_mem_of_mem_nameAll {ss : List Subject} {name : DeclaredName}
    (h : name ∈ (p.nameAll short taken ss).1) : name.path ∉ taken := by
  induction ss generalizing taken with
  | nil => cases h
  | cons s ss ih =>
    rw [nameAll_cons] at h
    rcases List.mem_cons.1 h with rfl | h
    · exact (DeclaredName.chosen_choose ..).path_not_mem
    · exact fun hmem => ih _ h (List.mem_cons_of_mem _ hmem)

/-- No path is given twice. -/
theorem nodup_path_nameAll (ss : List Subject) :
    ((p.nameAll short taken ss).1.map (·.path)).Nodup := by
  induction ss generalizing taken with
  | nil => exact List.nodup_nil
  | cons s ss ih =>
    rw [nameAll_cons, List.map_cons, List.nodup_cons]
    refine ⟨fun hmem => ?_, ih _⟩
    obtain ⟨name, hname, hpath⟩ := List.mem_map.1 hmem
    exact p.path_not_mem_of_mem_nameAll short _ hname (hpath ▸ List.mem_cons_self)

/-- There is a note for every name with a number. -/
theorem notes_nameAll (ss : List Subject) : (p.nameAll short taken ss).2 =
    ((ss.zip (p.nameAll short taken ss).1).filter fun x => x.2.ident ≠ (p.preferred x.1).2).map
      fun x => x.2.renamedNote short (p.preferred x.1).2 := by
  induction ss generalizing taken with
  | nil => rfl
  | cons s ss ih =>
    rw [nameAll_cons, List.zip_cons_cons, List.filter_cons]
    simp only [ih, DeclaredName.renamedNote?_eq, decide_eq_true_eq]
    split <;> simp

/-- All that is noted while naming is that a declaration was renamed. -/
theorem finding_of_mem_notes :
    ∀ d ∈ (Catalog.ofPlanned p short).2, d.finding = .declarationRenamed := by
  intro d hd
  have hnotes : (Catalog.ofPlanned p short).2 = (p.nameAll short [] p.subjects).2 := rfl
  rw [hnotes, notes_nameAll] at hd
  obtain ⟨e, -, rfl⟩ := List.mem_map.1 hd
  rfl

end PlannedGraph

end NativeBindings
