/-!
# Numbered names

Where a name is taken, the first of its numbered variants is used that is still
free, counting from two. Among one more variants than there are taken names one
must be free, so the search ends (`firstFree_not_mem`).
-/

namespace NativeBindings.Name

/-- The least number from two on whose variant is not taken. -/
def firstFree (taken : List String) (variant : Nat → String) : Nat :=
  ((List.range' 2 (taken.length + 1)).find? fun k => variant k ∉ taken).getD 2

/-- A name that is not taken: the name itself, or a variant of it. -/
def distinct (taken : List String) (base : String) (variant : Nat → String) : String :=
  if base ∈ taken then variant (firstFree taken variant) else base

/-- Different variants cannot all be taken. -/
theorem firstFree_not_mem {taken : List String} {variant : Nat → String}
    (h : ∀ i j, variant i = variant j → i = j) : variant (firstFree taken variant) ∉ taken := by
  unfold firstFree
  cases hf : (List.range' 2 (taken.length + 1)).find? fun k => variant k ∉ taken with
  | some k => simpa using List.find?_some hf
  | none =>
    have hall : ∀ k ∈ List.range' 2 (taken.length + 1), variant k ∈ taken := by
      intro k hk
      have := List.find?_eq_none.1 hf k hk
      simpa using this
    have hsub : (List.range' 2 (taken.length + 1)).map variant ⊆ taken := by
      intro s hs
      obtain ⟨k, hk, rfl⟩ := List.mem_map.1 hs
      exact hall k hk
    have hnodup : ((List.range' 2 (taken.length + 1)).map variant).Nodup := by
      rw [List.Nodup, List.pairwise_map]
      exact (List.nodup_range' 1).imp fun hne he => hne (h _ _ he)
    have := hnodup.length_le_of_subset hsub
    simp only [List.length_map, List.length_range'] at this
    omega

end NativeBindings.Name
