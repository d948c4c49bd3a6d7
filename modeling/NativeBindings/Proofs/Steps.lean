/-!
# Steps that may fail

A computation in steps succeeds if and only if all of its steps do (`bind_eq_ok_iff`,
`foldlM_cons_eq_ok_iff`), and fails only as the first of them that does
(`exists_split_of_foldlM_error`, `bind_ne_error`). Two computations agree if they take
corresponding steps (`Agree.bind`, `Agree.foldlM`), and if they take the same steps in another
order, provided that any two steps can be swapped (`Agree.foldlM_perm`).
-/

namespace NativeBindings

variable {α β ε : Type} {e : ε}

/-! ## Success -/

theorem exists_eq_ok {x : Except ε α} (h : x.toBool = true) : ∃ a, x = .ok a := by
  cases x with
  | error e => cases h
  | ok a => exact ⟨a, rfl⟩

theorem exists_eq_ok_and {x : Except ε α} {P : α → Prop} [DecidablePred P]
    (h : x.toOption.any (fun a => decide (P a)) = true) : ∃ a, x = .ok a ∧ P a := by
  cases x with
  | error e => cases h
  | ok a => exact ⟨a, rfl, of_decide_eq_true h⟩

theorem map_eq_ok_iff {x : Except ε α} {f : α → β} {b : β} :
    x.map f = .ok b ↔ ∃ a, x = .ok a ∧ f a = b := by
  cases x <;> simp [Except.map]

/-- Two steps succeed if both do, the second from what the first has left. -/
theorem bind_eq_ok_iff {x : Except ε α} {f : α → Except ε β} {b : β} :
    (x >>= f) = .ok b ↔ ∃ a, x = .ok a ∧ f a = .ok b := by
  cases x <;> simp [bind, Except.bind]

/-- A run succeeds if its first step and the run of the others do. -/
theorem foldlM_cons_eq_ok_iff {f : β → α → Except ε β} {x : α} {xs : List α} {b c : β} :
    (x :: xs).foldlM f b = .ok c ↔ ∃ d, f b x = .ok d ∧ xs.foldlM f d = .ok c := by
  rw [List.foldlM_cons, bind_eq_ok_iff]

/-! ## Failure -/

/-- Whether a computation fails for a reason. -/
def failsFor [DecidableEq ε] (e : ε) : Except ε α → Bool
  | .error e' => e' = e
  | .ok _ => false

theorem eq_error [DecidableEq ε] {x : Except ε α} (h : failsFor e x = true) : x = .error e := by
  cases x with
  | error e' => exact congrArg Except.error (of_decide_eq_true h)
  | ok a => cases h

theorem map_eq_error_iff {x : Except ε α} {f : α → β} : x.map f = .error e ↔ x = .error e := by
  cases x <;> simp [Except.map]

/-- A run fails at one of its steps, all steps before which succeed. -/
theorem exists_split_of_foldlM_error {f : β → α → Except ε β} {xs : List α} {b : β}
    (h : xs.foldlM f b = .error e) : ∃ before x after b', xs = before ++ x :: after ∧
      before.foldlM f b = .ok b' ∧ f b' x = .error e := by
  induction xs generalizing b with
  | nil => cases h
  | cons x xs ih =>
    rw [List.foldlM_cons] at h
    cases hx : f b x with
    | error e' =>
      rw [hx] at h
      exact ⟨[], x, xs, b, rfl, rfl, hx.trans h⟩
    | ok b₁ =>
      rw [hx] at h
      obtain ⟨before, y, after, b', rfl, hbefore, hy⟩ := ih h
      exact ⟨x :: before, y, after, b', rfl, foldlM_cons_eq_ok_iff.2 ⟨b₁, hx, hbefore⟩, hy⟩

/-- A run that fails fails at one of its steps. -/
theorem exists_of_foldlM_error {f : β → α → Except ε β} {xs : List α} {b : β}
    (h : xs.foldlM f b = .error e) : ∃ x ∈ xs, ∃ b', f b' x = .error e := by
  obtain ⟨before, x, after, b', rfl, -, hx⟩ := exists_split_of_foldlM_error h
  exact ⟨x, by simp, b', hx⟩

theorem pure_ne_error (a : α) : (pure a : Except ε α) ≠ .error e := by
  simp [pure, Except.pure]

theorem map_ne_error {x : Except ε α} {f : α → β} (hx : x ≠ .error e) : x.map f ≠ .error e :=
  mt map_eq_error_iff.1 hx

/-- Two steps do not fail with an error that neither fails with. -/
theorem bind_ne_error {x : Except ε α} {f : α → Except ε β} (hx : x ≠ .error e)
    (hf : ∀ a, f a ≠ .error e) : (x >>= f) ≠ .error e := by
  cases x with
  | error e' => exact fun h => hx (congrArg Except.error (Except.error.inj h))
  | ok a => exact hf a

/-- A run does not fail with an error that none of its steps fails with. -/
theorem foldlM_ne_error {f : β → α → Except ε β} (hf : ∀ b x, f b x ≠ .error e) (xs : List α)
    (b : β) : xs.foldlM f b ≠ .error e := by
  intro h
  obtain ⟨x, -, b', hx⟩ := exists_of_foldlM_error h
  exact hf b' x hx

/-! ## Agreement -/

/-- Two computations that both fail, or whose results are related. -/
inductive Agree (R : α → β → Prop) : Except ε α → Except ε β → Prop
  | ok {a : α} {b : β} (h : R a b) : Agree R (.ok a) (.ok b)
  | error (e e' : ε) : Agree R (.error e) (.error e')

namespace Agree

variable {γ δ : Type} {R : α → β → Prop} {S : γ → δ → Prop} {x : Except ε α} {y : Except ε β}

/-- Of two computations that agree, one succeeds if and only if the other does. -/
theorem exists_ok_iff (h : Agree R x y) : (∃ a, x = .ok a) ↔ ∃ b, y = .ok b := by
  cases h <;> simp

/-- What two computations that agree end in is related. -/
theorem related (h : Agree R x y) {a : α} {b : β} (hx : x = .ok a) (hy : y = .ok b) : R a b := by
  cases h with
  | ok h =>
    obtain rfl := Except.ok.inj hx
    obtain rfl := Except.ok.inj hy
    exact h
  | error => cases hx

/-- Computations agree if their first steps do and the second agree from what these leave. -/
theorem bind {f : α → Except ε γ} {f' : β → Except ε δ} (h : Agree R x y)
    (hf : ∀ a b, x = .ok a → R a b → Agree S (f a) (f' b)) : Agree S (x >>= f) (y >>= f') := by
  cases h with
  | ok h => exact hf _ _ rfl h
  | error e e' => exact .error e e'

/-- Results that agree also agree after a map that keeps relations. -/
theorem map {f : α → γ} {f' : β → δ} (h : Agree R x y) (hf : ∀ a b, R a b → S (f a) (f' b)) :
    Agree S (x.map f) (y.map f') := by
  cases h with
  | ok h => exact .ok (hf _ _ h)
  | error e e' => exact .error e e'

/-- Runs over the entries of a list and over their images agree if their steps do. -/
theorem foldlM {f : α → γ → Except ε α} {f' : β → δ → Except ε β} {φ : γ → δ}
    (hf : ∀ a b z, R a b → Agree R (f a z) (f' b (φ z))) (zs : List γ) {a : α} {b : β}
    (h : R a b) : Agree R (zs.foldlM f a) ((zs.map φ).foldlM f' b) := by
  induction zs generalizing a b with
  | nil => exact .ok h
  | cons z zs ih => exact (hf a b z h).bind fun _ _ _ h => ih h

/-- Views that related results have in common are equal. -/
theorem toOption_map_eq {f : α → γ} {f' : β → γ} (h : Agree R x y)
    (hf : ∀ a b, R a b → f a = f' b) : x.toOption.map f = y.toOption.map f' := by
  cases h with
  | ok h => exact congrArg some (hf _ _ h)
  | error => rfl

/-- Computations agree on a view if they have the same views. -/
theorem of_iff {φ : α → γ} {x y : Except ε α}
    (h : ∀ c, (∃ a, x = .ok a ∧ φ a = c) ↔ ∃ a, y = .ok a ∧ φ a = c) :
    Agree (fun a b => φ a = φ b) x y := by
  cases x with
  | ok a =>
    obtain ⟨b, rfl, hb⟩ := (h (φ a)).1 ⟨a, rfl, rfl⟩
    exact .ok hb.symm
  | error e =>
    cases y with
    | ok b =>
      obtain ⟨a, ha, -⟩ := (h (φ b)).2 ⟨b, rfl, rfl⟩
      cases ha
    | error e' => exact .error e e'

/-! ### Steps in any order -/

section

variable {R : α → α → Prop} {x y z : Except ε α}

theorem trans (hR : Equivalence R) (h : Agree R x y) (h' : Agree R y z) : Agree R x z := by
  cases h with
  | ok h =>
    cases h' with
    | ok h' => exact .ok (hR.trans h h')
  | error e =>
    cases h' with
    | error => exact .error e _

variable {f : α → β → Except ε α} (hR : Equivalence R)
  (hcongr : ∀ a b x, R a b → Agree R (f a x) (f b x))
  (hswap : ∀ a x y, Agree R (f a x >>= (f · y)) (f a y >>= (f · x)))

include hcongr in
/-- Runs over one list agree if they start from what is related. -/
theorem foldlM_congr (xs : List β) {a b : α} (h : R a b) :
    Agree R (xs.foldlM f a) (xs.foldlM f b) := by
  have hmap := foldlM (φ := id) hcongr xs h
  rwa [List.map_id] at hmap

include hR hcongr hswap in
/-- The steps of a run can be taken in any order if any two of them can. -/
theorem foldlM_perm {xs ys : List β} (hp : xs.Perm ys) {a b : α} (h : R a b) :
    Agree R (xs.foldlM f a) (ys.foldlM f b) := by
  induction hp generalizing a b with
  | nil => exact .ok h
  | cons x _ ih =>
    rw [List.foldlM_cons, List.foldlM_cons]
    exact (hcongr a b x h).bind fun _ _ _ h => ih h
  | swap x y xs =>
    have htwo : Agree R (f a y >>= (f · x)) (f b x >>= (f · y)) :=
      (hswap a y x).trans hR ((hcongr a b x h).bind fun _ _ _ h => hcongr _ _ y h)
    simp only [List.foldlM_cons, ← bind_assoc]
    exact htwo.bind fun _ _ _ h => foldlM_congr hcongr xs h
  | trans _ _ ih ih' => exact (ih h).trans hR (ih' (hR.refl b))

end

/-- An operation can be applied to a nonempty list in any order if it is commutative and any
two of its arguments can be swapped. -/
theorem foldlM_perm_cons {R : α → α → Prop} {f : α → α → Except ε α} (hR : Equivalence R)
    (hcongr : ∀ a b x, R a b → Agree R (f a x) (f b x))
    (hswap : ∀ a x y, Agree R (f a x >>= (f · y)) (f a y >>= (f · x)))
    (hcomm : ∀ x y, Agree R (f x y) (f y x)) {x y : α} {xs ys : List α}
    (hp : (x :: xs).Perm (y :: ys)) : Agree R (xs.foldlM f x) (ys.foldlM f y) := by
  rcases List.mem_cons.1 (hp.symm.subset List.mem_cons_self) with rfl | hy
  · exact foldlM_perm hR hcongr hswap hp.cons_inv (hR.refl y)
  · obtain ⟨pre, post, rfl⟩ := List.append_of_mem hy
    have hxs : (pre ++ y :: post).Perm (y :: (pre ++ post)) := List.perm_middle
    have hys : (x :: (pre ++ post)).Perm ys :=
      (((List.Perm.swap x y _).trans (hxs.symm.cons x)).trans hp).cons_inv
    have hfirst := foldlM_perm hR hcongr hswap hxs (hR.refl x)
    have hsecond := foldlM_perm hR hcongr hswap hys (hR.refl y)
    rw [List.foldlM_cons] at hfirst hsecond
    have hmiddle : Agree R (f x y >>= (pre ++ post).foldlM f) (f y x >>= (pre ++ post).foldlM f) :=
      (hcomm x y).bind fun _ _ _ h => foldlM_congr hcongr _ h
    exact hfirst.trans hR (hmiddle.trans hR hsecond)

end Agree

end NativeBindings
