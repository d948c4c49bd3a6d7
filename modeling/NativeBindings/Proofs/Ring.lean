import Mathlib.Logic.Relation
import Mathlib.Order.WellFoundedSet

/-!
# Relations without rings

A ring of a relation leads from something back to it. Among finitely many things there is
no ring if and only if every way ends, and then they can be gone through by induction. A way that
never ends comes to a ring (`exists_ring`).
-/

namespace NativeBindings

open Relation

/-- What every way from ends at is on no ring. -/
theorem not_transGen_of_acc {α : Type} {r : α → α → Prop} {x : α} (h : Acc (fun y x => r x y) x) :
    ¬TransGen r x x := by
  induction h with
  | intro x _ ih =>
    intro hring
    obtain ⟨y, hxy, hyx⟩ := TransGen.head'_iff.1 hring
    exact ih y hxy (TransGen.tail' hyx hxy)

/-- If there is no ring and only finitely many things lead anywhere, every way ends. -/
theorem acc_of_finite {α : Type} {r : α → α → Prop} {s : Set α} (hs : s.Finite)
    (hsub : ∀ x y, r x y → x ∈ s) (h : ∀ x, ¬TransGen r x x) (x : α) :
    Acc (fun y x => r x y) x := by
  have hstop {x : α} (hx : x ∉ s) : Acc (fun y x => r x y) x :=
    ⟨x, fun y hy => absurd (hsub x y hy) hx⟩
  have hstrict : IsStrictOrder α fun y x => TransGen r x y :=
    { irrefl := h, trans := fun _ _ _ hxy hyz => hyz.trans hxy }
  have hfinite : s.WellFoundedOn fun y x => TransGen r x y := hs.wellFoundedOn
  by_cases hx : x ∈ s
  · refine hfinite.induction hx fun x _ ih => ⟨x, fun y hy => ?_⟩
    by_cases hys : y ∈ s
    · exact ih y hys (.single hy)
    · exact hstop hys
  · exact hstop hx

theorem acc_of_not_transGen {r : Nat → Nat → Prop} {n : Nat} (hlt : ∀ x y, r x y → x < n)
    (h : ∀ x, ¬TransGen r x x) (x : Nat) : Acc (fun y x => r x y) x :=
  acc_of_finite (Set.finite_lt_nat n) hlt h x

/-- A way that goes on and on among finitely many things comes to a ring. Were none of its steps on
one, some way of them would end. -/
theorem exists_ring {α : Type} {r : α → α → Prop} {s : Set α} (hs : s.Finite)
    (hstep : ∀ x ∈ s, ∃ y ∈ s, r x y) {x : α} (hx : x ∈ s) :
    ∃ y, ReflTransGen r x y ∧ TransGen r y y := by
  by_contra hnone
  simp only [not_exists, not_and] at hnone
  let later (a b : α) : Prop := ReflTransGen r x a ∧ a ∈ s ∧ r a b
  have hlater : ∀ a, ¬TransGen later a a := by
    intro a hring
    obtain ⟨b, ⟨hxa, -, -⟩, -⟩ := TransGen.head'_iff.1 hring
    have hsub : later ≤ r := fun _ _ h => h.2.2
    exact hnone a hxa (TransGen.mono hsub a a hring)
  have hends {a : α} (hacc : Acc (fun b a => later a b) a) : ReflTransGen r x a → a ∉ s := by
    induction hacc with
    | intro a _ ih =>
      intro hxa ha
      obtain ⟨b, hb, hab⟩ := hstep a ha
      exact ih b ⟨hxa, ha, hab⟩ (hxa.tail hab) hb
  exact hends (acc_of_finite hs (fun _ _ h => h.2.1) hlater x) .refl hx

/-- A ring is followed by a ring, if each step that goes on is followed by a step and one
thing stands for each. -/
theorem ring_of_steps {α β : Type} {r : α → α → Prop} {s : β → β → Prop} (stands : α → β → Prop)
    (hstep : ∀ {x y z b}, stands x b → r x y → r y z → ∃ b', s b b' ∧ stands y b')
    (huniq : ∀ {x b b'}, stands x b → stands x b' → b' = b) {x : α} {b : β} (hb : stands x b)
    (hring : TransGen r x x) : TransGen s b b := by
  have hway {y z : α} (hxy : TransGen r x y) (hyz : r y z) :
      ∃ b', TransGen s b b' ∧ stands y b' := by
    induction hxy generalizing z with
    | single hxy =>
      obtain ⟨b', hs, hb'⟩ := hstep hb hxy hyz
      exact ⟨b', .single hs, hb'⟩
    | tail _ hvy ih =>
      obtain ⟨c, hbc, hc⟩ := ih hvy
      obtain ⟨b', hs, hb'⟩ := hstep hc hvy hyz
      exact ⟨b', hbc.tail hs, hb'⟩
  obtain ⟨z, hxz, -⟩ := TransGen.head'_iff.1 hring
  obtain ⟨b', hbb', hb'⟩ := hway hring hxz
  exact huniq hb hb' ▸ hbb'

end NativeBindings
