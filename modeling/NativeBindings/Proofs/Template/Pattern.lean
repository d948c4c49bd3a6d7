import Mathlib.Data.List.Forall2
import NativeBindings.Template.Pattern

/-!
# What patterns know

A scheme fits a pattern if the pattern knows everything that the scheme writes: at each place
the parameter, the native name of a node, or the structure (`Scheme.Fits`). Unification keeps
exactly what both patterns know, so the schemes that fit the result are those that fit both
(`Pattern.fits_unify_iff`), and it fails exactly if there is none (`Pattern.unify_eq_none_iff`).

What a pattern writes fits it, and no part is left unspelled, provided that each place of the
pattern says something (`Pattern.Sound.scheme`). Patterns of nodes do, and so does whatever
unification leaves (`Pattern.Sound`).
-/

namespace NativeBindings

/-! ## Labels -/

namespace Label

variable {a b : Label}

/-- Labels have the parameters in common that both have. -/
theorem mem_params_meet {i : Nat} : i ∈ (a.meet b).params ↔ i ∈ a.params ∧ i ∈ b.params :=
  ParamSet.mem_inter

/-- Labels have the native name in common that both have. -/
theorem agreed_meet {native : String} : (∃ id, (a.meet b).agreed = some (id, native)) ↔
    (∃ id, a.agreed = some (id, native)) ∧ ∃ id, b.agreed = some (id, native) := by
  unfold meet
  rcases a.agreed with - | ⟨x, n⟩ <;> rcases b.agreed with - | ⟨y, m⟩ <;> simp
  grind

/-- A label is empty if it has neither a parameter nor a native name. -/
theorem isEmpty_iff : a.isEmpty = true ↔ (∀ i, i ∉ a.params) ∧ a.agreed = none := by
  simp [isEmpty, ParamSet.isEmpty_iff]

end Label

/-! ## Fitting schemes -/

namespace Scheme

mutual

/-- Whether a pattern knows all that a scheme writes. -/
def Fits : Scheme → Pattern → Prop
  | unspelled, _ => False
  | param i, p => i ∈ p.label.params
  | concrete _ native, p => ∃ id, p.label.agreed = some (id, native)
  | pointer s, p => ∃ l t, p = .pointer l t ∧ s.Fits t
  | array s, p => ∃ l t, p = .array l t ∧ s.Fits t
  | template g ss, p => ∃ l ts, p = .template l g ts ∧ FitAll ss ts

/-- Whether patterns know all that as many schemes write, place by place. -/
def FitAll : List Scheme → List Pattern → Prop
  | [], [] => True
  | s :: ss, p :: ps => s.Fits p ∧ FitAll ss ps
  | _, _ => False

end

theorem fitAll_iff {ss : List Scheme} {ps : List Pattern} :
    FitAll ss ps ↔ List.Forall₂ Fits ss ps := by
  induction ss generalizing ps with
  | nil => cases ps <;> simp [FitAll]
  | cons s ss ih => cases ps <;> simp [FitAll, ih]

end Scheme

/-! ## Unification -/

namespace Pattern

open Scheme

theorem ofLabel_eq_some {l : Label} {u : Pattern} (h : ofLabel l = some u) :
    u = mixed l ∧ l.isEmpty = false := by
  unfold ofLabel at h
  split at h
  · cases h
  · next hempty => exact ⟨(Option.some.inj h).symm, by simpa using hempty⟩

theorem ofLabel_eq_none {l : Label} (h : ofLabel l = none) : l.isEmpty = true := by
  unfold ofLabel at h
  split at h
  · assumption
  · cases h

/-- What unifying two patterns can give: common structure, or a label that says something. -/
inductive Unified : Pattern → Pattern → Pattern → Prop
  | leaf {a b : Label} (h : (a.meet b).agreed.isSome = true) :
    Unified (leaf a) (leaf b) (leaf (a.meet b))
  | pointer {a b : Label} {s t u : Pattern} (h : unify s t = some u) :
    Unified (pointer a s) (pointer b t) (pointer (a.meet b) u)
  | array {a b : Label} {s t u : Pattern} (h : unify s t = some u) :
    Unified (array a s) (array b t) (array (a.meet b) u)
  | template {a b : Label} {g : Nat} {ss ts us : List Pattern} (h : unifyAll ss ts = some us) :
    Unified (template a g ss) (template b g ts) (template (a.meet b) g us)
  | mixed {p q : Pattern} (h : (p.label.meet q.label).isEmpty = false) :
    Unified p q (mixed (p.label.meet q.label))

/-- Patterns unify to a shared structure, or to a leaf if they share none. -/
theorem unified_of_unify {p q u : Pattern} (h : unify p q = some u) : Unified p q u := by
  have hlabel (h : ofLabel (p.label.meet q.label) = some u) : Unified p q u := by
    obtain ⟨rfl, hempty⟩ := ofLabel_eq_some h
    exact .mixed hempty
  cases p <;> cases q <;> simp only [unify] at h <;> try exact hlabel h
  case leaf.leaf =>
    split at h
    · next hsome =>
      obtain rfl := Option.some.inj h
      exact .leaf hsome
    · exact hlabel h
  case pointer.pointer | array.array =>
    split at h
    · next v hv =>
      obtain rfl := Option.some.inj h
      first | exact .pointer hv | exact .array hv
    · exact hlabel h
  case template.template =>
    split at h
    · next hg =>
      subst hg
      split at h
      · next us hus =>
        obtain rfl := Option.some.inj h
        exact .template hus
      · exact hlabel h
    · exact hlabel h

/-- Unification fails only where no place is left to say anything. -/
theorem isEmpty_of_unify {p q : Pattern} (h : unify p q = none) :
    (p.label.meet q.label).isEmpty = true := by
  cases p <;> cases q <;> simp only [unify] at h <;> try exact ofLabel_eq_none h
  case leaf.leaf | pointer.pointer | array.array =>
    split at h
    · cases h
    · exact ofLabel_eq_none h
  case template.template =>
    split at h
    · split at h
      · cases h
      · exact ofLabel_eq_none h
    · exact ofLabel_eq_none h

/-- The place of a unified pattern keeps what both patterns say of it. -/
theorem Unified.label_eq {p q u : Pattern} (h : Unified p q u) :
    u.label = p.label.meet q.label := by
  cases h <;> rfl

/-- What is not true of empty labels is true of what patterns unify to if it is true of what their
labels have in common. -/
theorem exists_unify_label_iff {p q : Pattern} {P : Label → Prop}
    (hP : ∀ l, l.isEmpty = true → ¬P l) :
    (∃ u, unify p q = some u ∧ P u.label) ↔ P (p.label.meet q.label) := by
  constructor
  · rintro ⟨u, hu, hl⟩
    rwa [(unified_of_unify hu).label_eq] at hl
  · intro hl
    cases hu : unify p q with
    | none => exact absurd hl (hP _ (isEmpty_of_unify hu))
    | some u => exact ⟨u, rfl, by rwa [(unified_of_unify hu).label_eq]⟩

theorem unifyAll_cons {p q : Pattern} {ps qs us : List Pattern} :
    unifyAll (p :: ps) (q :: qs) = some us ↔
      ∃ u vs, unify p q = some u ∧ unifyAll ps qs = some vs ∧ us = u :: vs := by
  rw [unifyAll]
  cases unify p q <;> cases unifyAll ps qs <;> simp [eq_comm]

mutual

/-- Unifying gives what exactly those schemes fit that fit both patterns, and fails only if
none does. -/
theorem fits_unify_iff : ∀ (s : Scheme) {p q : Pattern},
    (∃ u, unify p q = some u ∧ s.Fits u) ↔ s.Fits p ∧ s.Fits q
  | .unspelled, p, q => by simp [Fits]
  | .param i, p, q => by
    simp only [Fits]
    rw [exists_unify_label_iff (P := fun l => i ∈ l.params), Label.mem_params_meet]
    exact fun l hl => (Label.isEmpty_iff.1 hl).1 i
  | .concrete id native, p, q => by
    simp only [Fits]
    rw [exists_unify_label_iff (P := fun l => ∃ id, l.agreed = some (id, native)),
      Label.agreed_meet]
    rintro l hl ⟨x, hx⟩
    simp [(Label.isEmpty_iff.1 hl).2] at hx
  | .pointer s, p, q => by
    constructor
    · rintro ⟨u, hu, l, v, rfl, hs⟩
      cases unified_of_unify hu with
      | @pointer a b t t' _ hv =>
        obtain ⟨ht, ht'⟩ := (fits_unify_iff s).1 ⟨v, hv, hs⟩
        exact ⟨⟨a, t, rfl, ht⟩, b, t', rfl, ht'⟩
    · rintro ⟨⟨a, t, rfl, ht⟩, b, t', rfl, ht'⟩
      obtain ⟨v, hv, hs⟩ := (fits_unify_iff s).2 ⟨ht, ht'⟩
      exact ⟨.pointer (a.meet b) v, by simp [unify, hv], _, v, rfl, hs⟩
  | .array s, p, q => by
    constructor
    · rintro ⟨u, hu, l, v, rfl, hs⟩
      cases unified_of_unify hu with
      | @array a b t t' _ hv =>
        obtain ⟨ht, ht'⟩ := (fits_unify_iff s).1 ⟨v, hv, hs⟩
        exact ⟨⟨a, t, rfl, ht⟩, b, t', rfl, ht'⟩
    · rintro ⟨⟨a, t, rfl, ht⟩, b, t', rfl, ht'⟩
      obtain ⟨v, hv, hs⟩ := (fits_unify_iff s).2 ⟨ht, ht'⟩
      exact ⟨.array (a.meet b) v, by simp [unify, hv], _, v, rfl, hs⟩
  | .template g ss, p, q => by
    constructor
    · rintro ⟨u, hu, l, us, rfl, hs⟩
      cases unified_of_unify hu with
      | @template a b _ ts ts' _ hus =>
        obtain ⟨ht, ht'⟩ := (fitAll_unifyAll_iff ss).1 ⟨us, hus, hs⟩
        exact ⟨⟨a, ts, rfl, ht⟩, b, ts', rfl, ht'⟩
    · rintro ⟨⟨a, ts, rfl, ht⟩, b, ts', rfl, ht'⟩
      obtain ⟨us, hus, hs⟩ := (fitAll_unifyAll_iff ss).2 ⟨ht, ht'⟩
      exact ⟨.template (a.meet b) g us, by simp [unify, hus], _, us, rfl, hs⟩

/-- The same for rows of patterns. -/
theorem fitAll_unifyAll_iff : ∀ (ss : List Scheme) {ps qs : List Pattern},
    (∃ us, unifyAll ps qs = some us ∧ FitAll ss us) ↔ FitAll ss ps ∧ FitAll ss qs
  | [], ps, qs => by
    rcases ps with - | ⟨p, ps⟩ <;> rcases qs with - | ⟨q, qs⟩
    · simp [unifyAll, FitAll]
    · simp [unifyAll, FitAll]
    · simp [unifyAll, FitAll]
    · constructor
      · rintro ⟨us, hus, hfit⟩
        obtain ⟨u, vs, -, -, rfl⟩ := unifyAll_cons.1 hus
        exact hfit.elim
      · exact fun h => h.1.elim
  | s :: ss, ps, qs => by
    rcases ps with - | ⟨p, ps⟩ <;> rcases qs with - | ⟨q, qs⟩
    · simp [unifyAll, FitAll]
    · simp [unifyAll, FitAll]
    · simp [unifyAll, FitAll]
    · constructor
      · rintro ⟨us, hus, hfit⟩
        obtain ⟨u, vs, hu, hvs, rfl⟩ := unifyAll_cons.1 hus
        obtain ⟨hp, hq⟩ := (fits_unify_iff s).1 ⟨u, hu, hfit.1⟩
        obtain ⟨hps, hqs⟩ := (fitAll_unifyAll_iff ss).1 ⟨vs, hvs, hfit.2⟩
        exact ⟨⟨hp, hps⟩, hq, hqs⟩
      · rintro ⟨⟨hp, hps⟩, hq, hqs⟩
        obtain ⟨u, hu, hs⟩ := (fits_unify_iff s).2 ⟨hp, hq⟩
        obtain ⟨vs, hvs, hss⟩ := (fitAll_unifyAll_iff ss).2 ⟨hps, hqs⟩
        exact ⟨u :: vs, unifyAll_cons.2 ⟨u, vs, hu, hvs, rfl⟩, hs, hss⟩

end

/-- A pattern whose label is not empty is fitted by a parameter or a node. -/
theorem exists_fits_of_label {p : Pattern} (h : p.label.isEmpty = false) :
    ∃ s : Scheme, s.Fits p := by
  by_contra hnone
  have hparams (i : Nat) (hi : i ∈ p.label.params) : False := hnone ⟨.param i, hi⟩
  have hagreed : p.label.agreed = none := by
    rcases hx : p.label.agreed with - | ⟨id, native⟩
    · rfl
    · exact absurd ⟨.concrete id native, id, hx⟩ hnone
  rw [Label.isEmpty_iff.2 ⟨hparams, hagreed⟩] at h
  cases h

mutual

/-- What unification leaves can be written. -/
theorem exists_fits_of_unify : ∀ {p q u : Pattern}, p.unify q = some u → ∃ s : Scheme, s.Fits u
  | .mixed a, q, u, hu => by
    cases unified_of_unify hu with
    | mixed h => exact exists_fits_of_label h
  | .leaf a, q, u, hu => by
    cases unified_of_unify hu with
    | @leaf _ b h =>
      obtain ⟨⟨id, native⟩, hx⟩ := Option.isSome_iff_exists.1 h
      exact ⟨.concrete id native, id, hx⟩
    | mixed h => exact exists_fits_of_label h
  | .pointer a t, q, u, hu => by
    cases unified_of_unify hu with
    | pointer h =>
      obtain ⟨s, hs⟩ := exists_fits_of_unify h
      exact ⟨.pointer s, _, _, rfl, hs⟩
    | mixed h => exact exists_fits_of_label h
  | .array a t, q, u, hu => by
    cases unified_of_unify hu with
    | array h =>
      obtain ⟨s, hs⟩ := exists_fits_of_unify h
      exact ⟨.array s, _, _, rfl, hs⟩
    | mixed h => exact exists_fits_of_label h
  | .template a g ts, q, u, hu => by
    cases unified_of_unify hu with
    | template h =>
      obtain ⟨ss, hss⟩ := exists_fitAll_of_unifyAll h
      exact ⟨.template g ss, _, _, rfl, hss⟩
    | mixed h => exact exists_fits_of_label h

/-- The same for rows of patterns. -/
theorem exists_fitAll_of_unifyAll : ∀ {ps qs us : List Pattern}, unifyAll ps qs = some us →
    ∃ ss, FitAll ss us
  | [], qs, us, hus => by
    cases qs with
    | nil =>
      obtain rfl := Option.some.inj hus
      exact ⟨[], trivial⟩
    | cons q qs => cases hus
  | p :: ps, qs, us, hus => by
    cases qs with
    | nil => cases hus
    | cons q qs =>
      obtain ⟨u, vs, hu, hvs, rfl⟩ := unifyAll_cons.1 hus
      obtain ⟨s, hs⟩ := exists_fits_of_unify hu
      obtain ⟨ss, hss⟩ := exists_fitAll_of_unifyAll hvs
      exact ⟨s :: ss, hs, hss⟩

end

/-- Unification fails exactly where no scheme fits both patterns. -/
theorem unify_eq_none_iff {p q : Pattern} :
    p.unify q = none ↔ ¬∃ s : Scheme, s.Fits p ∧ s.Fits q := by
  constructor
  · rintro hnone ⟨s, hs⟩
    obtain ⟨u, hu, -⟩ := (fits_unify_iff s).2 hs
    cases hnone.symm.trans hu
  · intro hnone
    cases hu : p.unify q with
    | none => rfl
    | some u =>
      obtain ⟨s, hs⟩ := exists_fits_of_unify hu
      exact absurd ⟨s, (fits_unify_iff s).1 ⟨u, hu, hs⟩⟩ hnone

/-! ## What patterns write -/

end Pattern

/-- Whether an agreed node and the name that goes with it are related. -/
def Label.Named (named : NodeId → String → Prop) (l : Label) : Prop :=
  ∀ id name, l.agreed = some (id, name) → named id name

/-- A label stays named with less in it. -/
theorem Label.Named.meet {named : NodeId → String → Prop} {a : Label} (h : a.Named named)
    (b : Label) : (a.meet b).Named named := by
  intro id name hagreed
  have hfirst : a.agreed = some (id, name) := by
    unfold Label.meet at hagreed
    rcases ha : a.agreed with - | x <;> rcases hb : b.agreed with - | y <;>
      simp only [ha, hb] at hagreed <;> grind
  exact h id name hfirst

namespace Pattern

mutual

/-- A pattern each place of which says something, and all nodes of which are named. -/
def Sound (named : NodeId → String → Prop) : Pattern → Prop
  | mixed l => l.isEmpty = false ∧ l.Named named
  | leaf l => l.agreed.isSome = true ∧ l.Named named
  | pointer l t | array l t => l.Named named ∧ t.Sound named
  | template l _ ts => l.Named named ∧ AllSound named ts

/-- Several patterns each place of which says something. -/
def AllSound (named : NodeId → String → Prop) : List Pattern → Prop
  | [] => True
  | t :: ts => t.Sound named ∧ AllSound named ts

end

/-- A sound pattern has a named label. -/
theorem Sound.named {named : NodeId → String → Prop} {p : Pattern} (h : p.Sound named) :
    p.label.Named named := by
  cases p <;> simp only [Sound] at h <;> first | exact h.1 | exact h.2

end Pattern

namespace Scheme

mutual

/-- A scheme without an unspelled part, all nodes of which are named. -/
def Spelled (named : NodeId → String → Prop) : Scheme → Prop
  | unspelled => False
  | param _ => True
  | concrete id name => named id name
  | pointer s | array s => s.Spelled named
  | template _ ss => AllSpelled named ss

/-- Several schemes without an unspelled part. -/
def AllSpelled (named : NodeId → String → Prop) : List Scheme → Prop
  | [] => True
  | s :: ss => s.Spelled named ∧ AllSpelled named ss

end

theorem allSpelled_iff {named : NodeId → String → Prop} {ss : List Scheme} :
    AllSpelled named ss ↔ ∀ s ∈ ss, s.Spelled named := by
  induction ss with
  | nil => simp [AllSpelled]
  | cons s ss ih => simp [AllSpelled, ih]

theorem mem_familiesOfAll {f : Nat} {ss : List Scheme} :
    f ∈ familiesOfAll ss ↔ ∃ s ∈ ss, f ∈ s.families := by
  induction ss with
  | nil => simp [familiesOfAll]
  | cons s ss ih => simp [familiesOfAll, ih]

/-- What is written for a place is a parameter or a node that its label gives, or else what
stands inside. -/
theorem choose_cases {P : Scheme → Prop} {l : Label} {b : Bool} {inside : Scheme}
    (hparam : ∀ i ∈ l.params.toList, P (.param i))
    (hconcrete : ∀ id name, l.agreed = some (id, name) → P (.concrete id name))
    (hinside : (∀ i, i ∉ l.params) → (l.agreed = none ∨ b = true) → P inside) :
    P (choose l b inside) := by
  unfold choose
  split
  · next i hi => exact hparam i (ParamSet.mem_of_first? hi)
  · next hnone =>
    have hempty := ParamSet.first?_eq_none_iff.1 hnone
    rcases hagreed : l.agreed with - | ⟨id, name⟩
    · exact hinside hempty (Or.inl hagreed)
    · cases b with
      | false => exact hconcrete id name hagreed
      | true => exact hinside hempty (Or.inr rfl)

end Scheme

namespace Pattern

variable {named : NodeId → String → Prop}

mutual

/-- What unification leaves of a sound pattern is sound. -/
theorem Sound.unify : ∀ {p q u : Pattern}, p.Sound named → p.unify q = some u → u.Sound named
  | .mixed a, q, u, hp, hu => by
    cases unified_of_unify hu with
    | mixed h => exact ⟨h, hp.named.meet _⟩
  | .leaf a, q, u, hp, hu => by
    cases unified_of_unify hu with
    | leaf h => exact ⟨h, hp.named.meet _⟩
    | mixed h => exact ⟨h, hp.named.meet _⟩
  | .pointer a s, q, u, hp, hu => by
    cases unified_of_unify hu with
    | pointer h => exact ⟨hp.named.meet _, Sound.unify hp.2 h⟩
    | mixed h => exact ⟨h, hp.named.meet _⟩
  | .array a s, q, u, hp, hu => by
    cases unified_of_unify hu with
    | array h => exact ⟨hp.named.meet _, Sound.unify hp.2 h⟩
    | mixed h => exact ⟨h, hp.named.meet _⟩
  | .template a g ss, q, u, hp, hu => by
    cases unified_of_unify hu with
    | template h => exact ⟨hp.named.meet _, AllSound.unifyAll hp.2 h⟩
    | mixed h => exact ⟨h, hp.named.meet _⟩

/-- The same for rows of patterns. -/
theorem AllSound.unifyAll : ∀ {ps qs us : List Pattern}, AllSound named ps →
    Pattern.unifyAll ps qs = some us → AllSound named us
  | [], qs, us, _, hus => by
    cases qs with
    | nil =>
      obtain rfl := Option.some.inj hus
      trivial
    | cons q qs => cases hus
  | p :: ps, qs, us, hp, hus => by
    cases qs with
    | nil => cases hus
    | cons q qs =>
      obtain ⟨u, vs, hu, hvs, rfl⟩ := unifyAll_cons.1 hus
      exact ⟨Sound.unify hp.1 hu, AllSound.unifyAll hp.2 hvs⟩

end

theorem schemes_eq_map (ps : List Pattern) : schemes ps = ps.map scheme := by
  induction ps with
  | nil => rfl
  | cons p ps ih => rw [schemes, ih, List.map_cons]

mutual

/-- What a sound pattern writes fits it, and is spelled in every part. -/
theorem Sound.scheme : ∀ {p : Pattern}, p.Sound named →
    p.scheme.Fits p ∧ p.scheme.Spelled named
  | .mixed l, h => by
    refine Scheme.choose_cases (P := fun s => s.Fits (.mixed l) ∧ s.Spelled named)
      (fun i hi => ⟨hi, trivial⟩)
      (fun id name hagreed => ⟨⟨id, hagreed⟩, h.2 id name hagreed⟩) fun hnone hor => ?_
    have hempty := Label.isEmpty_iff.2 ⟨hnone, hor.resolve_right Bool.false_ne_true⟩
    rw [h.1] at hempty
    cases hempty
  | .leaf l, h => by
    refine Scheme.choose_cases (P := fun s => s.Fits (.leaf l) ∧ s.Spelled named)
      (fun i hi => ⟨hi, trivial⟩)
      (fun id name hagreed => ⟨⟨id, hagreed⟩, h.2 id name hagreed⟩) fun _ hor => ?_
    have hsome := h.1
    rw [hor.resolve_right Bool.false_ne_true] at hsome
    cases hsome
  | .pointer l t, h => by
    obtain ⟨hfit, hspelled⟩ := Sound.scheme h.2
    exact Scheme.choose_cases (P := fun s => s.Fits (.pointer l t) ∧ s.Spelled named)
      (fun i hi => ⟨hi, trivial⟩)
      (fun id name hagreed => ⟨⟨id, hagreed⟩, h.1 id name hagreed⟩)
      fun _ _ => ⟨⟨l, t, rfl, hfit⟩, hspelled⟩
  | .array l t, h => by
    obtain ⟨hfit, hspelled⟩ := Sound.scheme h.2
    exact Scheme.choose_cases (P := fun s => s.Fits (.array l t) ∧ s.Spelled named)
      (fun i hi => ⟨hi, trivial⟩)
      (fun id name hagreed => ⟨⟨id, hagreed⟩, h.1 id name hagreed⟩)
      fun _ _ => ⟨⟨l, t, rfl, hfit⟩, hspelled⟩
  | .template l g ts, h => by
    obtain ⟨hfit, hspelled⟩ := AllSound.schemes h.2
    exact Scheme.choose_cases (P := fun s => s.Fits (.template l g ts) ∧ s.Spelled named)
      (fun i hi => ⟨hi, trivial⟩)
      (fun id name hagreed => ⟨⟨id, hagreed⟩, h.1 id name hagreed⟩)
      fun _ _ => ⟨⟨l, ts, rfl, hfit⟩, hspelled⟩

/-- The same for rows of patterns. -/
theorem AllSound.schemes : ∀ {ps : List Pattern}, AllSound named ps →
    Scheme.FitAll (Pattern.schemes ps) ps ∧ Scheme.AllSpelled named (Pattern.schemes ps)
  | [], _ => ⟨trivial, trivial⟩
  | p :: ps, h => by
    obtain ⟨hfit, hspelled⟩ := Sound.scheme h.1
    obtain ⟨hfits, hspelleds⟩ := AllSound.schemes h.2
    exact ⟨⟨hfit, hfits⟩, hspelled, hspelleds⟩

end

end Pattern

end NativeBindings
