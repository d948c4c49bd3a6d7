import NativeBindings.Proofs.Template.Pattern

/-!
# What several patterns have in common

Unification intersects what patterns know, and it is associative (`Pattern.unify_assoc`,
`Pattern.unify_intersects`). It is commutative but for one choice: where patterns agree on a
native name, the node of the first one stands for it. Nothing else depends on this node, so rows
of patterns that are made anonymous, with one node for all names, unify to what the patterns unify
to, made anonymous (`Pattern.unifyAll_anonymous`), and in either order
(`Pattern.unifyAll_anonymousAll_comm`).
-/

namespace NativeBindings

/-! ## Labels -/

namespace Label

variable {a b c : Label}

/-- What labels have in common does not depend on how they are grouped. -/
theorem meet_assoc (a b c : Label) : (a.meet b).meet c = a.meet (b.meet c) := by
  simp only [meet, mk.injEq, ParamSet.inter_assoc, true_and]
  rcases a.agreed with - | x <;> rcases b.agreed with - | y <;> rcases c.agreed with - | z <;> grind

/-- Nothing is left of an empty label. -/
theorem isEmpty_meet_left (h : a.isEmpty = true) (b : Label) : (a.meet b).isEmpty = true := by
  rw [isEmpty_iff] at h ⊢
  refine ⟨fun i hi => h.1 i (mem_params_meet.1 hi).1, ?_⟩
  rw [meet, h.2]

theorem isEmpty_meet_right (h : b.isEmpty = true) (a : Label) : (a.meet b).isEmpty = true := by
  rw [isEmpty_iff] at h ⊢
  refine ⟨fun i hi => h.1 i (mem_params_meet.1 hi).2, ?_⟩
  rw [meet, h.2]
  cases a.agreed <;> rfl

/-- Three labels that agree on a name agree on it two by two. -/
theorem isSome_agreed_of_meet (h : (a.meet (b.meet c)).agreed.isSome = true) :
    (a.meet b).agreed.isSome = true ∧ (b.meet c).agreed.isSome = true := by
  simp only [meet] at h ⊢
  revert h
  rcases a.agreed with - | x <;> rcases b.agreed with - | y <;> rcases c.agreed with - | z <;> grind

/-- The label without the choice of a node for the agreed name. -/
def anonymous (a : Label) : Label :=
  { a with agreed := a.agreed.map fun x => (.void, x.2) }

/-- Whether labels agree does not depend on the nodes that they were first found at. -/
theorem anonymous_meet (a b : Label) : (a.meet b).anonymous = a.anonymous.meet b.anonymous := by
  simp only [anonymous, meet, mk.injEq, true_and]
  rcases a.agreed with - | x <;> rcases b.agreed with - | y <;> grind

/-- Without the nodes that they were first found at, labels meet in any order. -/
theorem anonymous_meet_comm (a b : Label) :
    a.anonymous.meet b.anonymous = b.anonymous.meet a.anonymous := by
  simp only [anonymous, meet, mk.injEq]
  refine ⟨ParamSet.inter_comm a.params b.params, ?_⟩
  rcases a.agreed with - | x <;> rcases b.agreed with - | y <;> grind

@[simp] theorem isSome_agreed_anonymous (a : Label) :
    a.anonymous.agreed.isSome = a.agreed.isSome := by
  simp [anonymous]

@[simp] theorem isEmpty_anonymous (a : Label) : a.anonymous.isEmpty = a.isEmpty := by
  simp [isEmpty, anonymous]

end Label

namespace Pattern

/-! ## Common structure -/

/-- The structure that two patterns have in common. -/
def shared : Pattern → Pattern → Option Pattern
  | leaf a, leaf b => if (a.meet b).agreed.isSome then some (leaf (a.meet b)) else none
  | pointer a s, pointer b t => (s.unify t).map (pointer (a.meet b))
  | array a s, array b t => (s.unify t).map (array (a.meet b))
  | template a f ss, template b h ts =>
    if f = h then (unifyAll ss ts).map (template (a.meet b) f) else none
  | _, _ => none

/-- Patterns unify to their common structure, or else to what is known of their outermost
places. -/
theorem unify_eq_or (p q : Pattern) :
    p.unify q = (p.shared q).or (ofLabel (p.label.meet q.label)) := by
  cases p <;> cases q <;> simp only [unify, shared, label, Option.none_or] <;> grind

/-- A pattern that two share is labelled with what their labels have in common. -/
theorem label_of_shared {p q u : Pattern} (h : p.shared q = some u) :
    u.label = p.label.meet q.label := by
  cases p <;> cases q <;> simp only [shared, reduceCtorEq] at h <;>
    grind [label, Option.map_eq_some_iff]

theorem shared_mixed (p : Pattern) (l : Label) : p.shared (mixed l) = none := by
  cases p <;> rfl

/-- A leaf that a label makes goes on as that label does if empty labels stay empty. -/
theorem ofLabel_bind {l : Label} {f : Pattern → Option Pattern} {m : Label}
    (hf : f (mixed l) = ofLabel m) (hm : l.isEmpty = true → m.isEmpty = true) :
    (ofLabel l).bind f = ofLabel m := by
  unfold ofLabel at hf ⊢
  split
  · next hempty => rw [if_pos (hm hempty)]; rfl
  · exact hf

/-- A leaf meets a pattern in what their labels have in common. -/
theorem ofLabel_bind_unify (l : Label) (q : Pattern) :
    (ofLabel l).bind (·.unify q) = ofLabel (l.meet q.label) :=
  ofLabel_bind (unify_eq_or _ _) fun hempty => Label.isEmpty_meet_left hempty _

theorem ofLabel_bind_unify_left (l : Label) (p : Pattern) :
    (ofLabel l).bind p.unify = ofLabel (p.label.meet l) :=
  ofLabel_bind (by rw [unify_eq_or, shared_mixed]; rfl)
    fun hempty => Label.isEmpty_meet_right hempty _

/-- What three patterns have in common is the structure common to them, or else what is known
of their outermost places. -/
theorem unify_bind_unify (p q r : Pattern) : (p.unify q).bind (·.unify r) =
    ((p.shared q).bind (·.shared r)).or (ofLabel ((p.label.meet q.label).meet r.label)) := by
  rw [unify_eq_or p q]
  cases h : p.shared q with
  | none => exact ofLabel_bind_unify _ _
  | some u => simp [unify_eq_or u r, label_of_shared h]

/-- Three patterns, the last two first, meet in what all of them share, or else in a leaf. -/
theorem unify_bind_unify_left (p q r : Pattern) : (q.unify r).bind p.unify =
    ((q.shared r).bind p.shared).or (ofLabel ((p.label.meet q.label).meet r.label)) := by
  rw [unify_eq_or q r, Label.meet_assoc]
  cases h : q.shared r with
  | none => exact ofLabel_bind_unify_left _ _
  | some u => simp [unify_eq_or p u, label_of_shared h]

/-- The structure that patterns share, case by case. -/
inductive Shares : Pattern → Pattern → Pattern → Prop
  | leaf {a b : Label} (h : (a.meet b).agreed.isSome = true) :
    Shares (leaf a) (leaf b) (leaf (a.meet b))
  | pointer {a b : Label} {s t u : Pattern} (h : s.unify t = some u) :
    Shares (pointer a s) (pointer b t) (pointer (a.meet b) u)
  | array {a b : Label} {s t u : Pattern} (h : s.unify t = some u) :
    Shares (array a s) (array b t) (array (a.meet b) u)
  | template {a b : Label} {f : Nat} {ss ts us : List Pattern} (h : unifyAll ss ts = some us) :
    Shares (template a f ss) (template b f ts) (template (a.meet b) f us)

theorem shared_eq_some_iff {p q u : Pattern} : p.shared q = some u ↔ Shares p q u := by
  constructor
  · intro h
    cases p <;> cases q <;> simp only [shared, reduceCtorEq] at h
    case leaf.leaf =>
      split at h
      · next hsome =>
        obtain rfl := Option.some.inj h
        exact .leaf hsome
      · cases h
    case pointer.pointer | array.array =>
      obtain ⟨v, hv, rfl⟩ := Option.map_eq_some_iff.1 h
      first | exact .pointer hv | exact .array hv
    case template.template =>
      split at h
      · next hf =>
        subst hf
        obtain ⟨us, hus, rfl⟩ := Option.map_eq_some_iff.1 h
        exact .template hus
      · cases h
  · rintro (h | h | h | h) <;> simp [shared, h]

theorem unifyAll_nil_left {qs us : List Pattern} :
    unifyAll [] qs = some us ↔ qs = [] ∧ us = [] := by
  cases qs <;> simp [unifyAll, eq_comm]

/-- Rows meet one by one, so a row meets only rows of its own length. -/
theorem unifyAll_cons_left {p : Pattern} {ps qs us : List Pattern} :
    unifyAll (p :: ps) qs = some us ↔ ∃ q qs' u us', qs = q :: qs' ∧ p.unify q = some u ∧
      unifyAll ps qs' = some us' ∧ us = u :: us' := by
  cases qs with
  | nil => simp [unifyAll]
  | cons q qs => simp [unifyAll_cons]

theorem unifyAll_eq_some_nil {ps qs : List Pattern} :
    unifyAll ps qs = some [] ↔ ps = [] ∧ qs = [] := by
  cases ps with
  | nil => simp [unifyAll_nil_left]
  | cons p ps => simp [unifyAll_cons_left]

theorem unifyAll_eq_some_cons {ps qs us : List Pattern} {u : Pattern} :
    unifyAll ps qs = some (u :: us) ↔ ∃ p ps' q qs', ps = p :: ps' ∧ qs = q :: qs' ∧
      p.unify q = some u ∧ unifyAll ps' qs' = some us := by
  cases ps with
  | nil => simp [unifyAll_nil_left]
  | cons p ps =>
    cases qs with
    | nil => simp [unifyAll]
    | cons q qs => simp [unifyAll_cons]

/-- Meeting is associative where sharing is, since leaves only depend on labels. -/
theorem unify_assoc_of_shared {p q r : Pattern}
    (h : (p.shared q).bind (·.shared r) = (q.shared r).bind p.shared) :
    (p.unify q).bind (·.unify r) = (q.unify r).bind p.unify := by
  rw [unify_bind_unify, unify_bind_unify_left, h]

/-- Two computations that agree have the same results in two steps. -/
theorem exists_bind_iff {α : Type} {x y : Option α} {f g : α → Option α} (h : x.bind f = y.bind g)
    {u : α} : (∃ v, x = some v ∧ f v = some u) ↔ ∃ v, y = some v ∧ g v = some u := by
  rw [← Option.bind_eq_some_iff, h, Option.bind_eq_some_iff]

/-- Three patterns come to the same in either grouping, if what they share does. -/
theorem exists_unify_iff_of_shared {p q r u : Pattern}
    (h : (p.shared q).bind (·.shared r) = (q.shared r).bind p.shared) :
    (∃ v, p.unify q = some v ∧ v.unify r = some u) ↔
      ∃ v, q.unify r = some v ∧ p.unify v = some u :=
  exists_bind_iff (unify_assoc_of_shared h)

/-- A way to wrap a pattern: what shares structure with a wrapped pattern is wrapped in the same
way, and the patterns inside unify. -/
structure Wraps (wrap : Label → Pattern → Pattern) : Prop where
  shares : ∀ {a b : Label} {s t u : Pattern}, s.unify t = some u →
    Shares (wrap a s) (wrap b t) (wrap (a.meet b) u)
  of_left : ∀ {a : Label} {s q u : Pattern}, Shares (wrap a s) q u →
    ∃ b t v, q = wrap b t ∧ s.unify t = some v ∧ u = wrap (a.meet b) v
  of_result : ∀ {p q u : Pattern} {l : Label}, Shares p q (wrap l u) →
    ∃ a s b t, p = wrap a s ∧ q = wrap b t ∧ s.unify t = some u ∧ l = a.meet b

/-- Pointers share the inside of pointers, and nothing with anything else. -/
theorem wraps_pointer : Wraps pointer where
  shares := .pointer
  of_left := fun | .pointer h => ⟨_, _, _, rfl, h, rfl⟩
  of_result := fun | .pointer h => ⟨_, _, _, _, rfl, rfl, h, rfl⟩

/-- Arrays share the inside of arrays, and nothing with anything else. -/
theorem wraps_array : Wraps array where
  shares := .array
  of_left := fun | .array h => ⟨_, _, _, rfl, h, rfl⟩
  of_result := fun | .array h => ⟨_, _, _, _, rfl, rfl, h, rfl⟩

/-- Sharing is associative around a wrapped pattern if it is around the pattern inside. -/
theorem Wraps.shared_assoc {wrap : Label → Pattern → Pattern} (hw : Wraps wrap) {s : Pattern}
    (ih : ∀ t r, (s.shared t).bind (·.shared r) = (t.shared r).bind s.shared) (a : Label)
    (q r : Pattern) :
    ((wrap a s).shared q).bind (·.shared r) = (q.shared r).bind (wrap a s).shared := by
  refine Option.ext fun u => ?_
  simp only [Option.bind_eq_some_iff, shared_eq_some_iff]
  constructor
  · rintro ⟨v, hpq, hvr⟩
    obtain ⟨b, t, st, rfl, hst, rfl⟩ := hw.of_left hpq
    obtain ⟨c, r, str, rfl, hstr, rfl⟩ := hw.of_left hvr
    obtain ⟨tr, htr, hs⟩ := (exists_unify_iff_of_shared (ih t r)).1 ⟨st, hst, hstr⟩
    rw [Label.meet_assoc]
    exact ⟨_, hw.shares htr, hw.shares hs⟩
  · rintro ⟨v, hqr, hpv⟩
    obtain ⟨bc, tr, str, rfl, hstr, rfl⟩ := hw.of_left hpv
    obtain ⟨b, t, c, r, rfl, rfl, htr, rfl⟩ := hw.of_result hqr
    obtain ⟨st, hst, hr⟩ := (exists_unify_iff_of_shared (ih t r)).2 ⟨tr, htr, hstr⟩
    rw [← Label.meet_assoc]
    exact ⟨_, hw.shares hst, hw.shares hr⟩

mutual

/-- Which two of three patterns in a row come first makes no difference to what they share. -/
theorem shared_assoc : ∀ p q r : Pattern,
    (p.shared q).bind (·.shared r) = (q.shared r).bind p.shared
  | mixed a, q, r => by
    refine Option.ext fun u => ?_
    simp only [Option.bind_eq_some_iff, shared_eq_some_iff]
    constructor
    · rintro ⟨v, ⟨⟩, -⟩
    · rintro ⟨v, -, ⟨⟩⟩
  | leaf a, q, r => by
    refine Option.ext fun u => ?_
    simp only [Option.bind_eq_some_iff, shared_eq_some_iff]
    constructor
    · rintro ⟨v, hpq, hvr⟩
      cases hpq with
      | @leaf _ b h =>
        cases hvr with
        | @leaf _ c h' =>
          rw [Label.meet_assoc] at h' ⊢
          exact ⟨_, .leaf (Label.isSome_agreed_of_meet h').2, .leaf h'⟩
    · rintro ⟨v, hqr, hpv⟩
      cases hpv with
      | @leaf _ bc h =>
        cases hqr with
        | @leaf b c h' =>
          have hab := (Label.isSome_agreed_of_meet h).1
          rw [← Label.meet_assoc] at h ⊢
          exact ⟨_, .leaf hab, .leaf h⟩
  | pointer a s, q, r => wraps_pointer.shared_assoc (fun t r => shared_assoc s t r) a q r
  | array a s, q, r => wraps_array.shared_assoc (fun t r => shared_assoc s t r) a q r
  | template a f ss, q, r => by
    refine Option.ext fun u => ?_
    simp only [Option.bind_eq_some_iff, shared_eq_some_iff]
    constructor
    · rintro ⟨v, hpq, hvr⟩
      cases hpq with
      | @template _ b _ _ ts sts h =>
        cases hvr with
        | @template _ c _ _ rs _ h' =>
          obtain ⟨trs, htrs, hs⟩ := (exists_bind_iff (unifyAll_assoc ss ts rs)).1 ⟨sts, h, h'⟩
          rw [Label.meet_assoc]
          exact ⟨_, .template htrs, .template hs⟩
    · rintro ⟨v, hqr, hpv⟩
      cases hpv with
      | @template _ bc _ _ trs _ h =>
        cases hqr with
        | @template b c _ ts rs _ h' =>
          obtain ⟨sts, hsts, hr⟩ := (exists_bind_iff (unifyAll_assoc ss ts rs)).2 ⟨trs, h', h⟩
          rw [← Label.meet_assoc]
          exact ⟨_, .template hsts, .template hr⟩

/-- Rows of patterns meet in any grouping. -/
theorem unifyAll_assoc : ∀ ps qs rs : List Pattern,
    (unifyAll ps qs).bind (unifyAll · rs) = (unifyAll qs rs).bind (unifyAll ps)
  | [], qs, rs => by
    refine Option.ext fun us => ?_
    simp only [Option.bind_eq_some_iff, unifyAll_nil_left]
    constructor
    · rintro ⟨v, ⟨rfl, rfl⟩, h⟩
      obtain ⟨rfl, rfl⟩ := unifyAll_nil_left.1 h
      exact ⟨[], rfl, rfl, rfl⟩
    · rintro ⟨v, h, rfl, rfl⟩
      obtain ⟨rfl, rfl⟩ := unifyAll_eq_some_nil.1 h
      exact ⟨[], ⟨rfl, rfl⟩, rfl⟩
  | p :: ps, qs, rs => by
    refine Option.ext fun us => ?_
    simp only [Option.bind_eq_some_iff]
    constructor
    · rintro ⟨v, hv, hvr⟩
      obtain ⟨q, qs, pq, pqs, rfl, hpq, hpqs, rfl⟩ := unifyAll_cons_left.1 hv
      obtain ⟨r, rs, u, us, rfl, hu, hus, rfl⟩ := unifyAll_cons_left.1 hvr
      obtain ⟨qr, hqr, hp⟩ := (exists_unify_iff_of_shared (shared_assoc p q r)).1 ⟨pq, hpq, hu⟩
      obtain ⟨qrs, hqrs, hps⟩ := (exists_bind_iff (unifyAll_assoc ps qs rs)).1 ⟨pqs, hpqs, hus⟩
      exact ⟨_, unifyAll_cons.2 ⟨qr, qrs, hqr, hqrs, rfl⟩, unifyAll_cons.2 ⟨u, us, hp, hps, rfl⟩⟩
    · rintro ⟨v, hv, hpv⟩
      obtain ⟨qr, qrs, u, us, rfl, hp, hps, rfl⟩ := unifyAll_cons_left.1 hpv
      obtain ⟨q, qs, r, rs, rfl, rfl, hqr, hqrs⟩ := unifyAll_eq_some_cons.1 hv
      obtain ⟨pq, hpq, hr⟩ := (exists_unify_iff_of_shared (shared_assoc p q r)).2 ⟨qr, hqr, hp⟩
      obtain ⟨pqs, hpqs, hrs⟩ := (exists_bind_iff (unifyAll_assoc ps qs rs)).2 ⟨qrs, hqrs, hps⟩
      exact ⟨_, unifyAll_cons.2 ⟨pq, pqs, hpq, hpqs, rfl⟩, unifyAll_cons.2 ⟨u, us, hr, hrs, rfl⟩⟩

end

/-- It makes no difference which two of three patterns in a row are unified first. -/
theorem unify_assoc (p q r : Pattern) :
    (p.unify q).bind (·.unify r) = (q.unify r).bind p.unify :=
  unify_assoc_of_shared (shared_assoc p q r)

/-- Of any two patterns, unification leaves what is written by exactly those schemes that write
both, and fails where there is none; of several it leaves the same whichever come first. -/
theorem unify_intersects (p q r : Pattern) :
    (p.unify q = none ↔ ¬∃ s : Scheme, s.Fits p ∧ s.Fits q) ∧
      (∀ u, p.unify q = some u → ∀ s : Scheme, s.Fits u ↔ s.Fits p ∧ s.Fits q) ∧
      (p.unify q).bind (·.unify r) = (q.unify r).bind p.unify := by
  refine ⟨unify_eq_none_iff, fun u hu s => ?_, unify_assoc p q r⟩
  rw [← fits_unify_iff s, hu]
  simp

/-! ## The choice of nodes -/

mutual

/-- The pattern without the choice of nodes for agreed names. -/
def anonymous : Pattern → Pattern
  | mixed l => mixed l.anonymous
  | leaf l => leaf l.anonymous
  | pointer l s => pointer l.anonymous s.anonymous
  | array l s => array l.anonymous s.anonymous
  | template l f ss => template l.anonymous f (anonymousAll ss)

/-- Several patterns without the choice of nodes for agreed names. -/
def anonymousAll : List Pattern → List Pattern
  | [] => []
  | s :: ss => s.anonymous :: anonymousAll ss

end

@[simp] theorem label_anonymous (p : Pattern) : p.anonymous.label = p.label.anonymous := by
  cases p <;> rfl

theorem anonymousAll_eq_map (ps : List Pattern) : anonymousAll ps = ps.map anonymous := by
  induction ps with
  | nil => rfl
  | cons p ps ih => rw [anonymousAll, ih, List.map_cons]

/-- Whether a label makes a leaf does not depend on the node that it was found at. -/
theorem ofLabel_anonymous (l : Label) : (ofLabel l).map anonymous = ofLabel l.anonymous := by
  simp only [ofLabel, Label.isEmpty_anonymous]
  split <;> rfl

/-- Patterns meet without their nodes as they do with them, if they share so. -/
theorem unify_anonymous_of_shared {p q : Pattern}
    (h : (p.shared q).map anonymous = p.anonymous.shared q.anonymous) :
    (p.unify q).map anonymous = p.anonymous.unify q.anonymous := by
  rw [unify_eq_or, unify_eq_or, Option.map_or, h, ofLabel_anonymous, Label.anonymous_meet,
    label_anonymous, label_anonymous]

mutual

/-- What two patterns share does not depend on the nodes that they were found at. -/
theorem shared_anonymous : ∀ p q : Pattern,
    (p.shared q).map anonymous = p.anonymous.shared q.anonymous
  | mixed a, q => by cases q <;> rfl
  | leaf a, q => by
    cases q with
    | leaf b =>
      simp only [shared, anonymous, ← Label.anonymous_meet, Label.isSome_agreed_anonymous]
      split <;> rfl
    | _ => rfl
  | pointer a s, q => by
    cases q with
    | pointer b t =>
      simp only [shared, anonymous, ← unify_anonymous_of_shared (shared_anonymous s t),
        ← Label.anonymous_meet, Option.map_map]
      rfl
    | _ => rfl
  | array a s, q => by
    cases q with
    | array b t =>
      simp only [shared, anonymous, ← unify_anonymous_of_shared (shared_anonymous s t),
        ← Label.anonymous_meet, Option.map_map]
      rfl
    | _ => rfl
  | template a f ss, q => by
    cases q with
    | template b h ts =>
      simp only [shared, anonymous, ← unifyAll_anonymous ss ts, ← Label.anonymous_meet]
      split
      · simp only [Option.map_map]
        rfl
      · rfl
    | _ => rfl

/-- The same for rows of patterns. -/
theorem unifyAll_anonymous : ∀ ps qs : List Pattern,
    (unifyAll ps qs).map anonymousAll = unifyAll (anonymousAll ps) (anonymousAll qs)
  | [], qs => by cases qs <;> rfl
  | p :: ps, qs => by
    cases qs with
    | nil => rfl
    | cons q qs =>
      simp only [anonymousAll, unifyAll, ← unify_anonymous_of_shared (shared_anonymous p q),
        ← unifyAll_anonymous ps qs]
      cases p.unify q <;> cases unifyAll ps qs <;> rfl

end

theorem unify_anonymous_comm_of_shared {p q : Pattern}
    (h : p.anonymous.shared q.anonymous = q.anonymous.shared p.anonymous) :
    p.anonymous.unify q.anonymous = q.anonymous.unify p.anonymous := by
  rw [unify_eq_or, unify_eq_or, h, label_anonymous, label_anonymous, Label.anonymous_meet_comm]

mutual

/-- Without the nodes that they were found at, patterns share in any order. -/
theorem shared_anonymous_comm : ∀ p q : Pattern,
    p.anonymous.shared q.anonymous = q.anonymous.shared p.anonymous
  | mixed a, q => by cases q <;> rfl
  | leaf a, q => by
    cases q with
    | leaf b => simp only [shared, anonymous, Label.anonymous_meet_comm a b]
    | _ => rfl
  | pointer a s, q => by
    cases q with
    | pointer b t =>
      simp only [shared, anonymous, Label.anonymous_meet_comm a b,
        unify_anonymous_comm_of_shared (shared_anonymous_comm s t)]
    | _ => rfl
  | array a s, q => by
    cases q with
    | array b t =>
      simp only [shared, anonymous, Label.anonymous_meet_comm a b,
        unify_anonymous_comm_of_shared (shared_anonymous_comm s t)]
    | _ => rfl
  | template a f ss, q => by
    cases q with
    | template b h ts =>
      simp only [shared, anonymous, Label.anonymous_meet_comm a b,
        unifyAll_anonymousAll_comm ss ts, eq_comm (a := f)]
      split
      · next hf => rw [hf]
      · rfl
    | _ => rfl

/-- Without the nodes that they were found at, rows of patterns meet in any order. -/
theorem unifyAll_anonymousAll_comm : ∀ ps qs : List Pattern,
    unifyAll (anonymousAll ps) (anonymousAll qs) = unifyAll (anonymousAll qs) (anonymousAll ps)
  | [], qs => by cases qs <;> rfl
  | p :: ps, qs => by
    cases qs with
    | nil => rfl
    | cons q qs =>
      simp only [anonymousAll, unifyAll, unify_anonymous_comm_of_shared (shared_anonymous_comm p q),
        unifyAll_anonymousAll_comm ps qs]

end

/-- Rows of anonymous patterns can be unified with a row in either order. -/
theorem exists_unifyAll_swap {ps qs rs pqs us : List Pattern}
    (hpq : unifyAll ps (anonymousAll qs) = some pqs)
    (hus : unifyAll pqs (anonymousAll rs) = some us) :
    ∃ prs, unifyAll ps (anonymousAll rs) = some prs ∧ unifyAll prs (anonymousAll qs) = some us := by
  obtain ⟨qrs, hqr, hps⟩ := (exists_bind_iff (unifyAll_assoc ..)).1 ⟨pqs, hpq, hus⟩
  rw [unifyAll_anonymousAll_comm] at hqr
  exact (exists_bind_iff (unifyAll_assoc ..)).2 ⟨qrs, hqr, hps⟩

/-! ### What the choice decides -/

mutual

theorem hasParams_anonymous : ∀ p : Pattern, p.anonymous.hasParams = p.hasParams
  | mixed _ | leaf _ => rfl
  | pointer _ s | array _ s => by simp only [anonymous, hasParams, hasParams_anonymous s]; rfl
  | template _ _ ss => by simp only [anonymous, hasParams, anyHasParams_anonymousAll ss]; rfl

theorem anyHasParams_anonymousAll : ∀ ps : List Pattern,
    anyHasParams (anonymousAll ps) = anyHasParams ps
  | [] => rfl
  | p :: ps => by
    simp only [anonymousAll, anyHasParams, hasParams_anonymous p, anyHasParams_anonymousAll ps]

end

/-- The node that is chosen for a name brings no family with it. -/
theorem families_choose_anonymous (l : Label) (b : Bool) {s t : Scheme}
    (h : s.families = t.families) :
    (Scheme.choose l.anonymous b s).families = (Scheme.choose l b t).families := by
  simp only [Scheme.choose, Label.anonymous]
  cases l.params.first? with
  | some i => rfl
  | none => cases l.agreed <;> cases b <;> first | rfl | exact h

mutual

/-- The families that are written do not depend on the choice of nodes. -/
theorem families_anonymous : ∀ p : Pattern, p.anonymous.scheme.families = p.scheme.families
  | mixed l | leaf l => families_choose_anonymous l false rfl
  | pointer l s | array l s => by
    simp only [anonymous, scheme, hasParams_anonymous]
    exact families_choose_anonymous l _ (families_anonymous s)
  | template l f ss => by
    simp only [anonymous, scheme, anyHasParams_anonymousAll]
    exact families_choose_anonymous l _ (congrArg (f :: ·) (familiesOfAll_anonymousAll ss))

theorem familiesOfAll_anonymousAll : ∀ ps : List Pattern,
    Scheme.familiesOfAll (schemes (anonymousAll ps)) = Scheme.familiesOfAll (schemes ps)
  | [] => rfl
  | p :: ps => by
    simp only [anonymousAll, schemes, Scheme.familiesOfAll, families_anonymous p,
      familiesOfAll_anonymousAll ps]

end

end Pattern

/-- Labels that say the same, though maybe by two nodes of one native name. -/
structure Label.Matches (native : NodeId → String) (a b : Label) : Prop where
  params : a.params = b.params
  agreed : Option.Rel (fun x y => x.2 = y.2 ∧ native x.1 = x.2 ∧ native y.1 = y.2) a.agreed b.agreed

theorem Label.matches_of_anonymous {native : NodeId → String} {a b : Label}
    (h : a.anonymous = b.anonymous) (ha : a.Named fun id name => name = native id)
    (hb : b.Named fun id name => name = native id) : a.Matches native b := by
  obtain ⟨params, agreed⟩ := a
  obtain ⟨params', agreed'⟩ := b
  simp only [Label.anonymous, Label.mk.injEq] at h
  obtain ⟨rfl, h⟩ := h
  refine ⟨rfl, ?_⟩
  cases agreed with
  | none =>
    cases agreed' with
    | none => exact .none
    | some y => cases h
  | some x =>
    cases agreed' with
    | none => cases h
    | some y => exact .some ⟨by simpa using h, (ha _ _ rfl).symm, (hb _ _ rfl).symm⟩

namespace Pattern

mutual

/-- Patterns that say the same of every place, though maybe by nodes of the same native names. -/
def Matches (native : NodeId → String) : Pattern → Pattern → Prop
  | mixed a, mixed b | leaf a, leaf b => a.Matches native b
  | pointer a s, pointer b t | array a s, array b t => a.Matches native b ∧ s.Matches native t
  | template a f ss, template b h ts => a.Matches native b ∧ f = h ∧ AllMatch native ss ts
  | _, _ => False

/-- Rows of patterns that say the same. -/
def AllMatch (native : NodeId → String) : List Pattern → List Pattern → Prop
  | [], [] => True
  | s :: ss, t :: ts => s.Matches native t ∧ AllMatch native ss ts
  | _, _ => False

end

variable {native : NodeId → String}

theorem allMatch_iff {ps qs : List Pattern} :
    AllMatch native ps qs ↔ List.Forall₂ (Matches native) ps qs := by
  induction ps generalizing qs with
  | nil => cases qs <;> simp [AllMatch]
  | cons p ps ih => cases qs <;> simp [AllMatch, ih]

mutual

/-- Sound patterns that differ only in the choice of nodes say the same. -/
theorem matches_of_anonymous : ∀ {p q : Pattern}, p.anonymous = q.anonymous →
    p.Sound (fun id name => name = native id) → q.Sound (fun id name => name = native id) →
      p.Matches native q
  | .mixed a, q, h, hp, hq => by
    cases q <;> simp only [anonymous, reduceCtorEq, mixed.injEq] at h
    exact Label.matches_of_anonymous h hp.2 hq.2
  | .leaf a, q, h, hp, hq => by
    cases q <;> simp only [anonymous, reduceCtorEq, leaf.injEq] at h
    exact Label.matches_of_anonymous h hp.2 hq.2
  | .pointer a s, q, h, hp, hq => by
    cases q <;> simp only [anonymous, reduceCtorEq, pointer.injEq] at h
    exact ⟨Label.matches_of_anonymous h.1 hp.1 hq.1, matches_of_anonymous h.2 hp.2 hq.2⟩
  | .array a s, q, h, hp, hq => by
    cases q <;> simp only [anonymous, reduceCtorEq, array.injEq] at h
    exact ⟨Label.matches_of_anonymous h.1 hp.1 hq.1, matches_of_anonymous h.2 hp.2 hq.2⟩
  | .template a f ss, q, h, hp, hq => by
    cases q <;> simp only [anonymous, reduceCtorEq, template.injEq] at h
    exact ⟨Label.matches_of_anonymous h.1 hp.1 hq.1, h.2.1,
      allMatch_of_anonymousAll h.2.2 hp.2 hq.2⟩

theorem allMatch_of_anonymousAll : ∀ {ps qs : List Pattern}, anonymousAll ps = anonymousAll qs →
    AllSound (fun id name => name = native id) ps → AllSound (fun id name => name = native id) qs →
      AllMatch native ps qs
  | [], qs, h, _, _ => by
    cases qs with
    | nil => trivial
    | cons q qs => cases h
  | p :: ps, qs, h, hp, hq => by
    cases qs with
    | nil => cases h
    | cons q qs =>
      obtain ⟨h, hrest⟩ := List.cons.inj h
      exact ⟨matches_of_anonymous h hp.1 hq.1, allMatch_of_anonymousAll hrest hp.2 hq.2⟩

end

end Pattern

end NativeBindings
