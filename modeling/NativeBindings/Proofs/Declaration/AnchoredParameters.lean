import NativeBindings.Proofs.Declaration.References
import NativeBindings.Proofs.Ring

/-!
# Parameters that are anchored

A parameter of a generic declaration has to be used. A field uses it that is of its type, or a
pointer to that, or an array of it; but a field that applies a generic declaration to it uses it
only if that declaration uses the parameter in whose place it stands. So use is a least fixpoint
over all generic declarations (`Catalog.Anchored`), where the marker uses all parameters at once.

The marker is there exactly if some parameter is mentioned in no field (`Catalog.hasMarker_iff`).
This is less than is needed: what is mentioned may be mentioned inside the arguments of
declarations alone that hand it on in turn. The parameters that are not anchored are those of a
hollow set (`Catalog.Hollow`), whose members mention each other and are of no other use
(`Catalog.not_anchored_iff`), and each of them leads to a ring
(`Catalog.exists_ring_of_not_anchored`). The main theorem is `Bindings.ofRecords_anchored_iff`.
-/

namespace NativeBindings

open Relation

/-! ## Parameters in schemes -/

namespace Scheme

/-- A scheme uses a parameter: it is the parameter, or a pointer or an array of what uses it, or
it applies a family to arguments one of which uses it and stands for an anchored parameter. A
parameter of a family is told by the numbers of both. -/
inductive Shows (anchored : Nat × Nat → Prop) : Scheme → Nat → Prop
  | param (j : Nat) : Shows anchored (.param j) j
  | pointer {s : Scheme} {j : Nat} (h : Shows anchored s j) : Shows anchored (.pointer s) j
  | array {s : Scheme} {j : Nat} (h : Shows anchored s j) : Shows anchored (.array s) j
  | template {f m j : Nat} {s : Scheme} {ss : List Scheme} (hs : ss[m]? = some s)
    (h : Shows anchored s j) (ha : anchored (f, m)) : Shows anchored (.template f ss) j

/-- A parameter is mentioned inside the argument of a family that stands for a parameter of it. -/
inductive Within (j : Nat) : Scheme → Nat × Nat → Prop
  | here {f m : Nat} {s : Scheme} {ss : List Scheme} (hs : ss[m]? = some s) (hj : j ∈ s.params) :
    Within j (.template f ss) (f, m)
  | argument {f : Nat} {s : Scheme} {ss : List Scheme} {y : Nat × Nat} (hs : s ∈ ss)
    (h : Within j s y) : Within j (.template f ss) y
  | pointer {s : Scheme} {y : Nat × Nat} (h : Within j s y) : Within j (.pointer s) y
  | array {s : Scheme} {y : Nat × Nat} (h : Within j s y) : Within j (.array s) y

variable {anchored anchored' : Nat × Nat → Prop} {j : Nat}

theorem mem_params_param {i : Nat} : j ∈ (param i).params ↔ j = i := by
  rw [params, ParamSet.mem_ofList, List.mem_singleton]

theorem mem_paramsOfAll {ss : List Scheme} : j ∈ paramsOfAll ss ↔ ∃ s ∈ ss, j ∈ s.params := by
  induction ss with
  | nil => simp [paramsOfAll, ParamSet.not_mem_empty]
  | cons s ss ih => simp [paramsOfAll, ih]

mutual

/-- What is mentioned is used, if all arguments that it is mentioned in stand for anchored
parameters. -/
theorem shows_of_mem_params : ∀ {s : Scheme}, j ∈ s.params →
    (∀ y, s.Within j y → anchored y) → s.Shows anchored j
  | .unspelled, hj, _ => absurd hj (ParamSet.not_mem_empty j)
  | .concrete .., hj, _ => absurd hj (ParamSet.not_mem_empty j)
  | .param i, hj, _ => by
    obtain rfl := mem_params_param.1 hj
    exact .param j
  | .pointer s, hj, h => .pointer (shows_of_mem_params (s := s) hj fun y hy => h y (.pointer hy))
  | .array s, hj, h => .array (shows_of_mem_params (s := s) hj fun y hy => h y (.array hy))
  | .template f ss, hj, h => by
    have hj : j ∈ paramsOfAll ss := hj
    obtain ⟨m, s, hs, hmem, hshows⟩ :=
      exists_shows_of_mem_paramsOfAll hj fun s hs y hy => h y (.argument hs hy)
    exact .template hs hshows (h _ (.here hs hmem))

/-- The same for rows of schemes. -/
theorem exists_shows_of_mem_paramsOfAll : ∀ {ss : List Scheme}, j ∈ paramsOfAll ss →
    (∀ s ∈ ss, ∀ y, s.Within j y → anchored y) →
      ∃ (m : Nat) (s : Scheme), ss[m]? = some s ∧ j ∈ s.params ∧ s.Shows anchored j
  | [], hj, _ => absurd hj (ParamSet.not_mem_empty j)
  | s :: ss, hj, h => by
    rcases ParamSet.mem_union.1 hj with hj | hj
    · exact ⟨0, s, rfl, hj, shows_of_mem_params hj (h s List.mem_cons_self)⟩
    · obtain ⟨m, t, ht, hmem, hshows⟩ := exists_shows_of_mem_paramsOfAll hj
        fun t ht => h t (List.mem_cons_of_mem s ht)
      exact ⟨m + 1, t, ht, hmem, hshows⟩

end

theorem Shows.mem_params {s : Scheme} (h : s.Shows anchored j) : j ∈ s.params := by
  induction h with
  | param j => exact mem_params_param.2 rfl
  | pointer _ ih | array _ ih => exact ih
  | template hs _ _ ih => exact mem_paramsOfAll.2 ⟨_, List.mem_of_getElem? hs, ih⟩

theorem Shows.imp {s : Scheme} (h : s.Shows anchored j)
    (himp : ∀ y, s.Within j y → anchored y → anchored' y) : s.Shows anchored' j := by
  induction h with
  | param j => exact .param j
  | pointer _ ih => exact .pointer (ih fun y hy => himp y (.pointer hy))
  | array _ ih => exact .array (ih fun y hy => himp y (.array hy))
  | template hs h ha ih =>
    exact .template hs (ih fun y hy => himp y (.argument (List.mem_of_getElem? hs) hy))
      (himp _ (.here hs h.mem_params) ha)

mutual

/-- Whether a scheme mentions a parameter only in the places of some parameters. -/
def buries (hidden : List (Nat × Nat)) (j : Nat) : Scheme → Bool
  | param i => i ≠ j
  | pointer s | array s => s.buries hidden j
  | template f ss => buriesFrom hidden j f 0 ss
  | unspelled | concrete .. => true

/-- The same for the arguments of a family from a number on. -/
def buriesFrom (hidden : List (Nat × Nat)) (j f : Nat) : Nat → List Scheme → Bool
  | _, [] => true
  | m, s :: ss => ((f, m) ∈ hidden || s.buries hidden j) && buriesFrom hidden j f (m + 1) ss

end

variable {hidden : List (Nat × Nat)}

theorem buriesFrom_of_getElem? {f k m : Nat} {s : Scheme} {ss : List Scheme}
    (h : buriesFrom hidden j f k ss = true) (hs : ss[m]? = some s) :
    (f, k + m) ∈ hidden ∨ s.buries hidden j = true := by
  induction ss generalizing k m with
  | nil => cases hs
  | cons t ss ih =>
    rw [buriesFrom, Bool.and_eq_true, Bool.or_eq_true, decide_eq_true_iff] at h
    cases m with
    | zero =>
      obtain rfl := Option.some.inj hs
      exact h.1
    | succ m =>
      have hlater := ih h.2 hs
      rwa [Nat.add_assoc, Nat.add_comm 1 m] at hlater

theorem Shows.not_buries {s : Scheme} (h : s.Shows (· ∉ hidden) j) : s.buries hidden j ≠ true := by
  induction h with
  | param j => simp [buries]
  | pointer _ ih | array _ ih => exact ih
  | @template f m j s ss hs _ ha ih =>
    intro hburies
    rcases buriesFrom_of_getElem? hburies hs with hmem | hs
    · rw [Nat.zero_add] at hmem
      exact ha hmem
    · exact ih hs

end Scheme

namespace Arena

variable {a : Arena} {familyOf : NodeId → Option Nat} {arguments : List String} {j : Nat}

mutual

/-- A scheme that describes a node mentions parameters only for which there are arguments. -/
theorem Fits.lt_of_mem_params : ∀ {s : Scheme} {id : NodeId}, a.Fits familyOf arguments s id →
    j ∈ s.params → j < arguments.length
  | .unspelled, _, h, _ => h.elim
  | .param i, _, h, hj => by
    obtain rfl := Scheme.mem_params_param.1 hj
    exact (List.getElem?_eq_some_iff.1 h).1
  | .concrete .., _, _, hj => absurd hj (ParamSet.not_mem_empty j)
  | .pointer s, _, h, hj => by
    obtain ⟨_, -, hs⟩ := h
    exact Fits.lt_of_mem_params (s := s) hs hj
  | .array s, _, h, hj => by
    obtain ⟨_, -, hs⟩ := h
    exact Fits.lt_of_mem_params (s := s) hs hj
  | .template f ss, _, h, hj => by
    obtain ⟨_, _, -, -, hss⟩ := h
    exact hss.lt_of_mem_params hj

/-- The same for rows of schemes. -/
theorem FitAll.lt_of_mem_params : ∀ {ss : List Scheme} {ids : List NodeId},
    a.FitAll familyOf arguments ss ids → j ∈ Scheme.paramsOfAll ss → j < arguments.length
  | [], _, _, hj => absurd hj (ParamSet.not_mem_empty j)
  | _ :: _, [], h, _ => h.elim
  | s :: ss, _ :: _, h, hj => by
    rcases ParamSet.mem_union.1 hj with hj | hj
    · exact h.1.lt_of_mem_params hj
    · exact h.2.lt_of_mem_params hj

end

end Arena

/-- A set of numbers below a bound has as many members only if it has them all. -/
theorem ParamSet.le_size_iff {s : ParamSet} {n : Nat} (h : ∀ k ∈ s, k < n) :
    n ≤ s.size ↔ ∀ k < n, k ∈ s := by
  have hnodup : s.toList.Nodup := s.ascending.imp Nat.ne_of_lt
  have hsub : s.toList ⊆ List.range n := fun k hk => List.mem_range.2 (h k hk)
  constructor
  · intro hle k hk
    have hperm := (hnodup.subperm hsub).perm_of_length_le (by rwa [List.length_range])
    exact hperm.mem_iff.2 (List.mem_range.2 hk)
  · intro hall
    have hle := (List.nodup_range.subperm fun k hk => hall k (List.mem_range.1 hk)).length_le
    rwa [List.length_range] at hle

namespace Catalog

/-! ## The marker -/

variable {c : Catalog} {l : SharedLayout}

/-- The declaration with a shared layout has the marker. -/
def HasMarker (c : Catalog) (l : SharedLayout) : Prop :=
  ∃ m ∈ c.genericMembers l, m.kind = .marker

theorem hasMarker_iff_writesAll : c.HasMarker l ↔ writesAll l = false := by
  unfold HasMarker genericMembers
  cases writesAll l with
  | true =>
    refine iff_of_false ?_ (by simp)
    rintro ⟨m, hm, hkind⟩
    obtain ⟨⟨name, f⟩, -, rfl⟩ := List.mem_map.1 hm
    cases hkind
  | false => exact iff_of_true ⟨_, List.mem_append_right _ List.mem_cons_self, rfl⟩ rfl

/-- There is a marker exactly if some parameter is mentioned in no field. -/
theorem hasMarker_iff (h : ∀ d ∈ l.fields, ∀ j ∈ d.pattern.scheme.params, j < l.arity) :
    c.HasMarker l ↔ ∃ j < l.arity, ∀ d ∈ l.fields, j ∉ d.pattern.scheme.params := by
  have hmem {j : Nat} : j ∈ Scheme.paramsOfAll (l.fields.map (·.pattern.scheme)) ↔
      ∃ d ∈ l.fields, j ∈ d.pattern.scheme.params := by
    simp [Scheme.mem_paramsOfAll]
  have hlt : ∀ j ∈ Scheme.paramsOfAll (l.fields.map (·.pattern.scheme)), j < l.arity := by
    intro j hj
    obtain ⟨d, hd, hj⟩ := hmem.1 hj
    exact h d hd j hj
  rw [hasMarker_iff_writesAll, ← Bool.not_eq_true, writesAll, decide_eq_true_iff,
    ParamSet.le_size_iff hlt]
  simp [hmem]

/-! ## Anchored parameters -/

/-- The parameters of generic declarations. -/
def IsParam (c : Catalog) (x : Nat × Nat) : Prop :=
  ∃ l, c.planned.plan.layout? x.1 = some l ∧ x.2 < l.arity

/-- A parameter is anchored if its declaration has the marker or a field that uses it; and an
application uses what is in the place of an anchored parameter alone. -/
inductive Anchored (c : Catalog) : Nat × Nat → Prop
  | marker {f j : Nat} {l : SharedLayout} (hl : c.planned.plan.layout? f = some l)
    (hj : j < l.arity) (h : c.HasMarker l) : Anchored c (f, j)
  | field {f j : Nat} {l : SharedLayout} {d : SharedField}
    (hl : c.planned.plan.layout? f = some l) (hj : j < l.arity) (hd : d ∈ l.fields)
    (h : d.pattern.scheme.Shows (Anchored c) j) : Anchored c (f, j)

/-- Whatever holds of parameters by these two rules holds of all that are anchored. -/
theorem Anchored.least {P : Nat × Nat → Prop}
    (hmarker : ∀ {f j : Nat} {l : SharedLayout}, c.planned.plan.layout? f = some l →
      j < l.arity → c.HasMarker l → P (f, j))
    (hfield : ∀ {f j : Nat} {l : SharedLayout} {d : SharedField},
      c.planned.plan.layout? f = some l → j < l.arity → d ∈ l.fields →
        d.pattern.scheme.Shows P j → P (f, j)) {x : Nat × Nat} (h : c.Anchored x) : P x :=
  @Anchored.rec c (fun x _ => P x) (fun s j _ => s.Shows P j) hmarker
    (fun hl hj hd _ ih => hfield hl hj hd ih) Scheme.Shows.param (fun _ ih => .pointer ih)
    (fun _ ih => .array ih) (fun hs _ _ ih ih' => .template hs ih ih') x h

/-- Parameters that hide in each other: their declarations have no marker, and their fields use
them only in the places of parameters of the set. -/
structure Hollow (c : Catalog) (hidden : Nat × Nat → Prop) : Prop where
  isParam : ∀ x, hidden x → c.IsParam x
  marker : ∀ {f j l}, hidden (f, j) → c.planned.plan.layout? f = some l → ¬c.HasMarker l
  field : ∀ {f j l d}, hidden (f, j) → c.planned.plan.layout? f = some l → d ∈ l.fields →
    ¬d.pattern.scheme.Shows (fun y => ¬hidden y) j

/-- Whether some parameters hide in each other. -/
def isHollow (c : Catalog) (hidden : List (Nat × Nat)) : Bool :=
  hidden.all fun x => (c.planned.plan.layout? x.1).any fun l =>
    x.2 < l.arity && writesAll l && l.fields.all fun d => d.pattern.scheme.buries hidden x.2

theorem hollow_of_isHollow {hidden : List (Nat × Nat)} (h : c.isHollow hidden = true) :
    c.Hollow (· ∈ hidden) := by
  have hall : ∀ x ∈ hidden, ∃ l, c.planned.plan.layout? x.1 = some l ∧
      (x.2 < l.arity ∧ writesAll l = true) ∧
        ∀ d ∈ l.fields, d.pattern.scheme.buries hidden x.2 = true := by
    simpa [isHollow, List.all_eq_true, Option.any_eq_true] using h
  refine ⟨fun x hx => ?_, fun {f j l} hx hl hmarker => ?_, fun {f j l d} hx hl hd hshows => ?_⟩
  · obtain ⟨l, hl, ⟨hj, -⟩, -⟩ := hall x hx
    exact ⟨l, hl, hj⟩
  · obtain ⟨l', hl', ⟨-, hwrites⟩, -⟩ := hall _ hx
    obtain rfl := Option.some.inj (hl.symm.trans hl')
    rw [hasMarker_iff_writesAll, hwrites] at hmarker
    cases hmarker
  · obtain ⟨l', hl', -, hburies⟩ := hall _ hx
    obtain rfl := Option.some.inj (hl.symm.trans hl')
    exact hshows.not_buries (hburies d hd)

theorem Hollow.not_anchored {hidden : Nat × Nat → Prop} (h : c.Hollow hidden) {x : Nat × Nat}
    (hx : hidden x) : ¬c.Anchored x := by
  intro hanchored
  refine hanchored.least (P := fun y => ¬hidden y) (fun hl _ hmarker hy => ?_)
    (fun hl _ hd hshows hy => ?_) hx
  · exact h.marker hy hl hmarker
  · exact h.field hy hl hd hshows

/-- A parameter is handed on to one in whose place it is mentioned: its declaration has no marker
but a field that mentions it there. -/
def HandsOn (c : Catalog) (x y : Nat × Nat) : Prop :=
  ∃ l, c.planned.plan.layout? x.1 = some l ∧ x.2 < l.arity ∧ ¬c.HasMarker l ∧
    ∃ d ∈ l.fields, d.pattern.scheme.Within x.2 y

theorem finite_isParam (c : Catalog) : {x | c.IsParam x}.Finite := by
  have hbelow : (⋃ f ∈ {f | f < c.planned.plan.families.length}, Prod.mk f ''
      {j | j < ((c.planned.plan.layout? f).map (·.arity)).getD 0}).Finite :=
    (Set.finite_lt_nat _).biUnion fun f _ => (Set.finite_lt_nat _).image _
  refine hbelow.subset ?_
  rintro ⟨f, j⟩ ⟨l, hl, hj⟩
  obtain ⟨F, hF, -⟩ := Option.bind_eq_some_iff.1 hl
  refine Set.mem_biUnion (List.getElem?_eq_some_iff.1 hF).1 ⟨j, ?_, rfl⟩
  rwa [Set.mem_ofPred_eq, hl]

/-! ## Generic declarations of a graph -/

section

variable {options : Options} {g : TypeGraph} (hg : g.Tidy)

include hg

/-- Arguments stand for parameters of generic declarations. -/
theorem isParam_of_within {args : List NodeId} {j : Nat} {s : Scheme}
    {y : Nat × Nat} (h : s.Within j y) {x : NodeId} (hw : Writes (g.planned options) args s x) :
    (g.catalog options).IsParam y := by
  induction h generalizing x with
  | @here f m s ss hs _ =>
    obtain ⟨k, xs, hn, hfamily, hss⟩ := hw.template
    obtain ⟨F, hF, -⟩ := Plan.familyOf?_eq_some_iff.1 hfamily
    obtain ⟨l, hl⟩ := Plan.exists_generic_of_isGeneric (hw.families f List.mem_cons_self F hF)
    have hlayout := layout?_of_policy hF hl
    have hlength : ss.length = l.arity :=
      hss.length_eq.trans (length_args hg hfamily hlayout hn)
    exact ⟨l, hlayout, hlength ▸ (List.getElem?_eq_some_iff.1 hs).1⟩
  | @argument f s ss y hs _ ih =>
    obtain ⟨k, xs, -, -, hss⟩ := hw.template
    obtain ⟨i, hi, rfl⟩ := List.mem_iff_getElem.1 hs
    exact ih (hss.get hi (hss.length_eq ▸ hi))
  | pointer _ ih =>
    obtain ⟨z, -, hz⟩ := hw.pointer
    exact ih hz
  | array _ ih =>
    obtain ⟨z, -, hz⟩ := hw.array
    exact ih hz

theorem exists_writes_field {f : Nat} {l : SharedLayout}
    (hl : (g.planned options).plan.layout? f = some l) :
    ∃ args, args.length = l.arity ∧ ∀ d ∈ l.fields, ∃ y,
      Writes (g.planned options) args d.pattern.scheme y := by
  obtain ⟨F, hF, -⟩ := Plan.exists_family_of_layout? hl
  have hmem := List.mem_of_getElem? hF
  obtain ⟨x, hx⟩ := List.exists_mem_of_ne_nil _ (Plan.instantiations_ne_nil hmem)
  obtain ⟨-, args, -, hlength, hwrites⟩ :=
    exists_writes hg (Plan.familyOf?_eq_some_iff.2 ⟨F, hF, hx⟩) hl
  exact ⟨args, hlength, fun d hd =>
    hwrites _ (List.mem_append_left _ (List.mem_map_of_mem hd))⟩

theorem lt_arity_of_mem_params {f : Nat} {l : SharedLayout}
    (hl : (g.planned options).plan.layout? f = some l) :
    ∀ d ∈ l.fields, ∀ j ∈ d.pattern.scheme.params, j < l.arity := by
  obtain ⟨args, hlength, hwrites⟩ := exists_writes_field hg hl
  intro d hd j hj
  obtain ⟨y, hy⟩ := hwrites d hd
  have hlt := hy.fits.lt_of_mem_params hj
  rwa [List.length_map, hlength] at hlt

theorem HandsOn.isParam {x y : Nat × Nat} (h : (g.catalog options).HandsOn x y) :
    (g.catalog options).IsParam y := by
  obtain ⟨l, hl, -, -, d, hd, hwithin⟩ := h
  obtain ⟨args, -, hwrites⟩ := exists_writes_field hg hl
  obtain ⟨z, hz⟩ := hwrites d hd
  exact isParam_of_within hg hwithin hz

/-- A parameter that is not anchored is handed on to such a parameter. Without a marker some field
mentions it. -/
theorem exists_handsOn {x : Nat × Nat} (hx : (g.catalog options).IsParam x)
    (hnot : ¬(g.catalog options).Anchored x) :
    ∃ y, (g.catalog options).HandsOn x y ∧ ¬(g.catalog options).Anchored y := by
  obtain ⟨f, j⟩ := x
  obtain ⟨l, hl, hj⟩ := hx
  have hmarker : ¬(g.catalog options).HasMarker l := fun h => hnot (.marker hl hj h)
  obtain ⟨d, hd, hmem⟩ : ∃ d ∈ l.fields, j ∈ d.pattern.scheme.params := by
    by_contra hnone
    refine hmarker ((hasMarker_iff (lt_arity_of_mem_params hg hl)).2 ⟨j, hj, fun d hd hmem => ?_⟩)
    exact hnone ⟨d, hd, hmem⟩
  by_contra hall
  refine hnot (.field hl hj hd (Scheme.shows_of_mem_params hmem fun y hy => ?_))
  by_contra hy'
  exact hall ⟨y, ⟨l, hl, hj, hmarker, d, hd, hy⟩, hy'⟩

/-- A parameter that is not anchored is handed on until it comes to where it was. -/
theorem exists_ring_of_not_anchored {x : Nat × Nat} (hx : (g.catalog options).IsParam x)
    (hnot : ¬(g.catalog options).Anchored x) : ∃ y,
      ReflTransGen (g.catalog options).HandsOn x y ∧ TransGen (g.catalog options).HandsOn y y := by
  have hfinite : {x | (g.catalog options).IsParam x ∧ ¬(g.catalog options).Anchored x}.Finite :=
    (finite_isParam _).subset fun _ h => h.1
  refine exists_ring hfinite (fun y hy => ?_) (x := x) ⟨hx, hnot⟩
  obtain ⟨z, hyz, hz⟩ := exists_handsOn hg hy.1 hy.2
  exact ⟨z, ⟨hyz.isParam hg, hz⟩, hyz⟩

/-- The parameters that are not anchored are those that hide in each other. -/
theorem not_anchored_iff {x : Nat × Nat} (hx : (g.catalog options).IsParam x) :
    ¬(g.catalog options).Anchored x ↔ ∃ hidden, (g.catalog options).Hollow hidden ∧ hidden x := by
  constructor
  · intro hnot
    refine ⟨fun y => (g.catalog options).IsParam y ∧ ¬(g.catalog options).Anchored y,
      ⟨fun y hy => hy.1, fun {f j l} hy hl hmarker => ?_, fun {f j l d} hy hl hd hshows => ?_⟩,
      hx, hnot⟩
    · obtain ⟨⟨l', hl', hj⟩, hy⟩ := hy
      obtain rfl := Option.some.inj (hl.symm.trans hl')
      exact hy (.marker hl hj hmarker)
    · obtain ⟨⟨l', hl', hj⟩, hy⟩ := hy
      obtain rfl := Option.some.inj (hl.symm.trans hl')
      obtain ⟨args, -, hwrites⟩ := exists_writes_field hg hl
      obtain ⟨z, hz⟩ := hwrites d hd
      refine hy (.field hl hj hd (hshows.imp fun y hwithin hyes => ?_))
      by_contra hno
      exact hyes ⟨isParam_of_within hg hwithin hz, hno⟩
  · rintro ⟨hidden, hhollow, hhidden⟩
    exact hhollow.not_anchored hhidden

end

end Catalog

namespace Bindings

/-- Whenever bindings are generated, a generic declaration has the marker exactly if some parameter
of it is mentioned in no field. A parameter is anchored exactly if it belongs to no hollow set;
and one that is not anchored is mentioned, but handed on until it comes to where it was. -/
theorem ofRecords_anchored_iff {options : Options} {records : List SymbolRecord} {b : Bindings}
    (h : ofRecords options records = .ok b) :
    ∃ g w, TypeGraph.ofRecords options records = .ok (g, w) ∧
      (g.catalog options).declarations options.documented = .ok b.declarations ∧
      (∀ f l, (g.planned options).plan.layout? f = some l → ((g.catalog options).HasMarker l ↔
        ∃ j < l.arity, ∀ d ∈ l.fields, j ∉ d.pattern.scheme.params)) ∧
      ∀ x, (g.catalog options).IsParam x →
        ((g.catalog options).Anchored x ↔
          ¬∃ hidden, (g.catalog options).Hollow hidden ∧ hidden x) ∧
        ((g.catalog options).Anchored x ∨ ∃ y, ReflTransGen (g.catalog options).HandsOn x y ∧
          TransGen (g.catalog options).HandsOn y y) := by
  obtain ⟨g, w, hgraph, hwritten⟩ := exists_of_ofRecords h
  have hg := TypeGraph.tidy_of_ofRecords hgraph
  refine ⟨g, w, hgraph, hwritten, fun f l hl => ?_, fun x hx => ⟨?_, ?_⟩⟩
  · exact Catalog.hasMarker_iff (Catalog.lt_arity_of_mem_params hg hl)
  · exact (not_iff_comm.1 (Catalog.not_anchored_iff hg hx)).symm
  · exact or_iff_not_imp_left.2 (Catalog.exists_ring_of_not_anchored hg hx)

/-- Two templates that point at each other. -/
def crossPointing : List SymbolRecord :=
  [.ofPrimitive ⟨1⟩ "int" 4, .ofPointer ⟨2⟩ (some ⟨4⟩) 8, .ofPointer ⟨3⟩ (some ⟨5⟩) 8,
    (SymbolRecord.ofInstantiation ⟨4⟩ "Front<int>" 8 [⟨1⟩]).addField "back" ⟨3⟩ 0,
    (SymbolRecord.ofInstantiation ⟨5⟩ "Back<int>" 8 [⟨1⟩]).addField "front" ⟨2⟩ 0]

/-- Neither of them has a marker, and each hands its parameter on to the other. -/
theorem crossPointing_ring : ∃ b g w, ofRecords {} crossPointing = .ok b ∧
    TypeGraph.ofRecords {} crossPointing = .ok (g, w) ∧ ¬(g.catalog {}).Anchored (0, 0) ∧
      ∃ y, ReflTransGen (g.catalog {}).HandsOn (0, 0) y ∧
        TransGen (g.catalog {}).HandsOn y y := by
  obtain ⟨g, w, hgraph, hhollow⟩ : ∃ g w, TypeGraph.ofRecords {} crossPointing = .ok (g, w) ∧
      (g.catalog {}).isHollow [(0, 0), (1, 0)] = true :=
    TypeGraph.exists_ofRecords_and (by decide +kernel)
  obtain ⟨b, hb⟩ : ∃ b, ofRecords {} crossPointing = .ok b := exists_eq_ok (by decide +kernel)
  obtain ⟨g', w', hgraph', -, -, hparams⟩ := ofRecords_anchored_iff hb
  obtain ⟨rfl, rfl⟩ := Prod.mk.inj (Except.ok.inj (hgraph.symm.trans hgraph'))
  have hhollow := Catalog.hollow_of_isHollow hhollow
  obtain ⟨hiff, hor⟩ := hparams (0, 0) (hhollow.isParam _ List.mem_cons_self)
  have hnot : ¬(g.catalog {}).Anchored (0, 0) :=
    fun h => hiff.1 h ⟨_, hhollow, List.mem_cons_self⟩
  exact ⟨b, g, w, hb, hgraph, hnot, hor.resolve_left hnot⟩

/-- A template whose only field points to the same instantiation. -/
def selfPointing : List SymbolRecord :=
  [.ofPrimitive ⟨1⟩ "int" 4, .ofPointer ⟨2⟩ (some ⟨3⟩) 8,
    (SymbolRecord.ofInstantiation ⟨3⟩ "Node<int>" 8 [⟨1⟩]).addField "next" ⟨2⟩ 0]

/-- Its declaration has one parameter, which is not anchored. -/
theorem selfPointing_not_anchored : ∃ b g w, ofRecords {} selfPointing = .ok b ∧
    b.declarations.map (·.name) = ["Node<T>"] ∧
      TypeGraph.ofRecords {} selfPointing = .ok (g, w) ∧ (g.catalog {}).IsParam (0, 0) ∧
        ¬(g.catalog {}).Anchored (0, 0) := by
  obtain ⟨g, w, hgraph, hhollow⟩ : ∃ g w, TypeGraph.ofRecords {} selfPointing = .ok (g, w) ∧
      (g.catalog {}).isHollow [(0, 0)] = true :=
    TypeGraph.exists_ofRecords_and (by decide +kernel)
  obtain ⟨b, hb, hnames⟩ : ∃ b, ofRecords {} selfPointing = .ok b ∧
      b.declarations.map (·.name) = ["Node<T>"] := exists_eq_ok_and (by decide +kernel)
  have hhollow := Catalog.hollow_of_isHollow hhollow
  exact ⟨b, g, w, hb, hnames, hgraph, hhollow.isParam _ List.mem_cons_self,
    hhollow.not_anchored List.mem_cons_self⟩

end Bindings

end NativeBindings
