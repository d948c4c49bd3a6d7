import Mathlib.Order.Bounds.Basic
import NativeBindings.Proofs.Template.Plan

/-!
# Demotion

Generic families rely on each other: what one of them writes generically has to be generic too.
A set of families sustains itself if each of them has a common layout and writes nothing
generically but what is in the set (`Plan.Sustains`). The generic families of a plan are the
greatest set of this kind.

No visit of a family can demote a member of such a set, and when nothing is blocked the generic
families are one themselves (`Plan.isGreatest_generics`). So it makes no difference in which
order families are visited, as long as in the end none is blocked
(`Plan.demoteEach_eq_of_stable`), and as many rounds as there are families always get there
(`Plan.blocker?_demoteEach_flatten`).

Each family is reported at most once: as ambiguous if it has no common layout, as demoted with
what blocks it if it has one and is not generic, and otherwise not at all (`Plan.Reported`).
-/

namespace NativeBindings.Plan

/-! ## Families that sustain each other -/

/-- The positions of the families that are generic. -/
def generics (fs : List Family) : Set Nat :=
  {f | ∃ F, fs[f]? = some F ∧ F.policy.isGeneric = true}

/-- A set of generic families that write nothing generically but each other. -/
def Sustained (fs : List Family) (S : Set Nat) : Prop :=
  ∀ f ∈ S, ∃ F l, fs[f]? = some F ∧ F.policy = .generic l ∧ ∀ d ∈ l.dependencies, d ∈ S

variable {g : TypeGraph} {fs fs' : List Family} {S : Set Nat}

namespace Sustained

theorem subset (h : Sustained fs S) : S ⊆ generics fs := by
  intro f hf
  obtain ⟨F, l, hF, hl, -⟩ := h f hf
  exact ⟨F, hF, by rw [hl]; rfl⟩

/-- Nothing blocks a family that is sustained. -/
theorem blocker?_eq_none (h : Sustained fs S) {f : Nat} (hf : f ∈ S) {F : Family}
    (hF : fs[f]? = some F) : blocker? fs F = none := by
  obtain ⟨F', l, hF', hl, hdeps⟩ := h f hf
  obtain rfl := Option.some.inj (hF.symm.trans hF')
  refine Option.eq_none_iff_forall_ne_some.2 fun B hB => ?_
  obtain ⟨l', hl', d, hd, hBd, hspecial⟩ := exists_of_blocker? hB
  obtain rfl := Policy.generic.inj (hl.symm.trans hl')
  obtain ⟨B', hB', hgeneric⟩ := h.subset (hdeps d hd)
  obtain rfl := Option.some.inj (hBd.symm.trans hB')
  rw [hspecial] at hgeneric
  cases hgeneric

/-- Looking at a family leaves those generic that sustain each other. -/
theorem demoteAt (h : Sustained fs S) (i : Nat) : Sustained (demoteAt g fs i).1 S := by
  rcases demoteAt_cases g fs i with ⟨heq, -⟩ | ⟨F, B, hF, hblock, heq⟩
  · rwa [heq]
  · rw [heq]
    intro f hf
    obtain ⟨F', l, hF', hl, hdeps⟩ := h f hf
    have hne : i ≠ f := by
      rintro rfl
      rw [h.blocker?_eq_none hf hF] at hblock
      cases hblock
    exact ⟨F', l, by rwa [List.getElem?_set_ne hne], hl, hdeps⟩

theorem demoteEach (h : Sustained fs S) (is : List Nat) : Sustained (demoteEach g fs is).1 S := by
  induction is generalizing fs with
  | nil => exact h
  | cons i is ih => exact ih (h.demoteAt i)

/-- What is sustained among the remaining families was sustained before. -/
theorem of_demotes (h : Sustained fs' S) (hd : Demotes fs fs') : Sustained fs S := by
  intro f hf
  obtain ⟨F, l, hF, hl, hdeps⟩ := h f hf
  exact ⟨F, l, hd.generic hF (by rw [hl]; rfl), hl, hdeps⟩

end Sustained

/-- Families all of whose dependencies are families. -/
def DependsInside (fs : List Family) : Prop :=
  ∀ F ∈ fs, ∀ l, F.policy = .generic l → ∀ d ∈ l.dependencies, d < fs.length

/-- Where nothing is blocked the generic families sustain each other. -/
theorem sustained_generics (hinside : DependsInside fs)
    (hstable : ∀ F ∈ fs, blocker? fs F = none) : Sustained fs (generics fs) := by
  rintro f ⟨F, hF, hgeneric⟩
  obtain ⟨l, hl⟩ := exists_generic_of_isGeneric hgeneric
  have hmem := List.mem_of_getElem? hF
  refine ⟨F, l, hF, hl, fun d hd => ?_⟩
  have hget := List.getElem?_eq_getElem (hinside F hmem l hl d hd)
  have hblock := hstable F hmem
  simp only [blocker?, hl] at hblock
  have hdep := List.find?_eq_none.1 hblock _ (List.mem_filterMap.2 ⟨d, hd, hget⟩)
  exact ⟨_, hget, by simpa using hdep⟩

theorem Demotes.length_eq (h : Demotes fs fs') : fs'.length = fs.length := by
  have hlen := congrArg List.length h.group
  simpa using hlen

/-- Demoting makes no dependencies. -/
theorem Demotes.dependsInside (h : Demotes fs fs') (hinside : DependsInside fs) :
    DependsInside fs' := by
  intro F hF l hl d hd
  obtain ⟨f, hf⟩ := List.mem_iff_getElem?.1 hF
  rw [h.length_eq]
  exact hinside F (List.mem_of_getElem? (h.generic hf (by rw [hl]; rfl))) l hl d hd

/-- When visits leave nothing blocked, the families that are still generic are the greatest set
that sustained itself before. -/
theorem isGreatest_generics (hinside : DependsInside fs) {is : List Nat}
    (hstable : ∀ F ∈ (demoteEach g fs is).1, blocker? (demoteEach g fs is).1 F = none) :
    IsGreatest {S | Sustained fs S} (generics (demoteEach g fs is).1) := by
  have hd := demoteEach_demotes g is fs
  exact ⟨(sustained_generics (hd.dependsInside hinside) hstable).of_demotes hd,
    fun S (hS : Sustained fs S) => (hS.demoteEach is).subset⟩

/-! ## The order of visits -/

theorem eq_of_group {F G : Family} (h : group F = group G) (hp : F.policy = G.policy) : F = G := by
  obtain ⟨key, ids, policy⟩ := F
  obtain ⟨hkey, hids⟩ := Prod.mk.inj h
  cases hkey
  cases hids
  cases hp
  rfl

/-- Demoting the same families leads to the same result. -/
theorem eq_of_generics {fs₁ fs₂ : List Family} (h₁ : Demotes fs fs₁) (h₂ : Demotes fs fs₂)
    (h : generics fs₁ = generics fs₂) : fs₁ = fs₂ := by
  refine List.ext_getElem (h₁.length_eq.trans h₂.length_eq.symm) fun f hf₁ hf₂ => ?_
  have hF₁ := List.getElem?_eq_getElem hf₁
  have hF₂ := List.getElem?_eq_getElem hf₂
  have hgroup : group fs₁[f] = group fs₂[f] := by
    have hmap := congrArg (·[f]?) (h₁.group.trans h₂.group.symm)
    simpa [hF₁, hF₂] using hmap
  have hiff : fs₁[f].policy.isGeneric = true ↔ fs₂[f].policy.isGeneric = true := by
    have hmem := Set.ext_iff.1 h f
    simpa [generics, hF₁, hF₂] using hmem
  by_cases hgeneric : fs₁[f].policy.isGeneric = true
  · exact Option.some.inj ((h₁.generic hF₁ hgeneric).symm.trans (h₂.generic hF₂ (hiff.1 hgeneric)))
  · have hspecial {F : Family} (hF : ¬F.policy.isGeneric = true) : F.policy = .specialized := by
      cases hp : F.policy with
      | generic l => simp [hp, Policy.isGeneric, Policy.layout?] at hF
      | specialized => rfl
    exact eq_of_group hgroup ((hspecial hgeneric).trans (hspecial (mt hiff.2 hgeneric)).symm)

/-- Visits in different orders lead to the same families if both leave nothing blocked. -/
theorem demoteEach_eq_of_stable (hinside : DependsInside fs) {is js : List Nat}
    (his : ∀ F ∈ (demoteEach g fs is).1, blocker? (demoteEach g fs is).1 F = none)
    (hjs : ∀ F ∈ (demoteEach g fs js).1, blocker? (demoteEach g fs js).1 F = none) :
    (demoteEach g fs is).1 = (demoteEach g fs js).1 :=
  eq_of_generics (demoteEach_demotes g is fs) (demoteEach_demotes g js fs)
    ((isGreatest_generics hinside his).unique (isGreatest_generics hinside hjs))

theorem demoteEach_append (g : TypeGraph) (fs : List Family) (is js : List Nat) :
    demoteEach g fs (is ++ js) = ((demoteEach g (demoteEach g fs is).1 js).1,
      (demoteEach g fs is).2 ++ (demoteEach g (demoteEach g fs is).1 js).2) := by
  induction is generalizing fs with
  | nil => rfl
  | cons i is ih => rw [List.cons_append, demoteEach_cons, ih, demoteEach_cons, List.append_assoc]

/-- Rounds are visits, too. -/
theorem exists_demoteAll_eq (g : TypeGraph) (fuel : Nat) (fs : List Family) :
    ∃ is, demoteAll g fuel fs = demoteEach g fs is := by
  induction fuel generalizing fs with
  | zero => exact ⟨[], rfl⟩
  | succ fuel ih =>
    rw [demoteAll]
    split
    · next fs' heq => exact ⟨_, heq.symm⟩
    · next fs' d ds heq =>
      obtain ⟨is, his⟩ := ih fs'
      exact ⟨List.range fs.length ++ is, by rw [demoteEach_append, heq, his]⟩

/-- Where nothing is blocked visits change nothing. -/
theorem demoteEach_of_stable (h : ∀ F ∈ fs, blocker? fs F = none) (is : List Nat) :
    demoteEach g fs is = (fs, []) := by
  induction is with
  | nil => rfl
  | cons i is ih =>
    rcases demoteAt_cases g fs i with ⟨heq, -⟩ | ⟨F, B, hF, hblock, -⟩
    · simp [demoteEach_cons, heq, ih]
    · rw [h F (List.mem_of_getElem? hF)] at hblock
      cases hblock

/-- As many rounds as there are generic families leave nothing blocked, in whatever order each of
them visits the families. A round without a note has seen that nothing is blocked. -/
theorem blocker?_demoteEach_flatten {rounds : List (List Nat)}
    (hrounds : ∀ round ∈ rounds, ∀ f < fs.length, f ∈ round)
    (hlen : genericCount fs ≤ rounds.length) :
    ∀ F ∈ (demoteEach g fs rounds.flatten).1,
      blocker? (demoteEach g fs rounds.flatten).1 F = none := by
  induction rounds generalizing fs with
  | nil =>
    intro F hF
    refine Option.eq_none_iff_forall_ne_some.2 fun B hB => ?_
    have hpos : 0 < genericCount fs := List.countP_pos_iff.2 ⟨F, hF, isGeneric_of_blocker? hB⟩
    exact absurd hlen (Nat.not_le.2 hpos)
  | cons round rounds ih =>
    have hcount := genericCount_demoteEach g round fs
    have hdemotes := demoteEach_demotes g round fs
    rw [List.flatten_cons, demoteEach_append]
    obtain ⟨hround, hrounds⟩ := List.forall_mem_cons.1 hrounds
    cases hnotes : (demoteEach g fs round).2 with
    | nil =>
      obtain ⟨-, hblock⟩ := demoteEach_of_nil (Prod.ext rfl hnotes)
      have hstable : ∀ F ∈ fs, blocker? fs F = none := by
        intro F hF
        obtain ⟨f, hf⟩ := List.mem_iff_getElem?.1 hF
        obtain ⟨hlt, -⟩ := List.getElem?_eq_some_iff.1 hf
        exact hblock f (hround f hlt) F hf
      simp only [demoteEach_of_stable hstable]
      exact hstable
    | cons note notes =>
      refine ih (fun round hr f hf => hrounds round hr f (hdemotes.length_eq ▸ hf)) ?_
      simp only [hnotes, List.length_cons] at hcount hlen
      omega

/-! ## Reports -/

/-- The reports about a family. -/
def about (g : TypeGraph) (F : Family) (ds : Diagnostics) : Diagnostics :=
  ds.filter (·.symbol == symbolOf? g F.instantiations)

theorem about_append (F : Family) (ds ds' : Diagnostics) :
    about g F (ds ++ ds') = about g F ds ++ about g F ds' :=
  List.filter_append ds ds'

/-- Families that are told by the symbols in reports about them. -/
def Distinct (g : TypeGraph) (fs : List Family) : Prop :=
  (fs.map fun F => symbolOf? g F.instantiations).Nodup

theorem Demotes.distinct (h : Demotes fs fs') (hd : Distinct g fs) : Distinct g fs' := by
  have hmap := congrArg (List.map fun x => symbolOf? g x.2) h.group
  simp only [List.map_map, Function.comp_def, Plan.group] at hmap
  rwa [Distinct, hmap]

/-- Distinct families have different symbols. -/
theorem Distinct.eq_of_symbolOf? (h : Distinct g fs) {f i : Nat} {F G : Family}
    (hF : fs[f]? = some F) (hG : fs[i]? = some G)
    (hsymbol : symbolOf? g F.instantiations = symbolOf? g G.instantiations) : f = i := by
  obtain ⟨hf, -⟩ := List.getElem?_eq_some_iff.1 hF
  have hget : (fs.map fun F => symbolOf? g F.instantiations)[f]? =
      (fs.map fun F => symbolOf? g F.instantiations)[i]? := by
    rw [List.getElem?_map, List.getElem?_map, hF, hG, Option.map_some, Option.map_some, hsymbol]
  exact (List.getElem?_inj (by simpa using hf) h).1 hget

/-- A family that is not generic stays so, under its name. -/
theorem Demotes.exists_not_generic (h : Demotes fs fs') {d : Nat} {B : Family}
    (hB : fs[d]? = some B) (hspecial : B.policy.isGeneric = false) :
    ∃ B', fs'[d]? = some B' ∧ B'.key = B.key ∧ B'.policy.isGeneric = false := by
  have hgroup := congrArg (·[d]?) h.group
  simp only [List.getElem?_map, hB, Option.map_some, Option.map_eq_some_iff] at hgroup
  obtain ⟨B', hB', hsame⟩ := hgroup
  refine ⟨B', hB', congrArg Prod.fst hsame, Bool.eq_false_iff.2 fun hgeneric => ?_⟩
  obtain rfl := Option.some.inj (hB.symm.trans (h.generic hB' hgeneric))
  rw [hspecial] at hgeneric
  cases hgeneric

theorem about_demotionNote_self (F B : Family) :
    about g F [demotionNote g F B] = [demotionNote g F B] := by
  simp [about, demotionNote]

/-- The note of one family is not about another. -/
theorem Distinct.about_demotionNote (h : Distinct g fs) {f i : Nat} {F G : Family}
    (hF : fs[f]? = some F) (hG : fs[i]? = some G) (hif : i ≠ f) (B : Family) :
    about g F [demotionNote g G B] = [] := by
  have hne : symbolOf? g G.instantiations ≠ symbolOf? g F.instantiations :=
    fun hsymbol => hif (h.eq_of_symbolOf? hG hF hsymbol)
  simp [about, demotionNote, hne]

/-- Visits either leave a family as it is, and say nothing about it, or they demote it and name a
dependency that is not generic. What blocks a family stays, and does not become generic again. -/
theorem demoteEach_cases (hd : Distinct g fs) (is : List Nat) {f : Nat} {F : Family}
    (hF : fs[f]? = some F) :
    ((demoteEach g fs is).1[f]? = some F ∧ about g F (demoteEach g fs is).2 = []) ∨
      ((demoteEach g fs is).1[f]? = some { F with policy := .specialized } ∧
        ∃ l, F.policy = .generic l ∧ ∃ d ∈ l.dependencies, ∃ B,
          (demoteEach g fs is).1[d]? = some B ∧ B.policy.isGeneric = false ∧
            about g F (demoteEach g fs is).2 = [demotionNote g F B]) := by
  induction is generalizing fs F with
  | nil => exact Or.inl ⟨hF, rfl⟩
  | cons i is ih =>
    rw [demoteEach_cons, about_append]
    rcases demoteAt_cases g fs i with ⟨heq, -⟩ | ⟨G, B, hG, hblock, heq⟩
    · rw [heq]
      exact ih hd hF
    · rw [heq]
      have hdem := demotes_set hG
      have hrest := demoteEach_demotes g is (fs.set i { G with policy := .specialized })
      by_cases hif : i = f
      · subst hif
        obtain rfl := Option.some.inj (hF.symm.trans hG)
        obtain ⟨hlt, -⟩ := List.getElem?_eq_some_iff.1 hF
        have hset : (fs.set i { F with policy := .specialized })[i]? =
            some { F with policy := .specialized } := by simp [hlt]
        obtain ⟨l, hl, d, hdep, hB, hspecial⟩ := exists_of_blocker? hblock
        rcases ih (hdem.distinct hd) hset with ⟨hstay, hnone⟩ | ⟨-, l', hl', -⟩
        · refine Or.inr ⟨hstay, l, hl, d, hdep, ?_⟩
          obtain ⟨B', hB', hkey, hgeneric⟩ := (hdem.trans hrest).exists_not_generic hB hspecial
          refine ⟨B', hB', hgeneric, ?_⟩
          have hnote : demotionNote g F B' = demotionNote g F B := by
            simp only [demotionNote, hkey]
          rw [about_demotionNote_self, hnote]
          exact congrArg (_ :: ·) hnone
        · cases hl'
      · rw [hd.about_demotionNote hF hG hif]
        exact ih (hdem.distinct hd) (by rwa [List.getElem?_set_ne hif])

/-- Every note of a visit is about one of the families. -/
theorem symbol_of_mem_demoteEach (is : List Nat) {w : Diagnostic}
    (hw : w ∈ (demoteEach g fs is).2) : ∃ F ∈ fs, w.symbol = symbolOf? g F.instantiations := by
  induction is generalizing fs with
  | nil => cases hw
  | cons i is ih =>
    rw [demoteEach_cons] at hw
    rcases demoteAt_cases g fs i with ⟨heq, -⟩ | ⟨G, B, hG, -, heq⟩
    · rw [heq] at hw
      exact ih hw
    · rw [heq] at hw
      rcases List.mem_cons.1 hw with rfl | hw
      · exact ⟨G, List.mem_of_getElem? hG, rfl⟩
      · obtain ⟨F, hF, hsymbol⟩ := ih hw
        rcases List.mem_or_eq_of_mem_set hF with hF | rfl
        · exact ⟨F, hF, hsymbol⟩
        · exact ⟨G, List.mem_of_getElem? hG, hsymbol⟩

/-! ## The families before any is demoted -/

/-- The families that unification leaves. -/
def undemoted (g : TypeGraph) : List Family :=
  (decided g).map (·.1)

/-- The families of a plan are left when those of unification are looked at, until none is blocked.
-/
theorem undemoted_demotes {options : Options} (hunify : options.unifyTemplates = true) :
    ∃ is, (ofGraph options g).1.families = (demoteEach g (undemoted g) is).1 ∧
      (ofGraph options g).2 =
        (decided g).flatMap (·.2) ++ (demoteEach g (undemoted g) is).2 ∧
      ∀ F ∈ (ofGraph options g).1.families,
        blocker? (ofGraph options g).1.families F = none := by
  obtain ⟨is, his⟩ := exists_demoteAll_eq g ((undemoted g).length + 1) (undemoted g)
  rw [ofGraph_of_unify hunify]
  refine ⟨is, congrArg Prod.fst his, congrArg (_ ++ Prod.snd ·) his, ?_⟩
  exact blocker?_demoteAll (Nat.lt_succ_of_le List.countP_le_length)

/-- A family is generic at first if and only if its instantiations have a common layout. -/
theorem policy_undemoted {F : Family} (hF : F ∈ undemoted g) {l : SharedLayout} :
    F.policy = .generic l ↔ SharedLayout.ofInstantiations g
      (fun id => (grouped g).findIdx? (id ∈ ·.2)) F.instantiations = .ok l := by
  obtain ⟨_, hx, rfl⟩ := List.mem_map.1 hF
  obtain ⟨⟨key, ids⟩, -, rfl⟩ := List.mem_map.1 hx
  rw [judge]
  split
  · next l' hl' => simp [hl']
  · next m hm => simp [hm]

theorem group_undemoted_mem {F : Family} (hF : F ∈ undemoted g) : group F ∈ grouped g := by
  rw [← group_decided g]
  exact List.mem_map_of_mem hF

theorem length_undemoted (g : TypeGraph) : (undemoted g).length = (grouped g).length := by
  rw [← group_decided g, List.length_map, undemoted]

/-- What a common layout writes generically are families. -/
theorem dependsInside_undemoted (g : TypeGraph) : DependsInside (undemoted g) := by
  intro F hF l hl d hd
  have hgroup := group_undemoted_mem hF
  have hcovers := SharedLayout.covers_of_ofInstantiations
    (fun id hid => (exists_instantiates_of_mem_group hgroup hid).2) ((policy_undemoted hF).1 hl)
  obtain ⟨id, hid⟩ := List.exists_mem_of_ne_nil _ ((groups_grouped g).ne_nil _ hgroup)
  obtain ⟨args, u, -, hdescribes⟩ := hcovers.admits id hid
  have hfits := (Arena.fitAll_iff ..).2 hdescribes.schemes
  obtain ⟨x, hx⟩ := hfits.exists_familyOf d hd
  obtain ⟨y, hy, -⟩ := (groups_grouped g).findIdx?_eq_some_iff.1 hx
  rw [length_undemoted]
  exact (List.getElem?_eq_some_iff.1 hy).1

/-- Families have different first instantiations, which have different symbols. -/
theorem distinct_undemoted (hg : g.Tidy) : Distinct g (undemoted g) := by
  have hnodup : ((grouped g).map fun x => symbolOf? g x.2).Nodup :=
    (groups_grouped g).nodup.of_map.map_on fun x hx y hy => eq_of_symbolOf? hg hx hy
  rw [← group_decided g, List.map_map] at hnodup
  exact hnodup

theorem symbol_of_mem_decided {x : Family × Diagnostics} (hx : x ∈ decided g) :
    ∀ w ∈ x.2, w.symbol = symbolOf? g x.1.instantiations := by
  obtain ⟨⟨key, ids⟩, -, rfl⟩ := List.mem_map.1 hx
  rw [judge]
  split
  · simp
  · simp [ambiguousWarning]

/-- Nothing is found wrong with a family that has a common layout. -/
theorem notes_eq_nil_of_policy {x : Family × Diagnostics} (hx : x ∈ decided g)
    {l : SharedLayout} (hl : x.1.policy = .generic l) : x.2 = [] := by
  obtain ⟨⟨key, ids⟩, -, rfl⟩ := List.mem_map.1 hx
  rw [judge] at hl ⊢
  split at hl
  · next => simp
  · cases hl

/-- What unification reports about a family is what it found when judging it. -/
theorem about_decided (hd : Distinct g (undemoted g)) {x : Family × Diagnostics}
    (hx : x ∈ decided g) : about g x.1 ((decided g).flatMap (·.2)) = x.2 := by
  obtain ⟨pre, post, hsplit⟩ := List.append_of_mem hx
  have hother {ys : List (Family × Diagnostics)} (hys : ∀ y ∈ ys, y ∈ decided g ∧
      symbolOf? g y.1.instantiations ≠ symbolOf? g x.1.instantiations) :
      about g x.1 (ys.flatMap (·.2)) = [] := by
    refine List.filter_eq_nil_iff.2 fun w hw => ?_
    obtain ⟨y, hy, hwy⟩ := List.mem_flatMap.1 hw
    rw [symbol_of_mem_decided (hys y hy).1 w hwy]
    simpa using (hys y hy).2
  have hself : about g x.1 x.2 = x.2 :=
    List.filter_eq_self.2 fun w hw => by simpa using symbol_of_mem_decided hx w hw
  rw [Distinct, undemoted, hsplit, List.map_map, List.map_append, List.map_cons,
    List.nodup_append] at hd
  obtain ⟨-, hpost, hpre⟩ := hd
  have hbefore : about g x.1 (pre.flatMap (·.2)) = [] :=
    hother fun y hy =>
      ⟨by simp [hsplit, hy], hpre _ (List.mem_map_of_mem hy) _ List.mem_cons_self⟩
  have hafter : about g x.1 (post.flatMap (·.2)) = [] :=
    hother fun y hy => ⟨by simp [hsplit, hy],
      fun heq => (List.nodup_cons.1 hpost).1 (List.mem_map.2 ⟨y, hy, heq⟩)⟩
  rw [hsplit, List.flatMap_append, List.flatMap_cons, about_append, about_append, hbefore, hafter,
    hself, List.nil_append, List.append_nil]

/-! ## The demotions of a plan -/

/-- A set of families that have common layouts, which write nothing generically but each
other. -/
def Sustains (g : TypeGraph) (p : Plan) (S : Set Nat) : Prop :=
  ∀ f ∈ S, ∃ F l, p.families[f]? = some F ∧
    SharedLayout.ofInstantiations g p.familyOf? F.instantiations = .ok l ∧
      ∀ d ∈ l.dependencies, d ∈ S

/-- What is reported about a family of a plan: nothing if it is generic, and otherwise either that
its instantiations have no common layout, or that it has one which refers to a family that is not
generic, by the name of that family. -/
inductive Reported (g : TypeGraph) (p : Plan) (F : Family) : Diagnostics → Prop
  | generic {l : SharedLayout} (hp : F.policy = .generic l) : Reported g p F []
  | ambiguous {m : Mismatch} {w : Diagnostic} (hp : F.policy = .specialized)
    (h : SharedLayout.ofInstantiations g p.familyOf? F.instantiations = .error m)
    (finding : w.finding = .ambiguousTemplateGrouping)
    (symbol : w.symbol = symbolOf? g F.instantiations)
    (message : w.message = "instantiations of `" ++ F.key.path
      ++ "` cannot share a generic declaration: " ++ m.message
      ++ "; emitting one declaration per instantiation") : Reported g p F [w]
  | demoted {l : SharedLayout} {d : Nat} {B : Family} {w : Diagnostic}
    (hp : F.policy = .specialized)
    (h : SharedLayout.ofInstantiations g p.familyOf? F.instantiations = .ok l)
    (hd : d ∈ l.dependencies) (hB : p.families[d]? = some B) (hb : B.policy.isGeneric = false)
    (finding : w.finding = .templateDemoted)
    (symbol : w.symbol = symbolOf? g F.instantiations)
    (message : w.message = "`" ++ F.key.path ++ "` refers to `" ++ B.key.path
      ++ "`, which has no generic declaration; emitting one declaration per instantiation") :
    Reported g p F [w]

/-- What demoting comes to: the greatest set of families that can all be generic, in whatever
order families are visited, and one report for every other family. -/
structure Demoted (g : TypeGraph) (p : Plan) (reports : Diagnostics) : Prop where
  greatest : IsGreatest {S | Sustains g p S} (generics p.families)
  stable : ∀ F ∈ p.families, blocker? p.families F = none
  anyOrder : ∀ rounds : List (List Nat), p.families.length ≤ rounds.length →
    (∀ round ∈ rounds, ∀ f < p.families.length, f ∈ round) →
      (demoteEach g (undemoted g) rounds.flatten).1 = p.families
  reported : ∀ F ∈ p.families, Reported g p F (about g F reports)
  exists_family : ∀ w ∈ reports, ∃ F ∈ p.families, w.symbol = symbolOf? g F.instantiations

variable {options : Options}

/-- Families can all be generic if and only if they sustain each other before any is demoted. -/
theorem sustained_undemoted_iff (options : Options) :
    Sustained (undemoted g) S ↔ Sustains g (ofGraph options g).1 S := by
  have hsame : (undemoted g).map group = (ofGraph options g).1.families.map group :=
    (group_decided g).trans (group_families options g).symm
  have hget {fs fs' : List Family} (h : fs.map group = fs'.map group) {f : Nat} {F : Family}
      (hF : fs[f]? = some F) : ∃ F', fs'[f]? = some F' ∧ group F' = group F := by
    have hmap := congrArg (·[f]?) h
    simp only [List.getElem?_map, hF, Option.map_some] at hmap
    exact Option.map_eq_some_iff.1 hmap.symm
  refine forall₂_congr fun f _ => ?_
  constructor
  · rintro ⟨F, l, hF, hl, hdeps⟩
    obtain ⟨F', hF', hgroup⟩ := hget hsame hF
    refine ⟨F', l, hF', ?_, hdeps⟩
    rw [familyOf?_ofGraph, (Prod.mk.inj hgroup).2]
    exact (policy_undemoted (List.mem_of_getElem? hF)).1 hl
  · rintro ⟨F', l, hF', hl, hdeps⟩
    obtain ⟨F, hF, hgroup⟩ := hget hsame.symm hF'
    refine ⟨F, l, hF, (policy_undemoted (List.mem_of_getElem? hF)).2 ?_, hdeps⟩
    rwa [(Prod.mk.inj hgroup).2, ← familyOf?_ofGraph options]

/-- Every family of a plan is left as unification decided or demoted, and reported accordingly. -/
theorem reported_ofGraph (hg : g.Tidy) (hunify : options.unifyTemplates = true) {F : Family}
    (hF : F ∈ (ofGraph options g).1.families) :
    Reported g (ofGraph options g).1 F (about g F (ofGraph options g).2) := by
  obtain ⟨is, hfamilies, hreports, -⟩ := undemoted_demotes (g := g) hunify
  have hdistinct := distinct_undemoted hg
  obtain ⟨f, hf⟩ := List.mem_iff_getElem?.1 hF
  have hgroup : ((undemoted g).map group)[f]? = some (group F) := by
    rw [undemoted, group_decided, ← group_families options, List.getElem?_map, hf]
    rfl
  rw [List.getElem?_map, Option.map_eq_some_iff] at hgroup
  obtain ⟨F', hF', hgroup⟩ := hgroup
  have hmem := List.mem_of_getElem? hF'
  have hids : F'.instantiations = F.instantiations := congrArg Prod.snd hgroup
  obtain ⟨x, hx, rfl⟩ := List.mem_map.1 hmem
  have habout (ds : Diagnostics) : about g F ds = about g x.1 ds := by rw [about, about, hids]
  rw [hfamilies] at hf
  rw [hreports, about_append, habout, habout, about_decided hdistinct hx]
  rcases demoteEach_cases hdistinct is hF' with ⟨hstay, hnone⟩ | ⟨hfall, l, hl, d, hd, B, hB,
    hspecial, hnote⟩
  · obtain rfl := Option.some.inj (hf.symm.trans hstay)
    rw [hnone, List.append_nil]
    obtain ⟨⟨key, ids⟩, -, hjudge⟩ := List.mem_map.1 hx
    rw [judge] at hjudge
    split at hjudge
    · subst hjudge
      exact .generic rfl
    · next m hm =>
      subst hjudge
      exact .ambiguous rfl (by rwa [familyOf?_ofGraph]) rfl rfl rfl
  · obtain rfl := Option.some.inj (hf.symm.trans hfall)
    rw [notes_eq_nil_of_policy hx hl, hnote]
    refine .demoted rfl ?_ hd (by rwa [hfamilies]) hspecial rfl rfl rfl
    rw [familyOf?_ofGraph]
    exact (policy_undemoted hmem).1 hl

/-- In every plan for a graph that is built, the generic families are the greatest set of
families with common layouts that write nothing generically but each other, whatever the order
in which they are looked at, and every other family is reported exactly once. -/
theorem ofGraph_demoted {built : Options} {records : List SymbolRecord} {w : Diagnostics}
    (h : TypeGraph.ofRecords built records = .ok (g, w)) (hunify : options.unifyTemplates = true) :
    Demoted g (ofGraph options g).1 (ofGraph options g).2 := by
  have hg := TypeGraph.tidy_of_ofRecords h
  obtain ⟨is, hfamilies, hreports, hstable⟩ := undemoted_demotes (g := g) hunify
  have hstable' := hfamilies ▸ hstable
  have hlength : (ofGraph options g).1.families.length = (undemoted g).length := by
    rw [hfamilies, (demoteEach_demotes g is _).length_eq]
  refine ⟨?_, hstable, fun rounds hlen hrounds => ?_, fun F hF => reported_ofGraph hg hunify hF,
    fun e he => ?_⟩
  · have hgreatest := isGreatest_generics (dependsInside_undemoted g) hstable'
    simpa only [sustained_undemoted_iff options, ← hfamilies] using hgreatest
  · rw [hlength] at hlen hrounds
    rw [hfamilies]
    refine demoteEach_eq_of_stable (dependsInside_undemoted g) ?_ hstable'
    exact blocker?_demoteEach_flatten hrounds (List.countP_le_length.trans hlen)
  · have hundemoted : ∃ F ∈ undemoted g, e.symbol = symbolOf? g F.instantiations := by
      rw [hreports] at he
      rcases List.mem_append.1 he with he | he
      · obtain ⟨x, hx, hex⟩ := List.mem_flatMap.1 he
        exact ⟨x.1, List.mem_map_of_mem hx, symbol_of_mem_decided hx e hex⟩
      · exact symbol_of_mem_demoteEach is he
    obtain ⟨F', hF', hsymbol⟩ := hundemoted
    have hgroup := group_undemoted_mem hF'
    rw [← group_families options] at hgroup
    obtain ⟨F, hF, hsame⟩ := List.mem_map.1 hgroup
    exact ⟨F, hF, hsymbol.trans (congrArg (symbolOf? g ·.2) hsame.symm)⟩

/-- A template that writes one that writes one without a common layout, recorded in this order,
and a template that writes nothing but itself. -/
def chainAndNode : List SymbolRecord :=
  [.ofPrimitive ⟨1⟩ "int" 4,
    .ofPrimitive ⟨2⟩ "char" 1,
    .ofPointer ⟨3⟩ (some ⟨1⟩) 8,
    (SymbolRecord.ofInstantiation ⟨10⟩ "Outer<int>" 8 [⟨1⟩]).addField "inner" ⟨12⟩ 0,
    (SymbolRecord.ofInstantiation ⟨11⟩ "Outer<char>" 8 [⟨2⟩]).addField "inner" ⟨13⟩ 0,
    (SymbolRecord.ofInstantiation ⟨12⟩ "Wrap<int>" 8 [⟨1⟩]).addField "odd" ⟨14⟩ 0,
    (SymbolRecord.ofInstantiation ⟨13⟩ "Wrap<char>" 8 [⟨2⟩]).addField "odd" ⟨15⟩ 0,
    (SymbolRecord.ofInstantiation ⟨14⟩ "Odd<int>" 8 [⟨1⟩]).addField "value" ⟨1⟩ 0,
    (SymbolRecord.ofInstantiation ⟨15⟩ "Odd<char>" 8 [⟨2⟩]).addField "value" ⟨3⟩ 0,
    (SymbolRecord.ofInstantiation ⟨16⟩ "Node<int>" 8 [⟨1⟩]).addField "next" ⟨18⟩ 0,
    (SymbolRecord.ofInstantiation ⟨17⟩ "Node<char>" 8 [⟨2⟩]).addField "next" ⟨19⟩ 0,
    .ofPointer ⟨18⟩ (some ⟨16⟩) 8,
    .ofPointer ⟨19⟩ (some ⟨17⟩) 8]

theorem exists_ofRecords_chainAndNode : ∃ g w, TypeGraph.ofRecords {} chainAndNode = .ok (g, w) ∧
    (ofGraph {} g).1.families.map (·.policy.isGeneric) = [false, false, false, true] ∧
    (ofGraph {} g).2.map (fun d => (d.finding, d.symbol)) =
      [(.ambiguousTemplateGrouping, some ⟨14⟩), (.templateDemoted, some ⟨12⟩),
        (.templateDemoted, some ⟨10⟩)] :=
  TypeGraph.exists_ofRecords_and (by decide +kernel)

/-- The whole chain is demoted, and the template that writes itself is not. -/
theorem chainAndNode_demoted : ∃ g w, TypeGraph.ofRecords {} chainAndNode = .ok (g, w) ∧
    (ofGraph {} g).1.families.map (·.policy.isGeneric) = [false, false, false, true] ∧
    Demoted g (ofGraph {} g).1 (ofGraph {} g).2 := by
  obtain ⟨g, w, h, hgeneric, -⟩ := exists_ofRecords_chainAndNode
  exact ⟨g, w, h, hgeneric, ofGraph_demoted h rfl⟩

end NativeBindings.Plan
