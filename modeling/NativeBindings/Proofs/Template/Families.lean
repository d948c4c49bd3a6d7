import Mathlib.Data.List.Nodup
import NativeBindings.Proofs.Template.SharedLayout
import NativeBindings.Template.Plan

/-!
# Families

Grouping puts every instantiation into one family, that of its template, and leaves no family
empty (`Plan.Groups`). Unifying and demoting change the policies alone, and only ever from
generic to specialized (`Plan.Demotes`). So the families of a plan are the groups, and a layout
in the plan is the one that the instantiations of the group have in common
(`Plan.ofInstantiations_of_policy`).

Every round of demotions but the last one leaves fewer generic families, so the rounds suffice
and in the end nothing is blocked (`Plan.isGeneric_of_mem_dependencies`).
-/

namespace NativeBindings.Plan

/-! ## Grouping -/

/-- Nonempty groups of those nodes that have a key, one for each key, in the order of the nodes. -/
structure Groups (key? : NodeId → Option TemplateKey) (ids : List NodeId)
    (groups : List (TemplateKey × List NodeId)) : Prop where
  nodup : (groups.map (·.1)).Nodup
  ne_nil : ∀ x ∈ groups, x.2 ≠ []
  eq_filter : ∀ x ∈ groups, x.2 = ids.filter fun id => key? id = some x.1
  exists_mem : ∀ id ∈ ids, ∀ key, key? id = some key → key ∈ groups.map (·.1)

/-- A node leaves the keys as they are, with its own at the end if it is new. -/
theorem map_fst_addTo (key : TemplateKey) (id : NodeId)
    (groups : List (TemplateKey × List NodeId)) : (addTo key id groups).map (·.1) =
      if key ∈ groups.map (·.1) then groups.map (·.1) else groups.map (·.1) ++ [key] := by
  induction groups with
  | nil => simp [addTo]
  | cons x groups ih =>
    obtain ⟨k, ids⟩ := x
    rw [addTo]
    split
    · next h => simp [h]
    · next h =>
      simp only [List.map_cons, ih, List.mem_cons, eq_comm (a := key), h, false_or]
      split <;> rfl

/-- A group to which a node was added is an old one of another key, an old one with the node behind
the others, or new. -/
theorem mem_addTo {key : TemplateKey} {id : NodeId} {groups : List (TemplateKey × List NodeId)}
    (hnodup : (groups.map (·.1)).Nodup) {x : TemplateKey × List NodeId}
    (hx : x ∈ addTo key id groups) :
    (x.1 ≠ key ∧ x ∈ groups) ∨ (∃ ids, (key, ids) ∈ groups ∧ x = (key, ids ++ [id])) ∨
      (key ∉ groups.map (·.1) ∧ x = (key, [id])) := by
  induction groups with
  | nil => exact Or.inr (Or.inr ⟨List.not_mem_nil, List.mem_singleton.1 hx⟩)
  | cons y groups ih =>
    obtain ⟨k, ids⟩ := y
    obtain ⟨hk, hrest⟩ := List.nodup_cons.1 hnodup
    rw [addTo] at hx
    split at hx
    · next heq =>
      subst heq
      rcases List.mem_cons.1 hx with rfl | hx
      · exact Or.inr (Or.inl ⟨ids, List.mem_cons_self, rfl⟩)
      · have hmem : x.1 ∈ groups.map (·.1) := List.mem_map_of_mem hx
        exact Or.inl ⟨fun hxk => hk (hxk ▸ hmem), List.mem_cons_of_mem _ hx⟩
    · next hne =>
      rcases List.mem_cons.1 hx with rfl | hx
      · exact Or.inl ⟨hne, List.mem_cons_self⟩
      · rcases ih hrest hx with ⟨hx₁, hx₂⟩ | ⟨ids', hmem, rfl⟩ | ⟨hnot, rfl⟩
        · exact Or.inl ⟨hx₁, List.mem_cons_of_mem _ hx₂⟩
        · exact Or.inr (Or.inl ⟨ids', List.mem_cons_of_mem _ hmem, rfl⟩)
        · refine Or.inr (Or.inr ⟨?_, rfl⟩)
          simpa [Ne.symm hne] using hnot

namespace Groups

variable {key? : NodeId → Option TemplateKey} {ids : List NodeId}
  {groups : List (TemplateKey × List NodeId)}

theorem mem_iff (h : Groups key? ids groups) {x : TemplateKey × List NodeId} (hx : x ∈ groups)
    (id : NodeId) : id ∈ x.2 ↔ id ∈ ids ∧ key? id = some x.1 := by
  simp [h.eq_filter x hx]

/-- There is one group for each key, also with one more node. -/
theorem nodup_addTo (h : Groups key? ids groups) (id : NodeId) (key : TemplateKey) :
    ((addTo key id groups).map (·.1)).Nodup := by
  rw [map_fst_addTo]
  split
  · exact h.nodup
  · next hnot =>
    rw [← List.concat_eq_append]
    exact h.nodup.concat hnot

/-- A group of the new node's key gets this node, and other groups stay. -/
theorem eq_filter_addTo (h : Groups key? ids groups) {id : NodeId} {key : TemplateKey}
    (hkey : key? id = some key) {x : TemplateKey × List NodeId} (hx : x ∈ addTo key id groups) :
    x.2 = (ids ++ [id]).filter fun id' => key? id' = some x.1 := by
  rw [List.filter_append]
  rcases mem_addTo h.nodup hx with ⟨hne, hx⟩ | ⟨ids', hmem, rfl⟩ | ⟨hnot, rfl⟩
  · simp [← h.eq_filter x hx, hkey, Ne.symm hne]
  · simp [← h.eq_filter _ hmem, hkey]
  · have hnone : ids.filter (fun id' => key? id' = some key) = [] :=
      List.filter_eq_nil_iff.2 fun id' hid hkey' =>
        hnot (h.exists_mem id' hid key (of_decide_eq_true hkey'))
    simp [hnone, hkey]

/-- A node with a key goes into the group of this key. -/
theorem addTo (h : Groups key? ids groups) {id : NodeId} {key : TemplateKey}
    (hkey : key? id = some key) : Groups key? (ids ++ [id]) (addTo key id groups) where
  nodup := h.nodup_addTo id key
  ne_nil x hx := by
    rcases mem_addTo h.nodup hx with ⟨-, hx⟩ | ⟨ids', -, rfl⟩ | ⟨-, rfl⟩
    · exact h.ne_nil x hx
    · simp
    · simp
  eq_filter _ hx := h.eq_filter_addTo hkey hx
  exists_mem id' hid' key' hkey' := by
    rw [map_fst_addTo]
    rcases List.mem_append.1 hid' with hid' | hid'
    · have hmem := h.exists_mem id' hid' key' hkey'
      split <;> simp_all
    · obtain rfl := List.mem_singleton.1 hid'
      obtain rfl := Option.some.inj (hkey.symm.trans hkey')
      split <;> simp_all

theorem skip (h : Groups key? ids groups) {id : NodeId} (hkey : key? id = none) :
    Groups key? (ids ++ [id]) groups := by
  refine ⟨h.nodup, h.ne_nil, fun x hx => ?_, fun id' hid' key' hkey' => ?_⟩
  · simp [← h.eq_filter x hx, hkey]
  · rcases List.mem_append.1 hid' with hid' | hid'
    · exact h.exists_mem id' hid' key' hkey'
    · obtain rfl := List.mem_singleton.1 hid'
      rw [hkey] at hkey'
      cases hkey'

/-- A group is told by any of its members. -/
theorem eq_of_mem (h : Groups key? ids groups) {x y : TemplateKey × List NodeId}
    (hx : x ∈ groups) (hy : y ∈ groups) {id : NodeId} (hidx : id ∈ x.2) (hidy : id ∈ y.2) :
    x = y := by
  have hkeyx := ((h.mem_iff hx id).1 hidx).2
  have hkeyy := ((h.mem_iff hy id).1 hidy).2
  exact List.inj_on_of_nodup_map h.nodup hx hy (Option.some.inj (hkeyx.symm.trans hkeyy))

/-- A node is in one group at most, so the first that holds it is the one. -/
theorem findIdx?_eq_some_iff (h : Groups key? ids groups) {id : NodeId} {f : Nat} :
    groups.findIdx? (id ∈ ·.2) = some f ↔ ∃ x, groups[f]? = some x ∧ id ∈ x.2 := by
  rw [List.findIdx?_eq_some_iff_getElem]
  constructor
  · rintro ⟨hf, hid, -⟩
    exact ⟨groups[f], List.getElem?_eq_getElem hf, by simpa using hid⟩
  · rintro ⟨x, hx, hid⟩
    obtain ⟨hf, rfl⟩ := List.getElem?_eq_some_iff.1 hx
    refine ⟨hf, by simpa using hid, fun j hj => ?_⟩
    simp only [decide_eq_true_eq]
    intro hid'
    have hsame := h.eq_of_mem (List.getElem_mem _) (List.getElem_mem _) hid' hid
    have hjf := (h.nodup.of_map.getElem_inj_iff).1 hsame
    omega

/-- Groups are made node by node. -/
theorem foldl (h : Groups key? ids groups)
    {step : List (TemplateKey × List NodeId) → NodeId → List (TemplateKey × List NodeId)}
    (hadd : ∀ groups id key, key? id = some key → step groups id = Plan.addTo key id groups)
    (hskip : ∀ groups id, key? id = none → step groups id = groups) (rest : List NodeId) :
    Groups key? (ids ++ rest) (rest.foldl step groups) := by
  induction rest generalizing ids groups with
  | nil => simpa using h
  | cons id rest ih =>
    rw [List.foldl_cons, List.append_cons]
    cases hkey : key? id with
    | some key =>
      rw [hadd groups id key hkey]
      exact ih (h.addTo hkey)
    | none =>
      rw [hskip groups id hkey]
      exact ih (h.skip hkey)

end Groups

/-- The families of a graph are its instantiations, grouped by template. -/
theorem groups_grouped (g : TypeGraph) : Groups (keyOf? g) g.instantiations (grouped g) := by
  have hempty : Groups (keyOf? g) [] [] := ⟨List.nodup_nil, by simp, by simp, by simp⟩
  refine hempty.foldl (fun groups id key hkey => ?_) (fun groups id hkey => ?_) g.instantiations
  · rw [hkey]
  · rw [hkey]

/-! ## Demotion -/

/-- The template and the instantiations of a family. -/
def group (F : Family) : TemplateKey × List NodeId :=
  (F.key, F.instantiations)

/-- Demoting keeps the groups, and every family that is still generic. -/
structure Demotes (fs fs' : List Family) : Prop where
  group : fs'.map group = fs.map group
  generic : ∀ {f : Nat} {F : Family}, fs'[f]? = some F → F.policy.isGeneric = true →
    fs[f]? = some F

theorem Demotes.refl (fs : List Family) : Demotes fs fs :=
  ⟨rfl, fun hF _ => hF⟩

theorem Demotes.trans {fs fs' fs'' : List Family} (h : Demotes fs fs') (h' : Demotes fs' fs'') :
    Demotes fs fs'' :=
  ⟨h'.group.trans h.group, fun hF hgeneric => h.generic (h'.generic hF hgeneric) hgeneric⟩

/-- What blocks a family is written generically by it, and is not generic itself. -/
theorem exists_of_blocker? {fs : List Family} {F B : Family} (h : blocker? fs F = some B) :
    ∃ l, F.policy = .generic l ∧
      ∃ d ∈ l.dependencies, fs[d]? = some B ∧ B.policy.isGeneric = false := by
  unfold blocker? at h
  split at h
  · cases h
  · next l hl =>
    obtain ⟨d, hd, hB⟩ := List.mem_filterMap.1 (List.mem_of_find?_eq_some h)
    exact ⟨l, hl, d, hd, hB, by simpa using List.find?_some h⟩

/-- Only generic families are blocked. -/
theorem isGeneric_of_blocker? {fs : List Family} {F B : Family} (h : blocker? fs F = some B) :
    F.policy.isGeneric = true := by
  obtain ⟨l, hl, -⟩ := exists_of_blocker? h
  rw [hl]
  rfl

/-- Looking at a family either leaves everything as it is, or demotes the family with a note. -/
theorem demoteAt_cases (g : TypeGraph) (fs : List Family) (i : Nat) :
    (demoteAt g fs i = (fs, []) ∧ ∀ F, fs[i]? = some F → blocker? fs F = none) ∨
      ∃ F B, fs[i]? = some F ∧ blocker? fs F = some B ∧
        demoteAt g fs i = (fs.set i { F with policy := .specialized }, [demotionNote g F B]) := by
  unfold demoteAt
  split
  · next hnone => exact Or.inl ⟨rfl, by simp [hnone]⟩
  · next F hF =>
    split
    · next hblock =>
      refine Or.inl ⟨rfl, fun F' hF' => ?_⟩
      obtain rfl := Option.some.inj (hF.symm.trans hF')
      exact hblock
    · next B hblock => exact Or.inr ⟨F, B, hF, hblock, rfl⟩

theorem demotes_set {fs : List Family} {i : Nat} {F : Family} (hF : fs[i]? = some F) :
    Demotes fs (fs.set i { F with policy := .specialized }) := by
  obtain ⟨hi, rfl⟩ := List.getElem?_eq_some_iff.1 hF
  refine ⟨?_, fun {f G} hG hgeneric => ?_⟩
  · rw [List.map_set]
    refine List.ext_getElem? fun k => ?_
    rw [List.getElem?_set]
    split
    · next hik =>
      subst hik
      simp [group, hi]
    · rfl
  · rw [List.getElem?_set] at hG
    split at hG
    · next hif =>
      obtain rfl := Option.some.inj hG
      cases hgeneric
    · exact hG

/-- Looking at a family demotes it or nothing. -/
theorem demoteAt_demotes (g : TypeGraph) (fs : List Family) (i : Nat) :
    Demotes fs (demoteAt g fs i).1 := by
  rcases demoteAt_cases g fs i with ⟨heq, -⟩ | ⟨F, B, hF, -, heq⟩
  · rw [heq]
    exact .refl fs
  · rw [heq]
    exact demotes_set hF

theorem demoteEach_cons (g : TypeGraph) (fs : List Family) (i : Nat) (is : List Nat) :
    demoteEach g fs (i :: is) = ((demoteEach g (demoteAt g fs i).1 is).1,
      (demoteAt g fs i).2 ++ (demoteEach g (demoteAt g fs i).1 is).2) :=
  rfl

theorem demoteEach_demotes (g : TypeGraph) (is : List Nat) (fs : List Family) :
    Demotes fs (demoteEach g fs is).1 := by
  induction is generalizing fs with
  | nil => exact .refl fs
  | cons i is ih => exact (demoteAt_demotes g fs i).trans (ih _)

/-- Any number of rounds demotes some of the families. -/
theorem demoteAll_demotes (g : TypeGraph) (fuel : Nat) (fs : List Family) :
    Demotes fs (demoteAll g fuel fs).1 := by
  induction fuel generalizing fs with
  | zero => exact .refl fs
  | succ fuel ih =>
    have heach := demoteEach_demotes g (List.range fs.length) fs
    rw [demoteAll]
    split
    · next fs' heq =>
      rwa [heq] at heach
    · next fs' d ds heq =>
      rw [heq] at heach
      exact heach.trans (ih fs')

theorem policy_eq_generic_iff {p : Policy} {l : SharedLayout} :
    p = .generic l ↔ p.layout? = some l := by
  cases p <;> simp [Policy.layout?]

theorem exists_generic_of_isGeneric {p : Policy} (h : p.isGeneric = true) :
    ∃ l, p = .generic l := by
  obtain ⟨l, hl⟩ := Option.isSome_iff_exists.1 h
  exact ⟨l, policy_eq_generic_iff.2 hl⟩

/-! ### Enough rounds -/

/-- How many families are generic. -/
def genericCount (fs : List Family) : Nat :=
  fs.countP (·.policy.isGeneric)

/-- Every note is about one family that is no longer generic. -/
theorem genericCount_demoteEach (g : TypeGraph) (is : List Nat) (fs : List Family) :
    genericCount (demoteEach g fs is).1 + (demoteEach g fs is).2.length = genericCount fs := by
  induction is generalizing fs with
  | nil => rfl
  | cons i is ih =>
    rw [demoteEach_cons]
    simp only [List.length_append]
    rcases demoteAt_cases g fs i with ⟨heq, -⟩ | ⟨F, B, hF, hblock, heq⟩
    · simpa [heq] using ih fs
    · have hgeneric := isGeneric_of_blocker? hblock
      have hrest := ih (fs.set i { F with policy := .specialized })
      obtain ⟨hi, hget⟩ := List.getElem?_eq_some_iff.1 hF
      have hpos : 0 < genericCount fs :=
        List.countP_pos_iff.2 ⟨F, List.mem_of_getElem? hF, hgeneric⟩
      have hset : genericCount (fs.set i { F with policy := .specialized }) =
          genericCount fs - 1 := by
        rw [genericCount, List.countP_set hi, hget, if_pos hgeneric]
        rfl
      rw [hset] at hrest
      simp only [heq, List.length_singleton]
      omega

/-- A round without a note changes nothing, since it has seen that nothing is blocked. -/
theorem demoteEach_of_nil {g : TypeGraph} {is : List Nat} {fs fs' : List Family}
    (h : demoteEach g fs is = (fs', [])) :
    fs' = fs ∧ ∀ i ∈ is, ∀ F, fs[i]? = some F → blocker? fs F = none := by
  induction is generalizing fs with
  | nil =>
    obtain ⟨rfl, -⟩ := Prod.mk.inj h
    exact ⟨rfl, by simp⟩
  | cons i is ih =>
    rw [demoteEach_cons] at h
    obtain ⟨hfs, hnotes⟩ := Prod.mk.inj h
    rcases demoteAt_cases g fs i with ⟨heq, hblock⟩ | ⟨F, B, -, -, heq⟩
    · rw [heq] at hfs hnotes
      obtain ⟨rfl, hrest⟩ := ih (Prod.ext hfs hnotes)
      refine ⟨rfl, fun j hj => ?_⟩
      rcases List.mem_cons.1 hj with rfl | hj
      · exact hblock
      · exact hrest j hj
    · rw [heq] at hnotes
      cases hnotes

/-- With more rounds than generic families nothing is blocked in the end. -/
theorem blocker?_demoteAll {g : TypeGraph} {fuel : Nat} {fs : List Family}
    (h : genericCount fs < fuel) :
    ∀ F ∈ (demoteAll g fuel fs).1, blocker? (demoteAll g fuel fs).1 F = none := by
  induction fuel generalizing fs with
  | zero => exact absurd h (Nat.not_lt_zero _)
  | succ fuel ih =>
    have hcount := genericCount_demoteEach g (List.range fs.length) fs
    rw [demoteAll]
    split
    · next fs' heq =>
      obtain ⟨rfl, hblock⟩ := demoteEach_of_nil heq
      intro F hF
      obtain ⟨i, hi⟩ := List.mem_iff_getElem?.1 hF
      obtain ⟨hlt, -⟩ := List.getElem?_eq_some_iff.1 hi
      exact hblock i (List.mem_range.2 hlt) F hi
    · next fs' d ds heq =>
      rw [heq] at hcount
      simp only [List.length_cons] at hcount
      exact ih (by omega)

/-- All that is noted while demoting is that a template was demoted. -/
theorem finding_demoteAll {g : TypeGraph} {fuel : Nat} {fs : List Family} :
    ∀ d ∈ (demoteAll g fuel fs).2, d.finding = .templateDemoted := by
  have heach (is : List Nat) (fs : List Family) :
      ∀ d ∈ (demoteEach g fs is).2, d.finding = .templateDemoted := by
    induction is generalizing fs with
    | nil => simp [demoteEach]
    | cons i is ih =>
      rw [demoteEach_cons]
      intro d hd
      rcases List.mem_append.1 hd with hd | hd
      · rcases demoteAt_cases g fs i with ⟨heq, -⟩ | ⟨F, B, -, -, heq⟩
        · simp [heq] at hd
        · rw [heq] at hd
          obtain rfl := List.mem_singleton.1 hd
          rfl
      · exact ih _ d hd
  induction fuel generalizing fs with
  | zero => simp [demoteAll]
  | succ fuel ih =>
    have hround := heach (List.range fs.length) fs
    rw [demoteAll]
    split
    · simp
    · next fs' d ds heq =>
      rw [heq] at hround
      intro e he
      rcases List.mem_append.1 he with he | he
      · exact hround e he
      · exact ih e he

/-! ## The plan of a graph -/

section

variable {options : Options} {g : TypeGraph}

theorem judge_group (familyOf : NodeId → Option Nat) (x : TemplateKey × List NodeId) :
    group (judge g familyOf x).1 = x := by
  obtain ⟨key, ids⟩ := x
  rw [judge]
  split <;> rfl

/-- The families that unification leaves, before any is demoted. -/
def decided (g : TypeGraph) : List (Family × Diagnostics) :=
  (grouped g).map (judge g fun id => (grouped g).findIdx? (id ∈ ·.2))

theorem ofGraph_of_unify (h : options.unifyTemplates = true) : ofGraph options g =
    let families := (decided g).map (·.1)
    (⟨(demoteAll g (families.length + 1) families).1⟩,
      (decided g).flatMap (·.2) ++ (demoteAll g (families.length + 1) families).2) := by
  rw [ofGraph, if_pos h]
  rfl

/-- If templates are not to be unified, all of them are special, without a report. -/
theorem ofGraph_of_not_unify (h : options.unifyTemplates = false) : ofGraph options g =
    (⟨(grouped g).map fun x => ⟨x.1, x.2, .specialized⟩⟩, []) := by
  rw [ofGraph, if_neg (by simp [h])]

/-- The families that are judged are the groups of the graph. -/
theorem group_decided (g : TypeGraph) : ((decided g).map (·.1)).map group = grouped g := by
  simp only [decided, List.map_map, Function.comp_def, judge_group, List.map_id']

/-- What a group holds are kept instantiations of the graph. -/
theorem exists_instantiates_of_mem_group {x : TemplateKey × List NodeId} (hx : x ∈ grouped g)
    {id : NodeId} (hid : id ∈ x.2) : id ∈ g.classes ∧ ∃ args u, g.Instantiates id args u := by
  obtain ⟨hmem, hkey⟩ := ((groups_grouped g).mem_iff hx id).1 hid
  obtain ⟨hclass, l, args, hn⟩ := TypeGraph.mem_instantiations_iff.1 hmem
  obtain ⟨u, hu, -⟩ := Option.map_eq_some_iff.1 hkey
  refine ⟨hclass, args, u, l, hn, ?_⟩
  simpa [TypeGraph.layoutType?, Arena.layoutType?, Arena.layout?, hn] using hu

variable (options : Options) (g : TypeGraph)

/-- Policies apart, the families are the groups. -/
theorem group_families : (ofGraph options g).1.families.map group = grouped g := by
  cases h : options.unifyTemplates with
  | true =>
    rw [ofGraph_of_unify h]
    exact (demoteAll_demotes g _ _).group.trans (group_decided g)
  | false =>
    rw [ofGraph_of_not_unify h]
    simp [group, Function.comp_def]

/-- The family of an instantiation is its group, whatever was demoted. -/
theorem familyOf?_ofGraph :
    (ofGraph options g).1.familyOf? = fun id => (grouped g).findIdx? (id ∈ ·.2) := by
  funext id
  rw [familyOf?, ← group_families options, List.findIdx?_map]
  rfl

variable {options g}

/-- An instantiation is in the one family that lists it. -/
theorem familyOf?_eq_some_iff {id : NodeId} {f : Nat} :
    (ofGraph options g).1.familyOf? id = some f ↔
      ∃ F, (ofGraph options g).1.families[f]? = some F ∧ id ∈ F.instantiations := by
  rw [familyOf?_ofGraph, (groups_grouped g).findIdx?_eq_some_iff, ← group_families options,
    List.getElem?_map]
  simp only [Option.map_eq_some_iff]
  constructor
  · rintro ⟨_, ⟨F, hF, rfl⟩, hid⟩
    exact ⟨F, hF, hid⟩
  · rintro ⟨F, hF, hid⟩
    exact ⟨_, ⟨F, hF, rfl⟩, hid⟩

section

variable {F : Family} (hF : F ∈ (ofGraph options g).1.families)

include hF

theorem group_mem_grouped : group F ∈ grouped g := by
  rw [← group_families options]
  exact List.mem_map_of_mem hF

theorem instantiations_ne_nil : F.instantiations ≠ [] :=
  (groups_grouped g).ne_nil _ (group_mem_grouped hF)

/-- What a family holds are kept instantiations of the graph. -/
theorem exists_instantiates {id : NodeId} (hid : id ∈ F.instantiations) :
    id ∈ g.classes ∧ ∃ args u, g.Instantiates id args u :=
  exists_instantiates_of_mem_group (group_mem_grouped hF) hid

/-- The layout of a generic family is the one that its instantiations have in common. -/
theorem ofInstantiations_of_policy {l : SharedLayout} (hl : F.policy = .generic l) :
    SharedLayout.ofInstantiations g (ofGraph options g).1.familyOf? F.instantiations = .ok l := by
  rw [familyOf?_ofGraph]
  cases h : options.unifyTemplates with
  | true =>
    rw [ofGraph_of_unify h] at hF
    obtain ⟨f, hf⟩ := List.mem_iff_getElem?.1 hF
    have hgeneric : F.policy.isGeneric = true := by rw [hl]; rfl
    have hmem := List.mem_of_getElem? ((demoteAll_demotes g _ _).generic hf hgeneric)
    obtain ⟨_, hx, rfl⟩ := List.mem_map.1 hmem
    obtain ⟨⟨key, ids⟩, -, rfl⟩ := List.mem_map.1 hx
    rw [judge] at hl ⊢
    split at hl
    · next l' hl' =>
      obtain rfl := Policy.generic.inj hl
      simp [hl']
    · cases hl
  | false =>
    rw [ofGraph_of_not_unify h] at hF
    obtain ⟨x, -, rfl⟩ := List.mem_map.1 hF
    cases hl

/-- What a generic family writes generically is generic. -/
theorem isGeneric_of_mem_dependencies {l : SharedLayout} (hl : F.policy = .generic l) {f : Nat}
    {F' : Family} (hf : f ∈ l.dependencies) (hF' : (ofGraph options g).1.families[f]? = some F') :
    F'.policy.isGeneric = true := by
  cases h : options.unifyTemplates with
  | true =>
    rw [ofGraph_of_unify h] at hF hF'
    have hcount : genericCount ((decided g).map (·.1)) < ((decided g).map (·.1)).length + 1 :=
      Nat.lt_succ_of_le List.countP_le_length
    have hblock := blocker?_demoteAll (g := g) hcount F hF
    simp only [blocker?, hl] at hblock
    have hall := List.find?_eq_none.1 hblock F' (List.mem_filterMap.2 ⟨f, hf, hF'⟩)
    simpa using hall
  | false =>
    rw [ofGraph_of_not_unify h] at hF
    obtain ⟨x, -, rfl⟩ := List.mem_map.1 hF
    cases hl

end

theorem exists_family_of_layout? {f : Nat} {l : SharedLayout}
    (h : (ofGraph options g).1.layout? f = some l) :
    ∃ F, (ofGraph options g).1.families[f]? = some F ∧ F.policy = .generic l := by
  obtain ⟨F, hF, hl⟩ := Option.bind_eq_some_iff.1 h
  exact ⟨F, hF, policy_eq_generic_iff.2 hl⟩

/-- The warnings about ambiguous families are those of the groups that have no common layout. -/
theorem mem_ambiguous_iff {w : Diagnostic} :
    w ∈ (ofGraph options g).2 ∧ w.finding = .ambiguousTemplateGrouping ↔
      options.unifyTemplates = true ∧ ∃ x ∈ grouped g, ∃ m,
        SharedLayout.ofInstantiations g (ofGraph options g).1.familyOf? x.2 = .error m ∧
          w = ambiguousWarning g x.1 x.2 m := by
  rw [familyOf?_ofGraph]
  cases h : options.unifyTemplates with
  | true =>
    have hjudge (x : TemplateKey × List NodeId) :
        w ∈ (judge g (fun id => (grouped g).findIdx? (id ∈ ·.2)) x).2 ↔ ∃ m,
          SharedLayout.ofInstantiations g (fun id => (grouped g).findIdx? (id ∈ ·.2)) x.2 =
            .error m ∧ w = ambiguousWarning g x.1 x.2 m := by
      obtain ⟨key, ids⟩ := x
      rw [judge]
      split
      · next l hl => simp [hl]
      · next m hm => simp [hm]
    rw [ofGraph_of_unify h]
    simp only [List.mem_append, List.mem_flatMap, decided, List.mem_map]
    constructor
    · rintro ⟨⟨_, ⟨x, hx, rfl⟩, hw⟩ | hw, hfinding⟩
      · exact ⟨trivial, x, hx, (hjudge x).1 hw⟩
      · rw [finding_demoteAll w hw] at hfinding
        cases hfinding
    · rintro ⟨-, x, hx, hw⟩
      refine ⟨Or.inl ⟨_, ⟨x, hx, rfl⟩, (hjudge x).2 hw⟩, ?_⟩
      obtain ⟨m, -, rfl⟩ := hw
      rfl
  | false =>
    rw [ofGraph_of_not_unify h]
    simp

end

end NativeBindings.Plan
