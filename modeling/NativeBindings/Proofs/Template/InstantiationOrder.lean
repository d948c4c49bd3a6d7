import NativeBindings.Proofs.Template.Demotion
import NativeBindings.Proofs.Template.Meets

/-!
# The order of instantiations

Layouts can be unified in any order, up to the choice of nodes for names on which all of them
agree (`SharedLayout.agree_unify_comm`, `SharedLayout.agree_unify_swap`). So the layout of a
family does not depend on the order of its instantiations, except that another node of the same
native name may stand for one (`SharedLayout.matches_ofInstantiations`). What the layout writes
generically does not depend on such nodes at all, and neither does which families are generic
in the end (`Plan.instantiations_perm`).
-/

namespace NativeBindings

theorem agreeing_comm {α : Type} [DecidableEq α] (a b : Option α) :
    agreeing a b = agreeing b a := by
  unfold agreeing
  grind

/-- Values agree in any order. -/
theorem agreeing_right_comm {α : Type} [DecidableEq α] (a b c : Option α) :
    agreeing (agreeing a b) c = agreeing (agreeing a c) b := by
  unfold agreeing
  grind

/-- Offsets agree column by column, in any order. -/
theorem zipWith_agreeing_right_comm {α : Type} [DecidableEq α] (as bs cs : List (Option α)) :
    List.zipWith agreeing (List.zipWith agreeing as bs) cs =
      List.zipWith agreeing (List.zipWith agreeing as cs) bs := by
  refine List.ext_getElem? fun k => ?_
  simp only [List.getElem?_zipWith]
  rcases as[k]? with - | a <;> rcases bs[k]? with - | b <;> rcases cs[k]? with - | c <;>
    simp [agreeing_right_comm]

namespace SharedLayout

/-! ## What unification gives -/

/-- Fields are known by their names, offsets and patterns. -/
theorem eq_of_columns {fs hs : List SharedField} (hnames : fs.map (·.name) = hs.map (·.name))
    (hoffsets : fs.map (·.offset) = hs.map (·.offset))
    (hpatterns : fs.map (·.pattern) = hs.map (·.pattern)) : fs = hs := by
  induction fs generalizing hs with
  | nil => exact (List.map_eq_nil_iff.1 hnames.symm).symm
  | cons f fs ih =>
    obtain ⟨h, hs, rfl, hname, hrest⟩ := List.map_eq_cons_iff.1 hnames.symm
    simp only [List.map_cons, List.cons.injEq] at hoffsets hpatterns
    have heq : f = h := by
      obtain ⟨name, offset, pattern⟩ := f
      obtain ⟨name', offset', pattern'⟩ := h
      cases hname
      cases hoffsets.1
      cases hpatterns.1
      rfl
    rw [heq, ih hrest.symm hoffsets.2 hpatterns.2]

variable {a b c d x : SharedLayout}

theorem Unifies.unique (h : Unifies a b c) (h' : Unifies a b d) : c = d := by
  have hfields : c.fields = d.fields :=
    eq_of_columns (h.fields.names_eq.trans h'.fields.names_eq.symm)
      (h.fields.offsets.trans h'.fields.offsets.symm)
      (Option.some.inj (h.fields.patterns.symm.trans h'.fields.patterns))
  have hbases := Option.some.inj (h.bases.symm.trans h'.bases)
  have harity := h.arity_eq.trans h'.arity_eq.symm
  have hsize := h.size.trans h'.size.symm
  cases c
  cases d
  simp_all

/-! ## The choice of nodes -/

/-- The layout without the choice of nodes for agreed names. -/
def anonymous (l : SharedLayout) : SharedLayout :=
  { l with
    fields := l.fields.map fun f => { f with pattern := f.pattern.anonymous }
    bases := Pattern.anonymousAll l.bases }

theorem names_anonymous (l : SharedLayout) :
    l.anonymous.fields.map (·.name) = l.fields.map (·.name) := by
  simp [anonymous]

theorem offsets_anonymous (l : SharedLayout) :
    l.anonymous.fields.map (·.offset) = l.fields.map (·.offset) := by
  simp [anonymous]

theorem patterns_anonymous (l : SharedLayout) :
    l.anonymous.fields.map (·.pattern) = Pattern.anonymousAll (l.fields.map (·.pattern)) := by
  simp [anonymous, Pattern.anonymousAll_eq_map]

/-- Layouts unify without their nodes to what they unify to with them. -/
theorem Unifies.anonymous (h : Unifies a b c) :
    Unifies a.anonymous b.anonymous c.anonymous where
  arity := h.arity
  arity_eq := h.arity_eq
  fields :=
    { names := by rw [names_anonymous, names_anonymous, h.fields.names]
      names_eq := by rw [names_anonymous, names_anonymous, h.fields.names_eq]
      patterns := by
        simp only [patterns_anonymous, ← Pattern.unifyAll_anonymous, h.fields.patterns,
          Option.map_some]
      offsets := by simp only [offsets_anonymous, h.fields.offsets] }
  bases := by
    rw [SharedLayout.anonymous, SharedLayout.anonymous, SharedLayout.anonymous,
      ← Pattern.unifyAll_anonymous, h.bases, Option.map_some]
  size := h.size

/-- Layouts unify as they do without the choice of nodes. -/
theorem exists_unify_anonymous_iff :
    (∃ c, a.unify b = .ok c ∧ c.anonymous = d) ↔ Unifies a.anonymous b.anonymous d := by
  constructor
  · rintro ⟨c, hc, rfl⟩
    exact (unifies_of_unify hc).anonymous
  · intro h
    have hpatterns := h.fields.patterns
    have hbases := h.bases
    simp only [patterns_anonymous, ← Pattern.unifyAll_anonymous,
      Option.map_eq_some_iff] at hpatterns
    obtain ⟨us, hus, -⟩ := hpatterns
    simp only [anonymous, ← Pattern.unifyAll_anonymous, Option.map_eq_some_iff] at hbases
    obtain ⟨vs, hvs, -⟩ := hbases
    have hnames := h.fields.names
    rw [names_anonymous, names_anonymous] at hnames
    have harity : b.arity = a.arity := h.arity
    obtain ⟨c, hc⟩ := exists_unify_of_parts harity hnames hus hvs
    exact ⟨c, hc, (unifies_of_unify hc).anonymous.unique h⟩

/-- Layouts without nodes unify in any order. -/
theorem Unifies.comm (h : Unifies a.anonymous b.anonymous c) :
    Unifies b.anonymous a.anonymous c where
  arity := h.arity.symm
  arity_eq := h.arity_eq.trans h.arity.symm
  fields :=
    { names := h.fields.names.symm
      names_eq := h.fields.names_eq.trans h.fields.names
      patterns := by
        rw [← h.fields.patterns, patterns_anonymous, patterns_anonymous,
          Pattern.unifyAll_anonymousAll_comm]
      offsets := by
        rw [h.fields.offsets, List.zipWith_comm]
        simp only [agreeing_comm] }
  bases := by
    rw [← h.bases]
    exact Pattern.unifyAll_anonymousAll_comm _ _
  size := h.size.trans (agreeing_comm _ _)

/-- Two layouts can be unified with a third one in either order. -/
theorem Unifies.swap {m : SharedLayout} (h : Unifies x a.anonymous m)
    (h' : Unifies m b.anonymous d) : ∃ n, Unifies x b.anonymous n ∧ Unifies n a.anonymous d := by
  have hpatterns := h.fields.patterns
  have hpatterns' := h'.fields.patterns
  rw [patterns_anonymous] at hpatterns hpatterns'
  obtain ⟨us, hus, hd⟩ := Pattern.exists_unifyAll_swap hpatterns hpatterns'
  obtain ⟨vs, hvs, hbases⟩ := Pattern.exists_unifyAll_swap h.bases h'.bases
  rw [← patterns_anonymous] at hus
  have hnames := h.fields.names_eq.symm.trans h'.fields.names
  have harity : b.arity = x.arity := h'.arity.trans h.arity_eq
  obtain ⟨n, hn⟩ := exists_unify_of_parts (b := b.anonymous) harity hnames hus hvs
  have hxn := unifies_of_unify hn
  refine ⟨n, hxn, h.arity.trans hxn.arity_eq.symm, ?_, ⟨?_, ?_, ?_, ?_⟩, ?_, ?_⟩
  · rw [h'.arity_eq, h.arity_eq, hxn.arity_eq]
  · rw [hxn.fields.names_eq, h.fields.names]
  · rw [h'.fields.names_eq, h.fields.names_eq, hxn.fields.names_eq]
  · rw [patterns_anonymous, Option.some.inj (hxn.fields.patterns.symm.trans hus), hd]
  · rw [h'.fields.offsets, h.fields.offsets, hxn.fields.offsets, zipWith_agreeing_right_comm]
  · rw [Option.some.inj (hxn.bases.symm.trans hvs)]
    exact hbases
  · rw [h'.size, h.size, hxn.size, agreeing_right_comm]

/-! ## Any order -/

/-- Layouts that are the same but for the choice of nodes. -/
abbrev Alike (a b : SharedLayout) : Prop :=
  a.anonymous = b.anonymous

theorem alike_equivalence : Equivalence Alike :=
  ⟨fun _ => rfl, fun h => h.symm, fun h h' => h.trans h'⟩

/-- Alike layouts unify to alike layouts. -/
theorem agree_unify {a' b' : SharedLayout} (ha : Alike a a') (hb : Alike b b') :
    Agree Alike (a.unify b) (a'.unify b') :=
  .of_iff fun d => by rw [exists_unify_anonymous_iff, exists_unify_anonymous_iff, ha, hb]

theorem agree_unify_comm (a b : SharedLayout) : Agree Alike (a.unify b) (b.unify a) :=
  .of_iff fun d => by
    rw [exists_unify_anonymous_iff, exists_unify_anonymous_iff]
    exact ⟨Unifies.comm, Unifies.comm⟩

/-- Three layouts unify, without their nodes, to what the layouts without nodes unify to. -/
theorem exists_bind_unify_anonymous_iff : (∃ c, (a.unify b >>= (·.unify x)) = .ok c ∧
    c.anonymous = d) ↔ ∃ m, Unifies a.anonymous b.anonymous m ∧ Unifies m x.anonymous d := by
  simp only [bind_eq_ok_iff]
  constructor
  · rintro ⟨c, ⟨m, hm, hc⟩, rfl⟩
    exact ⟨_, (unifies_of_unify hm).anonymous, (unifies_of_unify hc).anonymous⟩
  · rintro ⟨_, hab, hd⟩
    obtain ⟨m, hm, rfl⟩ := exists_unify_anonymous_iff.2 hab
    obtain ⟨c, hc, hcd⟩ := exists_unify_anonymous_iff.2 hd
    exact ⟨c, ⟨m, hm, hc⟩, hcd⟩

/-- Of three layouts, the last two may change places. -/
theorem agree_unify_swap (x a b : SharedLayout) :
    Agree Alike (x.unify a >>= (·.unify b)) (x.unify b >>= (·.unify a)) :=
  .of_iff fun d => by
    rw [exists_bind_unify_anonymous_iff, exists_bind_unify_anonymous_iff]
    exact ⟨fun ⟨_, h, h'⟩ => h.swap h', fun ⟨_, h, h'⟩ => h.swap h'⟩

variable {g : TypeGraph} {familyOf : NodeId → Option Nat} {ids ids' : List NodeId}

/-- Instantiations unify in any order, up to the choice of nodes. -/
theorem agree_ofInstantiations (h : ids.Perm ids') :
    Agree Alike (ofInstantiations g familyOf ids) (ofInstantiations g familyOf ids') := by
  have hp := h.filterMap (ofInstantiation g familyOf)
  unfold ofInstantiations
  split
  · next hnil =>
    rw [hnil, List.nil_perm] at hp
    rw [hp]
    exact .error _ _
  · next l ls hls =>
    split
    · next hnil =>
      rw [hnil, hls, List.perm_nil] at hp
      cases hp
    · next l' ls' hls' =>
      rw [hls, hls'] at hp
      exact Agree.foldlM_perm_cons (f := unify) alike_equivalence
        (fun _ _ _ h => agree_unify h rfl) agree_unify_swap agree_unify_comm hp

/-- The families that a layout writes do not depend on the choice of nodes. -/
theorem dependencies_anonymous (l : SharedLayout) : l.anonymous.dependencies = l.dependencies := by
  have hschemes (l : SharedLayout) :
      l.schemes = Pattern.schemes (l.fields.map (·.pattern) ++ l.bases) := by
    rw [schemes, Pattern.schemes_eq_map, List.map_append, List.map_map]
    rfl
  have hrows (ps qs : List Pattern) : Pattern.anonymousAll ps ++ Pattern.anonymousAll qs =
      Pattern.anonymousAll (ps ++ qs) := by
    simp only [Pattern.anonymousAll_eq_map, List.map_append]
  rw [dependencies, dependencies, hschemes, hschemes, patterns_anonymous]
  exact (congrArg _ (congrArg _ (hrows _ _))).trans (Pattern.familiesOfAll_anonymousAll _)

theorem dependencies_eq_of_alike (h : Alike a b) : a.dependencies = b.dependencies := by
  rw [← dependencies_anonymous, h, dependencies_anonymous]

/-! ## The same layout -/

end SharedLayout

/-- Fields of one name and offset whose types say the same. -/
structure SharedField.Matches (native : NodeId → String) (f h : SharedField) : Prop where
  name : f.name = h.name
  offset : f.offset = h.offset
  pattern : f.pattern.Matches native h.pattern

namespace SharedLayout

/-- Layouts that are the same, except that where all instantiations agree on a native name
another node of this name may stand for it. -/
structure Matches (native : NodeId → String) (a b : SharedLayout) : Prop where
  arity : a.arity = b.arity
  size : a.size = b.size
  fields : List.Forall₂ (SharedField.Matches native) a.fields b.fields
  bases : List.Forall₂ (Pattern.Matches native) a.bases b.bases

/-- Alike layouts that are sound name nodes of the same native names. -/
theorem matches_of_alike {native : NodeId → String} (h : Alike a b)
    (ha : a.Sound fun id name => name = native id)
    (hb : b.Sound fun id name => name = native id) : a.Matches native b := by
  have hnames := congrArg (fun l => l.fields.map (·.name)) h
  have hoffsets := congrArg (fun l => l.fields.map (·.offset)) h
  have hpatterns := congrArg (fun l => l.fields.map (·.pattern)) h
  simp only [names_anonymous, offsets_anonymous, patterns_anonymous] at hnames hoffsets hpatterns
  have hrow :=
    Pattern.allMatch_iff.1 (Pattern.allMatch_of_anonymousAll hpatterns ha.fields hb.fields)
  have hbases := Pattern.allMatch_of_anonymousAll (congrArg (·.bases) h) ha.bases hb.bases
  refine ⟨congrArg (·.arity) h, congrArg (·.size) h, ?_, Pattern.allMatch_iff.1 hbases⟩
  rw [List.forall₂_map_left_iff, List.forall₂_map_right_iff] at hrow
  rw [List.forall₂_iff_get] at hrow ⊢
  refine ⟨hrow.1, fun i hi hi' => ⟨?_, ?_, hrow.2 i hi hi'⟩⟩
  · simpa [hi, hi'] using congrArg (·[i]?) hnames
  · simpa [hi, hi'] using congrArg (·[i]?) hoffsets

/-- Instantiations in another order have a common layout exactly if they have one, and then it
is the same. -/
theorem matches_ofInstantiations (h : ids.Perm ids') :
    Agree (Matches g.native) (ofInstantiations g familyOf ids)
      (ofInstantiations g familyOf ids') := by
  have hsound {ids : List NodeId} {l : SharedLayout}
      (hl : ofInstantiations g familyOf ids = .ok l) : l.Sound fun id name => name = g.native id :=
    sound_ofInstantiations (P := fun _ => True) (fun _ _ _ _ => trivial) (fun _ _ => rfl)
      (fun _ _ _ _ _ _ _ => trivial) hl
  have hagree : Agree Alike (ofInstantiations g familyOf ids) (ofInstantiations g familyOf ids') :=
    agree_ofInstantiations h
  cases hl : ofInstantiations g familyOf ids with
  | error m =>
    cases hl' : ofInstantiations g familyOf ids' with
    | error m' => exact .error m m'
    | ok l' =>
      rw [hl, hl'] at hagree
      cases hagree
  | ok l =>
    cases hl' : ofInstantiations g familyOf ids' with
    | error m' =>
      rw [hl, hl'] at hagree
      cases hagree
    | ok l' => exact .ok (matches_of_alike (hagree.related hl hl') (hsound hl) (hsound hl'))

end SharedLayout

namespace Plan

variable {g : TypeGraph}

/-! ## Generic families -/

/-- What a family writes generically, if it is generic. -/
def needs? (F : Family) : Option (List Nat) :=
  F.policy.layout?.map (·.dependencies)

theorem needs?_eq_some_iff {F : Family} {ds : List Nat} :
    needs? F = some ds ↔ ∃ l, F.policy = .generic l ∧ l.dependencies = ds := by
  simp only [needs?, Option.map_eq_some_iff, policy_eq_generic_iff]

variable {fs fs' : List Family} {S : Set Nat}

/-- Whether families sustain each other depends only on what they write generically. -/
theorem Sustained.congr (h : fs.map needs? = fs'.map needs?) (hS : Sustained fs S) :
    Sustained fs' S := by
  intro f hf
  obtain ⟨F, l, hF, hl, hdeps⟩ := hS f hf
  have hget := congrArg (·[f]?) h
  simp only [List.getElem?_map, hF, Option.map_some] at hget
  obtain ⟨F', hF', hneeds⟩ := Option.map_eq_some_iff.1 hget.symm
  obtain ⟨l', hl', hsame⟩ := needs?_eq_some_iff.1 (hneeds.trans (needs?_eq_some_iff.2 ⟨l, hl, rfl⟩))
  exact ⟨F', l', hF', hl', hsame ▸ hdeps⟩

theorem DependsInside.congr (h : fs.map needs? = fs'.map needs?) (hfs : DependsInside fs) :
    DependsInside fs' := by
  have hlen : fs.length = fs'.length := by simpa using congrArg List.length h
  intro F' hF' l' hl' d hd
  have hmem : needs? F' ∈ fs.map needs? := h ▸ List.mem_map_of_mem hF'
  obtain ⟨F, hF, hneeds⟩ := List.mem_map.1 hmem
  obtain ⟨l, hl, hsame⟩ := needs?_eq_some_iff.1 (hneeds.trans (needs?_eq_some_iff.2 ⟨l', hl', rfl⟩))
  rw [← hlen]
  exact hfs F hF l hl d (hsame ▸ hd)

/-- The families that remain generic. -/
theorem isGreatest_demoteAll (hinside : DependsInside fs) : IsGreatest {S | Sustained fs S}
    (generics (demoteAll g (fs.length + 1) fs).1) := by
  have hstable := blocker?_demoteAll (g := g) (Nat.lt_succ_of_le (List.countP_le_length (l := fs)))
  obtain ⟨is, his⟩ := exists_demoteAll_eq g (fs.length + 1) fs
  rw [his] at hstable ⊢
  exact isGreatest_generics hinside hstable

/-- The families that stay generic are told by what each one needs. -/
theorem generics_demoteAll_eq (h : fs.map needs? = fs'.map needs?) (hinside : DependsInside fs) :
    generics (demoteAll g (fs.length + 1) fs).1 =
      generics (demoteAll g (fs'.length + 1) fs').1 := by
  have hsame : {S | Sustained fs S} = {S | Sustained fs' S} :=
    Set.ext fun S => ⟨Sustained.congr h, Sustained.congr h.symm⟩
  have hgreatest := isGreatest_demoteAll (g := g) hinside
  rw [hsame] at hgreatest
  exact hgreatest.unique (isGreatest_demoteAll (hinside.congr h))

/-- The plan for instantiations that are grouped in some way. -/
def ofGroups (options : Options) (g : TypeGraph) (groups : List (TemplateKey × List NodeId)) :
    Plan × Diagnostics :=
  if options.unifyTemplates then
    let decided := groups.map (judge g fun id => groups.findIdx? (id ∈ ·.2))
    let (families, notes) := demoteAll g (decided.length + 1) (decided.map (·.1))
    (⟨families⟩, decided.flatMap (·.2) ++ notes)
  else (⟨groups.map fun (key, ids) => ⟨key, ids, .specialized⟩⟩, [])

theorem ofGraph_eq_ofGroups (options : Options) (g : TypeGraph) :
    ofGraph options g = ofGroups options g (grouped g) := by
  simp only [ofGraph, ofGroups, List.length_map]

/-- Groups of the same instantiations, in another order. -/
def SameGroups : List (TemplateKey × List NodeId) → List (TemplateKey × List NodeId) → Prop :=
  List.Forall₂ fun x y => x.1 = y.1 ∧ x.2.Perm y.2

/-- Every instantiation is in the same group, whatever the order in it. -/
theorem SameGroups.findIdx?_eq {gs gs' : List (TemplateKey × List NodeId)}
    (h : SameGroups gs gs') (id : NodeId) :
    gs.findIdx? (id ∈ ·.2) = gs'.findIdx? (id ∈ ·.2) := by
  induction h with
  | nil => rfl
  | cons hxy _ ih => simp only [List.findIdx?_cons, hxy.2.mem_iff, ih]

/-- What a family needs is told by the layout of its instantiations. -/
theorem needs?_judge (familyOf : NodeId → Option Nat) (x : TemplateKey × List NodeId) :
    needs? (judge g familyOf x).1 =
      (SharedLayout.ofInstantiations g familyOf x.2).toOption.map (·.dependencies) := by
  obtain ⟨key, ids⟩ := x
  rw [judge]
  split
  · next l hl => simp [hl, needs?, Policy.layout?, Except.toOption]
  · next m hm => simp [hm, needs?, Policy.layout?, Except.toOption]

/-- Groups need the same families whatever the order in them. -/
theorem SameGroups.map_needs?_eq {gs gs' : List (TemplateKey × List NodeId)}
    (h : SameGroups gs gs') (familyOf : NodeId → Option Nat) :
    (gs.map (judge g familyOf)).map (fun x => needs? x.1) =
      (gs'.map (judge g familyOf)).map (fun x => needs? x.1) := by
  induction h with
  | nil => rfl
  | @cons x y _ _ hxy _ ih =>
    have hneeds : needs? (judge g familyOf x).1 = needs? (judge g familyOf y).1 := by
      rw [needs?_judge, needs?_judge]
      exact (SharedLayout.agree_ofInstantiations hxy.2).toOption_map_eq
        fun l l' => SharedLayout.dependencies_eq_of_alike
    simp only [List.map_cons, hneeds, ih]

variable {options : Options}

/-- The same families are generic, whatever the order in their groups. -/
theorem generics_ofGroups {groups : List (TemplateKey × List NodeId)}
    (h : SameGroups (grouped g) groups) :
    generics (ofGroups options g groups).1.families = generics (ofGraph options g).1.families := by
  rw [ofGraph_eq_ofGroups]
  cases hunify : options.unifyTemplates with
  | true =>
    have hsame : (fun id => groups.findIdx? (id ∈ ·.2)) =
        fun id => (grouped g).findIdx? (id ∈ ·.2) :=
      funext fun id => (h.findIdx?_eq id).symm
    have hneeds := h.map_needs?_eq (g := g) fun id => (grouped g).findIdx? (id ∈ ·.2)
    have hjudged : (undemoted g).map needs? = ((groups.map
        (judge g fun id => (grouped g).findIdx? (id ∈ ·.2))).map (·.1)).map needs? := by
      simpa only [undemoted, decided, List.map_map, Function.comp_def] using hneeds
    have hgenerics := generics_demoteAll_eq (g := g) hjudged (dependsInside_undemoted g)
    rw [ofGroups, ofGroups, if_pos hunify, if_pos hunify, hsame]
    simpa only [undemoted, decided, List.length_map] using hgenerics.symm
  | false =>
    have hnone (gs : List (TemplateKey × List NodeId)) :
        generics (gs.map fun x => ⟨x.1, x.2, .specialized⟩) = ∅ := by
      refine Set.eq_empty_of_forall_notMem fun f => ?_
      rintro ⟨F, hF, hgeneric⟩
      obtain ⟨x, -, rfl⟩ := List.mem_map.1 (List.mem_of_getElem? hF)
      cases hgeneric
    simp only [ofGroups, hunify, Bool.false_eq_true, if_false]
    exact (hnone _).trans (hnone _).symm

/-- In every graph, instantiations in another order have a common layout exactly if they have
one, and then it is the same but for nodes of one native name. So the same families are generic
if the instantiations of each are put in another order. -/
theorem instantiations_perm (g : TypeGraph) :
    (∀ (familyOf : NodeId → Option Nat) (ids ids' : List NodeId), ids.Perm ids' →
      Agree (SharedLayout.Matches g.native) (SharedLayout.ofInstantiations g familyOf ids)
        (SharedLayout.ofInstantiations g familyOf ids')) ∧
    ∀ (options : Options) (groups : List (TemplateKey × List NodeId)),
      SameGroups (grouped g) groups →
        generics (ofGroups options g groups).1.families =
          generics (ofGraph options g).1.families :=
  ⟨fun _ _ _ h => SharedLayout.matches_ofInstantiations h, fun _ _ h => generics_ofGroups h⟩

/-- Two instantiations with a field of one native type, by different pointers. -/
def twoPointers : List SymbolRecord :=
  [.ofPrimitive ⟨1⟩ "int" 4,
    .ofPrimitive ⟨2⟩ "char" 1,
    .ofPointer ⟨3⟩ (some ⟨1⟩) 8,
    .ofPointer ⟨4⟩ (some ⟨1⟩) 8,
    (SymbolRecord.ofInstantiation ⟨5⟩ "Box<int>" 8 [⟨1⟩]).addField "value" ⟨3⟩ 0,
    (SymbolRecord.ofInstantiation ⟨6⟩ "Box<char>" 8 [⟨2⟩]).addField "value" ⟨4⟩ 0]

/-- The nodes that stand for the names of the fields in the layout of all instantiations. -/
def agreedNodes (g : TypeGraph) (ids : List NodeId) : Option (List (Option (NodeId × String))) :=
  (SharedLayout.ofInstantiations g (fun _ => none) ids).toOption.map fun l =>
    l.fields.map (·.pattern.label.agreed)

/-- The nodes that the layout of these records names depend on the order. -/
theorem exists_ofRecords_twoPointers : ∃ g w, TypeGraph.ofRecords {} twoPointers = .ok (g, w) ∧
    (agreedNodes g g.instantiations).isSome = true ∧
      agreedNodes g g.instantiations ≠ agreedNodes g g.instantiations.reverse :=
  TypeGraph.exists_ofRecords_and (by decide +kernel)

/-- In the other order the other pointer stands for the type of the field, and this is all. -/
theorem twoPointers_perm : ∃ g w, TypeGraph.ofRecords {} twoPointers = .ok (g, w) ∧
    agreedNodes g g.instantiations ≠ agreedNodes g g.instantiations.reverse ∧
    Agree (SharedLayout.Matches g.native)
      (SharedLayout.ofInstantiations g (fun _ => none) g.instantiations)
      (SharedLayout.ofInstantiations g (fun _ => none) g.instantiations.reverse) ∧
    ∃ l, SharedLayout.ofInstantiations g (fun _ => none) g.instantiations = .ok l := by
  obtain ⟨g, w, h, hsome, hne⟩ := exists_ofRecords_twoPointers
  refine ⟨g, w, h, hne, (instantiations_perm g).1 _ _ _ (List.reverse_perm _).symm, ?_⟩
  simp only [agreedNodes, Option.isSome_map] at hsome
  cases hl : SharedLayout.ofInstantiations g (fun _ => none) g.instantiations with
  | ok l => exact ⟨l, rfl⟩
  | error m =>
    rw [hl] at hsome
    cases hsome

end Plan

end NativeBindings
