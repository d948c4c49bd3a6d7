import NativeBindings.Proofs.Graph.Tidy
import NativeBindings.Proofs.Template.Fitting
import NativeBindings.Template.SharedLayout

/-!
# Outlines

The outline of a layout is what a generic declaration writes of it: how many parameters there
are, the names of the fields, and how the types of the fields and the bases are written. An
outline describes an instantiation if it says the truth about its layout
(`Outline.Describes`).

Unifying two layouts keeps the outlines that fit both (`SharedLayout.Unifies.fits_iff`) and
succeeds if there is one (`SharedLayout.exists_unify`), so the same holds of the fold over all
instantiations. What comes out has an outline that fits, so it describes every instantiation
(`SharedLayout.covers_of_ofInstantiations`); if nothing comes out no outline describes them all
(`SharedLayout.exists_ofInstantiations_iff`).
-/

namespace NativeBindings

/-- What a generic declaration writes of the layouts that it covers. -/
structure Outline where
  /-- Number of parameters. -/
  arity : Nat
  /-- Native names of the fields, in order. -/
  names : List String
  /-- The types of the fields. -/
  fields : List Scheme
  /-- The base classes. -/
  bases : List Scheme

/-- What is written about a layout. -/
def SharedLayout.outline (l : SharedLayout) : Outline :=
  { arity := l.arity
    names := l.fields.map (·.name)
    fields := l.fields.map (·.pattern.scheme)
    bases := l.bases.map Pattern.scheme }

/-- Whether a layout knows all that an outline writes. -/
structure Outline.Fits (o : Outline) (l : SharedLayout) : Prop where
  arity : l.arity = o.arity
  names : l.fields.map (·.name) = o.names
  fields : List.Forall₂ Scheme.Fits o.fields (l.fields.map (·.pattern))
  bases : List.Forall₂ Scheme.Fits o.bases l.bases

/-! ## Unification -/

theorem agreeing_eq_some_iff {α : Type} [DecidableEq α] {a b : Option α} {x : α} :
    agreeing a b = some x ↔ a = some x ∧ b = some x := by
  unfold agreeing
  split
  · next h => simp [← h]
  · next h =>
    simp only [reduceCtorEq, false_iff, not_and]
    rintro rfl rfl
    exact h rfl

/-- What rows of patterns unify to is fitted by what fits both. -/
theorem Pattern.forall₂_unifyAll_iff (ss : List Scheme) {ps qs us : List Pattern}
    (h : unifyAll ps qs = some us) : List.Forall₂ Scheme.Fits ss us ↔
      List.Forall₂ Scheme.Fits ss ps ∧ List.Forall₂ Scheme.Fits ss qs := by
  simp only [← Scheme.fitAll_iff]
  rw [← fitAll_unifyAll_iff ss]
  simp [h]

theorem Pattern.exists_unifyAll {ss : List Scheme} {ps qs : List Pattern}
    (hp : List.Forall₂ Scheme.Fits ss ps) (hq : List.Forall₂ Scheme.Fits ss qs) :
    ∃ us, unifyAll ps qs = some us := by
  rw [← Scheme.fitAll_iff] at hp hq
  obtain ⟨us, hus, -⟩ := (fitAll_unifyAll_iff ss).2 ⟨hp, hq⟩
  exact ⟨us, hus⟩

namespace SharedLayout

/-- What two rows of fields that unify have in common. -/
structure UnifiesFields (fs hs us : List SharedField) : Prop where
  names : fs.map (·.name) = hs.map (·.name)
  names_eq : us.map (·.name) = fs.map (·.name)
  patterns : Pattern.unifyAll (fs.map (·.pattern)) (hs.map (·.pattern)) =
    some (us.map (·.pattern))
  offsets : us.map (·.offset) = List.zipWith agreeing (fs.map (·.offset)) (hs.map (·.offset))

/-- Fields that were unified have their names, patterns and offsets in common. -/
theorem unifiesFields_of_unifyFields {fs hs us : List SharedField}
    (hlen : hs.length = fs.length) (h : unifyFields fs hs = .ok us) : UnifiesFields fs hs us := by
  induction fs generalizing hs us with
  | nil =>
    obtain rfl := List.length_eq_zero_iff.1 hlen
    obtain rfl := Except.ok.inj h
    exact ⟨rfl, rfl, rfl, rfl⟩
  | cons f fs ih =>
    obtain ⟨x, hs, rfl⟩ := List.exists_cons_of_length_eq_add_one hlen
    rw [unifyFields] at h
    split at h
    · cases h
    · next hname =>
      split at h
      · cases h
      · next u hu =>
        obtain ⟨vs, hrest, rfl⟩ := map_eq_ok_iff.1 h
        have hspec := ih (Nat.succ.inj hlen) hrest
        refine ⟨?_, ?_, ?_, ?_⟩
        · simp [hspec.names, not_not.1 hname]
        · simp [hspec.names_eq]
        · exact Pattern.unifyAll_cons.2 ⟨u, _, hu, hspec.patterns, rfl⟩
        · simp [hspec.offsets]

/-- Fields with the same names unify if their patterns do. -/
theorem exists_unifyFields {fs hs : List SharedField} {us : List Pattern}
    (hnames : fs.map (·.name) = hs.map (·.name))
    (h : Pattern.unifyAll (fs.map (·.pattern)) (hs.map (·.pattern)) = some us) :
    ∃ vs, unifyFields fs hs = .ok vs := by
  induction fs generalizing hs us with
  | nil =>
    obtain rfl := List.map_eq_nil_iff.1 hnames.symm
    exact ⟨[], rfl⟩
  | cons f fs ih =>
    obtain ⟨x, hs, rfl, hname, hrest⟩ := List.map_eq_cons_iff.1 hnames.symm
    obtain ⟨u, us, hu, hus, -⟩ := Pattern.unifyAll_cons.1 h
    obtain ⟨vs, hvs⟩ := ih hrest.symm hus
    exact ⟨_, by rw [unifyFields, if_neg (not_not.2 hname.symm), hu, hvs]; rfl⟩

/-- What two layouts that unify have in common. -/
structure Unifies (a b c : SharedLayout) : Prop where
  arity : b.arity = a.arity
  arity_eq : c.arity = a.arity
  fields : UnifiesFields a.fields b.fields c.fields
  bases : Pattern.unifyAll a.bases b.bases = some c.bases
  size : c.size = agreeing a.size b.size

/-- Layouts that were unified have their arity, fields, bases and size in common. -/
theorem unifies_of_unify {a b c : SharedLayout} (h : a.unify b = .ok c) : Unifies a b c := by
  unfold unify at h
  simp only [bind, Except.bind, pure, Except.pure] at h
  split at h
  · cases h
  · next harity =>
    split at h
    · cases h
    · next hlen =>
      split at h
      · cases h
      · next us hus =>
        split at h
        · cases h
        · next vs hvs =>
          obtain rfl := Except.ok.inj h
          unfold unifyBases at hvs
          split at hvs
          · next ws hws =>
            obtain rfl := Except.ok.inj hvs
            simp at harity hlen
            exact ⟨harity, rfl, unifiesFields_of_unifyFields hlen hus, hws, rfl⟩
          · cases hvs

/-- What unifies says of schemes exactly what both layouts say. -/
theorem Unifies.fits_iff {a b c : SharedLayout} (h : Unifies a b c) {o : Outline} :
    o.Fits c ↔ o.Fits a ∧ o.Fits b := by
  have hfields := Pattern.forall₂_unifyAll_iff o.fields h.fields.patterns
  have hbases := Pattern.forall₂_unifyAll_iff o.bases h.bases
  constructor
  · rintro ⟨harity, hname, hf, hb⟩
    refine ⟨⟨?_, ?_, (hfields.1 hf).1, (hbases.1 hb).1⟩, ?_, ?_, (hfields.1 hf).2, (hbases.1 hb).2⟩
    · rw [← h.arity_eq, harity]
    · rw [← h.fields.names_eq, hname]
    · rw [h.arity, ← h.arity_eq, harity]
    · rw [← h.fields.names, ← h.fields.names_eq, hname]
  · rintro ⟨ha, hb⟩
    refine ⟨?_, ?_, hfields.2 ⟨ha.fields, hb.fields⟩, hbases.2 ⟨ha.bases, hb.bases⟩⟩
    · rw [h.arity_eq, ha.arity]
    · rw [h.fields.names_eq, ha.names]

/-- Layouts unify if they have parts of the same names that do. -/
theorem exists_unify_of_parts {a b : SharedLayout} {us vs : List Pattern}
    (harity : b.arity = a.arity) (hnames : a.fields.map (·.name) = b.fields.map (·.name))
    (hus : Pattern.unifyAll (a.fields.map (·.pattern)) (b.fields.map (·.pattern)) = some us)
    (hvs : Pattern.unifyAll a.bases b.bases = some vs) : ∃ c, a.unify b = .ok c := by
  have hlen : b.fields.length = a.fields.length := by
    simpa using (congrArg List.length hnames).symm
  obtain ⟨fields, hfields⟩ := exists_unifyFields hnames hus
  refine ⟨{ arity := a.arity, fields, bases := vs, size := agreeing a.size b.size }, ?_⟩
  simp [unify, unifyBases, harity, hlen, hfields, hvs, bind, Except.bind, pure, Except.pure]

/-- Layouts unify if one outline fits both. -/
theorem exists_unify {a b : SharedLayout} {o : Outline} (ha : o.Fits a) (hb : o.Fits b) :
    ∃ c, a.unify b = .ok c := by
  obtain ⟨us, hus⟩ := Pattern.exists_unifyAll ha.fields hb.fields
  obtain ⟨vs, hvs⟩ := Pattern.exists_unifyAll ha.bases hb.bases
  exact exists_unify_of_parts (hb.arity.trans ha.arity.symm) (ha.names.trans hb.names.symm) hus hvs

theorem Unifies.size_eq_some_iff {a b c : SharedLayout} (h : Unifies a b c) {n : UInt64} :
    c.size = some n ↔ a.size = some n ∧ b.size = some n := by
  rw [h.size, agreeing_eq_some_iff]

/-- The offset of the field at a position, if it is known. -/
def offset? (l : SharedLayout) (k : Nat) : Option UInt64 :=
  l.fields[k]?.bind (·.offset)

theorem Unifies.offset?_eq_some_iff {a b c : SharedLayout} (h : Unifies a b c) {k : Nat}
    {n : UInt64} : c.offset? k = some n ↔ a.offset? k = some n ∧ b.offset? k = some n := by
  have hoffset (l : SharedLayout) : l.offset? k = (l.fields.map (·.offset))[k]?.join := by
    rw [offset?, List.getElem?_map]
    cases l.fields[k]? <;> rfl
  simp only [hoffset, h.fields.offsets, List.getElem?_zipWith]
  cases (a.fields.map (·.offset))[k]? <;> cases (b.fields.map (·.offset))[k]? <;>
    simp [agreeing_eq_some_iff]

/-! ## Sound layouts -/

/-- A layout of sound patterns. -/
structure Sound (named : NodeId → String → Prop) (l : SharedLayout) : Prop where
  fields : Pattern.AllSound named (l.fields.map (·.pattern))
  bases : Pattern.AllSound named l.bases

variable {named : NodeId → String → Prop}

/-- What sound layouts unify to is sound. -/
theorem Sound.unify {a b c : SharedLayout} (ha : a.Sound named) (h : Unifies a b c) :
    c.Sound named :=
  ⟨ha.fields.unifyAll h.fields.patterns, ha.bases.unifyAll h.bases⟩

/-- What is written about a sound layout fits it. -/
theorem Sound.outline_fits {l : SharedLayout} (h : l.Sound named) : l.outline.Fits l := by
  refine ⟨rfl, rfl, ?_, ?_⟩
  · have hfields := (Pattern.AllSound.schemes h.fields).1
    rwa [Pattern.schemes_eq_map, List.map_map, Scheme.fitAll_iff] at hfields
  · have hbases := (Pattern.AllSound.schemes h.bases).1
    rwa [Pattern.schemes_eq_map, Scheme.fitAll_iff] at hbases

theorem Sound.spelled {l : SharedLayout} (h : l.Sound named) :
    ∀ s ∈ l.schemes, s.Spelled named := by
  have hfields := (Pattern.AllSound.schemes h.fields).2
  have hbases := (Pattern.AllSound.schemes h.bases).2
  rw [Pattern.schemes_eq_map, Scheme.allSpelled_iff] at hfields hbases
  intro s hs
  rcases List.mem_append.1 hs with hs | hs
  · exact hfields s (by simpa using hs)
  · exact hbases s hs

/-! ## Folds -/

/-- What holds of a common layout if it holds of both that have it in common holds of the layout of
a whole row if it holds of each. -/
theorem foldlM_unify_iff {P : SharedLayout → Prop}
    (hP : ∀ {a b c}, Unifies a b c → (P c ↔ P a ∧ P b)) {l c : SharedLayout}
    {ls : List SharedLayout} (h : ls.foldlM unify l = .ok c) : P c ↔ ∀ x ∈ l :: ls, P x := by
  induction ls generalizing l with
  | nil =>
    obtain rfl := Except.ok.inj h
    simp
  | cons b ls ih =>
    obtain ⟨m, hb, h⟩ := foldlM_cons_eq_ok_iff.1 h
    rw [ih h, List.forall_mem_cons, hP (unifies_of_unify hb), and_assoc]
    simp

/-- What a row of layouts unifies to is sound if the first one is. -/
theorem Sound.foldlM_unify {l c : SharedLayout} {ls : List SharedLayout} (hl : l.Sound named)
    (h : ls.foldlM SharedLayout.unify l = .ok c) : c.Sound named := by
  induction ls generalizing l with
  | nil =>
    obtain rfl := Except.ok.inj h
    exact hl
  | cons b ls ih =>
    obtain ⟨m, hb, h⟩ := foldlM_cons_eq_ok_iff.1 h
    exact ih (hl.unify (unifies_of_unify hb)) h

/-- If one outline fits all layouts they have something in common. -/
theorem exists_foldlM_unify {o : Outline} {l : SharedLayout} {ls : List SharedLayout}
    (h : ∀ x ∈ l :: ls, o.Fits x) : ∃ c, ls.foldlM unify l = .ok c := by
  induction ls generalizing l with
  | nil => exact ⟨l, rfl⟩
  | cons b ls ih =>
    have hl : o.Fits l := h l (by simp)
    have hb : o.Fits b := h b (by simp)
    obtain ⟨m, hm⟩ := exists_unify hl hb
    obtain ⟨c, hc⟩ := ih (l := m) fun x hx => by
      rcases List.mem_cons.1 hx with rfl | hx
      · exact (unifies_of_unify hm).fits_iff.2 ⟨hl, hb⟩
      · exact h x (by simp [hx])
    exact ⟨c, foldlM_cons_eq_ok_iff.2 ⟨m, hm, hc⟩⟩

end SharedLayout

/-! ## Instantiations -/

namespace TypeGraph

theorem mem_instantiations_iff {g : TypeGraph} {id : NodeId} : id ∈ g.instantiations ↔
    id ∈ g.classes ∧ ∃ l args, g.arena.node? id = some (.template l args) := by
  rw [instantiations, List.mem_filter]
  refine and_congr_right fun _ => ?_
  cases g.arena.node? id with
  | none => simp
  | some n => cases n <;> simp [Node.isTemplate]

/-- An instantiation with its arguments and its layout. -/
def Instantiates (g : TypeGraph) (id : NodeId) (args : List NodeId) (u : UserType) : Prop :=
  ∃ l, g.arena.node? id = some (.template l args) ∧ g.arena.user? l = some u

/-- An instantiation has one list of arguments and one type. -/
theorem Instantiates.unique {g : TypeGraph} {id : NodeId} {args args' : List NodeId}
    {u u' : UserType} (h : g.Instantiates id args u) (h' : g.Instantiates id args' u') :
    args' = args ∧ u' = u := by
  obtain ⟨l, hn, hu⟩ := h
  obtain ⟨l', hn', hu'⟩ := h'
  obtain ⟨rfl, rfl⟩ := Node.template.inj (Option.some.inj (hn.symm.trans hn'))
  exact ⟨rfl, Option.some.inj (hu'.symm.trans hu)⟩

theorem Instantiates.layoutType? {g : TypeGraph} {id : NodeId} {args : List NodeId}
    {u : UserType} (h : g.Instantiates id args u) : g.layoutType? id = some u := by
  obtain ⟨l, hn, hu⟩ := h
  rw [TypeGraph.layoutType?, Arena.layoutType?, Arena.layout?, hn]
  exact hu

end TypeGraph

/-- Whether an outline says the truth about the layout of an instantiation. -/
structure Outline.Describes (o : Outline) (g : TypeGraph) (familyOf : NodeId → Option Nat)
    (args : List NodeId) (u : UserType) : Prop where
  arity : args.length = o.arity
  names : u.fields.map (·.name) = o.names
  fields : List.Forall₂ (g.arena.Fits familyOf (args.map g.native)) o.fields
    (u.fields.map (·.type))
  bases : List.Forall₂ (g.arena.Fits familyOf (args.map g.native)) o.bases u.bases

/-- An outline that describes a layout has a scheme for each of its parts. -/
theorem Outline.Describes.schemes {l : SharedLayout} {g : TypeGraph}
    {familyOf : NodeId → Option Nat} {args : List NodeId} {u : UserType}
    (h : l.outline.Describes g familyOf args u) :
    List.Forall₂ (g.arena.Fits familyOf (args.map g.native)) l.schemes u.parts :=
  List.rel_append h.fields h.bases

/-- Whether an outline describes a node, which is an instantiation. -/
def TypeGraph.Admits (g : TypeGraph) (familyOf : NodeId → Option Nat) (id : NodeId)
    (o : Outline) : Prop :=
  ∃ args u, g.Instantiates id args u ∧ o.Describes g familyOf args u

namespace SharedLayout

variable {g : TypeGraph} {familyOf : NodeId → Option Nat}

/-- The layout of an instantiation with the given arguments, abstracted from them. -/
def ofUser (g : TypeGraph) (familyOf : NodeId → Option Nat) (args : List NodeId)
    (u : UserType) : SharedLayout :=
  let pattern := Pattern.ofNode g.arena familyOf (args.map g.native)
  { arity := args.length
    fields := u.fields.map fun f => ⟨f.name, some f.offset, pattern f.type⟩
    bases := u.bases.map pattern
    size := some u.size }

theorem names_ofUser (args : List NodeId) (u : UserType) :
    (ofUser g familyOf args u).fields.map (·.name) = u.fields.map (·.name) := by
  rw [ofUser, List.map_map]
  rfl

theorem patterns_ofUser (args : List NodeId) (u : UserType) :
    (ofUser g familyOf args u).fields.map (·.pattern) =
      (u.fields.map (·.type)).map (.ofNode g.arena familyOf (args.map g.native)) := by
  rw [ofUser, List.map_map, List.map_map]
  rfl

/-- The layout of an instantiation is read off its type and its arguments. -/
theorem ofInstantiation_eq_some_iff {id : NodeId} {x : SharedLayout} :
    ofInstantiation g familyOf id = some x ↔
      ∃ args u, g.Instantiates id args u ∧ x = ofUser g familyOf args u := by
  constructor
  · intro h
    unfold ofInstantiation at h
    split at h
    · next l args hn =>
      obtain ⟨u, hu, rfl⟩ := Option.map_eq_some_iff.1 h
      exact ⟨args, u, ⟨l, hn, hu⟩, rfl⟩
    · cases h
  · rintro ⟨args, u, ⟨l, hn, hu⟩, rfl⟩
    rw [ofInstantiation, hn]
    simp only [hu]
    rfl

/-- What fits the layout of an instantiation describes its type. -/
theorem describes_of_fits {o : Outline} {args : List NodeId} {u : UserType}
    (h : o.Fits (ofUser g familyOf args u)) : o.Describes g familyOf args u := by
  have hrow {ss : List Scheme} {ids : List NodeId} (hss : List.Forall₂ Scheme.Fits ss
      (ids.map (.ofNode g.arena familyOf (args.map g.native)))) :
      List.Forall₂ (g.arena.Fits familyOf (args.map g.native)) ss ids :=
    (Arena.fitAll_iff ..).1 (Arena.fitAll_of_fitAll_ofNode ss (Scheme.fitAll_iff.2 hss))
  have hfields := h.fields
  rw [patterns_ofUser] at hfields
  exact ⟨h.arity, (names_ofUser args u).symm.trans h.names, hrow hfields, hrow h.bases⟩

/-- What describes the type of an instantiation fits its layout, if all nodes have patterns. -/
theorem fits_of_describes {o : Outline} {args : List NodeId} {u : UserType}
    (hp : g.arena.Patterned familyOf (args.map g.native)) (h : o.Describes g familyOf args u) :
    o.Fits (ofUser g familyOf args u) := by
  have hrow {ss : List Scheme} {ids : List NodeId}
      (hss : List.Forall₂ (g.arena.Fits familyOf (args.map g.native)) ss ids) :
      List.Forall₂ Scheme.Fits ss (ids.map (.ofNode g.arena familyOf (args.map g.native))) :=
    Scheme.fitAll_iff.1 (Arena.fitAll_map_ofNode hp ss ((Arena.fitAll_iff ..).2 hss))
  refine ⟨h.arity, (names_ofUser args u).trans h.names, ?_, hrow h.bases⟩
  rw [patterns_ofUser]
  exact hrow h.fields

/-- The layout of an instantiation is sound if all nodes that its type shows are named so. -/
theorem sound_ofUser {P : NodeId → Prop} {named : NodeId → String → Prop}
    (hlink : ∀ x y, P x → g.arena.Spells x y → P y) (hnamed : ∀ x, P x → named x (g.native x))
    {args : List NodeId} {u : UserType} (hu : ∀ x ∈ u.parts, P x) :
    (ofUser g familyOf args u).Sound named := by
  refine ⟨Pattern.allSound_ofNode hlink hnamed ?_ (patterns_ofUser args u).symm,
    Pattern.allSound_ofNode hlink hnamed ?_ rfl⟩
  · exact fun x hx => hu x (List.mem_append_left _ hx)
  · exact fun x hx => hu x (List.mem_append_right _ hx)

/-! ## The layout of a family -/

variable {ids : List NodeId} {l : SharedLayout}

theorem mem_layouts_iff {x : SharedLayout} : x ∈ ids.filterMap (ofInstantiation g familyOf) ↔
    ∃ id ∈ ids, ∃ args u, g.Instantiates id args u ∧ x = ofUser g familyOf args u := by
  simp only [List.mem_filterMap, ofInstantiation_eq_some_iff]

/-- The layout of a family is what the layouts of its instantiations unify to. -/
theorem ofInstantiations_eq_ok (h : ofInstantiations g familyOf ids = .ok l) :
    ∃ x xs, ids.filterMap (ofInstantiation g familyOf) = x :: xs ∧ xs.foldlM unify x = .ok l := by
  unfold ofInstantiations at h
  split at h
  · cases h
  · next x xs hxs => exact ⟨x, xs, hxs, h⟩

/-- What unification keeps of both layouts, the layout of a family has exactly if all have it. -/
theorem ofInstantiations_iff {P : SharedLayout → Prop}
    (hP : ∀ {a b c}, Unifies a b c → (P c ↔ P a ∧ P b))
    (h : ofInstantiations g familyOf ids = .ok l) :
    P l ↔ ∀ id ∈ ids, ∀ args u, g.Instantiates id args u → P (ofUser g familyOf args u) := by
  obtain ⟨x, xs, hxs, hfold⟩ := ofInstantiations_eq_ok h
  rw [foldlM_unify_iff hP hfold, ← hxs]
  simp only [mem_layouts_iff]
  constructor
  · intro hall id hid args u hu
    exact hall _ ⟨id, hid, args, u, hu, rfl⟩
  · rintro hall _ ⟨id, hid, args, u, hu, rfl⟩
    exact hall id hid args u hu

/-- The layout of a family is sound if all nodes that its instantiations show are named so. -/
theorem sound_ofInstantiations {P : NodeId → Prop} {named : NodeId → String → Prop}
    (hlink : ∀ x y, P x → g.arena.Spells x y → P y) (hnamed : ∀ x, P x → named x (g.native x))
    (hparts : ∀ id ∈ ids, ∀ args u, g.Instantiates id args u → ∀ x ∈ u.parts, P x)
    (h : ofInstantiations g familyOf ids = .ok l) : l.Sound named := by
  obtain ⟨x, xs, hxs, hfold⟩ := ofInstantiations_eq_ok h
  obtain ⟨id, hid, args, u, hu, rfl⟩ : ∃ id ∈ ids, ∃ args u,
      g.Instantiates id args u ∧ x = ofUser g familyOf args u := by
    rw [← mem_layouts_iff, hxs]
    exact List.mem_cons_self
  exact (sound_ofUser hlink hnamed (hparts id hid args u hu)).foldlM_unify hfold

/-- What a layout says of the instantiations that it covers: its outline describes all of them,
and it has the offsets and the size on which they agree. -/
structure Covers (l : SharedLayout) (g : TypeGraph) (familyOf : NodeId → Option Nat)
    (ids : List NodeId) : Prop where
  admits : ∀ id ∈ ids, g.Admits familyOf id l.outline
  spelled : ∀ s ∈ l.schemes, s.Spelled fun id name => name = g.native id
  offset : ∀ k n, l.offset? k = some n ↔
    ∀ id ∈ ids, ∃ u, g.layoutType? id = some u ∧ (u.fields[k]?).map (·.offset) = some n
  size : ∀ n, l.size = some n ↔ ∀ id ∈ ids, ∃ u, g.layoutType? id = some u ∧ u.size = n

/-- The layout of a family covers every one of its instantiations. -/
theorem covers_of_ofInstantiations (hinst : ∀ id ∈ ids, ∃ args u, g.Instantiates id args u)
    (h : ofInstantiations g familyOf ids = .ok l) : l.Covers g familyOf ids := by
  have hsound : l.Sound fun id name => name = g.native id :=
    sound_ofInstantiations (P := fun _ => True) (fun _ _ _ _ => trivial) (fun _ _ => rfl)
      (fun _ _ _ _ _ _ _ => trivial) h
  have hall {Q : UserType → Prop} :
      (∀ id ∈ ids, ∀ args u, g.Instantiates id args u → Q u) ↔
        ∀ id ∈ ids, ∃ u, g.layoutType? id = some u ∧ Q u := by
    refine forall₂_congr fun id hid => ?_
    obtain ⟨args, u, hu⟩ := hinst id hid
    constructor
    · exact fun hq => ⟨u, hu.layoutType?, hq args u hu⟩
    · rintro ⟨u', hu', hq⟩ args₂ u₂ hu₂
      obtain rfl := Option.some.inj (hu'.symm.trans hu₂.layoutType?)
      exact hq
  refine ⟨fun id hid => ?_, hsound.spelled, fun k n => ?_, fun n => ?_⟩
  · obtain ⟨args, u, hu⟩ := hinst id hid
    have hfits := (ofInstantiations_iff (fun hc => hc.fits_iff) h).1 hsound.outline_fits
    exact ⟨args, u, hu, describes_of_fits (hfits id hid args u hu)⟩
  · have hoffset (args : List NodeId) (u : UserType) :
        (ofUser g familyOf args u).offset? k = (u.fields[k]?).map (·.offset) := by
      rw [offset?, ofUser, List.getElem?_map]
      cases u.fields[k]? <;> rfl
    rw [ofInstantiations_iff (fun hc => hc.offset?_eq_some_iff) h, ← hall]
    simp only [hoffset]
  · rw [ofInstantiations_iff (fun hc => hc.size_eq_some_iff) h, ← hall]
    simp only [ofUser, Option.some.injEq]

/-- Where every node can be read, instantiations have a common layout if and only if there is
an outline that describes them all. -/
theorem exists_ofInstantiations_iff (hp : ∀ arguments, g.arena.Patterned familyOf arguments)
    (hids : ids ≠ []) (hinst : ∀ id ∈ ids, ∃ args u, g.Instantiates id args u) :
    (∃ l, ofInstantiations g familyOf ids = .ok l) ↔
      ∃ o, ∀ id ∈ ids, g.Admits familyOf id o := by
  constructor
  · rintro ⟨l, hl⟩
    exact ⟨l.outline, (covers_of_ofInstantiations hinst hl).admits⟩
  · rintro ⟨o, ho⟩
    have hfits : ∀ x ∈ ids.filterMap (ofInstantiation g familyOf), o.Fits x := by
      intro x hx
      obtain ⟨id, hid, args, u, hu, rfl⟩ := mem_layouts_iff.1 hx
      obtain ⟨args', u', hu', hdesc⟩ := ho id hid
      obtain ⟨rfl, rfl⟩ := hu.unique hu'
      exact fits_of_describes (hp _) hdesc
    unfold ofInstantiations
    split
    · next hnil =>
      obtain ⟨id, hid⟩ := List.exists_mem_of_ne_nil ids hids
      obtain ⟨args, u, hu⟩ := hinst id hid
      have hmem : ofUser g familyOf args u ∈ ids.filterMap (ofInstantiation g familyOf) :=
        mem_layouts_iff.2 ⟨id, hid, args, u, hu, rfl⟩
      rw [hnil] at hmem
      cases hmem
    · next x xs hxs => exact exists_foldlM_unify (hxs ▸ hfits)

end SharedLayout

end NativeBindings
