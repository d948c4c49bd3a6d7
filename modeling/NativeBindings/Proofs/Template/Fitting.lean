import NativeBindings.Proofs.Graph.SpellingEnds
import NativeBindings.Proofs.Template.Pattern

/-!
# Schemes and nodes

Inside an instantiation a scheme says of a node that it has the native name of an argument, or
a given native name, or that it is made up of nodes of which the scheme says more
(`Arena.Fits`). This is what a pattern of the node knows: a scheme that fits the pattern fits
the node (`Arena.fits_of_fits_ofNode`), and the other way round where every node can be read
(`Arena.fits_ofNode`).
-/

namespace NativeBindings

namespace Arena

section

variable (a : Arena) (familyOf : NodeId → Option Nat) (arguments : List String)

mutual

/-- Whether a scheme describes a node inside an instantiation with natively named arguments. -/
def Fits : Scheme → NodeId → Prop
  | .unspelled, _ => False
  | .param i, id => arguments[i]? = some (a.native id)
  | .concrete _ native, id => a.native id = native
  | .pointer s, id => ∃ t, a.node? id = some (.pointer t) ∧ Fits s t
  | .array s, id => ∃ e, a.node? id = some (.array e) ∧ Fits s e
  | .template f ss, id => ∃ l args, a.node? id = some (.template l args) ∧ familyOf id = some f ∧
      FitAll ss args

/-- Whether as many schemes describe nodes, place by place. -/
def FitAll : List Scheme → List NodeId → Prop
  | [], [] => True
  | s :: ss, id :: ids => Fits s id ∧ FitAll ss ids
  | _, _ => False

end

theorem fitAll_iff {ss : List Scheme} {ids : List NodeId} :
    a.FitAll familyOf arguments ss ids ↔ List.Forall₂ (a.Fits familyOf arguments) ss ids := by
  induction ss generalizing ids with
  | nil => cases ids <;> simp [FitAll]
  | cons s ss ih => cases ids <;> simp [FitAll, ih]

end

end Arena

namespace Arena

variable {a : Arena} {familyOf : NodeId → Option Nat} {arguments : List String}

mutual

/-- The families that a scheme writes are families of the nodes that it describes. -/
theorem Fits.exists_familyOf : ∀ {s : Scheme} {id : NodeId}, a.Fits familyOf arguments s id →
    ∀ f ∈ s.families, ∃ x, familyOf x = some f
  | .unspelled, _, h, _, _ => h.elim
  | .param _, _, _, _, hf => absurd hf List.not_mem_nil
  | .concrete _ _, _, _, _, hf => absurd hf List.not_mem_nil
  | .pointer _, _, h, f, hf => by
    obtain ⟨_, -, hs⟩ := h
    exact hs.exists_familyOf f hf
  | .array _, _, h, f, hf => by
    obtain ⟨_, -, hs⟩ := h
    exact hs.exists_familyOf f hf
  | .template g ss, id, h, f, hf => by
    obtain ⟨_, _, -, hfamily, hss⟩ := h
    rcases List.mem_cons.1 hf with rfl | hf
    · exact ⟨id, hfamily⟩
    · exact hss.exists_familyOf f hf

/-- The same for rows of schemes. -/
theorem FitAll.exists_familyOf : ∀ {ss : List Scheme} {ids : List NodeId},
    a.FitAll familyOf arguments ss ids → ∀ f ∈ Scheme.familiesOfAll ss, ∃ x, familyOf x = some f
  | [], _, _, _, hf => absurd hf List.not_mem_nil
  | _ :: _, [], h, _, _ => h.elim
  | _ :: _, _ :: _, h, f, hf => by
    rcases List.mem_append.1 hf with hf | hf
    · exact h.1.exists_familyOf f hf
    · exact h.2.exists_familyOf f hf

end

end Arena

/-! ## Patterns of nodes -/

namespace Pattern

variable {a : Arena} {familyOf : NodeId → Option Nat} {arguments : List String}

theorem mem_params_labelOf {i : Nat} {id : NodeId} {native : String} :
    i ∈ (labelOf arguments id native).params ↔ arguments[i]? = some native := by
  simp only [labelOf, ParamSet.mem_ofList, List.mem_filter, List.mem_range, beq_iff_eq,
    and_iff_right_iff_imp]
  intro h
  obtain ⟨hi, -⟩ := List.getElem?_eq_some_iff.1 h
  exact hi

/-- A pattern is labelled with the parameters and the name of its node. -/
theorem label_of_reading {native : NodeId → String} {id : NodeId} {n : Node}
    {known : NodeId → Option Pattern} {p : Pattern}
    (h : reading native familyOf arguments id n known = some p) :
    p.label = labelOf arguments id (native id) := by
  cases n with
  | template l args =>
    simp only [reading] at h
    split at h
    · obtain ⟨ts, -, rfl⟩ := Option.map_eq_some_iff.1 h
      rfl
    · obtain rfl := Option.some.inj h
      rfl
  | pointer t | array t =>
    obtain ⟨p, -, rfl⟩ := Option.map_eq_some_iff.1 h
    rfl
  | _ =>
    obtain rfl := Option.some.inj h
    rfl

/-- A pattern of a node either is the reading of the node or does not look inside. -/
theorem ofNode_cases (a : Arena) (familyOf : NodeId → Option Nat) (arguments : List String)
    (id : NodeId) :
    (∃ n, a.node? id = some n ∧ reading a.native familyOf arguments id n
        (a.read? (reading a.native familyOf arguments)) =
          some (ofNode a familyOf arguments id)) ∨
      ofNode a familyOf arguments id = leaf (labelOf arguments id (a.native id)) := by
  unfold ofNode
  cases h : a.read? (reading a.native familyOf arguments) id with
  | none => exact Or.inr rfl
  | some p =>
    rw [Arena.read?_eq (reading_stable _ _ _), Option.bind_eq_some_iff] at h
    exact Or.inl h

theorem ofNode_eq {id : NodeId} {p : Pattern}
    (h : a.read? (reading a.native familyOf arguments) id = some p) :
    ofNode a familyOf arguments id = p := by
  rw [ofNode, h, Option.getD_some]

/-- The pattern that stands for a node is labelled so, even if it is a leaf. -/
theorem label_ofNode (id : NodeId) :
    (ofNode a familyOf arguments id).label = labelOf arguments id (a.native id) := by
  rcases ofNode_cases a familyOf arguments id with ⟨n, -, h⟩ | h
  · exact label_of_reading h
  · rw [h, label]

theorem map_ofNode {ids : List NodeId} {ps : List Pattern}
    (h : ids.mapM (a.read? (reading a.native familyOf arguments)) = some ps) :
    ids.map (ofNode a familyOf arguments) = ps :=
  Reading.map_eq_of_mapM (fun _ _ => ofNode_eq) h

/-! ### Looking inside -/

/-- What a pattern shows of the node that it is the pattern of. -/
def Shows (a : Arena) (familyOf : NodeId → Option Nat) (arguments : List String) (id : NodeId) :
    Pattern → Prop
  | mixed _ => False
  | leaf _ => True
  | pointer _ t => ∃ y, a.node? id = some (.pointer y) ∧ t = ofNode a familyOf arguments y
  | array _ t => ∃ y, a.node? id = some (.array y) ∧ t = ofNode a familyOf arguments y
  | template _ f ts => ∃ k args, a.node? id = some (.template k args) ∧ familyOf id = some f ∧
      ts = args.map (ofNode a familyOf arguments)

theorem shows_of_reading {id : NodeId} {n : Node} {p : Pattern} (hn : a.node? id = some n)
    (h : reading a.native familyOf arguments id n
      (a.read? (reading a.native familyOf arguments)) = some p) :
    Shows a familyOf arguments id p := by
  cases n with
  | pointer y | array y =>
    obtain ⟨t, ht, rfl⟩ := Option.map_eq_some_iff.1 h
    exact ⟨y, hn, (ofNode_eq ht).symm⟩
  | template k args =>
    simp only [reading] at h
    split at h
    · next f hf =>
      obtain ⟨ts, hts, rfl⟩ := Option.map_eq_some_iff.1 h
      exact ⟨k, args, hn, hf, (map_ofNode hts).symm⟩
    · obtain rfl := Option.some.inj h
      trivial
  | _ =>
    obtain rfl := Option.some.inj h
    trivial

/-- A pattern shows what its node is made of. -/
theorem shows_of_ofNode {id : NodeId} {p : Pattern} (h : ofNode a familyOf arguments id = p) :
    Shows a familyOf arguments id p := by
  subst h
  rcases ofNode_cases a familyOf arguments id with ⟨n, hn, hread⟩ | hleaf
  · exact shows_of_reading hn hread
  · rw [hleaf]
    trivial

end Pattern

namespace Arena

variable {a : Arena} {familyOf : NodeId → Option Nat} {arguments : List String}

mutual

/-- A scheme that fits the pattern of a node fits the node. -/
theorem fits_of_fits_ofNode : ∀ (s : Scheme) {id : NodeId},
    s.Fits (.ofNode a familyOf arguments id) → a.Fits familyOf arguments s id
  | .unspelled, id => False.elim
  | .param i, id => by
    intro h
    rw [Scheme.Fits, Pattern.label_ofNode] at h
    exact Pattern.mem_params_labelOf.1 h
  | .concrete x native, id => by
    rintro ⟨y, h⟩
    rw [Pattern.label_ofNode] at h
    exact (Prod.mk.inj (Option.some.inj h)).2
  | .pointer s, id => by
    rintro ⟨l, t, h, hs⟩
    obtain ⟨y, hn, rfl⟩ := Pattern.shows_of_ofNode h
    exact ⟨y, hn, fits_of_fits_ofNode s hs⟩
  | .array s, id => by
    rintro ⟨l, t, h, hs⟩
    obtain ⟨y, hn, rfl⟩ := Pattern.shows_of_ofNode h
    exact ⟨y, hn, fits_of_fits_ofNode s hs⟩
  | .template f ss, id => by
    rintro ⟨l, ts, h, hss⟩
    obtain ⟨k, args, hn, hf, rfl⟩ := Pattern.shows_of_ofNode h
    exact ⟨k, args, hn, hf, fitAll_of_fitAll_ofNode ss hss⟩

/-- The same for rows of nodes. -/
theorem fitAll_of_fitAll_ofNode : ∀ (ss : List Scheme) {ids : List NodeId},
    Scheme.FitAll ss (ids.map (.ofNode a familyOf arguments)) → a.FitAll familyOf arguments ss ids
  | [], [] => fun _ => trivial
  | [], _ :: _ => False.elim
  | _ :: _, [] => False.elim
  | s :: ss, _ :: _ => fun h => ⟨fits_of_fits_ofNode s h.1, fitAll_of_fitAll_ofNode ss h.2⟩

end

/-- Whether every node can be read as a pattern. -/
def Patterned (a : Arena) (familyOf : NodeId → Option Nat) (arguments : List String) : Prop :=
  ∀ id < a.size, ∃ p, a.read? (Pattern.reading a.native familyOf arguments) id = some p

/-- The pattern of a node is read off the patterns of what it is made of. -/
theorem Patterned.reading (h : a.Patterned familyOf arguments) {id : NodeId} {n : Node}
    (hn : a.node? id = some n) : Pattern.reading a.native familyOf arguments id n
      (a.read? (Pattern.reading a.native familyOf arguments)) =
        some (.ofNode a familyOf arguments id) := by
  obtain ⟨p, hp⟩ := h id (lt_size_of_node? hn)
  rw [Pattern.ofNode_eq hp]
  rwa [read?_eq (Pattern.reading_stable _ _ _), hn, Option.bind_some] at hp

mutual

/-- Where every node can be read, a scheme that fits a node fits its pattern. -/
theorem fits_ofNode (h : a.Patterned familyOf arguments) : ∀ (s : Scheme) {id : NodeId},
    a.Fits familyOf arguments s id → s.Fits (.ofNode a familyOf arguments id)
  | .unspelled, id => False.elim
  | .param i, id => by
    intro hfit
    rw [Scheme.Fits, Pattern.label_ofNode]
    exact Pattern.mem_params_labelOf.2 hfit
  | .concrete x native, id => by
    rintro rfl
    rw [Scheme.Fits, Pattern.label_ofNode]
    exact ⟨id, rfl⟩
  | .pointer s, id => by
    rintro ⟨y, hn, hs⟩
    obtain ⟨p, hp, heq⟩ := Option.map_eq_some_iff.1 (h.reading hn)
    obtain rfl := Pattern.ofNode_eq hp
    exact ⟨_, _, heq.symm, fits_ofNode h s hs⟩
  | .array s, id => by
    rintro ⟨y, hn, hs⟩
    obtain ⟨p, hp, heq⟩ := Option.map_eq_some_iff.1 (h.reading hn)
    obtain rfl := Pattern.ofNode_eq hp
    exact ⟨_, _, heq.symm, fits_ofNode h s hs⟩
  | .template f ss, id => by
    rintro ⟨k, args, hn, hf, hss⟩
    have hread := h.reading hn
    simp only [Pattern.reading, hf] at hread
    obtain ⟨ps, hps, heq⟩ := Option.map_eq_some_iff.1 hread
    obtain rfl := Pattern.map_ofNode hps
    exact ⟨_, _, heq.symm, fitAll_map_ofNode h ss hss⟩

/-- The same for rows of nodes. -/
theorem fitAll_map_ofNode (h : a.Patterned familyOf arguments) :
    ∀ (ss : List Scheme) {ids : List NodeId}, a.FitAll familyOf arguments ss ids →
      Scheme.FitAll ss (ids.map (.ofNode a familyOf arguments))
  | [], [] => fun _ => trivial
  | [], _ :: _ => False.elim
  | _ :: _, [] => False.elim
  | s :: ss, _ :: _ => fun hfit => ⟨fits_ofNode h s hfit.1, fitAll_map_ofNode h ss hfit.2⟩

end

end Arena

/-! ## Nodes are sound -/

namespace Pattern

variable {a : Arena} {familyOf : NodeId → Option Nat} {arguments : List String}
  {P : NodeId → Prop} {named : NodeId → String → Prop}

/-- The pattern of a node is labelled with its native name. -/
theorem named_label_ofNode {p : Pattern} {id : NodeId} (h : named id (a.native id))
    (hp : ofNode a familyOf arguments id = p) : p.label.Named named := by
  subst hp
  intro x native hagreed
  rw [label_ofNode] at hagreed
  obtain ⟨rfl, rfl⟩ := Prod.mk.inj (Option.some.inj hagreed)
  exact h

mutual

/-- The pattern of a node is sound, with the nodes named that its spelling leads to. -/
theorem sound_ofNode (hlink : ∀ x y, P x → a.Spells x y → P y)
    (hnamed : ∀ x, P x → named x (a.native x)) : ∀ {p : Pattern} {id : NodeId}, P id →
      ofNode a familyOf arguments id = p → p.Sound named
  | .mixed l, id, _, h => (shows_of_ofNode h).elim
  | .leaf l, id, hid, h => by
    obtain rfl : labelOf arguments id (a.native id) = l :=
      (label_ofNode id).symm.trans (congrArg label h)
    exact ⟨rfl, named_label_ofNode (hnamed id hid) h⟩
  | .pointer l t, id, hid, h => by
    obtain ⟨y, hn, rfl⟩ := shows_of_ofNode h
    have hy : P y := hlink id y hid (Arena.spells_iff.2 ⟨_, hn, by simp [Node.spellingLinks]⟩)
    exact ⟨named_label_ofNode (hnamed id hid) h, sound_ofNode hlink hnamed hy rfl⟩
  | .array l t, id, hid, h => by
    obtain ⟨y, hn, rfl⟩ := shows_of_ofNode h
    have hy : P y := hlink id y hid (Arena.spells_iff.2 ⟨_, hn, by simp [Node.spellingLinks]⟩)
    exact ⟨named_label_ofNode (hnamed id hid) h, sound_ofNode hlink hnamed hy rfl⟩
  | .template l f ts, id, hid, h => by
    obtain ⟨k, args, hn, -, hts⟩ := shows_of_ofNode h
    have hargs (y : NodeId) (hy : y ∈ args) : P y :=
      hlink id y hid (Arena.spells_iff.2 ⟨_, hn, hy⟩)
    exact ⟨named_label_ofNode (hnamed id hid) h, allSound_ofNode hlink hnamed hargs hts.symm⟩

/-- The same for rows of nodes. -/
theorem allSound_ofNode (hlink : ∀ x y, P x → a.Spells x y → P y)
    (hnamed : ∀ x, P x → named x (a.native x)) : ∀ {ps : List Pattern} {ids : List NodeId},
      (∀ id ∈ ids, P id) → ids.map (ofNode a familyOf arguments) = ps → AllSound named ps
  | [], ids, _, _ => trivial
  | p :: ps, ids, hids, h => by
    obtain ⟨id, rest, rfl, hp, hps⟩ := List.map_eq_cons_iff.1 h
    refine ⟨sound_ofNode hlink hnamed (hids id (by simp)) hp, ?_⟩
    exact allSound_ofNode hlink hnamed (fun y hy => hids y (by simp [hy])) hps

end

end Pattern

end NativeBindings
