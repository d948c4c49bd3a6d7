import NativeBindings.Proofs.Graph.Relabeled
import NativeBindings.Template.Plan

/-!
# Plans for graphs with other symbols

Which instantiations belong together, and whether their layouts unify, is read off names and
links. So a graph has the plan of the graph with its symbols replaced, and the reports on the way
differ in the symbols that they are about (`Plan.ofGraph_relabel`).
-/

namespace NativeBindings

variable {f : SymbolId → SymbolId}

/-! ## Layouts -/

/-- The pattern of a node does not depend on symbols. -/
theorem Pattern.reading_blind (native : NodeId → String) (familyOf : NodeId → Option Nat)
    (arguments : List String) : (reading native familyOf arguments).Blind := by
  intro f id n known hp
  cases n with
  | placeholder => cases hp
  | _ => rfl

namespace TypeGraph

variable {g : TypeGraph}

@[simp] theorem layoutType?_relabel (g : TypeGraph) (id : NodeId) :
    (g.relabel f).layoutType? id = (g.layoutType? id).map (UserType.relabel f) :=
  g.arena.layoutType?_relabel id

/-- The instantiations are the same, whatever the symbols. -/
theorem instantiations_relabel (g : TypeGraph) :
    (g.relabel f).instantiations = g.instantiations := by
  unfold instantiations
  refine List.filter_congr fun id _ => ?_
  simp only [relabel, Arena.node?_relabel]
  cases g.arena.node? id <;> simp

theorem native_relabel (h : g.arena.Placed) : (g.relabel f).native = g.native :=
  funext (h.native_relabel ·)

end TypeGraph

theorem Pattern.ofNode_relabel {g : TypeGraph} (h : g.arena.Placed) :
    ofNode (g.relabel f).arena = ofNode g.arena := by
  have hnative : (g.relabel f).arena.native = g.arena.native := TypeGraph.native_relabel h
  funext familyOf arguments id
  have hblind := reading_blind g.arena.native familyOf arguments
  unfold ofNode
  rw [hnative]
  exact congrArg (Option.getD · _) (h.read?_relabel (f := f) id hblind)

/-- An instantiation has the same layout, whatever its symbol. -/
theorem SharedLayout.ofInstantiation_relabel {g : TypeGraph} (h : g.arena.Placed)
    (familyOf : NodeId → Option Nat) (id : NodeId) :
    ofInstantiation (g.relabel f) familyOf id = ofInstantiation g familyOf id := by
  unfold ofInstantiation
  simp only [Pattern.ofNode_relabel h, TypeGraph.native_relabel h]
  simp only [TypeGraph.relabel, Arena.node?_relabel, Arena.user?_relabel]
  cases g.arena.node? id with
  | none => rfl
  | some n =>
    cases n with
    | template l args =>
      simp only [Option.map_some, Node.relabel, Option.map_map]
      rfl
    | _ => rfl

namespace Plan

variable {g : TypeGraph}

/-! ## Families -/

theorem keyOf?_relabel (g : TypeGraph) (id : NodeId) : keyOf? (g.relabel f) id = keyOf? g id := by
  simp only [keyOf?, TypeGraph.layoutType?_relabel, Option.map_map]
  rfl

/-- The same instantiations make the same groups. -/
theorem grouped_relabel (g : TypeGraph) : grouped (g.relabel f) = grouped g := by
  simp only [grouped, g.instantiations_relabel, keyOf?_relabel]

/-- Reports about a family have the new symbol of its first instantiation. -/
theorem symbolOf?_relabel (g : TypeGraph) (ids : List NodeId) :
    symbolOf? (g.relabel f) ids = (symbolOf? g ids).map f := by
  unfold symbolOf?
  cases ids.head? with
  | none => rfl
  | some id =>
    simp only [Option.bind_some, TypeGraph.layoutType?_relabel, Option.map_map]
    rfl

/-- Families are judged alike, and reported under other symbols. -/
theorem judge_relabel (h : g.arena.Placed) (familyOf : NodeId → Option Nat)
    (x : TemplateKey × List NodeId) : judge (g.relabel f) familyOf x =
      ((judge g familyOf x).1, (judge g familyOf x).2.map (·.relabel f)) := by
  obtain ⟨key, ids⟩ := x
  have hlayout : SharedLayout.ofInstantiations (g.relabel f) familyOf ids =
      SharedLayout.ofInstantiations g familyOf ids := by
    simp only [SharedLayout.ofInstantiations, SharedLayout.ofInstantiation_relabel h]
  simp only [judge, hlayout]
  cases SharedLayout.ofInstantiations g familyOf ids with
  | ok layout => rfl
  | error m =>
    simp only [ambiguousWarning, symbolOf?_relabel]
    rfl

/-- The same family is demoted, and reported under another symbol. -/
theorem demoteAt_relabel (g : TypeGraph) (families : List Family) (i : Nat) :
    demoteAt (g.relabel f) families i =
      ((demoteAt g families i).1, (demoteAt g families i).2.map (·.relabel f)) := by
  unfold demoteAt
  cases families[i]? with
  | none => rfl
  | some family =>
    dsimp only
    cases blocker? families family with
    | none => rfl
    | some blocker =>
      simp only [demotionNote, symbolOf?_relabel]
      rfl

theorem demoteEach_relabel (g : TypeGraph) (families : List Family) (is : List Nat) :
    demoteEach (g.relabel f) families is =
      ((demoteEach g families is).1, (demoteEach g families is).2.map (·.relabel f)) := by
  induction is generalizing families with
  | nil => rfl
  | cons i is ih => simp only [demoteEach, demoteAt_relabel, ih, List.map_append]

/-- The same families are demoted, and reported under other symbols. -/
theorem demoteAll_relabel (g : TypeGraph) (fuel : Nat) (families : List Family) :
    demoteAll (g.relabel f) fuel families =
      ((demoteAll g fuel families).1, (demoteAll g fuel families).2.map (·.relabel f)) := by
  induction fuel generalizing families with
  | zero => rfl
  | succ fuel ih =>
    simp only [demoteAll, demoteEach_relabel]
    cases hround : demoteEach g families (List.range families.length) with
    | mk demoted ds =>
      cases ds with
      | nil => rfl
      | cons d ds => simp only [List.map_cons, ih, List.map_append, List.cons_append]

/-- The plan does not depend on the symbols. -/
theorem ofGraph_relabel (h : g.arena.Placed) (options : Options) :
    ofGraph options (g.relabel f) =
      ((ofGraph options g).1, (ofGraph options g).2.map (·.relabel f)) := by
  unfold ofGraph
  simp only [grouped_relabel, demoteAll_relabel]
  split
  · simp only [List.map_map, Function.comp_def, judge_relabel h, List.length_map, List.flatMap_map,
      List.map_append, List.map_flatMap]
  · rfl

end Plan

end NativeBindings
