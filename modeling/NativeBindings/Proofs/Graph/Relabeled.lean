import NativeBindings.Proofs.Graph.RelabeledDraft
import NativeBindings.Proofs.Graph.Tidy

/-!
# Graphs of records with other ids

From a draft on ids are not looked up any more. What is left of them are the symbols that
layouts were made from, for reports, and a least symbol to blame where a type cannot be
written. So building keeps step when the ids of all records are replaced: it ends in the same
graph with the symbols replaced, or in a failure both times (`TypeGraph.ofRecords_agree`).
-/

namespace NativeBindings

variable {f : SymbolId → SymbolId}

/-- A report about the replaced symbol. -/
def Diagnostic.relabel (f : SymbolId → SymbolId) (x : Diagnostic) : Diagnostic :=
  { x with symbol := x.symbol.map f }

/-- Reports are relabelled one by one. -/
theorem Diagnostics.relabels_map (ds : Diagnostics) :
    Diagnostics.Relabels f ds (ds.map (·.relabel f)) := by
  simp [Diagnostics.Relabels, Diagnostic.relabel]

namespace Arena

variable (a : Arena)

/-! ## Spelling -/

theorem spellingLinks_relabel (id : NodeId) :
    (a.relabel f).spellingLinks id = a.spellingLinks id := by
  unfold spellingLinks
  rw [node?_relabel]
  cases a.node? id <;> simp

/-- The search for loops goes the same ways, whatever the symbols. -/
theorem explore_relabel : (a.relabel f).explore = a.explore := by
  funext fuel
  induction fuel with
  | zero => rfl
  | succ fuel ih =>
    funext path done id
    simp only [explore, spellingLinks_relabel, ih]

/-- Both arenas can be written, or neither. -/
theorem checkSpelling_agree :
    Agree (fun _ _ => True) a.checkSpelling (a.relabel f).checkSpelling := by
  have hloop : (a.relabel f).loop? = a.loop? := by
    simp only [loop?, explore_relabel, size_relabel]
  unfold checkSpelling
  rw [hloop]
  cases a.loop? with
  | none => exact .ok trivial
  | some id => exact .error _ _

/-! ## Identity -/

/-- What a class is does not depend on symbols. -/
theorem identity_relabel (u : UserType) (arguments : List String) :
    (u.relabel f).identity arguments = u.identity arguments :=
  rfl

variable {a}

/-- So classes have the same identities, whatever the symbols. -/
theorem Placed.identity?_relabel (h : a.Placed) (id : NodeId) :
    (a.relabel f).identity? id = a.identity? id := by
  have hnative : (a.relabel f).native = a.native := funext (h.native_relabel ·)
  unfold identity?
  rw [node?_relabel]
  cases a.node? id with
  | none => rfl
  | some n =>
    cases n with
    | template l args =>
      simp only [Option.map_some, Node.relabel, user?_relabel, Option.map_map, hnative,
        Function.comp_def, identity_relabel]
    | _ => rfl

theorem Placed.identified_relabel (h : a.Placed) (classes : List NodeId) :
    (a.relabel f).identified classes = a.identified classes := by
  simp only [identified, h.identity?_relabel]

variable (a)

/-- Duplicates are sent to the same classes. -/
theorem forwarding_relabel (x : NodeId × NodeId) : (a.relabel f).forwarding x = a.forwarding x := by
  simp only [forwarding, layout?_relabel]

/-- The same conflicts are reported, about other symbols. -/
theorem conflict?_relabel (x : NodeId × NodeId) :
    (a.relabel f).conflict? x = (a.conflict? x).map (·.relabel f) := by
  obtain ⟨id, first⟩ := x
  simp only [conflict?, layoutType?_relabel]
  cases a.layoutType? id with
  | none => rfl
  | some u =>
    cases a.layoutType? first with
    | none => rfl
    | some v =>
      have hsize : (u.relabel f).size = u.size ∧ (v.relabel f).size = v.size := ⟨rfl, rfl⟩
      simp only [Option.map_some, Option.bind_eq_bind, Option.bind_some, hsize]
      split <;> rfl

theorem discard_relabel (x : NodeId × NodeId) :
    (a.relabel f).discard x = (a.discard x).relabel f := by
  obtain ⟨id, first⟩ := x
  simp only [discard, layout?_relabel]
  split
  · exact a.updateUser_relabel _ fun u => rfl
  · rfl

theorem keep_relabel (id : NodeId) : (a.relabel f).keep id = (a.keep id).relabel f := by
  simp only [keep, layout?_relabel]
  split
  · exact a.updateUser_relabel _ fun u => rfl
  · rfl

/-- What commutes with replacing symbols at each step commutes with it altogether. -/
theorem foldl_relabel {α : Type} {step : Arena → α → Arena}
    (h : ∀ a x, step (Arena.relabel f a) x = (step a x).relabel f) (xs : List α) :
    xs.foldl step (a.relabel f) = (xs.foldl step a).relabel f := by
  induction xs generalizing a with
  | nil => rfl
  | cons x xs ih => rw [List.foldl_cons, List.foldl_cons, h, ih]

variable {a}

/-- The same classes are united, with the same reports about other symbols. -/
theorem Placed.unite_relabel (h : a.Placed) (classes : List NodeId) :
    (a.relabel f).unite classes = ((a.unite classes).1.relabel f, (a.unite classes).2.1,
      (a.unite classes).2.2.map (·.relabel f)) := by
  have hforward : (a.relabel f).forwarding = a.forwarding := funext a.forwarding_relabel
  have hconflict : (a.relabel f).conflict? = fun x => (a.conflict? x).map (·.relabel f) :=
    funext a.conflict?_relabel
  simp only [unite, h.identified_relabel, hforward, hconflict, foldl_relabel a discard_relabel,
    foldl_relabel _ keep_relabel, relink_relabel, List.map_filterMap]

end Arena

namespace TypeGraph

/-! ## Bases -/

/-- The same bases pass the check, whatever the symbols. -/
theorem checkedBases_agree {a : Arena} (degraded : List NodeId) (u : UserType)
    (bases : List NodeId) : Agree (· = ·) (checkedBases a degraded u bases)
      (checkedBases (a.relabel f) degraded (u.relabel f) bases) := by
  induction bases with
  | nil => exact .ok rfl
  | cons base bases ih =>
    have hclass : ((a.relabel f).node? base).map Node.isClass =
        (a.node? base).map Node.isClass := by
      rw [Arena.node?_relabel]
      cases a.node? base <;> simp
    unfold checkedBases
    rw [hclass]
    split
    · exact ih.map fun _ _ h => h ▸ rfl
    · split
      · exact ih
      · exact .error _ _

/-- The same classes pass the check, whatever the symbols. -/
theorem checkClass_agree (degraded : List NodeId) (a : Arena) (id : NodeId) :
    Agree (fun b b' => b' = b.relabel f) (checkClass degraded a id)
      (checkClass degraded (a.relabel f) id) := by
  unfold checkClass
  rw [Arena.layout?_relabel]
  cases a.layout? id with
  | none => exact .ok rfl
  | some l =>
    simp only [Arena.user?_relabel]
    cases a.user? l with
    | none => exact .ok rfl
    | some u =>
      refine (checkedBases_agree degraded u u.bases).map ?_
      rintro bases _ rfl
      exact a.updateUser_relabel l fun u => rfl

/-! ## Building -/

/-- A graph with every symbol replaced. -/
def relabel (f : SymbolId → SymbolId) (g : TypeGraph) : TypeGraph :=
  { g with arena := g.arena.relabel f }

/-- Building a graph keeps step when ids are replaced. -/
theorem ofRecords_agree (hf : Function.Injective f) (options : Options)
    (records : List SymbolRecord) :
    Agree (fun x x' => x'.1 = x.1.relabel f ∧ Diagnostics.Relabels f x.2 x'.2)
      (ofRecords options records) (ofRecords options (records.map (·.relabel f))) := by
  unfold ofRecords
  refine (Draft.ofRecords_agree hf records).bind fun draft draft' hdraft hrelabel => ?_
  refine (hrelabel.settle options).bind ?_
  rintro ⟨d, ws⟩ ⟨d', ws'⟩ hsettle ⟨hd, hws⟩
  have hplaced : d.arena.Placed :=
    (Draft.settled_spec (Draft.settled_eq_ok_iff.2 ⟨draft, ws, hdraft, hsettle⟩)).placed
  obtain ⟨arena', classes'⟩ := d'
  obtain ⟨rfl, rfl⟩ := hd
  refine (d.arena.checkSpelling_agree).bind fun _ _ _ _ => ?_
  simp only [hplaced.unite_relabel]
  have hdegraded : draft'.dangling.map (·.1) = draft.dangling.map (·.1) := by
    rw [hrelabel.dangling_eq, List.map_map]
    rfl
  have hcheck : Agree (fun b b' => b' = b.relabel f)
      ((d.arena.unite d.classes).2.1.foldlM (checkClass (draft.dangling.map (·.1)))
        (d.arena.unite d.classes).1)
      (((d.arena.unite d.classes).2.1.map id).foldlM (checkClass (draft.dangling.map (·.1)))
        ((d.arena.unite d.classes).1.relabel f)) := by
    refine Agree.foldlM (fun b b' id h => ?_) _ rfl
    exact h ▸ checkClass_agree _ b id
  rw [hdegraded]
  rw [List.map_id] at hcheck
  refine hcheck.bind ?_
  rintro b _ - rfl
  exact .ok ⟨rfl, hws.append (Diagnostics.relabels_map _)⟩

end TypeGraph

end NativeBindings
