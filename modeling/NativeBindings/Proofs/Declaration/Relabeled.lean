import NativeBindings.Bindings
import NativeBindings.Proofs.Declaration.Circles
import NativeBindings.Proofs.Template.Relabeled

/-!
# Bindings of records with other ids

The ids of records mean nothing but which record is which. Replacing all of them by an injective
function leaves the declarations as they are, and the reports are about the replaced symbols
(`Bindings.ofRecords_relabel`); in particular it makes no difference which ids are the lesser.

The graphs agree by steps. What is written of a graph is read off its names, links and plan, so
that every part of it is the same for the graph with its symbols replaced.
-/

namespace NativeBindings

variable {f : SymbolId → SymbolId}

namespace PlannedGraph

/-! ## Subjects -/

/-- A planned graph with every symbol replaced. -/
def relabel (f : SymbolId → SymbolId) (p : PlannedGraph) : PlannedGraph :=
  { p with graph := p.graph.relabel f }

/-- What covers a node does not depend on symbols. -/
theorem subjectOf?_relabel (p : PlannedGraph) (id : NodeId) :
    (p.relabel f).subjectOf? id = p.subjectOf? id := by
  simp only [subjectOf?, relabel, TypeGraph.relabel, Arena.node?_relabel]
  cases p.graph.arena.node? id with
  | none => rfl
  | some n => cases n <;> rfl

/-- The subjects do not depend on symbols. -/
theorem subjects_relabel (p : PlannedGraph) : (p.relabel f).subjects = p.subjects := by
  have hsubject : (p.relabel f).subjectOf? = p.subjectOf? := funext p.subjectOf?_relabel
  rw [subjects, hsubject]
  rfl

theorem bases_relabel (p : PlannedGraph) (s : Subject) : (p.relabel f).bases s = p.bases s := by
  have hcovered : (p.relabel f).covered s = p.covered s := by
    cases s <;> rfl
  unfold bases
  rw [hcovered]
  refine congrArg (fun k => (List.flatMap k _).eraseDups) (funext fun id => ?_)
  simp only [relabel, TypeGraph.layoutType?_relabel]
  cases p.graph.layoutType? id <;> rfl

section

variable {p : PlannedGraph} (h : p.graph.arena.Placed)

include h

/-- Nor do the names that they would like to have. -/
theorem preferred_relabel (s : Subject) : (p.relabel f).preferred s = p.preferred s := by
  cases s with
  | generic family => rfl
  | user id =>
    simp only [preferred, relabel, TypeGraph.relabel, Arena.user?_relabel]
    cases p.graph.arena.user? id <;> rfl
  | specialized id =>
    have hident : (p.relabel f).specializedIdent = p.specializedIdent := by
      funext u args
      simp only [specializedIdent, relabel, TypeGraph.render, TypeGraph.relabel,
        h.render_relabel]
    simp only [preferred, hident]
    simp only [relabel, TypeGraph.relabel, Arena.node?_relabel, Arena.user?_relabel]
    cases p.graph.arena.node? id with
    | none => rfl
    | some n =>
      cases n with
      | template l args =>
        simp only [Option.map_some, Node.relabel]
        cases p.graph.arena.user? l <;> rfl
      | _ => rfl

/-- Subjects get the same names, whatever their symbols. -/
theorem nameAll_relabel (short : Bool) (taken : List String) (ss : List Subject) :
    (p.relabel f).nameAll short taken ss = p.nameAll short taken ss := by
  induction ss generalizing taken with
  | nil => rfl
  | cons s ss ih => simp only [nameAll, preferred_relabel h, ih]

end

end PlannedGraph

namespace Catalog

/-! ## References -/

/-- A catalog of the graph with every symbol replaced. -/
def relabel (f : SymbolId → SymbolId) (c : Catalog) : Catalog :=
  { c with planned := c.planned.relabel f }

theorem coveredBy?_relabel (c : Catalog) (id : NodeId) :
    (c.relabel f).coveredBy? id = c.coveredBy? id := by
  simp only [coveredBy?, relabel, PlannedGraph.subjectOf?_relabel]
  rfl

theorem enumAt?_relabel (c : Catalog) (id : NodeId) :
    (c.relabel f).enumAt? id = c.enumAt? id := by
  simp only [enumAt?, graph, relabel, PlannedGraph.relabel, TypeGraph.relabel, Arena.node?_relabel]
  cases c.planned.graph.arena.node? id with
  | none => rfl
  | some n => cases n <;> rfl

/-- References do not depend on symbols. -/
theorem reading_blind (c : Catalog) : c.reading.Blind := by
  intro f id n known hp
  cases n with
  | placeholder => cases hp
  | _ => rfl

theorem coveredNames_relabel (c : Catalog) (family : Nat) :
    (c.relabel f).coveredNames family = c.coveredNames family := by
  have hlayout : (c.relabel f).graph.layoutType? =
      fun id => (c.graph.layoutType? id).map (UserType.relabel f) :=
    funext (c.planned.graph.layoutType?_relabel ·)
  simp only [coveredNames, hlayout, ← List.map_filterMap, List.map_map]
  rfl

theorem dependencies_relabel (c : Catalog) (n : Nat) :
    (c.relabel f).dependencies n = c.dependencies n := by
  have hbases : (c.relabel f).planned.bases = c.planned.bases := funext c.planned.bases_relabel
  have hcovered : (c.relabel f).coveredBy? = c.coveredBy? := funext c.coveredBy?_relabel
  simp only [dependencies, hbases, hcovered]
  rfl

/-- Declarations come in the same order, whatever their symbols. -/
theorem order_relabel (c : Catalog) : (c.relabel f).order = c.order := by
  have hdependencies : (c.relabel f).dependencies = c.dependencies := funext c.dependencies_relabel
  simp only [order, hdependencies]
  rfl

section

variable {c : Catalog} (h : c.graph.arena.Placed)

include h

theorem foreign_relabel (id : NodeId) : (c.relabel f).foreign id = c.foreign id :=
  congrArg TypeRef.foreign (h.render_relabel id c.short)

theorem reading_relabel : (c.relabel f).reading = c.reading := by
  funext id n linked
  cases n with
  | user u =>
    simp only [reading, coveredBy?_relabel, foreign_relabel h]
    rfl
  | template l args =>
    simp only [reading, coveredBy?_relabel, foreign_relabel h]
    rfl
  | placeholder s => simp only [reading, foreign_relabel h]
  | _ => rfl

/-- A node is referred to in the same way, whatever its symbol. -/
theorem refTo_relabel : (c.relabel f).refTo = c.refTo := by
  funext id
  have hread := h.read?_relabel (f := f) id c.reading_blind
  unfold refTo
  rw [reading_relabel h, foreign_relabel h]
  exact congrArg (Option.getD · _) hread

end

mutual

/-- A scheme is spelled in the same way, whatever the symbols. -/
theorem spelled_relabel {c : Catalog} (h : c.graph.arena.Placed) (s : Scheme) :
    (c.relabel f).spelled s = c.spelled s := by
  cases s with
  | unspelled | param => rfl
  | concrete id native => exact congrFun (refTo_relabel h) id
  | pointer s | array s => simp only [spelled, spelled_relabel h s]
  | template family ss =>
    simp only [spelled, spelledAll_relabel h ss]
    rfl

theorem spelledAll_relabel {c : Catalog} (h : c.graph.arena.Placed) (ss : List Scheme) :
    (c.relabel f).spelledAll ss = c.spelledAll ss := by
  cases ss with
  | nil => rfl
  | cons s ss => simp only [spelledAll, spelled_relabel h s, spelledAll_relabel h ss]

end

/-! ## Structs -/

section

variable {c : Catalog} (h : c.graph.arena.Placed)

include h

/-- A type with other symbols is written as the same struct. -/
theorem concreteStruct_relabel (documented : Bool) (ident : String) (specialized : Bool)
    (u : UserType) : (c.relabel f).concreteStruct documented ident specialized (u.relabel f) =
      c.concreteStruct documented ident specialized u := by
  simp only [concreteStruct, members, refTo_relabel h, enumAt?_relabel]
  rfl

/-- A family with other symbols is written as the same struct. -/
theorem genericStruct_relabel (documented : Bool) (ident : String) (family : Nat)
    (l : SharedLayout) : (c.relabel f).genericStruct documented ident family l =
      c.genericStruct documented ident family l := by
  simp only [genericStruct, genericMembers, genericKind, coveredNames_relabel, enumAt?_relabel,
    spelled_relabel h]

theorem struct?_relabel (documented : Bool) (ident : String) (s : Subject) :
    (c.relabel f).struct? documented ident s = c.struct? documented ident s := by
  cases s with
  | user id =>
    have huser : (c.relabel f).graph.arena.user? id =
        (c.graph.arena.user? id).map (UserType.relabel f) := c.graph.arena.user?_relabel id
    simp only [struct?, huser, Option.map_map, Function.comp_def, concreteStruct_relabel h]
  | specialized id =>
    have hlayout : (c.relabel f).graph.layoutType? id =
        (c.graph.layoutType? id).map (UserType.relabel f) := c.graph.layoutType?_relabel id
    simp only [struct?, hlayout, Option.map_map, Function.comp_def, concreteStruct_relabel h]
  | generic family =>
    have hgeneric : (c.relabel f).genericStruct documented ident family =
        c.genericStruct documented ident family :=
      funext (genericStruct_relabel h documented ident family)
    simp only [struct?, hgeneric]
    rfl

/-- The declarations are the same, whatever the symbols. -/
theorem declarations_relabel (documented : Bool) :
    (c.relabel f).declarations documented = c.declarations documented := by
  have hdeclaration : (c.relabel f).declaration documented = c.declaration documented := by
    funext s name
    simp only [declaration, struct?_relabel h]
  simp only [declarations, order_relabel, hdeclaration]
  rfl

end

/-- Naming comes to the same, with the same reports. -/
theorem ofPlanned_relabel {p : PlannedGraph} (h : p.graph.arena.Placed) (short : Bool) :
    ofPlanned (p.relabel f) short = ((ofPlanned p short).1.relabel f, (ofPlanned p short).2) := by
  simp only [ofPlanned, p.subjects_relabel, PlannedGraph.nameAll_relabel h]
  rfl

end Catalog

/-! ## Bindings -/

/-- The notes about names are about no single symbol. -/
theorem PlannedGraph.symbol_of_mem_nameAll {p : PlannedGraph} {short : Bool} {taken : List String}
    {ss : List Subject} {x : Diagnostic} (hx : x ∈ (p.nameAll short taken ss).2) :
    x.symbol = none := by
  induction ss generalizing taken with
  | nil => cases hx
  | cons s ss ih =>
    simp only [nameAll, List.mem_append, Option.mem_toList] at hx
    rcases hx with hx | hx
    · unfold DeclaredName.renamedNote? at hx
      split at hx
      · cases hx
      · obtain rfl := Option.some.inj hx
        rfl
    · exact ih hx

/-- Reports about no symbol are the same after relabelling. -/
theorem Diagnostics.relabels_self {ds : Diagnostics} (h : ∀ x ∈ ds, x.symbol = none) :
    Diagnostics.Relabels f ds ds := by
  refine List.map_congr_left fun x hx => ?_
  rw [h x hx]
  rfl

/-- What is written of a graph does not depend on the symbols, and neither do the notes. -/
theorem PlannedGraph.declarations_agree {p : PlannedGraph} (h : p.graph.arena.Placed)
    (options : Options) : Agree (fun x x' => x'.1 = x.1 ∧ Diagnostics.Relabels f x.2 x'.2)
      (p.declarations options) ((p.relabel f).declarations options) := by
  have hplaced : (p.relabel f).graph.arena.Placed := h.relabel
  have hcatalog : (Catalog.ofPlanned p options.omitNamespaces).1.graph.arena.Placed := h
  rw [declarations_eq options (checkPlaceholders_eq_ok h),
    declarations_eq options (checkPlaceholders_eq_ok hplaced), Catalog.ofPlanned_relabel h,
    Catalog.declarations_relabel hcatalog]
  cases (Catalog.ofPlanned p options.omitNamespaces).1.declarations options.documented with
  | error e => exact .error _ _
  | ok ds =>
    exact .ok ⟨rfl, Diagnostics.relabels_self fun _ hx => symbol_of_mem_nameAll hx⟩

namespace Bindings

/-- If every id in the records is replaced by an injective function, bindings are generated if
and only if they were before; and then the declarations are the same, and the reports are of the
same kinds in the same order, about the replaced symbols. -/
theorem ofRecords_relabel (options : Options) (records : List SymbolRecord)
    (hf : Function.Injective f) :
    ((∃ b, ofRecords options (records.map (·.relabel f)) = .ok b) ↔
      ∃ b, ofRecords options records = .ok b) ∧
    ∀ b b', ofRecords options records = .ok b →
      ofRecords options (records.map (·.relabel f)) = .ok b' →
        b'.declarations = b.declarations ∧
          b'.diagnostics.map (fun x => (x.finding, x.symbol)) =
            b.diagnostics.map fun x => (x.finding, x.symbol.map f) := by
  have hagree : Agree (fun b b' : Bindings => b'.declarations = b.declarations ∧
      Diagnostics.Relabels f b.diagnostics b'.diagnostics) (ofRecords options records)
      (ofRecords options (records.map (·.relabel f))) := by
    unfold ofRecords
    refine (TypeGraph.ofRecords_agree hf options records).bind ?_
    rintro ⟨g, ws⟩ ⟨_, ws'⟩ hg ⟨rfl, hws⟩
    have hplaced : g.arena.Placed := (TypeGraph.tidy_of_ofRecords hg).placed
    simp only [Plan.ofGraph_relabel hplaced]
    refine (PlannedGraph.declarations_agree (p := ⟨g, _⟩) hplaced options).bind ?_
    rintro ⟨ds, notes⟩ ⟨_, notes'⟩ - ⟨rfl, hnotes⟩
    exact .ok ⟨rfl, (hws.append (Diagnostics.relabels_map _)).append hnotes⟩
  exact ⟨hagree.exists_ok_iff.symm, fun b b' hb hb' => hagree.related hb hb'⟩

/-- The ids from the other end: the lesser of two becomes the greater. -/
def mirrored (s : SymbolId) : SymbolId :=
  ⟨~~~s.value⟩

/-- Mirrored symbols stay different. -/
theorem mirrored_injective : Function.Injective mirrored := by
  intro s t h
  cases s
  cases t
  simpa [mirrored] using h

/-- A list node recorded twice with two sizes, a pointer to a class without a record, and two
instantiations that do not fit together. -/
def reportedTypes : List SymbolRecord :=
  [(SymbolRecord.ofUserType ⟨1⟩ "Node" 8).addField "owner" ⟨2⟩ 0,
    .ofPointer ⟨2⟩ (some ⟨9⟩) 8,
    .ofUserType ⟨3⟩ "Node" 16,
    (SymbolRecord.ofInstantiation ⟨4⟩ "Box<int>" 4 [⟨6⟩]).addField "value" ⟨6⟩ 0,
    .ofInstantiation ⟨5⟩ "Box<char>" 4 [⟨7⟩],
    .ofPrimitive ⟨6⟩ "int" 4,
    .ofPrimitive ⟨7⟩ "char" 1]

/-- There is a report about each of them, also if all ids are mirrored. -/
theorem reportedTypes_mirrored : ∃ b b',
    ofRecords { allowMissing := true } reportedTypes = .ok b ∧
      ofRecords { allowMissing := true } (reportedTypes.map (·.relabel mirrored)) = .ok b' ∧
      b.diagnostics.map (·.symbol) = [some ⟨9⟩, some ⟨3⟩, some ⟨4⟩] ∧
      b'.declarations = b.declarations ∧
      b'.diagnostics.map (fun x => (x.finding, x.symbol)) =
        b.diagnostics.map fun x => (x.finding, x.symbol.map mirrored) := by
  obtain ⟨b, hb, hsymbols⟩ : ∃ b, ofRecords { allowMissing := true } reportedTypes = .ok b ∧
      b.diagnostics.map (·.symbol) = [some ⟨9⟩, some ⟨3⟩, some ⟨4⟩] :=
    exists_eq_ok_and (by decide +kernel)
  obtain ⟨hok, hsame⟩ :=
    ofRecords_relabel { allowMissing := true } reportedTypes mirrored_injective
  obtain ⟨b', hb'⟩ := hok.2 ⟨b, hb⟩
  exact ⟨b, b', hb, hb', hsymbols, hsame b b' hb hb'⟩

end Bindings

end NativeBindings
