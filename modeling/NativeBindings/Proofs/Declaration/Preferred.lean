import NativeBindings.Proofs.Declaration.Naming
import NativeBindings.Proofs.Graph.MissingArguments
import NativeBindings.Proofs.Template.NativeTemplates

/-!
# Preferred names

What a subject would like to be called comes from the record of a class that it covers. A kept
class is named as its record says (`TypeGraph.exists_record_of_class`), and so is every other
record of the same class, because the name and the namespace are part of the identity
(`TypeGraph.exists_class_of_record`).

A subject prefers the name of the class, in the namespace of the class. One instantiation with
a declaration of its own puts its arguments behind it (`PlannedGraph.prefers_of_mem_subjects`).
-/

namespace NativeBindings

namespace TypeGraph

variable {options : Options} {records : List SymbolRecord} {g : TypeGraph} {w : Diagnostics}

/-! ## Classes and their records -/

/-- A kept class is laid out as its record says. -/
theorem exists_record_of_class (h : ofRecords options records = .ok (g, w)) {x : NodeId}
    {u : UserType} (hx : x ∈ g.classes) (hu : g.layoutType? x = some u) :
    ∃ r ∈ records, r.kind.isClass = true ∧ g.nodeOf? r.id = some x ∧
      u.head = Draft.unfilled r r.isApplied := by
  obtain ⟨d, -, -, hs, hf⟩ := exists_finishes h
  obtain ⟨hmem, hfirst⟩ := hf.mem_classes.1 hx
  obtain ⟨r, hr, hk, hslot⟩ := hs.mem_classes_iff.1 hmem
  obtain ⟨_, l, v, hslot', hl, hv, hhead⟩ := (hs.drawn r hr).exists_layout hk
  obtain rfl := Option.some.inj (hslot.symm.trans hslot')
  obtain ⟨u', hu', hhead', -⟩ := hf.user hv
  rw [layoutType?, Arena.layoutType?, hf.layout hx, hl, Option.bind_some, hu'] at hu
  obtain rfl := Option.some.inj hu
  refine ⟨r, hr, hk, ?_, hhead'.trans hhead⟩
  rw [hf.nodeOf? hslot, hs.standIn_class hmem, hfirst]

theorem exists_layoutType? (h : ofRecords options records = .ok (g, w)) {x : NodeId}
    (hx : x ∈ g.classes) : ∃ u, g.layoutType? x = some u := by
  obtain ⟨d, -, -, hs, hf⟩ := exists_finishes h
  exact hf.exists_layoutType? hs hx

/-- The record of a class leads to a kept class. -/
theorem exists_nodeOf?_of_isClass (h : ofRecords options records = .ok (g, w)) {r : SymbolRecord}
    (hr : r ∈ records) (hk : r.kind.isClass = true) :
    ∃ x ∈ g.classes, g.nodeOf? r.id = some x := by
  obtain ⟨d, -, -, hs, hf⟩ := exists_finishes h
  obtain ⟨id, hid, hslot⟩ := hs.exists_class hr hk
  refine ⟨d.arena.firstLike d.classes id, hf.mem_classes.2 ⟨Arena.firstLike_mem hid,
    Arena.firstLike_firstLike hid⟩, ?_⟩
  rw [hf.nodeOf? hslot, hs.standIn_class hid]

/-- An instantiation has arguments. -/
theorem arguments_ne_nil (h : ofRecords options records = .ok (g, w)) {x l : NodeId}
    {args : List NodeId} (hn : g.arena.node? x = some (.template l args)) : args ≠ [] := by
  obtain ⟨d, -, -, hs, hf⟩ := exists_finishes h
  obtain ⟨n, hdraft, -, heq⟩ := hf.exists_node? hn rfl
  cases n with
  | template m ts =>
    obtain ⟨-, rfl⟩ := Node.template.inj heq
    obtain ⟨-, -, -, -, ⟨v, -, hn', -⟩ | ⟨k, ts', -, -, hn', hne, -⟩⟩ :=
      hs.class_cases (hs.template_spec hdraft).1
    · cases hdraft.symm.trans hn'
    · obtain ⟨-, rfl⟩ := Node.template.inj (Option.some.inj (hdraft.symm.trans hn'))
      simpa using hne
  | _ => cases heq

/-- The class that a record leads to is named as the record says. -/
theorem exists_class_of_record (h : ofRecords options records = .ok (g, w)) {r : SymbolRecord}
    (hr : r ∈ records) (hk : r.kind.isClass = true) : ∃ x ∈ g.classes, g.nodeOf? r.id = some x ∧
      ∃ u, g.layoutType? x = some u ∧ u.name = (Draft.unfilled r r.isApplied).name ∧
        u.scope = (Draft.unfilled r r.isApplied).scope := by
  obtain ⟨x, hx, hnode⟩ := exists_nodeOf?_of_isClass h hr hk
  obtain ⟨u, hu⟩ := exists_layoutType? h hx
  obtain ⟨r', hr', hk', hnode', hhead⟩ := exists_record_of_class h hx hu
  obtain ⟨key, ⟨-, args, -, hkey⟩, -, args', -, hkey'⟩ :=
    (nodeOf?_eq_iff h hr hr' hk hk').1 (hnode.trans hnode'.symm)
  have hnames : TemplateKey.mk (Draft.unfilled r r.isApplied).scope
      (Draft.unfilled r r.isApplied).name = ⟨u.scope, u.name⟩ := by
    rw [← UserType.key_template_identity (Draft.head_unfilled r r.isApplied) args,
      ← UserType.key_template_identity hhead args', UserType.identity_of_head
        (hhead.trans (Draft.head_unfilled r' r'.isApplied).symm), ← hkey, ← hkey']
  obtain ⟨hscope, hname⟩ := TemplateKey.mk.inj hnames
  exact ⟨x, hx, hnode, u, hu, hname.symm, hscope.symm⟩

end TypeGraph

/-! ## What subjects prefer -/

namespace PlannedGraph

/-- Namespace and identifier that a subject prefers, by the layout of a class that it covers. -/
inductive Prefers (p : PlannedGraph) (u : UserType) : Subject → Option String × String → Prop
  | plain {s : Subject} (hs : ∀ id, s ≠ .specialized id) : Prefers p u s (u.scope, u.name)
  | specialized {id : NodeId} {args : List NodeId} (hargs : args ≠ []) :
    Prefers p u (.specialized id) (u.scope, p.specializedIdent u args)

variable {options : Options} {records : List SymbolRecord} {g : TypeGraph} {w : Diagnostics}

/-- What the subject of a class prefers is told by the layout of the class. -/
theorem prefers_of_subjectOf? (h : TypeGraph.ofRecords options records = .ok (g, w)) {x : NodeId}
    {s : Subject} (hs : (g.planned options).subjectOf? x = some s) {u : UserType}
    (hu : g.layoutType? x = some u) :
    (g.planned options).Prefers u s ((g.planned options).preferred s) := by
  rcases subjectOf?_cases hs with
    ⟨rfl, v, hn⟩ | ⟨k, args, hn, ⟨rfl, -⟩ | ⟨f, l, rfl, hf, -⟩⟩
  · obtain rfl := Option.some.inj (hu.symm.trans (TypeGraph.layoutType?_user hn))
    simp only [preferred, Arena.user?_of_node? hn]
    exact .plain fun id => by simp
  · obtain ⟨v, hv⟩ := (TypeGraph.tidy_of_ofRecords h).closed.layout hn
    have hlayout : g.layoutType? x = some v := TypeGraph.Instantiates.layoutType? ⟨k, hn, hv⟩
    obtain rfl := Option.some.inj (hu.symm.trans hlayout)
    have huser : (g.planned options).graph.arena.user? k = some u := hv
    simp only [preferred, hn, huser]
    exact .specialized (TypeGraph.arguments_ne_nil h hn)
  · obtain ⟨F, hF, hmem⟩ := Plan.familyOf?_eq_some_iff.1 hf
    have hgroup := Plan.group_mem_grouped (List.mem_of_getElem? hF)
    obtain ⟨-, hkey⟩ := ((Plan.groups_grouped g).mem_iff hgroup x).1 hmem
    obtain ⟨v, hv, hkey⟩ := Option.map_eq_some_iff.1 hkey
    obtain rfl := Option.some.inj (hu.symm.trans hv)
    have hfamily : (g.planned options).plan.families[f]? = some F := hF
    have hname : F.key = ⟨u.scope, u.name⟩ := hkey.symm
    simp only [preferred, hfamily, hname]
    exact .plain fun id => by simp

/-- Every subject prefers a name that comes from the record of a class that it covers. -/
theorem prefers_of_mem_subjects (h : TypeGraph.ofRecords options records = .ok (g, w))
    {s : Subject} (hs : s ∈ (g.planned options).subjects) :
    ∃ x ∈ g.classes, (g.planned options).subjectOf? x = some s ∧ ∃ u,
      g.layoutType? x = some u ∧
        (g.planned options).Prefers u s ((g.planned options).preferred s) := by
  obtain ⟨x, hx, hsubject⟩ := mem_subjects_iff.1 hs
  obtain ⟨u, hu⟩ := TypeGraph.exists_layoutType? h hx
  exact ⟨x, hx, hsubject, u, hu, prefers_of_subjectOf? h hsubject hu⟩

end PlannedGraph

end NativeBindings
