import NativeBindings.Proofs.Declaration.Covering
import NativeBindings.Proofs.Graph.Duplicates

/-!
# What declarations cover

Every kept class is covered by one declaration: a user type by its own, an instantiation by the
one of its family if that is generic and otherwise by its own. Declarations are numbered in the
order in which the classes, and so the records of classes, first come to them. The main theorem is
`PlannedGraph.partitions_of_suits`.

All that matters of a plan is that its families share out kept instantiations (`Plan.Suits`). The
plan of a graph does so under any options, and so does the plan without families.
-/

namespace NativeBindings

/-! ## First occurrences -/

section

variable {α β : Type}

theorem findIdx_congr {p q : α → Bool} {xs : List α} (h : ∀ x ∈ xs, p x = q x) :
    xs.findIdx p = xs.findIdx q := by
  induction xs with
  | nil => rfl
  | cons x xs ih =>
    rw [List.findIdx_cons, List.findIdx_cons, h x List.mem_cons_self,
      ih fun y hy => h y (List.mem_cons_of_mem x hy)]

/-- Repetitions apart, it does not matter whether repetitions are left out before. -/
theorem eraseDups_filterMap_eraseDups [DecidableEq α] [DecidableEq β] (f : α → Option β)
    (xs : List α) : (xs.eraseDups.filterMap f).eraseDups = (xs.filterMap f).eraseDups := by
  induction xs using List.reverseRecOn with
  | nil => rfl
  | append_singleton xs x ih =>
    rw [eraseDups_concat, List.filterMap_append]
    cases hx : f x with
    | none =>
      have hnone : [x].filterMap f = [] := by simp [hx]
      rw [hnone, List.append_nil, ← ih]
      split
      · rfl
      · rw [List.filterMap_append, hnone, List.append_nil]
    | some y =>
      have hsome : [x].filterMap f = [y] := by simp [hx]
      rw [hsome, eraseDups_concat, ← ih]
      split
      · next hmem => rw [if_pos (List.mem_filterMap.2 ⟨x, hmem, hx⟩)]
      · rw [List.filterMap_append, hsome, eraseDups_concat]
        simp only [List.mem_filterMap, List.mem_eraseDups]

/-- When every entry is sent to itself or to one before it that stays, those that stay are what
the entries are sent to. -/
theorem eraseDups_map_eq_filter [DecidableEq α] {f : α → α} {xs : List α} (hxs : xs.Nodup)
    (hf : ∀ before x after, xs = before ++ x :: after → f x = x ∨ f x ∈ before ∧ f (f x) = f x) :
    (xs.map f).eraseDups = xs.filter fun x => f x = x := by
  induction xs using List.reverseRecOn with
  | nil => rfl
  | append_singleton xs x ih =>
    obtain ⟨hnodup, -, hdisjoint⟩ := List.nodup_append.1 hxs
    have hx : x ∉ xs := fun hmem => hdisjoint x hmem x (List.mem_singleton_self x) rfl
    have hrest : ∀ before y after, xs = before ++ y :: after →
        f y = y ∨ f y ∈ before ∧ f (f y) = f y := by
      intro before y after heq
      exact hf before y (after ++ [x]) (by rw [heq, List.append_assoc, List.cons_append])
    rw [List.map_append, List.map_singleton, eraseDups_concat, ih hnodup hrest, List.filter_append]
    rcases hf xs x [] rfl with hself | ⟨hmem, hagain⟩
    · have hnew : f x ∉ xs.map f := by
        rw [hself]
        intro hmem
        obtain ⟨y, hy, hyx⟩ := List.mem_map.1 hmem
        obtain ⟨before, after, heq⟩ := List.append_of_mem hy
        rcases hrest before y after heq with hyy | ⟨hmem', -⟩
        · exact hx ((hyy.symm.trans hyx) ▸ hy)
        · rw [hyx] at hmem'
          exact hx (heq ▸ List.mem_append_left _ hmem')
      rw [if_neg hnew]
      simp [hself]
    · have hold : f x ∈ xs.map f := List.mem_map.2 ⟨f x, hmem, hagain⟩
      have hne : f x ≠ x := fun heq => hx (heq ▸ hmem)
      rw [if_pos hold]
      simp [hne]

/-- Repetitions apart, values stand in the order in which they first come. -/
theorem pairwise_eraseDups_filterMap [DecidableEq β] (f : α → Option β) (xs : List α) :
    (xs.filterMap f).eraseDups.Pairwise fun s t =>
      xs.findIdx (fun x => f x = some s) < xs.findIdx (fun x => f x = some t) := by
  induction xs using List.reverseRecOn with
  | nil => exact .nil
  | append_singleton xs x ih =>
    have hfound {s : β} (hs : s ∈ xs.filterMap f) :
        xs.findIdx (fun x => f x = some s) < xs.length := by
      obtain ⟨y, hy, hys⟩ := List.mem_filterMap.1 hs
      exact List.findIdx_lt_length_of_exists ⟨y, hy, decide_eq_true hys⟩
    have hkeep : (xs.filterMap f).eraseDups.Pairwise fun s t =>
        (xs ++ [x]).findIdx (fun x => f x = some s) <
          (xs ++ [x]).findIdx (fun x => f x = some t) := by
      refine ih.imp_of_mem fun {s t} hs ht hlt => ?_
      rwa [List.findIdx_append, if_pos (hfound (List.mem_eraseDups.1 hs)), List.findIdx_append,
        if_pos (hfound (List.mem_eraseDups.1 ht))]
    cases hx : f x with
    | none => simpa [List.filterMap_append, hx] using hkeep
    | some b =>
      have hlist : (xs ++ [x]).filterMap f = xs.filterMap f ++ [b] := by
        simp [List.filterMap_append, hx]
      rw [hlist, eraseDups_concat]
      split
      · exact hkeep
      · next hnew =>
        refine List.pairwise_append.2 ⟨hkeep, List.pairwise_singleton _ _, fun s hs t ht => ?_⟩
        obtain rfl := List.mem_singleton.1 ht
        have hlt := hfound (List.mem_eraseDups.1 hs)
        have hnone : ¬xs.findIdx (fun x => f x = some t) < xs.length := by
          intro hlt
          obtain ⟨y, hy, hyt⟩ := List.findIdx_lt_length.1 hlt
          exact hnew (List.mem_filterMap.2 ⟨y, hy, of_decide_eq_true hyt⟩)
        rw [List.findIdx_append, if_pos hlt, List.findIdx_append, if_neg hnone]
        exact Nat.lt_of_lt_of_le hlt (Nat.le_add_left _ _)

end

/-! ## The classes of a graph -/

namespace Arena

/-- The first class like another one is that one or comes before it. -/
theorem firstLike_cases (a : Arena) (before : List NodeId) (x : NodeId) (after : List NodeId) :
    a.firstLike (before ++ x :: after) x = x ∨ a.firstLike (before ++ x :: after) x ∈ before := by
  unfold firstLike
  rw [List.find?_append]
  cases hfind : before.find? fun j => a.identity? j == a.identity? x with
  | none => exact Or.inl (by simp)
  | some j => exact Or.inr (List.mem_of_find?_eq_some hfind)

end Arena

namespace TypeGraph

namespace Finishes

variable {g : TypeGraph} {d : Draft} {records : List SymbolRecord}

/-- The classes of a graph are the first ones of the draft. -/
theorem classes_eq_filter (h : g.Finishes d.arena records d.classes)
    (hs : d.arena.Settled records d.classes) :
    g.classes = d.classes.filter fun id => d.arena.firstLike d.classes id = id := by
  have hself : g.classes.filter (fun id => d.arena.firstLike d.classes id = id) = g.classes :=
    List.filter_eq_self.2 fun id hid => decide_eq_true (h.mem_classes.1 hid).2
  have hsub := h.sublist.filter fun id => d.arena.firstLike d.classes id = id
  rw [hself] at hsub
  refine hsub.eq_of_length_le (List.Nodup.subperm (hs.nodup_classes.filter _) ?_).length_le
  intro id hid
  obtain ⟨hmem, hfirst⟩ := List.mem_filter.1 hid
  exact h.mem_classes.2 ⟨hmem, of_decide_eq_true hfirst⟩

/-- The classes of a graph stand in the order in which records of classes first come to them. -/
theorem classes_eq_eraseDups (h : g.Finishes d.arena records d.classes)
    (hs : d.arena.Settled records d.classes) : g.classes =
      ((records.filter (·.kind.isClass)).filterMap fun r => g.nodeOf? r.id).eraseDups := by
  have hnodes : ((records.filter (·.kind.isClass)).filterMap fun r => g.nodeOf? r.id) =
      d.classes.map (d.arena.firstLike d.classes) := by
    have hslots := congrArg (List.filterMap (Option.map (d.arena.standIn d.classes)))
      hs.map_slot?_eq
    rw [List.filterMap_map, List.filterMap_map] at hslots
    simp only [TypeGraph.nodeOf?, h.slot]
    refine hslots.trans ?_
    rw [← List.filterMap_eq_map]
    exact List.filterMap_congr fun id hid => congrArg some (hs.standIn_class hid)
  rw [hnodes, h.classes_eq_filter hs]
  refine (eraseDups_map_eq_filter hs.nodup_classes fun before id after heq => ?_).symm
  have hid : id ∈ d.classes := heq ▸ List.mem_append_right before List.mem_cons_self
  have hagain := Arena.firstLike_firstLike (a := d.arena) hid
  rcases heq ▸ d.arena.firstLike_cases before id after with hself | hmem
  · exact Or.inl hself
  · exact Or.inr ⟨hmem, hagain⟩

/-- What is a class in the draft is one in the graph. -/
theorem exists_class (h : g.Finishes d.arena records d.classes) {id : NodeId}
    (hid : d.arena.isClassAt id = true) : ∃ n, g.arena.node? id = some n ∧ n.isClass = true := by
  unfold Arena.isClassAt at hid
  cases hn : d.arena.node? id with
  | none => simp [hn] at hid
  | some n =>
    cases n with
    | user u =>
      obtain ⟨v, hv, -⟩ := h.user (Arena.user?_of_node? hn)
      exact ⟨.user v, Arena.node?_user hv, rfl⟩
    | template l args => exact ⟨_, h.node hn rfl, rfl⟩
    | _ => simp [hn, Node.isClass] at hid

/-- The bases of a kept class are kept classes. -/
theorem mem_classes_of_mem_bases (h : g.Finishes d.arena records d.classes)
    (hs : d.arena.Settled records d.classes) {id b : NodeId} {u : UserType}
    (hid : id ∈ g.classes) (hu : g.layoutType? id = some u) (hb : b ∈ u.bases) :
    b ∈ g.classes := by
  have hproper := (h.tidy hs).proper_parts hid hu b (List.mem_append_right _ hb)
  obtain ⟨l, v, hl, hv⟩ := hs.exists_layout (h.mem_classes.1 hid).1
  rw [TypeGraph.layoutType?, Arena.layoutType?, h.layout hid, hl] at hu
  rw [(h.bases hid hl hv hu).1] at hb
  obtain ⟨t, ht, rfl⟩ := List.mem_map.1 hb
  have hclass := hs.isClassAt_standIn t
  rw [(List.mem_filter.1 ht).2] at hclass
  obtain ⟨n, hn, hk⟩ := h.exists_class hclass
  exact hproper.mem_classes hn hk

end Finishes

theorem nodup_classes {options : Options} {records : List SymbolRecord} {g : TypeGraph}
    {w : Diagnostics} (h : ofRecords options records = .ok (g, w)) : g.classes.Nodup := by
  obtain ⟨d, -, -, hs, hf⟩ := exists_finishes h
  exact hf.sublist.nodup hs.nodup_classes

end TypeGraph

/-! ## Plans -/

/-- The families of a plan share out kept instantiations of a graph: none is empty, and what one
holds no other one does. -/
structure Plan.Suits (p : Plan) (g : TypeGraph) : Prop where
  ne_nil : ∀ F ∈ p.families, F.instantiations ≠ []
  nodup : ∀ F ∈ p.families, F.instantiations.Nodup
  mem : ∀ F ∈ p.families, ∀ id ∈ F.instantiations, id ∈ g.instantiations
  familyOf? : ∀ {f F}, p.families[f]? = some F → ∀ id ∈ F.instantiations, p.familyOf? id = some f

namespace Plan

theorem suits_empty (g : TypeGraph) : ({} : Plan).Suits g :=
  ⟨by simp, by simp, by simp, by simp⟩

/-- The plan of a graph suits it, under any options. -/
theorem suits_ofGraph (options : Options) {g : TypeGraph} (hg : g.classes.Nodup) :
    (ofGraph options g).1.Suits g where
  ne_nil _ hF := instantiations_ne_nil hF
  nodup F hF := by
    have hfilter := (groups_grouped g).eq_filter _ (group_mem_grouped hF)
    exact (show F.instantiations = _ from hfilter) ▸ (hg.filter _).filter _
  mem F hF id hid := (((groups_grouped g).mem_iff (group_mem_grouped hF) id).1 hid).1
  familyOf? hF id hid := familyOf?_eq_some_iff.2 ⟨_, hF, hid⟩

end Plan

/-! ## Subjects -/

namespace PlannedGraph

variable {p : PlannedGraph}

theorem subjectOf?_user {id : NodeId} {u : UserType}
    (h : p.graph.arena.node? id = some (.user u)) : p.subjectOf? id = some (.user id) := by
  simp only [subjectOf?, h]

theorem subjectOf?_specialized {id : NodeId} (h : id ∈ p.graph.instantiations)
    (hspecial : p.plan.isGeneric id = false) : p.subjectOf? id = some (.specialized id) := by
  obtain ⟨-, l, args, hn⟩ := TypeGraph.mem_instantiations_iff.1 h
  unfold Plan.isGeneric at hspecial
  simp only [subjectOf?, hn]
  split
  · next f hf =>
    rw [hf] at hspecial
    exact if_neg (Bool.eq_false_iff.1 hspecial)
  · rfl

theorem subjectOf?_generic {id : NodeId} {f : Nat} {l : SharedLayout}
    (h : id ∈ p.graph.instantiations) (hf : p.plan.familyOf? id = some f)
    (hl : p.plan.layout? f = some l) : p.subjectOf? id = some (.generic f) := by
  obtain ⟨-, k, args, hn⟩ := TypeGraph.mem_instantiations_iff.1 h
  simp only [subjectOf?, hn, hf, hl, Option.isSome_some, if_true]

/-- What a declaration covers are the classes that have it for subject. -/
theorem mem_covered_iff (h : p.plan.Suits p.graph) {s : Subject} (hs : s ∈ p.subjects)
    {id : NodeId} : id ∈ p.covered s ↔ id ∈ p.graph.classes ∧ p.subjectOf? id = some s := by
  refine ⟨fun hid => ?_, fun hid => mem_covered hid.2⟩
  obtain ⟨c, hc, hcs⟩ := mem_subjects_iff.1 hs
  rcases subjectOf?_cases hcs with ⟨rfl, -⟩ | ⟨k, args, -, ⟨rfl, -⟩ | ⟨f, l, rfl, -, hl⟩⟩
  · obtain rfl := List.mem_singleton.1 hid
    exact ⟨hc, hcs⟩
  · obtain rfl := List.mem_singleton.1 hid
    exact ⟨hc, hcs⟩
  · obtain ⟨F, hF, -⟩ := Option.bind_eq_some_iff.1 hl
    rw [covered, instantiations, hF] at hid
    have hmem := h.mem F (List.mem_of_getElem? hF) id hid
    exact ⟨(TypeGraph.mem_instantiations_iff.1 hmem).1,
      subjectOf?_generic hmem (h.familyOf? hF id hid) hl⟩

/-- An instantiation is declared by itself when no generic family holds it. -/
theorem isGeneric_eq_false_iff (h : p.plan.Suits p.graph) {id : NodeId} :
    p.plan.isGeneric id = false ↔
      ∀ F ∈ p.plan.families, id ∈ F.instantiations → F.policy.isGeneric = false := by
  have hpolicy {f : Nat} {F : Family} (hF : p.plan.families[f]? = some F) :
      (p.plan.layout? f).isSome = F.policy.isGeneric := by
    rw [Plan.layout?, hF]
    rfl
  unfold Plan.isGeneric
  constructor
  · intro hnone F hmem hid
    obtain ⟨f, hF⟩ := List.mem_iff_getElem?.1 hmem
    rw [h.familyOf? hF id hid] at hnone
    exact (hpolicy hF).symm.trans hnone
  · intro hall
    split
    · next f hf =>
      obtain ⟨hlt, hid, -⟩ := List.findIdx?_eq_some_iff_getElem.1 hf
      rw [hpolicy (List.getElem?_eq_getElem hlt)]
      exact hall _ (List.getElem_mem hlt) (of_decide_eq_true hid)
    · rfl

/-- The declarations of a graph that is built from records share out its classes. -/
structure Partitions (p : PlannedGraph) (records : List SymbolRecord) : Prop where
  /-- The classes stand in the order in which records of classes first come to them. -/
  classes : p.graph.classes =
    ((records.filter (·.kind.isClass)).filterMap fun r => p.graph.nodeOf? r.id).eraseDups
  /-- No subject is declared twice. -/
  nodup : p.subjects.Nodup
  /-- Every user type has a declaration of its own. -/
  user : ∀ {id}, .user id ∈ p.subjects ↔
    id ∈ p.graph.classes ∧ ∃ u, p.graph.arena.node? id = some (.user u)
  /-- So has every instantiation that is in no generic family. -/
  specialized : ∀ {id}, .specialized id ∈ p.subjects ↔
    (id ∈ p.graph.classes ∧ ∃ l args, p.graph.arena.node? id = some (.template l args)) ∧
      ∀ F ∈ p.plan.families, id ∈ F.instantiations → F.policy.isGeneric = false
  /-- Every generic family has one, which covers its instantiations and nothing else. -/
  generic : ∀ {f}, .generic f ∈ p.subjects ↔ ∃ F, p.plan.families[f]? = some F ∧
    F.policy.isGeneric = true ∧ p.covered (.generic f) = F.instantiations
  /-- Every class is covered once. -/
  covered : (p.subjects.flatMap p.covered).Perm p.graph.classes
  /-- Subjects are numbered in the order of the first classes that they cover. -/
  first : p.subjects.Pairwise fun s t =>
    p.graph.classes.findIdx (· ∈ p.covered s) < p.graph.classes.findIdx (· ∈ p.covered t)
  /-- The bases of a class are covered too. -/
  bases : ∀ {id u b}, id ∈ p.graph.classes → p.graph.layoutType? id = some u → b ∈ u.bases →
    b ∈ p.graph.classes

/-! ## Sharing out the classes -/

theorem user_mem_subjects_iff {id : NodeId} : .user id ∈ p.subjects ↔
    id ∈ p.graph.classes ∧ ∃ u, p.graph.arena.node? id = some (.user u) := by
  rw [mem_subjects_iff]
  constructor
  · rintro ⟨c, hc, hcs⟩
    rcases subjectOf?_cases hcs with ⟨heq, hn⟩ | ⟨_, _, -, ⟨heq, -⟩ | ⟨_, _, heq, -⟩⟩
    · obtain rfl := Subject.user.inj heq
      exact ⟨hc, hn⟩
    · cases heq
    · cases heq
  · rintro ⟨hid, u, hn⟩
    exact ⟨id, hid, subjectOf?_user hn⟩

theorem specialized_mem_subjects_iff {id : NodeId} : .specialized id ∈ p.subjects ↔
    id ∈ p.graph.instantiations ∧ p.plan.isGeneric id = false := by
  rw [mem_subjects_iff]
  constructor
  · rintro ⟨c, hc, hcs⟩
    rcases subjectOf?_cases hcs with ⟨heq, -⟩ | ⟨l, args, hn, ⟨heq, hspecial⟩ | ⟨_, _, heq, -⟩⟩
    · cases heq
    · obtain rfl := Subject.specialized.inj heq
      exact ⟨TypeGraph.mem_instantiations_iff.2 ⟨hc, l, args, hn⟩, hspecial⟩
    · cases heq
  · rintro ⟨hid, hspecial⟩
    exact ⟨id, (TypeGraph.mem_instantiations_iff.1 hid).1, subjectOf?_specialized hid hspecial⟩

theorem generic_mem_subjects_iff (h : p.plan.Suits p.graph) {f : Nat} :
    .generic f ∈ p.subjects ↔
      ∃ F, p.plan.families[f]? = some F ∧ F.policy.isGeneric = true := by
  rw [mem_subjects_iff]
  constructor
  · rintro ⟨c, -, hcs⟩
    rcases subjectOf?_cases hcs with ⟨heq, -⟩ | ⟨_, _, -, ⟨heq, -⟩ | ⟨f', l, heq, -, hl⟩⟩
    · cases heq
    · cases heq
    · obtain rfl := Subject.generic.inj heq
      obtain ⟨F, hF, hpolicy⟩ := Option.bind_eq_some_iff.1 hl
      exact ⟨F, hF, Option.isSome_iff_exists.2 ⟨l, hpolicy⟩⟩
  · rintro ⟨F, hF, hgeneric⟩
    obtain ⟨l, hpolicy⟩ := Option.isSome_iff_exists.1 hgeneric
    have hmem := List.mem_of_getElem? hF
    obtain ⟨id, hid⟩ := List.exists_mem_of_ne_nil _ (h.ne_nil F hmem)
    have hinst := h.mem F hmem id hid
    exact ⟨id, (TypeGraph.mem_instantiations_iff.1 hinst).1, subjectOf?_generic hinst
      (h.familyOf? hF id hid) (Option.bind_eq_some_iff.2 ⟨F, hF, hpolicy⟩)⟩

theorem nodup_covered (h : p.plan.Suits p.graph) {s : Subject} : (p.covered s).Nodup := by
  cases s with
  | user id | specialized id => exact List.nodup_singleton id
  | generic f =>
    rw [covered, instantiations]
    split
    · next F hF => exact h.nodup F (List.mem_of_getElem? hF)
    · exact List.nodup_nil

/-- If every kept class has a layout, every one is covered once. A class has one subject, so no two
declarations cover it. -/
theorem flatMap_covered_perm (h : p.plan.Suits p.graph) (hg : p.graph.classes.Nodup)
    (hlayout : ∀ id ∈ p.graph.classes, ∃ u, p.graph.layoutType? id = some u) :
    (p.subjects.flatMap p.covered).Perm p.graph.classes := by
  have hnodup : (p.subjects.flatMap p.covered).Nodup := by
    refine List.nodup_flatMap.2 ⟨fun s _ => nodup_covered h, ?_⟩
    refine (nodup_eraseDups _).imp_of_mem fun {s t} hs ht hne => ?_
    refine List.disjoint_left.2 fun c hc hc' => hne ?_
    exact Option.some.inj (((mem_covered_iff h hs).1 hc).2.symm.trans
      ((mem_covered_iff h ht).1 hc').2)
  refine (List.perm_ext_iff_of_nodup hnodup hg).2 fun c => ?_
  rw [List.mem_flatMap]
  constructor
  · rintro ⟨s, hs, hc⟩
    exact ((mem_covered_iff h hs).1 hc).1
  · intro hc
    obtain ⟨u, hu⟩ := hlayout c hc
    obtain ⟨s, hs⟩ := exists_subjectOf? hu
    exact ⟨s, mem_subjects_iff.2 ⟨c, hc, hs⟩, mem_covered hs⟩

theorem pairwise_findIdx_subjects (h : p.plan.Suits p.graph) : p.subjects.Pairwise fun s t =>
    p.graph.classes.findIdx (· ∈ p.covered s) < p.graph.classes.findIdx (· ∈ p.covered t) := by
  have hfirst {s : Subject} (hs : s ∈ p.subjects) :
      p.graph.classes.findIdx (fun id => p.subjectOf? id = some s) =
        p.graph.classes.findIdx (· ∈ p.covered s) := by
    refine findIdx_congr fun id hid => decide_eq_decide.2 ?_
    rw [mem_covered_iff h hs]
    exact ⟨fun hids => ⟨hid, hids⟩, fun hids => hids.2⟩
  refine (pairwise_eraseDups_filterMap p.subjectOf? p.graph.classes).imp_of_mem ?_
  intro s t hs ht hlt
  rwa [hfirst hs, hfirst ht] at hlt

/-- With a plan that suits a graph that is built, declarations share out its classes. -/
theorem partitions_of_suits {options : Options} {records : List SymbolRecord} {w : Diagnostics}
    (h : TypeGraph.ofRecords options records = .ok (p.graph, w)) (hplan : p.plan.Suits p.graph) :
    p.Partitions records := by
  obtain ⟨d, -, -, hs, hf⟩ := TypeGraph.exists_finishes h
  refine ⟨hf.classes_eq_eraseDups hs, nodup_eraseDups _, user_mem_subjects_iff, ?_, ?_,
    flatMap_covered_perm hplan (TypeGraph.nodup_classes h) fun _ => hf.exists_layoutType? hs,
    pairwise_findIdx_subjects hplan, hf.mem_classes_of_mem_bases hs⟩
  · intro id
    rw [specialized_mem_subjects_iff, TypeGraph.mem_instantiations_iff,
      isGeneric_eq_false_iff hplan]
  · intro f
    rw [generic_mem_subjects_iff hplan]
    refine exists_congr fun F => and_congr_right fun hF => ?_
    have hcovered : p.covered (.generic f) = F.instantiations := by
      rw [covered, instantiations, hF]
    exact (and_iff_left hcovered).symm

end PlannedGraph

end NativeBindings
