import NativeBindings.Graph.Basic
import NativeBindings.Proofs.Graph.StandIn

/-!
# From a settled draft to the finished graph

Three things happen to a settled draft. Duplicates and first classes are marked, which
changes build states alone; every link and binding is sent to the class that stands for its
target; and the bases of every kept class lose what is no class. `TypeGraph.Finishes`
says what each node has become, and `TypeGraph.exists_finishes` that it holds of every
graph that is built.
-/

namespace NativeBindings

/-! ## Marks -/

/-- A node without the build state of its user type. -/
def Node.unmarked : Node → Node
  | user u => user { u with state := .stub }
  | n => n

theorem Node.userType?_mapLinks {f : NodeId → NodeId} {n : Node} (h : n.userType? = none) :
    (n.mapLinks f).userType? = none := by
  cases n <;> simp_all [mapLinks, userType?]

namespace Arena

/-- An arena that differs in build states alone. -/
structure Marks (a b : Arena) : Prop where
  bindings : b.bindings = a.bindings
  shared : b.shared = a.shared
  node : ∀ id, (b.node? id).map Node.unmarked = (a.node? id).map Node.unmarked

theorem Marks.refl (a : Arena) : a.Marks a :=
  ⟨rfl, rfl, fun _ => rfl⟩

theorem Marks.trans {a b c : Arena} (h : a.Marks b) (h' : b.Marks c) : a.Marks c :=
  ⟨h'.bindings.trans h.bindings, h'.shared.trans h.shared, fun id => (h'.node id).trans (h.node id)⟩

/-- Setting the state of a user type is marking. -/
theorem updateUser_marks (a : Arena) (l : NodeId) (s : UserType → BuildState) :
    a.Marks (a.updateUser l fun u => { u with state := s u }) := by
  unfold updateUser
  split
  · next u hu =>
    refine ⟨rfl, rfl, fun id => ?_⟩
    by_cases hid : id = l
    · subst hid
      rw [node?_write_self (node?_user hu), node?_user hu]
      rfl
    · rw [node?_write_of_ne a hid]
  · exact .refl a

theorem discard_marks (a : Arena) (x : NodeId × NodeId) : a.Marks (a.discard x) := by
  obtain ⟨id, first⟩ := x
  simp only [discard]
  split
  · next l m _ _ => exact a.updateUser_marks l fun u => u.state.advance (.discarded m)
  · exact .refl a

theorem keep_marks (a : Arena) (id : NodeId) : a.Marks (a.keep id) := by
  simp only [keep]
  split
  · next l _ => exact a.updateUser_marks l fun u => u.state.advance .kept
  · exact .refl a

/-- Marking one after the other is marking. -/
theorem foldl_marks {α : Type} {f : Arena → α → Arena}
    (h : ∀ (a : Arena) (x : α), a.Marks (f a x)) (xs : List α) (a : Arena) :
    a.Marks (xs.foldl f a) := by
  induction xs generalizing a with
  | nil => exact .refl a
  | cons x xs ih => exact (h a x).trans (ih _)

/-- What is no user type is not marked. -/
theorem Marks.node?_of_userType?_eq_none {a b : Arena} (h : a.Marks b) {id : NodeId} {n : Node}
    (hn : a.node? id = some n) (hu : n.userType? = none) : b.node? id = some n := by
  have hnode := h.node id
  rw [hn, Option.map_some, Option.map_eq_some_iff] at hnode
  obtain ⟨m, hm, heq⟩ := hnode
  cases n <;> cases m <;> simp_all [Node.unmarked, Node.userType?]

/-- A user type that is marked keeps its head, its bases and its fields. -/
theorem Marks.user {a b : Arena} (h : a.Marks b) {id : NodeId} {u : UserType}
    (hu : a.user? id = some u) : ∃ v, b.user? id = some v ∧ v.head = u.head ∧
      v.bases = u.bases ∧ v.fields = u.fields := by
  have hnode := h.node id
  rw [node?_user hu, Option.map_some, Option.map_eq_some_iff] at hnode
  obtain ⟨m, hm, heq⟩ := hnode
  cases m with
  | user v =>
    have hv : ({ v with state := .stub } : UserType) = { u with state := .stub } :=
      Node.user.inj heq
    have hhead := congrArg UserType.head hv
    have hbases := congrArg UserType.bases hv
    have hfields := congrArg UserType.fields hv
    exact ⟨v, user?_of_node? hm, hhead, hbases, hfields⟩
  | _ => simp [Node.unmarked] at heq

theorem Marks.size {a b : Arena} (h : a.Marks b) : b.size = a.size := by
  have key {a b : Arena}
      (h : ∀ id, (b.node? id).map Node.unmarked = (a.node? id).map Node.unmarked) :
      b.size ≤ a.size := by
    rcases Nat.lt_or_ge a.size b.size with hlt | hle
    · obtain ⟨n, hn⟩ := exists_node?_of_lt hlt
      have := h a.size
      rw [hn, node?_eq_none_iff.2 (Nat.le_refl _)] at this
      simp at this
    · exact hle
  exact Nat.le_antisymm (key h.node) (key fun id => (h.node id).symm)

/-! ## Bases -/

/-- Whether there is a class at a position. -/
def isClassAt (a : Arena) (id : NodeId) : Bool :=
  ((a.node? id).map Node.isClass).getD false

end Arena

namespace TypeGraph

/-- Bases that pass the check are classes, but for those that were given up. -/
theorem checkedBases_eq_ok {a : Arena} {degraded : List NodeId} {u : UserType}
    {bases bs : List NodeId} (h : checkedBases a degraded u bases = .ok bs) :
    bs = bases.filter a.isClassAt ∧ ∀ b ∈ bases, a.isClassAt b = true ∨ b ∈ degraded := by
  induction bases generalizing bs with
  | nil =>
    obtain rfl := Except.ok.inj h
    simp
  | cons b bases ih =>
    rw [checkedBases] at h
    change (if a.isClassAt b = true then _ else _) = _ at h
    by_cases hb : a.isClassAt b = true
    · rw [if_pos hb] at h
      obtain ⟨bs', hr, rfl⟩ := map_eq_ok_iff.1 h
      obtain ⟨rfl, hall⟩ := ih hr
      refine ⟨by simp [hb], fun x hx => ?_⟩
      rcases List.mem_cons.1 hx with rfl | hx
      · exact Or.inl hb
      · exact hall x hx
    · rw [if_neg hb] at h
      by_cases hd : b ∈ degraded
      · rw [if_pos hd] at h
        obtain ⟨rfl, hall⟩ := ih h
        refine ⟨by simp [hb], fun x hx => ?_⟩
        rcases List.mem_cons.1 hx with rfl | hx
        · exact Or.inr hd
        · exact hall x hx
      · rw [if_neg hd] at h
        cases h

end TypeGraph

namespace Arena

/-- An arena that differs in the bases of user types alone. -/
structure Rebases (a b : Arena) : Prop where
  bindings : b.bindings = a.bindings
  shared : b.shared = a.shared
  size : b.size = a.size
  node : ∀ {id n}, a.node? id = some n → n.userType? = none → b.node? id = some n
  user : ∀ {id u}, a.user? id = some u → ∃ bs, b.user? id = some { u with bases := bs }

theorem Rebases.refl (a : Arena) : a.Rebases a :=
  ⟨rfl, rfl, rfl, fun hn _ => hn, fun {_ u} hu => ⟨u.bases, hu⟩⟩

theorem Rebases.trans {a b c : Arena} (h : a.Rebases b) (h' : b.Rebases c) : a.Rebases c where
  bindings := h'.bindings.trans h.bindings
  shared := h'.shared.trans h.shared
  size := h'.size.trans h.size
  node hn hu := h'.node (h.node hn hu) hu
  user hu := by
    obtain ⟨bs, hb⟩ := h.user hu
    obtain ⟨cs, hc⟩ := h'.user hb
    exact ⟨cs, hc⟩

theorem Rebases.exists_user {a b : Arena} (h : a.Rebases b) {l : NodeId} {v : UserType}
    (hv : b.user? l = some v) : ∃ u, a.user? l = some u := by
  have hlt := Arena.lt_size_of_node? (node?_user hv)
  obtain ⟨n, hn⟩ := exists_node?_of_lt (h.size ▸ hlt)
  cases hk : n.userType? with
  | some u => exact ⟨u, by simp [user?, hn, hk]⟩
  | none =>
    obtain rfl := Option.some.inj ((node?_user hv).symm.trans (h.node hn hk))
    cases hk

/-- Writing other bases over a user type changes bases alone. -/
theorem write_rebases {a : Arena} {l : NodeId} {u : UserType} (hu : a.user? l = some u)
    (bs : List NodeId) : a.Rebases (a.write l (.user { u with bases := bs })) := by
  refine ⟨rfl, rfl, size_write _ _ _, fun {id n} hn hun => ?_, fun {id v} hv => ?_⟩
  · have hne : id ≠ l := by
      rintro rfl
      rw [node?_user hu] at hn
      obtain rfl := Option.some.inj hn
      simp [Node.userType?] at hun
    rwa [node?_write_of_ne a hne]
  · by_cases hid : id = l
    · subst hid
      obtain rfl := Option.some.inj (hu.symm.trans hv)
      exact ⟨bs, user?_write_self hu _⟩
    · exact ⟨v.bases, by rwa [user?_write_of_ne a hid]⟩

/-- What is a class does not depend on bases. -/
theorem Rebases.isClassAt {a b : Arena} (h : a.Rebases b) (id : NodeId) :
    b.isClassAt id = a.isClassAt id := by
  unfold Arena.isClassAt
  cases hn : a.node? id with
  | none =>
    rw [node?_eq_none_iff.2 (h.size ▸ node?_eq_none_iff.1 hn)]
  | some n =>
    cases n with
    | user u =>
      obtain ⟨bs, hb⟩ := h.user (user?_of_node? hn)
      rw [node?_user hb]
      rfl
    | _ => rw [h.node hn rfl]

theorem Rebases.layout? {a b : Arena} (h : a.Rebases b) (id : NodeId) :
    b.layout? id = a.layout? id := by
  unfold Arena.layout?
  cases hn : a.node? id with
  | none =>
    rw [node?_eq_none_iff.2 (h.size ▸ node?_eq_none_iff.1 hn)]
  | some n =>
    cases n with
    | user u =>
      obtain ⟨bs, hb⟩ := h.user (user?_of_node? hn)
      rw [node?_user hb]
    | _ => rw [h.node hn rfl]

end Arena

namespace TypeGraph

/-- What checking the bases of a class does: its layout loses the bases that are no classes,
which are all degraded ones, and no other node changes. -/
theorem checkClass_spec {degraded : List NodeId} {a b : Arena} {id : NodeId}
    (h : checkClass degraded a id = .ok b) :
    a.Rebases b ∧ ∀ {l u}, a.user? l = some u →
      (a.layout? id = some l → b.user? l = some { u with bases := u.bases.filter a.isClassAt } ∧
        ∀ x ∈ u.bases, a.isClassAt x = true ∨ x ∈ degraded) ∧
      (a.layout? id ≠ some l → b.user? l = some u) := by
  cases hl : a.layout? id with
  | none =>
    simp only [checkClass, hl] at h
    obtain rfl := Except.ok.inj h
    exact ⟨.refl a, fun {l u} hu => ⟨by simp, fun _ => hu⟩⟩
  | some k =>
    cases hk : a.user? k with
    | none =>
      simp only [checkClass, hl, hk] at h
      obtain rfl := Except.ok.inj h
      refine ⟨.refl a, fun {l u} hu => ⟨fun heq => ?_, fun _ => hu⟩⟩
      obtain rfl := Option.some.inj heq
      simp [hk] at hu
    | some w =>
      simp only [checkClass, hl, hk] at h
      obtain ⟨bs, hb, hupdate⟩ := map_eq_ok_iff.1 h
      obtain ⟨rfl, hall⟩ := checkedBases_eq_ok hb
      have hwrite : b = a.write k (.user { w with bases := w.bases.filter a.isClassAt }) :=
        hupdate.symm.trans (Arena.updateUser_of_user? hk _)
      refine ⟨?_, fun {l u} hu => ⟨fun heq => ?_, fun hne => ?_⟩⟩
      · exact hwrite ▸ Arena.write_rebases hk _
      · obtain rfl := Option.some.inj heq
        obtain rfl := Option.some.inj (hk.symm.trans hu)
        rw [hwrite]
        exact ⟨Arena.user?_write_self hk _, hall⟩
      · rw [hwrite, Arena.user?_write_of_ne a fun heq => hne (congrArg some heq.symm)]
        exact hu

/-- What checking the bases of several classes does. Once the bases of a class are classes, checking
them again changes nothing. -/
theorem foldlM_checkClass {degraded ids : List NodeId} {a b : Arena}
    (h : ids.foldlM (checkClass degraded) a = .ok b) :
    a.Rebases b ∧ ∀ {l u}, a.user? l = some u →
      (some l ∈ ids.map a.layout? →
        b.user? l = some { u with bases := u.bases.filter a.isClassAt } ∧
          ∀ x ∈ u.bases, a.isClassAt x = true ∨ x ∈ degraded) ∧
      (some l ∉ ids.map a.layout? → b.user? l = some u) := by
  induction ids generalizing a with
  | nil =>
    obtain rfl := Except.ok.inj h
    exact ⟨.refl a, fun {l u} hu => ⟨by simp, fun _ => hu⟩⟩
  | cons i ids ih =>
    obtain ⟨a₁, hi, h⟩ := foldlM_cons_eq_ok_iff.1 h
    obtain ⟨hreb, hstep⟩ := checkClass_spec hi
    obtain ⟨hreb', hlater⟩ := ih h
    have hclass : a₁.isClassAt = a.isClassAt := funext hreb.isClassAt
    have hlayout : a₁.layout? = a.layout? := funext hreb.layout?
    rw [hlayout, hclass] at hlater
    refine ⟨hreb.trans hreb', fun {l u} hu => ?_⟩
    obtain ⟨hthis, hother⟩ := hstep hu
    rw [List.map_cons, List.mem_cons]
    by_cases hl : a.layout? i = some l
    · obtain ⟨hu₁, hall⟩ := hthis hl
      obtain ⟨hmem, hnot⟩ := hlater hu₁
      refine ⟨fun _ => ⟨?_, hall⟩, fun hne => absurd (Or.inl hl.symm) hne⟩
      by_cases hids : some l ∈ ids.map a.layout?
      · simpa using (hmem hids).1
      · exact hnot hids
    · obtain ⟨hmem, hnot⟩ := hlater (hother hl)
      refine ⟨fun hor => ?_, fun hne => hnot fun hids => hne (Or.inr hids)⟩
      exact hmem (hor.resolve_left (Ne.symm hl))

end TypeGraph

/-! ## Uniting duplicates -/

namespace Arena

/-- An arena in which every link and binding was sent through a function. -/
structure Relinks (f : NodeId → NodeId) (a b : Arena) : Prop where
  slot : ∀ s, b.slot? s = (a.slot? s).map f
  shared : b.shared = a.shared
  size : b.size = a.size
  node : ∀ {id n}, a.node? id = some n → n.userType? = none → b.node? id = some (n.mapLinks f)
  user : ∀ {id u}, a.user? id = some u → ∃ v, b.user? id = some v ∧ v.head = u.head ∧
    v.bases = u.bases.map f ∧ v.fields = u.fields.map fun d => { d with type := f d.type }

/-- What is a class does not depend on where links lead. -/
theorem Relinks.isClassAt {f : NodeId → NodeId} {a b : Arena} (h : a.Relinks f b) (id : NodeId) :
    b.isClassAt id = a.isClassAt id := by
  unfold Arena.isClassAt
  cases hn : a.node? id with
  | none => rw [node?_eq_none_iff.2 (h.size ▸ node?_eq_none_iff.1 hn)]
  | some n =>
    cases n with
    | user u =>
      obtain ⟨v, hv, -⟩ := h.user (user?_of_node? hn)
      rw [node?_user hv]
      rfl
    | _ =>
      rw [h.node hn rfl]
      rfl

/-- Uniting duplicates sends links and bindings to the classes that stand in. -/
theorem unite_relinks (a : Arena) (classes : List NodeId) :
    a.Relinks (a.standIn classes) (a.unite classes).1 := by
  let f := a.standIn classes
  let xs := a.identified classes
  let marked := (Identified.kept xs).foldl keep ((Identified.duplicates xs).foldl discard a)
  have hm : a.Marks marked :=
    (foldl_marks discard_marks _ a).trans (foldl_marks keep_marks _ _)
  have hunite : (a.unite classes).1 =
      marked.relink ((Identified.duplicates xs).flatMap a.forwarding) := rfl
  rw [hunite]
  refine ⟨fun s => ?_, hm.shared, ?_, fun {id n} hn hu => ?_, fun {id u} hu => ?_⟩
  · rw [slot?_relink, slot?, hm.bindings]
    rfl
  · simp only [size, relink, Array.size_map]
    exact hm.size
  · rw [node?_relink, hm.node?_of_userType?_eq_none hn hu]
    rfl
  · obtain ⟨v, hv, hhead, hbases, hfields⟩ := hm.user hu
    have hnode : (marked.relink ((Identified.duplicates xs).flatMap a.forwarding)).node? id =
        some ((Node.user v).mapLinks f) := by
      rw [node?_relink, node?_user hv]
      rfl
    have hbases' := congrArg (List.map f) hbases
    have hfields' := congrArg (List.map fun d : Field => { d with type := f d.type }) hfields
    exact ⟨_, user?_of_node? hnode, hhead, hbases', hfields'⟩

namespace Settled

variable {a : Arena} {records : List SymbolRecord} {classes : List NodeId}

/-- Relinking leaves the layout of a first class where it is. -/
theorem layout?_of_relinks {b : Arena} (h : a.Settled records classes)
    (hr : a.Relinks (a.standIn classes) b) {id : NodeId} (hid : id ∈ classes)
    (hfirst : a.firstLike classes id = id) : b.layout? id = a.layout? id := by
  obtain ⟨r, -, -, -, ⟨u, -, hn, -⟩ | ⟨l, args, u, -, hn, -⟩⟩ := h.class_cases hid
  · obtain ⟨v, hv, -⟩ := hr.user (user?_of_node? hn)
    simp [layout?, hn, node?_user hv]
  · have hl : a.layout? id = some l := by simp [layout?, hn]
    have hstay : a.standIn classes l = l := h.standIn_layout hid hl (hfirst.symm ▸ hl)
    simp [layout?, hn, hr.node hn rfl, Node.mapLinks, hstay]

/-- A class is sent to a class, and nothing else is. -/
theorem isClassAt_standIn (h : a.Settled records classes) (id : NodeId) :
    a.isClassAt (a.standIn classes id) = a.isClassAt id := by
  rcases h.standIn_cases id with ⟨hmem, heq⟩ | ⟨-, -, u, v, -, hu, -, hv⟩ | heq
  · obtain ⟨n, hn, hclass⟩ := h.isClass_of_mem hmem
    obtain ⟨m, hm, hclass'⟩ := h.isClass_of_mem (firstLike_mem (a := a) hmem)
    rw [heq]
    simp [isClassAt, hn, hm, hclass, hclass']
  · simp [isClassAt, node?_user hu, node?_user hv, Node.isClass]
  · rw [heq]

end Settled

end Arena

/-! ## Finished graphs -/

/-- What a settled draft with the given classes has become in a finished graph. -/
structure TypeGraph.Finishes (g : TypeGraph) (a : Arena) (records : List SymbolRecord)
    (classes : List NodeId) : Prop where
  sublist : g.classes.Sublist classes
  mem_classes : ∀ {id}, id ∈ g.classes ↔ id ∈ classes ∧ a.firstLike classes id = id
  slot : ∀ s, g.arena.slot? s = (a.slot? s).map (a.standIn classes)
  shared : g.arena.shared = a.shared
  size : g.arena.size = a.size
  node : ∀ {id n}, a.node? id = some n → n.userType? = none →
    g.arena.node? id = some (n.mapLinks (a.standIn classes))
  user : ∀ {id u}, a.user? id = some u → ∃ v, g.arena.user? id = some v ∧ v.head = u.head ∧
    v.fields = u.fields.map fun d => { d with type := a.standIn classes d.type }
  layout : ∀ {id}, id ∈ g.classes → g.arena.layout? id = a.layout? id
  bases : ∀ {id l u v}, id ∈ g.classes → a.layout? id = some l → a.user? l = some u →
    g.arena.user? l = some v →
      v.bases = (u.bases.filter a.isClassAt).map (a.standIn classes) ∧
        ∀ s b, b ∈ u.bases → a.slot? s = some b → s ∈ records.map (·.id) → a.isClassAt b = true

/-- What is no user type in the graph comes from the draft's node there. -/
theorem TypeGraph.Finishes.exists_node? {g : TypeGraph} {a : Arena} {records : List SymbolRecord}
    {classes : List NodeId} (h : g.Finishes a records classes) {id : NodeId} {m : Node}
    (hm : g.arena.node? id = some m) (hu : m.userType? = none) :
    ∃ n, a.node? id = some n ∧ n.userType? = none ∧ m = n.mapLinks (a.standIn classes) := by
  obtain ⟨n, hn⟩ := Arena.exists_node?_of_lt (h.size ▸ Arena.lt_size_of_node? hm)
  cases n with
  | user u =>
    obtain ⟨v, hv, -⟩ := h.user (Arena.user?_of_node? hn)
    obtain rfl := Option.some.inj (hm.symm.trans (Arena.node?_user hv))
    simp [Node.userType?] at hu
  | _ => exact ⟨_, hn, rfl, Option.some.inj (hm.symm.trans (h.node hn rfl))⟩

namespace TypeGraph

/-- Building a graph shows what it is like. -/
theorem exists_ofRecords_and {options : Options} {records : List SymbolRecord}
    {P : TypeGraph → Prop} [DecidablePred P]
    (h : (ofRecords options records).toOption.any (fun x => decide (P x.1)) = true) :
    ∃ g w, ofRecords options records = .ok (g, w) ∧ P g := by
  obtain ⟨⟨g, w⟩, hok, hg⟩ := exists_eq_ok_and h
  exact ⟨g, w, hok, hg⟩

/-- A graph that is built went through all five steps. -/
theorem ofRecords_eq_ok {options : Options} {records : List SymbolRecord} {g : TypeGraph}
    {w : Diagnostics} (h : ofRecords options records = .ok (g, w)) :
    ∃ draft d ws, Draft.ofRecords records = .ok draft ∧ draft.settle options = .ok (d, ws) ∧
      d.arena.checkSpelling = .ok () ∧
      g.classes = Identified.kept (d.arena.identified d.classes) ∧
      g.classes.foldlM (checkClass (draft.dangling.map (·.1))) (d.arena.unite d.classes).1 =
        .ok g.arena ∧
      w = ws ++ (d.arena.unite d.classes).2.2 := by
  unfold ofRecords at h
  simp only [bind_eq_ok_iff, pure, Except.pure, Except.ok.injEq] at h
  obtain ⟨draft, hdraft, ⟨d, ws⟩, hsettle, _, hspell, a, hcheck, hg⟩ := h
  obtain ⟨rfl, rfl⟩ := Prod.mk.inj hg
  exact ⟨draft, d, ws, hdraft, hsettle, hspell, rfl, hcheck, rfl⟩

/-- Where a record stands, no dangling reference was. -/
theorem not_mem_dangling {records : List SymbolRecord} {draft : Draft}
    (h : draft.Entered records) {s : SymbolId} {b : NodeId} (hb : draft.arena.slot? s = some b)
    (hs : s ∈ records.map (·.id)) : b ∉ draft.dangling.map (·.1) := by
  intro hmem
  obtain ⟨⟨_, t⟩, ht, rfl⟩ := List.mem_map.1 hmem
  obtain ⟨r, hr, rfl⟩ := List.mem_map.1 hs
  obtain ⟨id, n, hid, hn, hdraw⟩ := h.drawn r hr
  obtain rfl := Option.some.inj (hb.symm.trans hid)
  obtain rfl := Option.some.inj (hn.symm.trans (Draft.mem_dangling.1 ht))
  cases hdraw.isPlaceholder

/-- Every graph that is built finishes the settled draft of its records. -/
theorem exists_finishes {options : Options} {records : List SymbolRecord} {g : TypeGraph}
    {w : Diagnostics} (h : ofRecords options records = .ok (g, w)) :
    ∃ d, Draft.settled options records = .ok d ∧ d.arena.checkSpelling = .ok () ∧
      d.arena.Settled records d.classes ∧ g.Finishes d.arena records d.classes := by
  obtain ⟨draft, d, ws, hdraft, hsettle, hspell, hclasses, hcheck, -⟩ := ofRecords_eq_ok h
  have hd : Draft.settled options records = .ok d :=
    Draft.settled_eq_ok_iff.2 ⟨draft, ws, hdraft, hsettle⟩
  have hs := Draft.settled_spec hd
  have hrel := d.arena.unite_relinks d.classes
  obtain ⟨hreb, hchecked⟩ := foldlM_checkClass hcheck
  have hmem {id : NodeId} : id ∈ g.classes ↔
      id ∈ d.classes ∧ d.arena.firstLike d.classes id = id := by
    rw [hclasses]
    exact Arena.mem_kept_iff fun _ => hs.exists_identity
  have hunited {id : NodeId} (hid : id ∈ g.classes) :
      (d.arena.unite d.classes).1.layout? id = d.arena.layout? id :=
    hs.layout?_of_relinks hrel (hmem.1 hid).1 (hmem.1 hid).2
  have hsub : g.classes.Sublist d.classes := hclasses ▸ d.arena.kept_sublist d.classes
  refine ⟨d, hd, hspell, hs, hsub, hmem, fun s => ?_, hreb.shared.trans hrel.shared,
    hreb.size.trans hrel.size, fun hn hu => ?_, fun hu => ?_, fun hid => ?_,
    fun {id l u v} hid hl hu hv => ?_⟩
  · rw [← hrel.slot, Arena.slot?, hreb.bindings, Arena.slot?]
  · exact hreb.node (hrel.node hn hu) (Node.userType?_mapLinks hu)
  · obtain ⟨v, hv, hhead, -, hfields⟩ := hrel.user hu
    obtain ⟨bs, hbs⟩ := hreb.user hv
    exact ⟨_, hbs, hhead, hfields⟩
  · rw [hreb.layout?, hunited hid]
  · obtain ⟨v', hv', -, hbases, -⟩ := hrel.user hu
    have hlayout : some l ∈ g.classes.map (d.arena.unite d.classes).1.layout? :=
      List.mem_map.2 ⟨id, hid, (hunited hid).trans hl⟩
    obtain ⟨hfinal, hall⟩ := (hchecked hv').1 hlayout
    obtain rfl := Option.some.inj (hv.symm.trans hfinal)
    have hclass (b : NodeId) : (d.arena.unite d.classes).1.isClassAt (d.arena.standIn d.classes b) =
        d.arena.isClassAt b := (hrel.isClassAt _).trans (hs.isClassAt_standIn b)
    refine ⟨?_, fun s b hb hslot hsr => ?_⟩
    · simp only [hbases, List.filter_map]
      exact congrArg _ (List.filter_congr fun b _ => hclass b)
    · rcases hall (d.arena.standIn d.classes b) (hbases ▸ List.mem_map_of_mem hb) with hc | hdeg
      · rwa [hclass] at hc
      · rw [← Bool.not_eq_false]
        intro hc
        obtain ⟨n, hn⟩ := Arena.exists_node?_of_lt (hs.sound.slot_lt hslot)
        rw [Arena.isClassAt, hn] at hc
        rw [hs.standIn_of_not_class hn hc] at hdeg
        obtain ⟨-, hdegrades⟩ := Draft.settle_spec hsettle
        rw [hdegrades.slot] at hslot
        exact not_mem_dangling (Draft.ofRecords_spec hdraft).1 hslot hsr hdeg

end TypeGraph

end NativeBindings
