import NativeBindings.Proofs.Graph.SpelledRing

/-!
# Identities of a finished graph

An identity is made from native names, and the native name of an argument changes when the
argument is sent to the class that stands for it. So classes that were told apart when
duplicates were united can have one identity afterwards
(`TypeGraph.nestedSpelling_collides`).

What changes is known: every class behind pointers and arrays is written by the name of the
one that stands for it (`Arena.respelled`), and nothing else. So the identities of the
finished graph are those of the draft with respelled arguments, and
`TypeGraph.ofRecords_nodup_identities_iff` says when they are distinct.
-/

namespace NativeBindings

/-! ## Names with other names for classes -/

/-- The native name of a type when classes are called otherwise. -/
def Reading.nativeBy (called : NodeId → String) : Reading String := fun id n linked =>
  if n.isClass then some (called id) else native id n linked

/-- A name that is known stays known with more links, whatever classes are called. -/
theorem Reading.nativeBy_stable (called : NodeId → String) : (nativeBy called).Stable := by
  intro id n known more h x hx
  unfold nativeBy at hx ⊢
  split at hx
  · next hk => rwa [if_pos hk]
  · next hk =>
    rw [if_neg hk]
    exact native_stable id n known more h x hx

theorem Reading.nativeBy_total (called : NodeId → String) : (nativeBy called).Total := by
  intro id n known hlinks hlayout
  cases n <;> simp_all [nativeBy, native, Node.isClass, Node.spellingLinks]

namespace Arena

/-- The native name of a node when every class is called by the one that stands for it. -/
def respelled (a : Arena) (classes : List NodeId) (id : NodeId) : String :=
  (a.read? (.nativeBy fun c => a.native (a.standIn classes c)) id).getD ""

theorem native?_eq_some {a : Arena} {k : Nat} {id : NodeId} {name : String}
    (h : a.readWithin .native k id = some name) : a.native? id = some name :=
  (read?_eq_some_iff Reading.native_stable).2 ⟨k, h⟩

/-- What is read of a name within some links is the name. -/
theorem native_eq_of_readWithin {a : Arena} {k : Nat} {id : NodeId} {name : String}
    (h : a.readWithin .native k id = some name) : a.native id = name := by
  rw [native, native?_eq_some h]
  rfl

/-- The name of a class is its own, so it is read at once. -/
theorem readWithin_native_user {a : Arena} {id : NodeId} {u : UserType} (hu : a.user? id = some u)
    (k : Nat) : a.readWithin .native (k + 1) id = some u.nativeName := by
  rw [readWithin_succ, node?_user hu]
  rfl

theorem readWithin_native_template {a : Arena} {id l : NodeId} {args : List NodeId} {u : UserType}
    (hn : a.node? id = some (.template l args)) (hu : a.user? l = some u) (k : Nat) :
    a.readWithin .native (k + 2) id = some u.nativeName := by
  rw [readWithin_succ, hn]
  exact readWithin_native_user hu k

/-- Following links into another arena reads a native name by what classes are called there. -/
theorem readWithin_native_of_nativeBy {a b : Arena} {f : NodeId → NodeId} {called : NodeId → String}
    (hclass : ∀ {t n}, a.node? t = some n → n.isClass = true →
      b.readWithin .native 2 (f t) = some (called t))
    (hrest : ∀ {t n}, a.node? t = some n → n.isClass = false →
      b.node? (f t) = some (n.mapLinks f)) {k : Nat} {t : NodeId} {name : String}
    (h : a.readWithin (.nativeBy called) k t = some name) :
    b.readWithin .native (k + 1) (f t) = some name := by
  induction k generalizing t name with
  | zero => simp [readWithin] at h
  | succ k ih =>
    rw [readWithin_succ, Option.bind_eq_some_iff] at h
    obtain ⟨n, hn, hname⟩ := h
    unfold Reading.nativeBy at hname
    by_cases hk : n.isClass = true
    · rw [if_pos hk] at hname
      rw [← hname]
      exact b.readWithin_mono Reading.native_stable (Nat.le_add_left 2 k) (hclass hn hk)
    · rw [if_neg hk] at hname
      rw [readWithin_succ, hrest hn (Bool.eq_false_iff.2 hk)]
      cases n with
      | pointer t' | array t' =>
        obtain ⟨inner, hinner, rfl⟩ := Option.map_eq_some_iff.1 hname
        exact Option.map_eq_some_iff.2 ⟨inner, ih hinner, rfl⟩
      | user u | template l args => exact absurd rfl hk
      | _ => exact hname

end Arena

/-! ## Identities after finishing -/

theorem UserType.nativeName_of_head {u v : UserType} (h : v.head = u.head) :
    v.nativeName = u.nativeName := by
  have hname := congrArg UserType.nativeName h
  exact hname

theorem UserType.identity_of_head {u v : UserType} (h : v.head = u.head) (args : List String) :
    v.identity args = u.identity args := by
  have hidentity := congrArg (UserType.identity · args) h
  exact hidentity

namespace TypeGraph.Finishes

variable {g : TypeGraph} {a : Arena} {records : List SymbolRecord} {classes : List NodeId}

/-- A kept instantiation keeps its layout. -/
theorem node?_template (h : g.Finishes a records classes) (hs : a.Settled records classes)
    {id l : NodeId} {args : List NodeId} (hfirst : a.firstLike classes id = id)
    (hn : a.node? id = some (.template l args)) :
    g.arena.node? id = some (.template l (args.map (a.standIn classes))) := by
  have hl : a.layout? id = some l := by simp [Arena.layout?, hn]
  have hstay : a.standIn classes l = l :=
    hs.standIn_layout (hs.template_spec hn).1 hl (hfirst.symm ▸ hl)
  rw [h.node hn rfl, Node.mapLinks, hstay]

/-- After finishing, what stands in for a class has the name that it had. -/
theorem readWithin_native_class (h : g.Finishes a records classes)
    (hs : a.Settled records classes) {t : NodeId} {n : Node} (hn : a.node? t = some n)
    (hk : n.isClass = true) :
    g.arena.readWithin .native 2 (a.standIn classes t) =
      some (a.native (a.standIn classes t)) := by
  have huser {m : NodeId} {u : UserType} (hu : a.user? m = some u) :
      g.arena.readWithin .native 2 m = some (a.native m) := by
    obtain ⟨v, hv, hhead, -⟩ := h.user hu
    rw [Arena.readWithin_native_user hv, UserType.nativeName_of_head hhead,
      Arena.native_eq_of_readWithin (Arena.readWithin_native_user hu 0)]
  by_cases hmem : t ∈ classes
  · have hmem' := Arena.firstLike_mem (a := a) hmem
    rw [hs.standIn_class hmem]
    obtain ⟨r, -, -, -, ⟨u, -, hn', -⟩ | ⟨l, args, u, -, hn', -, -, hu, -⟩⟩ := hs.class_cases hmem'
    · exact huser (Arena.user?_of_node? hn')
    · have hnode := h.node?_template hs (Arena.firstLike_firstLike hmem) hn'
      obtain ⟨v, hv, hhead, -⟩ := h.user hu
      rw [Arena.readWithin_native_template hnode hv, UserType.nativeName_of_head hhead,
        Arena.native_eq_of_readWithin (Arena.readWithin_native_template hn' hu 0)]
  · cases n with
    | user u =>
      rcases hs.standIn_cases t with ⟨hmem', -⟩ | ⟨-, -, -, v, -, -, -, hv⟩ | heq
      · exact absurd hmem' hmem
      · exact huser hv
      · rw [heq]
        exact huser (Arena.user?_of_node? hn)
    | template l args => exact absurd (hs.template_spec hn).1 hmem
    | _ => cases hk

/-- In the finished graph a node is called what it is respelled to in the draft. -/
theorem native_standIn (h : g.Finishes a records classes) (hs : a.Settled records classes)
    (hspell : a.checkSpelling = .ok ()) {t : NodeId} (ht : t < a.size) :
    g.arena.native (a.standIn classes t) = a.respelled classes t := by
  have hacc := Arena.acc_of_checkSpelling (fun _ _ => hs.spells_lt) hspell t
  obtain ⟨name, hname⟩ := hs.closed.exists_read?
    (Reading.nativeBy_stable fun c => a.native (a.standIn classes c))
    (Reading.nativeBy_total _) hacc ht
  have hrest {t : NodeId} {n : Node} (hn : a.node? t = some n) (hk : n.isClass = false) :
      g.arena.node? (a.standIn classes t) = some (n.mapLinks (a.standIn classes)) := by
    obtain ⟨hstay, hnode⟩ := h.node?_of_not_class hs hn hk
    rwa [hstay]
  have hread := Arena.readWithin_native_of_nativeBy (h.readWithin_native_class hs) hrest hname
  rw [Arena.native_eq_of_readWithin hread, Arena.respelled, hname]
  rfl

/-- The identity of a kept class keeps its namespace and name, and has its arguments
respelled. -/
theorem identity? (h : g.Finishes a records classes) (hs : a.Settled records classes)
    (hspell : a.checkSpelling = .ok ()) {id : NodeId} (hid : id ∈ g.classes) :
    g.arena.identity? id = (a.identity? id).map fun key =>
      { key with arguments := (a.spellingLinks id).map (a.respelled classes) } := by
  obtain ⟨hmem, hfirst⟩ := h.mem_classes.1 hid
  obtain ⟨r, -, -, -, ⟨u, -, hn, -⟩ | ⟨l, args, u, -, hn, -, -, hu, -⟩⟩ := hs.class_cases hmem
  · obtain ⟨v, hv, hhead, -⟩ := h.user (Arena.user?_of_node? hn)
    simp only [Arena.identity?, Arena.node?_user hv, hn, UserType.identity_of_head hhead,
      Option.map_some, Arena.spellingLinks, Option.getD_some, Node.spellingLinks, List.map_nil]
    rfl
  · obtain ⟨v, hv, hhead, -⟩ := h.user hu
    have hnode := h.node?_template hs hfirst hn
    have hargs : (args.map (a.standIn classes)).map g.arena.native =
        args.map (a.respelled classes) := by
      rw [List.map_map]
      refine List.map_congr_left fun t ht => h.native_standIn hs hspell ?_
      exact hs.spells_lt (Arena.spells_iff.2 ⟨_, hn, ht⟩)
    simp only [Arena.identity?, hnode, hv, hn, hu, Option.map_some, hargs,
      UserType.identity_of_head hhead, Arena.spellingLinks, Option.getD_some, Node.spellingLinks]
    rfl

end TypeGraph.Finishes

/-! ## Uniting once more -/

namespace Arena

/-- Uniting duplicates keeps all classes if and only if their identities are distinct. -/
theorem kept_eq_self_iff {a : Arena} {classes : List NodeId} (hnodup : classes.Nodup)
    (hkey : ∀ c ∈ classes, ∃ key, a.identity? c = some key) :
    (a.unite classes).2.1 = classes ↔ (classes.map a.identity?).Nodup := by
  have hkept {c : NodeId} : c ∈ (a.unite classes).2.1 ↔
      c ∈ classes ∧ a.firstLike classes c = c := mem_kept_iff hkey
  rw [List.nodup_map_iff_inj_on hnodup]
  constructor
  · intro heq c hc c' hc' hsame
    have hfirst := (hkept.1 (heq.symm ▸ hc)).2
    have hfirst' := (hkept.1 (heq.symm ▸ hc')).2
    rw [← hfirst, ← hfirst']
    exact firstLike_eq_of_identity? hc hc' hsame
  · intro hinj
    refine (a.kept_sublist classes).eq_of_length_le ?_
    refine (hnodup.subperm fun c hc => hkept.2 ⟨hc, ?_⟩).length_le
    exact hinj _ (firstLike_mem hc) c hc (identity?_firstLike hc)

/-- Two classes of one template, or of one name, whose arguments are respelled alike. -/
def Alike (a : Arena) (classes : List NodeId) (c c' : NodeId) : Prop :=
  ∃ key key', a.identity? c = some key ∧ a.identity? c' = some key' ∧
    key.scope = key'.scope ∧ key.name = key'.name ∧
    (a.spellingLinks c).map (a.respelled classes) = (a.spellingLinks c').map (a.respelled classes)

end Arena

theorem Node.mapLinks_id (n : Node) : n.mapLinks id = n := by
  cases n <;> simp [mapLinks]

namespace Arena.Settled

variable {a : Arena} {records : List SymbolRecord} {classes : List NodeId}

/-- A class has the name of its layout. -/
theorem native_layout (h : a.Settled records classes) {c l : NodeId} (hc : c ∈ classes)
    (hl : a.layout? c = some l) :
    a.readWithin .native 2 c = some (a.native c) ∧ a.native l = a.native c := by
  obtain ⟨r, -, -, -, ⟨u, -, hn, -⟩ | ⟨l', args, u, -, hn, -, -, hu, -⟩⟩ := h.class_cases hc
  · obtain rfl : c = l := by simpa [layout?, hn] using hl
    have hread := readWithin_native_user (user?_of_node? hn)
    exact ⟨by rw [hread, native_eq_of_readWithin (hread 0)], rfl⟩
  · obtain rfl : l' = l := by simpa [layout?, hn] using hl
    have hread := readWithin_native_template hn hu 0
    rw [hread, native_eq_of_readWithin hread, native_eq_of_readWithin (readWithin_native_user hu 0)]
    exact ⟨rfl, rfl⟩

/-- If no class is called otherwise than the one that stands for it, names stay. -/
theorem respelled_eq_native (h : a.Settled records classes) (hspell : a.checkSpelling = .ok ())
    (hcalled : ∀ c ∈ classes, a.native (a.firstLike classes c) = a.native c) {t : NodeId}
    (ht : t < a.size) : a.respelled classes t = a.native t := by
  have hacc := acc_of_checkSpelling (fun _ _ => h.spells_lt) hspell t
  obtain ⟨name, hname⟩ := h.closed.exists_read?
    (Reading.nativeBy_stable fun c => a.native (a.standIn classes c))
    (Reading.nativeBy_total _) hacc ht
  have hclass {t : NodeId} {n : Node} (hn : a.node? t = some n) (hk : n.isClass = true) :
      a.readWithin .native 2 (id t) = some (a.native (a.standIn classes t)) := by
    by_cases hmem : t ∈ classes
    · obtain ⟨l, -, hl, -⟩ := h.exists_layout hmem
      rw [h.standIn_class hmem, hcalled t hmem]
      exact (h.native_layout hmem hl).1
    · cases n with
      | user u =>
        have hread := readWithin_native_user (user?_of_node? hn)
        have hsame : a.native (a.standIn classes t) = a.native t := by
          rcases h.standIn_cases t with ⟨hmem', -⟩ | ⟨j, hj, -, -, hl, -, hm, -⟩ | heq
          · exact absurd hmem' hmem
          · rw [(h.native_layout (firstLike_mem hj) hm).2, (h.native_layout hj hl).2, hcalled j hj]
          · rw [heq]
        rw [hsame, native_eq_of_readWithin (hread 0)]
        exact hread 1
      | template l args => exact absurd (h.template_spec hn).1 hmem
      | _ => cases hk
  have hrest {t : NodeId} {n : Node} (hn : a.node? t = some n) (_ : n.isClass = false) :
      a.node? (id t) = some (n.mapLinks id) := by
    rwa [n.mapLinks_id]
  have hread := readWithin_native_of_nativeBy hclass hrest hname
  rw [respelled, hname]
  exact (native_eq_of_readWithin hread).symm

end Arena.Settled

namespace TypeGraph

/-- The identities of the classes of a graph that is built, as they are in the graph, are
distinct if and only if no two classes are respelled alike, and if and only if uniting
duplicates again would keep every class; and always so if every class is called like the one
that stands for it. -/
theorem ofRecords_nodup_identities_iff {options : Options} {records : List SymbolRecord}
    {g : TypeGraph} {w : Diagnostics} (h : ofRecords options records = .ok (g, w)) :
    ∃ d, Draft.settled options records = .ok d ∧
      ((g.classes.map g.arena.identity?).Nodup ↔
        ∀ c ∈ g.classes, ∀ c' ∈ g.classes, d.arena.Alike d.classes c c' → c = c') ∧
      ((g.arena.unite g.classes).2.1 = g.classes ↔ (g.classes.map g.arena.identity?).Nodup) ∧
      ((∀ c ∈ d.classes, d.arena.native (d.arena.firstLike d.classes c) = d.arena.native c) →
        (g.classes.map g.arena.identity?).Nodup) := by
  obtain ⟨d, hd, hspell, hs, hf⟩ := exists_finishes h
  have hnodup : g.classes.Nodup := hf.sublist.nodup hs.nodup_classes
  have hkey {c : NodeId} (hc : c ∈ g.classes) : ∃ key, d.arena.identity? c = some key ∧
      g.arena.identity? c = some ⟨key.scope, key.name,
        (d.arena.spellingLinks c).map (d.arena.respelled d.classes)⟩ := by
    obtain ⟨key, hkey⟩ := hs.exists_identity (hf.mem_classes.1 hc).1
    exact ⟨key, hkey, by rw [hf.identity? hs hspell hc, hkey]; rfl⟩
  have hiff : (g.classes.map g.arena.identity?).Nodup ↔
      ∀ c ∈ g.classes, ∀ c' ∈ g.classes, d.arena.Alike d.classes c c' → c = c' := by
    rw [List.nodup_map_iff_inj_on hnodup]
    refine forall₂_congr fun c hc => forall₂_congr fun c' hc' => ?_
    obtain ⟨key, hkey₁, hkey₂⟩ := hkey hc
    obtain ⟨key', hkey₁', hkey₂'⟩ := hkey hc'
    rw [hkey₂, hkey₂', Option.some.injEq, Identity.mk.injEq]
    refine imp_congr_left ⟨fun ⟨hscope, hname, hargs⟩ => ?_, ?_⟩
    · exact ⟨key, key', hkey₁, hkey₁', hscope, hname, hargs⟩
    · rintro ⟨k, k', hk, hk', hrest⟩
      obtain rfl := Option.some.inj (hkey₁.symm.trans hk)
      obtain rfl := Option.some.inj (hkey₁'.symm.trans hk')
      exact hrest
  refine ⟨d, hd, hiff, Arena.kept_eq_self_iff hnodup fun c hc => ?_, fun hcalled => ?_⟩
  · obtain ⟨key, -, hkey'⟩ := hkey hc
    exact ⟨_, hkey'⟩
  · refine hiff.2 fun c hc c' hc' halike => ?_
    obtain ⟨key, key', hk, hk', hscope, hname, hargs⟩ := halike
    obtain ⟨hmem, hfirst⟩ := hf.mem_classes.1 hc
    obtain ⟨hmem', hfirst'⟩ := hf.mem_classes.1 hc'
    have hnative (c : NodeId) : (d.arena.spellingLinks c).map (d.arena.respelled d.classes) =
        (d.arena.spellingLinks c).map d.arena.native :=
      List.map_congr_left fun t ht => hs.respelled_eq_native hspell hcalled (hs.spells_lt ht)
    have hsame : key = key' := by
      rw [hnative, hnative, ← Arena.arguments_of_identity? hk,
        ← Arena.arguments_of_identity? hk'] at hargs
      exact (Identity.mk.injEq ..).mpr ⟨hscope, hname, hargs⟩
    rw [← hfirst, ← hfirst']
    exact Arena.firstLike_eq_of_identity? hmem hmem' (by rw [hk, hk', hsame])

/-- One instantiation written in two ways, and an instantiation of another template over
each. -/
def nestedSpelling : List SymbolRecord :=
  [.ofPrimitive ⟨1⟩ "int" 4,
    .ofInstantiation ⟨2⟩ "Foo<int>" 8 [⟨1⟩],
    .ofInstantiation ⟨3⟩ "Foo<int >" 8 [⟨1⟩],
    .ofInstantiation ⟨4⟩ "Box<Foo<int> >" 8 [⟨2⟩],
    .ofInstantiation ⟨5⟩ "Box<Foo<int > >" 8 [⟨3⟩]]

/-- Two of the three classes that are left have one identity. -/
theorem exists_ofRecords_nestedSpelling : ∃ g w, ofRecords {} nestedSpelling = .ok (g, w) ∧
    g.classes = [3, 7, 9] ∧ g.arena.identity? 7 = g.arena.identity? 9 :=
  exists_ofRecords_and (by decide +kernel)

/-- Both outer instantiations are kept, and have one identity once the inner ones are
united. -/
theorem nestedSpelling_collides : ∃ g w, ofRecords {} nestedSpelling = .ok (g, w) ∧
    ¬(g.classes.map g.arena.identity?).Nodup := by
  obtain ⟨g, w, h, hclasses, hsame⟩ := exists_ofRecords_nestedSpelling
  exact ⟨g, w, h, by simp [hclasses, hsame]⟩

/-- They are respelled alike, so uniting again would discard one; and a class is called
otherwise than the one that stands for it. -/
theorem nestedSpelling_alike : ∃ g w d, ofRecords {} nestedSpelling = .ok (g, w) ∧
    Draft.settled {} nestedSpelling = .ok d ∧
    (∃ c ∈ g.classes, ∃ c' ∈ g.classes, d.arena.Alike d.classes c c' ∧ c ≠ c') ∧
    (g.arena.unite g.classes).2.1 ≠ g.classes ∧
    ∃ c ∈ d.classes, d.arena.native (d.arena.firstLike d.classes c) ≠ d.arena.native c := by
  obtain ⟨g, w, h, hclasses, hsame⟩ := exists_ofRecords_nestedSpelling
  have hcollide : ¬(g.classes.map g.arena.identity?).Nodup := by simp [hclasses, hsame]
  obtain ⟨d, hd, halike, hunite, hcalled⟩ := ofRecords_nodup_identities_iff h
  refine ⟨g, w, d, h, hd, ?_, fun heq => hcollide (hunite.1 heq), ?_⟩
  · rw [halike] at hcollide
    simpa using hcollide
  · have hnot := mt hcalled hcollide
    simpa using hnot

end TypeGraph

end NativeBindings
