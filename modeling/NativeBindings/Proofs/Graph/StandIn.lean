import NativeBindings.Graph.Identity
import NativeBindings.Proofs.Graph.Filling
import Mathlib.Data.List.Nodup

/-!
# The class that stands for another

Of the classes with one identity the first in record order stands for all of them
(`Arena.firstLike`). Uniting duplicates sends every link along a forwarding list;
`Arena.standIn` is where that list sends a node, and `Arena.Settled` makes it
what one would expect: a class goes to the first with its identity, the hidden layout of
an instantiation to the layout of that first one, and nothing else moves
(`standIn_class`, `standIn_layout`, `standIn_of_not_class`).

Targets are never sent on, because a first class is first for itself.
-/

namespace NativeBindings

namespace Arena

/-! ## First classes -/

/-- The first class with the identity of a class. -/
def firstLike (a : Arena) (classes : List NodeId) (id : NodeId) : NodeId :=
  (classes.find? fun j => a.identity? j == a.identity? id).getD id

/-- Where uniting duplicates sends a node. -/
def standIn (a : Arena) (classes : List NodeId) : NodeId → NodeId :=
  forwarded ((Identified.duplicates (a.identified classes)).flatMap a.forwarding)

theorem find?_firstLike {a : Arena} {classes : List NodeId} {id : NodeId} (h : id ∈ classes) :
    (classes.find? fun j => a.identity? j == a.identity? id) = some (a.firstLike classes id) := by
  unfold firstLike
  cases hf : classes.find? fun j => a.identity? j == a.identity? id with
  | some j => rfl
  | none => simpa using List.find?_eq_none.1 hf id h

theorem firstLike_mem {a : Arena} {classes : List NodeId} {id : NodeId} (h : id ∈ classes) :
    a.firstLike classes id ∈ classes :=
  List.mem_of_find?_eq_some (find?_firstLike h)

/-- The first class like another has its identity. -/
theorem identity?_firstLike {a : Arena} {classes : List NodeId} {id : NodeId} (h : id ∈ classes) :
    a.identity? (a.firstLike classes id) = a.identity? id := by
  simpa using List.find?_some (find?_firstLike h)

/-- Classes of one identity have one first class. -/
theorem firstLike_eq_of_identity? {a : Arena} {classes : List NodeId} {id id' : NodeId}
    (h : id ∈ classes) (h' : id' ∈ classes) (heq : a.identity? id = a.identity? id') :
    a.firstLike classes id = a.firstLike classes id' := by
  have hf := find?_firstLike (a := a) h
  rw [heq, find?_firstLike (a := a) h'] at hf
  exact (Option.some.inj hf).symm

/-- A first class is first for itself. -/
theorem firstLike_firstLike {a : Arena} {classes : List NodeId} {id : NodeId} (h : id ∈ classes) :
    a.firstLike classes (a.firstLike classes id) = a.firstLike classes id :=
  firstLike_eq_of_identity? (firstLike_mem h) h (identity?_firstLike h)

theorem mem_identified {a : Arena} {classes : List NodeId} {x : Identified} :
    x ∈ a.identified classes ↔ x.1 ∈ classes ∧ a.identity? x.1 = some x.2 := by
  simp only [identified, List.mem_filterMap, Option.map_eq_some_iff]
  constructor
  · rintro ⟨id, hid, key, hkey, rfl⟩
    exact ⟨hid, hkey⟩
  · rintro ⟨hid, hkey⟩
    exact ⟨x.1, hid, x.2, hkey, rfl⟩

/-- The first class of an identity is the first one that is listed with it. -/
theorem first_identified {a : Arena} {classes : List NodeId} {x : Identified}
    (hx : x ∈ a.identified classes) :
    Identified.first (a.identified classes) x = a.firstLike classes x.1 := by
  obtain ⟨hid, hkey⟩ := mem_identified.1 hx
  have hf : (a.identified classes).find? (·.2 == x.2) =
      (a.identity? (a.firstLike classes x.1)).map fun k => (a.firstLike classes x.1, k) := by
    rw [identified, List.find?_filterMap]
    have hp : (fun j => (Option.map (fun k => (j, k)) (a.identity? j)).any (·.2 == x.2)) =
        fun j => a.identity? j == a.identity? x.1 := by
      funext j
      cases hj : a.identity? j <;> simp [hkey]
    rw [hp, find?_firstLike hid]
    rfl
  rw [identity?_firstLike hid, hkey, Option.map_some] at hf
  simp [Identified.first, hf]

/-- The classes that are kept are those that are first. -/
theorem mem_kept_iff {a : Arena} {classes : List NodeId}
    (h : ∀ c ∈ classes, ∃ key, a.identity? c = some key) {id : NodeId} :
    id ∈ Identified.kept (a.identified classes) ↔ id ∈ classes ∧ a.firstLike classes id = id := by
  simp only [Identified.kept, List.mem_map, List.mem_filter, beq_iff_eq]
  constructor
  · rintro ⟨x, ⟨hx, hfirst⟩, rfl⟩
    rw [first_identified hx] at hfirst
    exact ⟨(mem_identified.1 hx).1, hfirst⟩
  · rintro ⟨hid, hfirst⟩
    obtain ⟨key, hkey⟩ := h id hid
    have hx : (id, key) ∈ a.identified classes := mem_identified.2 ⟨hid, hkey⟩
    exact ⟨(id, key), ⟨hx, by rw [first_identified hx, hfirst]⟩, rfl⟩

/-- Classes are kept in their order. -/
theorem kept_sublist (a : Arena) (classes : List NodeId) :
    (Identified.kept (a.identified classes)).Sublist classes := by
  have hall : ((a.identified classes).map (·.1)).Sublist classes := by
    unfold identified
    induction classes with
    | nil => exact .refl _
    | cons c classes ih =>
      cases hc : a.identity? c with
      | none => simpa [hc] using ih.cons c
      | some key => simpa [hc] using ih
  exact (List.filter_sublist.map _).trans hall

/-! ## Forwarding lists -/

theorem lookup_eq_of_mem {α β : Type} [BEq α] [LawfulBEq α] {xs : List (α × β)} {a : α} {b : β}
    (h : (a, b) ∈ xs) (huniq : ∀ b', (a, b') ∈ xs → b' = b) : xs.lookup a = some b := by
  cases hl : xs.lookup a with
  | none => simpa using List.lookup_eq_none_iff.1 hl _ h
  | some b' =>
    obtain ⟨l₁, l₂, rfl, -⟩ := List.lookup_eq_some_iff.1 hl
    exact congrArg some (huniq b' (by simp))

theorem forwarded_eq_of_mem {forward : List (NodeId × NodeId)} {id t : NodeId}
    (h : (id, t) ∈ forward) (huniq : ∀ t', (id, t') ∈ forward → t' = t) :
    forwarded forward id = t := by
  rw [forwarded, lookup_eq_of_mem h huniq, Option.getD_some]

theorem forwarded_eq_self {forward : List (NodeId × NodeId)} {id : NodeId}
    (h : ∀ t, (id, t) ∉ forward) : forwarded forward id = id := by
  unfold forwarded
  cases hl : forward.lookup id with
  | none => rfl
  | some t =>
    obtain ⟨l₁, l₂, rfl, -⟩ := List.lookup_eq_some_iff.1 hl
    exact absurd (by simp) (h t)

/-! ## Classes of a settled draft -/

namespace Settled

variable {a : Arena} {records : List SymbolRecord} {classes : List NodeId}

/-- The classes of a settled draft are the slots of records of classes. -/
theorem mem_classes_iff (h : a.Settled records classes) {id : NodeId} :
    id ∈ classes ↔ ∃ r ∈ records, r.kind.isClass = true ∧ a.slot? r.id = some id := by
  have hmem : id ∈ classes ↔ some id ∈ classes.map some := by simp
  rw [hmem, ← show _ = _ from h.classes]
  simp [and_assoc]

/-- What a class of a settled draft is: a plain user type, or an instantiation with arguments
whose layout is a user type of its own. -/
theorem class_cases (h : a.Settled records classes) {id : NodeId} (hid : id ∈ classes) :
    ∃ r ∈ records, r.kind.isClass = true ∧ a.slot? r.id = some id ∧
      ((∃ u, r.isApplied = false ∧ a.node? id = some (.user u) ∧
          u.head = Draft.unfilled r false) ∨
        ∃ l args u, r.isApplied = true ∧ a.node? id = some (.template l args) ∧ args ≠ [] ∧
          a.Slots r.templateArguments args ∧ a.user? l = some u ∧
          u.head = Draft.unfilled r true) := by
  obtain ⟨r, hr, hk, hslot⟩ := h.mem_classes_iff.1 hid
  obtain ⟨id', n, hslot', hn, hdraw⟩ := h.drawn r hr
  obtain rfl := Option.some.inj (hslot.symm.trans hslot')
  refine ⟨r, hr, hk, hslot, ?_⟩
  cases hdraw with
  | primitive hk' | pointer hk' | array hk' | enumeration hk' =>
    simp [hk', SymbolKind.isClass] at hk
  | plain _ ha hu => exact Or.inl ⟨_, ha, hn, hu⟩
  | applied ha hargs hl hu =>
    refine Or.inr ⟨_, _, _, ha, hn, ?_, hargs, hl, hu⟩
    rintro rfl
    simp only [SymbolRecord.isApplied, Bool.and_eq_true, Bool.not_eq_eq_eq_not, Bool.not_true] at ha
    simp only [Slots, List.map_nil, List.map_eq_nil_iff] at hargs
    simp [hargs] at ha

/-- Every instantiation is a class, and its layout is a user type. -/
theorem template_spec (h : a.Settled records classes) {id l : NodeId} {args : List NodeId}
    (hn : a.node? id = some (.template l args)) : id ∈ classes ∧ ∃ u, a.user? l = some u := by
  obtain ⟨r, hr, hslot⟩ := h.origin hn rfl
  obtain ⟨_, n, hslot', hn', hdraw⟩ := h.drawn r hr
  obtain rfl := Option.some.inj (hslot.symm.trans hslot')
  obtain rfl := Option.some.inj (hn.symm.trans hn')
  cases hdraw with
  | applied ha _ hu =>
    exact ⟨h.mem_classes_iff.2 ⟨r, hr, SymbolRecord.isClass_of_isApplied ha, hslot⟩, _, hu⟩

/-- Every class has a layout. -/
theorem exists_layout (h : a.Settled records classes) {id : NodeId} (hid : id ∈ classes) :
    ∃ l u, a.layout? id = some l ∧ a.user? l = some u := by
  obtain ⟨r, -, -, -, ⟨u, -, hn, -⟩ | ⟨l, args, u, -, hn, -, -, hl, -⟩⟩ := h.class_cases hid
  · exact ⟨id, u, by simp [layout?, hn], user?_of_node? hn⟩
  · exact ⟨l, u, by simp [layout?, hn], hl⟩

theorem exists_identity (h : a.Settled records classes) {id : NodeId} (hid : id ∈ classes) :
    ∃ key, a.identity? id = some key := by
  obtain ⟨r, -, -, -, ⟨u, -, hn, -⟩ | ⟨l, args, u, -, hn, -, -, hl, -⟩⟩ := h.class_cases hid
  · exact ⟨u.identity [], by simp [identity?, hn]⟩
  · exact ⟨u.identity (args.map a.native), by simp [identity?, hn, hl]⟩

theorem isClass_of_mem (h : a.Settled records classes) {id : NodeId} (hid : id ∈ classes) :
    ∃ n, a.node? id = some n ∧ n.isClass = true := by
  obtain ⟨r, -, -, -, ⟨u, -, hn, -⟩ | ⟨l, args, u, -, hn, -, -, hl, -⟩⟩ := h.class_cases hid
  · exact ⟨_, hn, rfl⟩
  · exact ⟨_, hn, rfl⟩

/-- A class is told by its layout. -/
theorem layout?_inj (h : a.Settled records classes) {id id' l : NodeId} (hid : id ∈ classes)
    (hid' : id' ∈ classes) (hl : a.layout? id = some l) (hl' : a.layout? id' = some l) :
    id = id' := by
  obtain ⟨r, hr, hk, hslot⟩ := h.mem_classes_iff.1 hid
  obtain ⟨r', hr', hk', hslot'⟩ := h.mem_classes_iff.1 hid'
  obtain ⟨_, _, u, hs, hl₁, hu, hhead⟩ := (h.drawn r hr).exists_layout hk
  obtain ⟨_, _, u', hs', hl₁', hu', hhead'⟩ := (h.drawn r' hr').exists_layout hk'
  obtain rfl := Option.some.inj (hslot.symm.trans hs)
  obtain rfl := Option.some.inj (hslot'.symm.trans hs')
  obtain rfl := Option.some.inj (hl.symm.trans hl₁)
  obtain rfl := Option.some.inj (hl'.symm.trans hl₁')
  obtain rfl := Option.some.inj (hu.symm.trans hu')
  have hsymbol : r.id = r'.id := congrArg UserType.symbol (hhead.symm.trans hhead')
  rw [hsymbol] at hslot
  exact Option.some.inj (hslot.symm.trans hslot')

/-- The layout of an instantiation is hidden: it is no class itself. -/
theorem layout_not_mem (h : a.Settled records classes) {id l : NodeId} (hid : id ∈ classes)
    (hl : a.layout? id = some l) (hne : l ≠ id) : l ∉ classes := by
  intro hmem
  obtain ⟨r, -, -, -, ⟨u, -, hn, -⟩ | ⟨l', args, u, -, hn, -, -, hu, hhead⟩⟩ := h.class_cases hid
  · exact hne (by simpa [layout?, hn, eq_comm] using hl)
  · obtain rfl : l' = l := by simpa [layout?, hn] using hl
    obtain ⟨r', -, -, -, ⟨u', -, hn', hhead'⟩ | ⟨_, _, _, -, hn', -⟩⟩ := h.class_cases hmem
    · have hu' := user?_of_node? hn'
      obtain rfl := Option.some.inj (hu.symm.trans hu')
      have := congrArg UserType.isTemplate (hhead.symm.trans hhead')
      simp [Draft.unfilled] at this
    · rw [node?_user hu] at hn'
      simp at hn'

theorem nodup_classes (h : a.Settled records classes) : classes.Nodup := by
  have hnodup : ((records.filter (·.kind.isClass)).map (·.id)).Nodup :=
    (List.filter_sublist.map _).nodup h.nodup
  have hmap : (classes.map some).Nodup := by
    rw [← show _ = _ from h.classes]
    refine List.Nodup.map_on ?_ hnodup
    intro s hs t ht heq
    obtain ⟨k, hk⟩ : ∃ k, a.slot? s = some k := by
      have : a.slot? s ∈ classes.map some := by
        rw [← show _ = _ from h.classes]
        exact List.mem_map_of_mem hs
      obtain ⟨k, -, hk⟩ := List.mem_map.1 this
      exact ⟨k, hk.symm⟩
    exact h.sound.slot_inj hk (heq ▸ hk)
  exact List.Nodup.of_map some hmap

/-! ## Where nodes are sent -/

/-- A class is a duplicate if another one of its identity comes first. -/
theorem mem_duplicates_iff (h : a.Settled records classes) {id t : NodeId} :
    (id, t) ∈ Identified.duplicates (a.identified classes) ↔
      id ∈ classes ∧ t = a.firstLike classes id ∧ t ≠ id := by
  simp only [Identified.duplicates, List.mem_map, List.mem_filter, bne_iff_ne, ne_eq]
  constructor
  · rintro ⟨x, ⟨hx, hne⟩, heq⟩
    obtain ⟨rfl, rfl⟩ := Prod.mk.inj heq
    rw [first_identified hx] at hne ⊢
    exact ⟨(mem_identified.1 hx).1, rfl, hne⟩
  · rintro ⟨hid, rfl, hne⟩
    obtain ⟨key, hkey⟩ := h.exists_identity hid
    have hx : (id, key) ∈ a.identified classes := mem_identified.2 ⟨hid, hkey⟩
    exact ⟨(id, key), ⟨hx, by rwa [first_identified hx]⟩, by rw [first_identified hx]⟩

/-- A duplicate is sent to the first class like it, and its layout to that one's. -/
theorem mem_forwarding_iff (h : a.Settled records classes) {x t : NodeId} :
    (x, t) ∈ (Identified.duplicates (a.identified classes)).flatMap a.forwarding ↔
      ∃ id ∈ classes, a.firstLike classes id ≠ id ∧
        (x = id ∧ t = a.firstLike classes id ∨
          x ≠ id ∧ a.layout? id = some x ∧ a.layout? (a.firstLike classes id) = some t) := by
  rw [List.mem_flatMap]
  constructor
  · rintro ⟨⟨id, t'⟩, hdup, hmem⟩
    obtain ⟨hid, rfl, hne⟩ := h.mem_duplicates_iff.1 hdup
    obtain ⟨l, -, hl, -⟩ := h.exists_layout hid
    obtain ⟨m, -, hm, -⟩ := h.exists_layout (firstLike_mem (a := a) hid)
    refine ⟨id, hid, hne, ?_⟩
    simp only [forwarding, hl, hm] at hmem
    split at hmem
    · exact Or.inl (by simpa using hmem)
    · next hli =>
      rcases List.mem_cons.1 hmem with heq | hmem
      · exact Or.inl (Prod.mk.inj heq)
      · obtain ⟨rfl, rfl⟩ := Prod.mk.inj (List.mem_singleton.1 hmem)
        exact Or.inr ⟨hli, hl, hm⟩
  · rintro ⟨id, hid, hne, hxt⟩
    refine ⟨(id, a.firstLike classes id), h.mem_duplicates_iff.2 ⟨hid, rfl, hne⟩, ?_⟩
    obtain ⟨l, -, hl, -⟩ := h.exists_layout hid
    obtain ⟨m, -, hm, -⟩ := h.exists_layout (firstLike_mem (a := a) hid)
    simp only [forwarding, hl, hm]
    rcases hxt with ⟨rfl, rfl⟩ | ⟨hx, hlx, hmt⟩
    · split <;> simp
    · obtain rfl := Option.some.inj (hl.symm.trans hlx)
      obtain rfl := Option.some.inj (hm.symm.trans hmt)
      simp [hx]

/-- A class is sent to the first class with its identity. -/
theorem standIn_class (h : a.Settled records classes) {id : NodeId} (hid : id ∈ classes) :
    a.standIn classes id = a.firstLike classes id := by
  have hpair {t : NodeId}
      (hmem : (id, t) ∈ (Identified.duplicates (a.identified classes)).flatMap a.forwarding) :
      a.firstLike classes id ≠ id ∧ t = a.firstLike classes id := by
    obtain ⟨id', hid', hne, ⟨rfl, rfl⟩ | ⟨hx, hl, -⟩⟩ := h.mem_forwarding_iff.1 hmem
    · exact ⟨hne, rfl⟩
    · exact absurd hid (h.layout_not_mem hid' hl hx)
  by_cases hfirst : a.firstLike classes id = id
  · rw [standIn, forwarded_eq_self fun t hmem => (hpair hmem).1 hfirst, hfirst]
  · refine forwarded_eq_of_mem ?_ fun t' hmem => (hpair hmem).2
    exact h.mem_forwarding_iff.2 ⟨id, hid, hfirst, Or.inl ⟨rfl, rfl⟩⟩

/-- What is no class stays where it is. -/
theorem standIn_of_not_class (h : a.Settled records classes) {id : NodeId} {n : Node}
    (hn : a.node? id = some n) (hk : n.isClass = false) : a.standIn classes id = id := by
  refine forwarded_eq_self fun t hmem => ?_
  obtain ⟨id', hid', -, ⟨rfl, -⟩ | ⟨-, hl, -⟩⟩ := h.mem_forwarding_iff.1 hmem
  · obtain ⟨m, hm, hclass⟩ := h.isClass_of_mem hid'
    obtain rfl := Option.some.inj (hn.symm.trans hm)
    rw [hk] at hclass
    cases hclass
  · obtain ⟨l, u, hl', hu⟩ := h.exists_layout hid'
    obtain rfl := Option.some.inj (hl.symm.trans hl')
    rw [node?_user hu] at hn
    obtain rfl := Option.some.inj hn
    cases hk

/-- Classes with one identity are of one form. -/
theorem plain_iff_of_identity? (h : a.Settled records classes) {id id' : NodeId}
    (hid : id ∈ classes) (hid' : id' ∈ classes) (heq : a.identity? id = a.identity? id') :
    a.layout? id = some id ↔ a.layout? id' = some id' := by
  have key {j : NodeId} (hj : j ∈ classes) :
      a.layout? j = some j ↔ (a.identity? j).map (·.arguments) = some [] := by
    obtain ⟨r, -, -, -, ⟨u, -, hn, -⟩ | ⟨l, args, u, -, hn, hargs, -, hl, -⟩⟩ := h.class_cases hj
    · simp [layout?, identity?, hn, UserType.identity]
    · have hlj : l ≠ j := by
        rintro rfl
        rw [node?_user hl] at hn
        simp at hn
      simp [layout?, identity?, hn, hl, UserType.identity, hargs, hlj]
  rw [key hid, key hid', heq]

/-- The layout of a class is sent to the layout of the first class with its identity. -/
theorem standIn_layout (h : a.Settled records classes) {id l m : NodeId} (hid : id ∈ classes)
    (hl : a.layout? id = some l) (hm : a.layout? (a.firstLike classes id) = some m) :
    a.standIn classes l = m := by
  by_cases hli : l = id
  · subst hli
    have hplain := (h.plain_iff_of_identity? hid (firstLike_mem hid)
      (identity?_firstLike (a := a) hid).symm).1 hl
    rw [h.standIn_class hid]
    exact Option.some.inj (hplain.symm.trans hm)
  · have hpair {t : NodeId}
        (hmem : (l, t) ∈ (Identified.duplicates (a.identified classes)).flatMap a.forwarding) :
        a.firstLike classes id ≠ id ∧ t = m := by
      obtain ⟨id', hid', hne, ⟨rfl, -⟩ | ⟨-, hl', ht⟩⟩ := h.mem_forwarding_iff.1 hmem
      · exact absurd hid' (h.layout_not_mem hid hl hli)
      · obtain rfl := h.layout?_inj hid hid' hl hl'
        exact ⟨hne, Option.some.inj (ht.symm.trans hm)⟩
    by_cases hfirst : a.firstLike classes id = id
    · rw [standIn, forwarded_eq_self fun t hmem => (hpair hmem).1 hfirst]
      rw [hfirst] at hm
      exact Option.some.inj (hl.symm.trans hm)
    · refine forwarded_eq_of_mem ?_ fun t' hmem => (hpair hmem).2
      exact h.mem_forwarding_iff.2 ⟨id, hid, hfirst, Or.inr ⟨hli, hl, hm⟩⟩

/-- A node is a class, or one layout that is sent to another, or stays. -/
theorem standIn_cases (h : a.Settled records classes) (id : NodeId) :
    (id ∈ classes ∧ a.standIn classes id = a.firstLike classes id) ∨
      (∃ j ∈ classes, ∃ u v, a.layout? j = some id ∧ a.user? id = some u ∧
        a.layout? (a.firstLike classes j) = some (a.standIn classes id) ∧
        a.user? (a.standIn classes id) = some v) ∨
      a.standIn classes id = id := by
  by_cases hid : id ∈ classes
  · exact Or.inl ⟨hid, h.standIn_class hid⟩
  · by_cases hlay : ∃ j ∈ classes, a.layout? j = some id
    · obtain ⟨j, hj, hl⟩ := hlay
      obtain ⟨l, u, hl', hu⟩ := h.exists_layout hj
      obtain ⟨m, v, hm, hv⟩ := h.exists_layout (firstLike_mem (a := a) hj)
      obtain rfl := Option.some.inj (hl.symm.trans hl')
      rw [h.standIn_layout hj hl hm]
      exact Or.inr (Or.inl ⟨j, hj, u, v, hl, hu, hm, hv⟩)
    · refine Or.inr (Or.inr (forwarded_eq_self fun t hmem => ?_))
      obtain ⟨j, hj, -, ⟨rfl, -⟩ | ⟨-, hl, -⟩⟩ := h.mem_forwarding_iff.1 hmem
      · exact hid hj
      · exact hlay ⟨j, hj, hl⟩

theorem standIn_lt (h : a.Settled records classes) {id : NodeId} (hid : id < a.size) :
    a.standIn classes id < a.size := by
  rcases h.standIn_cases id with ⟨hmem, heq⟩ | ⟨-, -, -, v, -, -, -, hv⟩ | heq
  · obtain ⟨n, hn, -⟩ := h.isClass_of_mem (firstLike_mem (a := a) hmem)
    rw [heq]
    exact lt_size_of_node? hn
  · exact lt_size_of_node? (node?_user hv)
  · rwa [heq]

end Settled

end Arena

end NativeBindings
