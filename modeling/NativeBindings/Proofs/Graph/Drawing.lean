import NativeBindings.Graph.Draft
import NativeBindings.Proofs.Arena.Growth
import NativeBindings.Proofs.Steps

/-!
# What the first pass draws

A node draws a record when it is what the record asks for, with every reference at the
slot of its symbol (`Arena.Draws`); of a user type only the head counts, since bases and
fields come later. A drawn record stays drawn while the arena grows (`Arena.Drawn.grow`),
however often the symbols it refers to are written over.

`Draft.Entered` relates a draft to the records read so far: they are drawn, their ids are
distinct, the classes among them are listed in order, only their nodes are compound, and
every other symbol that was mentioned still has its placeholder. Each record read keeps it
(`Draft.Entered.enter`).
-/

namespace NativeBindings

/-- Whether a record is a template applied to arguments. Without arguments it is a plain
class. -/
def SymbolRecord.isApplied (r : SymbolRecord) : Bool :=
  r.kind == .templateInstantiation && !r.templateArguments.isEmpty

theorem SymbolRecord.kind_of_isApplied {r : SymbolRecord} (h : r.isApplied = true) :
    r.kind = .templateInstantiation := by
  simp only [isApplied, Bool.and_eq_true, beq_iff_eq] at h
  exact h.1

theorem SymbolRecord.isClass_of_isApplied {r : SymbolRecord} (h : r.isApplied = true) :
    r.kind.isClass = true := by
  rw [kind_of_isApplied h]
  rfl

namespace Arena

/-! ## Drawn records -/

/-- Symbols with their slots, in order. -/
def Slots (a : Arena) (ss : List SymbolId) (ids : List NodeId) : Prop :=
  ss.map a.slot? = ids.map some

/-- Symbols keep their slots where every slot is kept. -/
theorem Slots.mono {a b : Arena} (h : ∀ {s id}, a.slot? s = some id → b.slot? s = some id)
    {ss : List SymbolId} {ids : List NodeId} (hs : a.Slots ss ids) : b.Slots ss ids := by
  induction ss generalizing ids with
  | nil => simpa [Slots] using hs
  | cons s ss ih =>
    cases ids with
    | nil => simp [Slots] at hs
    | cons id ids =>
      simp only [Slots, List.map_cons, List.cons.injEq] at hs ⊢
      exact ⟨h hs.1, ih hs.2⟩

/-- Every symbol of the list has its slot among the ids. -/
theorem Slots.mem {a : Arena} {ss : List SymbolId} {ids : List NodeId} (h : a.Slots ss ids)
    {s : SymbolId} (hs : s ∈ ss) : ∃ id ∈ ids, a.slot? s = some id := by
  have hmem : a.slot? s ∈ ids.map some := by
    rw [← show ss.map a.slot? = ids.map some from h]
    exact List.mem_map_of_mem hs
  obtain ⟨id, hid, heq⟩ := List.mem_map.1 hmem
  exact ⟨id, hid, heq.symm⟩

/-- Every id is the slot of a symbol of the list. -/
theorem Slots.exists_slot? {a : Arena} {ss : List SymbolId} {ids : List NodeId}
    (h : a.Slots ss ids) {id : NodeId} (hid : id ∈ ids) : ∃ s ∈ ss, a.slot? s = some id := by
  have hmem : some id ∈ ss.map a.slot? := by
    rw [show ss.map a.slot? = ids.map some from h]
    exact List.mem_map_of_mem hid
  simpa using hmem

/-- Where the element of a record is, `void` if it has none. -/
def Target (a : Arena) (r : SymbolRecord) (id : NodeId) : Prop :=
  match r.element with
  | some e => a.slot? e = some id
  | none => id = .void

/-- Where the underlying type of an enum is: at its element, or at the shared integer of its
size. -/
def Underlying (a : Arena) (r : SymbolRecord) (id : NodeId) : Prop :=
  match r.element with
  | some e => a.slot? e = some id
  | none => a.shared.lookup (Scalar.enumInteger r.size) = some id

/-- A node that is what a record asks for, up to the bases and fields of a class. -/
inductive Draws (a : Arena) (r : SymbolRecord) : Node → Prop
  | primitive (hk : r.kind = .primitive) :
    Draws a r (.primitive (String.ofList (Text.trim r.name.toList)))
  | pointer {t : NodeId} (hk : r.kind = .pointer) (ht : a.Target r t) : Draws a r (.pointer t)
  | array {t : NodeId} (hk : r.kind = .array) (ht : a.Target r t) : Draws a r (.array t)
  | enumeration {t : NodeId} (hk : r.kind = .enumeration) (ht : a.Underlying r t) :
    Draws a r (.enumeration (Draft.enumType r t))
  | plain {u : UserType} (hk : r.kind.isClass = true) (ha : r.isApplied = false)
    (hu : u.head = Draft.unfilled r false) : Draws a r (.user u)
  | applied {l : NodeId} {args : List NodeId} {u : UserType} (ha : r.isApplied = true)
    (hargs : a.Slots r.templateArguments args) (hl : a.user? l = some u)
    (hu : u.head = Draft.unfilled r true) : Draws a r (.template l args)

/-- A record whose node stands in the slot of its symbol. -/
def Drawn (a : Arena) (r : SymbolRecord) : Prop :=
  ∃ id n, a.slot? r.id = some id ∧ a.node? id = some n ∧ a.Draws r n

theorem Target.grow {a b : Arena} (h : a.Grows b) {r : SymbolRecord} {t : NodeId}
    (ht : a.Target r t) : b.Target r t := by
  unfold Target at ht ⊢
  split at ht
  · exact h.slot ht
  · exact ht

/-- The underlying type of an enum stays where it is in an arena that grows. -/
theorem Underlying.grow {a b : Arena} (h : a.Grows b) {r : SymbolRecord} {t : NodeId}
    (ht : a.Underlying r t) : b.Underlying r t := by
  unfold Underlying at ht ⊢
  split at ht
  · exact h.slot ht
  · exact h.shared ht

theorem Draws.isPlaceholder {a : Arena} {r : SymbolRecord} {n : Node} (h : a.Draws r n) :
    n.isPlaceholder = false := by
  cases h <;> rfl

/-- Classes are drawn as classes, and nothing else is. -/
theorem Draws.isClass {a : Arena} {r : SymbolRecord} {n : Node} (h : a.Draws r n) :
    n.isClass = r.kind.isClass := by
  cases h with
  | plain hk => exact hk.symm
  | applied ha => exact (SymbolRecord.isClass_of_isApplied ha).symm
  | primitive hk | pointer hk | array hk | enumeration hk =>
    rw [hk]
    rfl

/-- A node stays what its record asks for in an arena that grows. -/
theorem Draws.grow {a b : Arena} (h : a.Grows b) {r : SymbolRecord} {n m : Node}
    (hd : a.Draws r n) (hbec : n.Becomes m) : b.Draws r m := by
  cases hd with
  | primitive hk =>
    rw [hbec.eq_of_userType?_eq_none rfl rfl]
    exact .primitive hk
  | pointer hk ht =>
    rw [hbec.eq_of_userType?_eq_none rfl rfl]
    exact .pointer hk (ht.grow h)
  | array hk ht =>
    rw [hbec.eq_of_userType?_eq_none rfl rfl]
    exact .array hk (ht.grow h)
  | enumeration hk ht =>
    rw [hbec.eq_of_userType?_eq_none rfl rfl]
    exact .enumeration hk (ht.grow h)
  | plain hk ha hu =>
    obtain ⟨v, rfl, hv⟩ := hbec.exists_user
    exact .plain hk ha (hv.trans hu)
  | applied ha hargs hl hu =>
    obtain ⟨v, hv, hhead⟩ := h.user hl
    rw [hbec.eq_of_userType?_eq_none rfl rfl]
    exact .applied ha (hargs.mono h.slot) hv (hhead.trans hu)

/-- A drawn record stays drawn. -/
theorem Drawn.grow {a b : Arena} (h : a.Grows b) {r : SymbolRecord} (hd : a.Drawn r) :
    b.Drawn r := by
  obtain ⟨id, n, hid, hn, hdraw⟩ := hd
  obtain ⟨m, hm, hbec⟩ := h.node hn
  exact ⟨id, m, h.slot hid, hm, hdraw.grow h hbec⟩

/-- The layout of a drawn class names the record it was made from. -/
theorem Drawn.exists_layout {a : Arena} {r : SymbolRecord} (h : a.Drawn r)
    (hk : r.kind.isClass = true) :
    ∃ id l u, a.slot? r.id = some id ∧ a.layout? id = some l ∧ a.user? l = some u ∧
      u.head = Draft.unfilled r r.isApplied := by
  obtain ⟨id, n, hid, hn, hdraw⟩ := h
  cases hdraw with
  | primitive hk' | pointer hk' | array hk' | enumeration hk' =>
    simp [hk', SymbolKind.isClass] at hk
  | plain _ ha hu =>
    exact ⟨id, id, _, hid, by simp [layout?, hn], user?_of_node? hn, by rw [ha, hu]⟩
  | applied ha _ hl hu =>
    exact ⟨id, _, _, hid, by simp [layout?, hn], hl, by rw [ha, hu]⟩

end Arena

/-! ## Mentions -/

namespace Draft

theorem arena_mention (d : Draft) (r : SymbolRecord) (field : Option String) (s : SymbolId) :
    (d.mention r field s).arena = (d.arena.reserve s).2 := by
  unfold mention
  split
  · next h => rw [Arena.reserve_of_slot? h]
  · rfl

/-- Mentioning symbols reserves their slots and does nothing else to the arena. -/
theorem arena_mentionAll (d : Draft) (r : SymbolRecord) (ss : List SymbolId) :
    (d.mentionAll r ss).arena = d.arena.reserveAll ss := by
  unfold mentionAll Arena.reserveAll
  induction ss generalizing d with
  | nil => rfl
  | cons s ss ih => rw [List.foldl_cons, List.foldl_cons, ih, arena_mention]

theorem arena_mentionFields (d : Draft) (r : SymbolRecord) :
    (d.mentionFields r).arena = d.arena.reserveAll (r.fields.map (·.typeId)) := by
  unfold mentionFields Arena.reserveAll
  induction r.fields generalizing d with
  | nil => rfl
  | cons f fs ih => rw [List.foldl_cons, List.map_cons, List.foldl_cons, ih, arena_mention]

theorem classes_mention (d : Draft) (r : SymbolRecord) (field : Option String) (s : SymbolId) :
    (d.mention r field s).classes = d.classes := by
  unfold mention
  split <;> rfl

/-- Mentioning symbols makes no class. -/
theorem classes_mentionAll (d : Draft) (r : SymbolRecord) (ss : List SymbolId) :
    (d.mentionAll r ss).classes = d.classes := by
  unfold mentionAll
  induction ss generalizing d with
  | nil => rfl
  | cons s ss ih => rw [List.foldl_cons, ih, classes_mention]

theorem classes_mentionFields (d : Draft) (r : SymbolRecord) :
    (d.mentionFields r).classes = d.classes := by
  unfold mentionFields
  induction r.fields generalizing d with
  | nil => rfl
  | cons f fs ih => rw [List.foldl_cons, ih, classes_mention]

theorem slot?_eq_some_slot {d : Draft} {s : SymbolId} {id : NodeId}
    (h : d.arena.slot? s = some id) : d.arena.slot? s = some (d.slot s) := by
  simp [slot, h]

/-- Symbols that have slots have them in the draft. -/
theorem slots_map_slot {d : Draft} {ss : List SymbolId}
    (h : ∀ s ∈ ss, ∃ id, d.arena.slot? s = some id) : d.arena.Slots ss (ss.map d.slot) := by
  rw [Arena.Slots, List.map_map]
  refine List.map_congr_left fun s hs => ?_
  obtain ⟨id, hid⟩ := h s hs
  exact slot?_eq_some_slot hid

/-! ## The first pass -/

/-- A draft into which records were entered. -/
structure Entered (d : Draft) (rs : List SymbolRecord) : Prop where
  sound : d.arena.Sound
  drawn : ∀ r ∈ rs, d.arena.Drawn r
  waiting : ∀ {s id}, d.arena.slot? s = some id → s ∉ rs.map (·.id) →
    d.arena.node? id = some (.placeholder s)
  nodup : (rs.map (·.id)).Nodup
  classes : d.arena.Slots ((rs.filter (·.kind.isClass)).map (·.id)) d.classes
  origin : ∀ {id n}, d.arena.node? id = some n → n.isCompound = true →
    ∃ r ∈ rs, d.arena.slot? r.id = some id

theorem entered_initial : initial.Entered [] where
  sound := Arena.sound_initial
  drawn := by simp
  waiting h := by simp [initial, Arena.initial_eq, Arena.slot?] at h
  nodup := by simp
  classes := by simp [Arena.Slots, initial]
  origin hn hc := by
    rcases Arena.node?_initial hn with ⟨-, rfl⟩ | ⟨-, rfl⟩ <;> cases hc

namespace Entered

variable {d : Draft} {rs : List SymbolRecord} {r : SymbolRecord}

/-- A record of a new symbol finds no other record there. -/
theorem not_mem_of_hasRecord (h : d.Entered rs) (hr : d.hasRecord r.id = false) :
    r.id ∉ rs.map (·.id) := by
  intro hmem
  obtain ⟨r', hr', hid⟩ := List.mem_map.1 hmem
  obtain ⟨id, n, hslot, hn, hdraw⟩ := h.drawn r' hr'
  rw [hid] at hslot
  simp [hasRecord, hslot, hn, hdraw.isPlaceholder] at hr

/-- Writing the node of a record over its placeholder enters the record. -/
theorem write {d' : Draft} {a : Arena} {id : NodeId} {n : Node} (h : d.Entered rs)
    (hr : r.id ∉ rs.map (·.id)) (hext : d.arena.Extends a) (hs : a.Sound)
    (hid : a.slot? r.id = some id) (hdraw : a.Draws r n) (hadm : a.Admits n)
    (ha : d'.arena = a.write id n)
    (hclasses : d'.classes = if r.kind.isClass then d.classes ++ [id] else d.classes) :
    d'.Entered (rs ++ [r]) := by
  have hwait : ∀ {s k}, a.slot? s = some k → s ∉ rs.map (·.id) →
      a.node? k = some (.placeholder s) := by
    intro s k hk hmem
    rcases hext.fresh hk with hk | hp
    · exact hext.node (h.waiting hk hmem)
    · exact hp
  have hn := hwait hid hr
  have hgrow : a.Grows d'.arena := ha ▸ Arena.write_grows hn (.placeholder _ _)
  have hall := hext.grows.trans hgrow
  refine ⟨?_, fun r' hr' => ?_, fun {s k} hk hmem => ?_, ?_, ?_, fun {k m} hm hc => ?_⟩
  · rw [ha]
    exact hs.write hn (.placeholder _ _) hadm
  · rcases List.mem_append.1 hr' with hr' | hr'
    · exact (h.drawn r' hr').grow hall
    · obtain rfl := List.mem_singleton.1 hr'
      refine ⟨id, n, hgrow.slot hid, ?_, hdraw.grow hgrow (.same n)⟩
      rw [ha, Arena.node?_write_self hn]
  · rw [ha] at hk ⊢
    simp only [List.map_append, List.map_cons, List.map_nil, List.mem_append, not_or,
      List.mem_singleton] at hmem
    have hne : k ≠ id := fun heq => hmem.2 (hs.slot_inj (heq ▸ hk) hid)
    rw [Arena.node?_write_of_ne _ hne]
    exact hwait hk hmem.1
  · rw [List.map_append, List.nodup_append]
    refine ⟨h.nodup, by simp, ?_⟩
    rintro s hs _ hr' rfl
    simp only [List.map_cons, List.map_nil, List.mem_singleton] at hr'
    exact hr (hr' ▸ hs)
  · have hold := h.classes.mono hall.slot
    simp only [Arena.Slots] at hold ⊢
    rw [hclasses, List.filter_append, List.map_append, List.map_append, hold]
    cases hk : r.kind.isClass
    · simp [hk]
    · simp [hk, hgrow.slot hid]
  · by_cases hk : k = id
    · exact ⟨r, by simp, hgrow.slot (hk ▸ hid)⟩
    · rw [ha, Arena.node?_write_of_ne _ hk] at hm
      obtain ⟨r', hr', hslot⟩ := h.origin (hext.compound hm hc) hc
      exact ⟨r', by simp [hr'], hall.slot hslot⟩

/-- Mentioning symbols and then writing a node that draws the record enters the record. -/
theorem write_mentionAll {d₁ : Draft} {id : NodeId} {ss : List SymbolId} {n : Draft → Node}
    (h : d.Entered rs) (hr : r.id ∉ rs.map (·.id)) (hext : d.arena.Extends d₁.arena)
    (hs : d₁.arena.Sound) (hid : d₁.arena.slot? r.id = some id)
    (hc : d₁.classes = if r.kind.isClass then d.classes ++ [id] else d.classes)
    (hdraw : ∀ d₂ : Draft, d₁.arena.Extends d₂.arena → d₂.arena.Sound →
      (∀ s ∈ ss, ∃ k, d₂.arena.slot? s = some k) →
        d₂.arena.Draws r (n d₂) ∧ d₂.arena.Admits (n d₂)) :
    ((d₁.mentionAll r ss).write id (n (d₁.mentionAll r ss))).Entered (rs ++ [r]) := by
  have harena := arena_mentionAll d₁ r ss
  have hext' : d₁.arena.Extends (d₁.mentionAll r ss).arena :=
    harena ▸ Arena.reserveAll_extends d₁.arena ss
  have hsound : (d₁.mentionAll r ss).arena.Sound := harena ▸ hs.reserveAll ss
  have hmem : ∀ s ∈ ss, ∃ k, (d₁.mentionAll r ss).arena.slot? s = some k :=
    fun s hss => harena ▸ d₁.arena.exists_slot?_reserveAll hss
  obtain ⟨hn, hadm⟩ := hdraw _ hext' hsound hmem
  exact h.write hr (hext.trans hext') hsound (hext'.slot hid) hn hadm rfl
    ((classes_mentionAll d₁ r ss).trans hc)

end Entered

theorem head_unfilled (r : SymbolRecord) (isTemplate : Bool) :
    (unfilled r isTemplate).head = unfilled r isTemplate := by
  unfold unfilled UserType.head
  dsimp only

/-- A layout that is not filled refers to nothing. -/
theorem admits_unfilled (a : Arena) (r : SymbolRecord) (isTemplate : Bool) :
    a.Admits (.user (unfilled r isTemplate)) where
  isPlaceholder := rfl
  links_lt := by simp [Node.links, unfilled]
  underway h := by
    obtain rfl := Node.user.inj h
    exact Nat.zero_le _

/-- With its element mentioned, a record's target is its element's slot. -/
theorem target_linkTarget {d : Draft} {r : SymbolRecord} (hs : d.arena.Sound)
    (h : ∀ s ∈ r.element.toList, ∃ k, d.arena.slot? s = some k) :
    d.arena.Target r (d.linkTarget r) ∧ d.linkTarget r < d.arena.size := by
  unfold Arena.Target linkTarget
  cases he : r.element with
  | none => exact ⟨rfl, Arena.lt_size_of_node? hs.void⟩
  | some e =>
    obtain ⟨k, hk⟩ := h e (by simp [he])
    exact ⟨slot?_eq_some_slot hk, hs.slot_lt (slot?_eq_some_slot hk)⟩

/-- What looking up an enum's underlying type does to a draft. -/
theorem underlying_spec {d : Draft} (hs : d.arena.Sound) (r : SymbolRecord) :
    d.arena.Extends (d.underlying r).2.arena ∧ (d.underlying r).2.arena.Sound ∧
      (d.underlying r).2.arena.Underlying r (d.underlying r).1 ∧
      (d.underlying r).1 < (d.underlying r).2.arena.size ∧
      (d.underlying r).2.classes = d.classes := by
  unfold underlying Arena.Underlying
  cases he : r.element with
  | some e =>
    have harena := arena_mention d r none e
    have hs' : (d.mention r none e).arena.Sound := harena ▸ hs.reserve e
    have hslot : (d.mention r none e).arena.slot? e = some ((d.mention r none e).slot e) :=
      slot?_eq_some_slot (harena ▸ d.arena.slot?_reserve e)
    exact ⟨harena ▸ d.arena.reserve_extends e, hs', hslot, hs'.slot_lt hslot,
      classes_mention d r none e⟩
  | none =>
    have hs' := hs.sharedPrimitive (Scalar.enumInteger r.size)
    have hlookup := d.arena.lookup_sharedPrimitive (Scalar.enumInteger r.size)
    exact ⟨d.arena.sharedPrimitive_extends _, hs', hlookup,
      Arena.lt_size_of_node? (hs'.shared hlookup), rfl⟩

namespace Entered

variable {d : Draft} {rs : List SymbolRecord} {r : SymbolRecord}

/-- Writing an unfilled user type enters a class that is no applied template. -/
theorem write_plain {d₁ : Draft} {id : NodeId} (h : d.Entered rs) (hr : r.id ∉ rs.map (·.id))
    (hext : d.arena.Extends d₁.arena) (hs : d₁.arena.Sound) (hid : d₁.arena.slot? r.id = some id)
    (hc : d₁.classes = d.classes) (hk : r.kind.isClass = true) (ha : r.isApplied = false) :
    ((d₁.addClass id).write id (.user (unfilled r false))).Entered (rs ++ [r]) := by
  have hclasses : ((d₁.addClass id).write id (.user (unfilled r false))).classes =
      if r.kind.isClass then d.classes ++ [id] else d.classes := by
    rw [if_pos hk, ← hc]
    rfl
  exact h.write hr hext hs hid (.plain hk ha (head_unfilled r false))
    (admits_unfilled d₁.arena r false) rfl hclasses

/-- Writing the node of a record into its slot enters the record. A layout is added before the
arguments of its node are mentioned, so it keeps its place. -/
theorem writeRecord {d₁ d' : Draft} {id : NodeId} (h : d.Entered rs)
    (hr : r.id ∉ rs.map (·.id)) (hext : d.arena.Extends d₁.arena) (hs : d₁.arena.Sound)
    (hid : d₁.arena.slot? r.id = some id) (hc : d₁.classes = d.classes)
    (hd : d₁.writeRecord id r = .ok d') : d'.Entered (rs ++ [r]) := by
  unfold Draft.writeRecord at hd
  cases hk : r.kind with
  | primitive =>
    simp only [hk] at hd
    split at hd
    · simp at hd
    next htrim =>
    obtain rfl := Except.ok.inj hd
    refine h.write hr hext hs hid (.primitive hk) ⟨rfl, by simp [Node.links], by simp⟩ ?_ ?_
    · rw [htrim]
      rfl
    · rw [hk]
      exact hc
  | pointer =>
    simp only [hk, Except.ok.injEq] at hd
    subst hd
    refine h.write_mentionAll (n := fun d => .pointer (d.linkTarget r)) hr hext hs hid
      (by simp [hk, hc, SymbolKind.isClass]) fun d₂ _ hs₂ hmem => ?_
    obtain ⟨ht, hlt⟩ := target_linkTarget hs₂ hmem
    exact ⟨.pointer hk ht, rfl, by simpa [Node.links] using hlt, by simp⟩
  | array =>
    simp only [hk, Except.ok.injEq] at hd
    subst hd
    refine h.write_mentionAll (n := fun d => .array (d.linkTarget r)) hr hext hs hid
      (by simp [hk, hc, SymbolKind.isClass]) fun d₂ _ hs₂ hmem => ?_
    obtain ⟨ht, hlt⟩ := target_linkTarget hs₂ hmem
    exact ⟨.array hk ht, rfl, by simpa [Node.links] using hlt, by simp⟩
  | enumeration =>
    simp only [hk, Except.ok.injEq] at hd
    subst hd
    obtain ⟨hext', hs', hu, hlt, hc'⟩ := underlying_spec hs r
    refine h.write hr (hext.trans hext') hs' (hext'.slot hid) (.enumeration hk hu)
      ⟨rfl, by simpa [Node.links, enumType] using hlt, by simp⟩ rfl ?_
    rw [hk]
    exact hc'.trans hc
  | userType =>
    simp only [hk, Except.ok.injEq] at hd
    subst hd
    exact h.write_plain hr hext hs hid hc (by rw [hk]; rfl) (by simp [SymbolRecord.isApplied, hk])
  | templateInstantiation =>
    simp only [hk] at hd
    split at hd
    · next hempty =>
      obtain rfl := Except.ok.inj hd
      exact h.write_plain hr hext hs hid hc (by rw [hk]; rfl)
        (by simp [SymbolRecord.isApplied, hempty])
    · next hempty =>
      obtain rfl := Except.ok.inj hd
      have happlied : r.isApplied = true := by simp [SymbolRecord.isApplied, hk, hempty]
      have hadd := d₁.arena.add_extends (n := .user (unfilled r true)) rfl
      have hs' : (d₁.arena.add (.user (unfilled r true))).2.Sound :=
        hs.add (admits_unfilled d₁.arena r true)
      refine h.write_mentionAll
        (n := fun d => .template d₁.arena.size (r.templateArguments.map d.slot)) hr
        (hext.trans hadd) hs' (hadd.slot hid) (by simp [hk, hc, SymbolKind.isClass, addClass])
        fun d₂ hext₂ hs₂ hmem => ?_
      have hargs := slots_map_slot hmem
      have hlayout := hext₂.node (Arena.node?_add_self d₁.arena (.user (unfilled r true)))
      refine ⟨.applied happlied hargs (Arena.user?_of_node? hlayout) (head_unfilled r true), rfl,
        fun link hl => ?_, by simp⟩
      rcases List.mem_cons.1 hl with rfl | hl
      · exact Arena.lt_size_of_node? hlayout
      · obtain ⟨s, -, hslot⟩ := hargs.exists_slot? hl
        exact hs₂.slot_lt hslot

/-- Reading a record enters it. -/
theorem enter {d' : Draft} (h : d.Entered rs) (hd : d.enter r = .ok d') :
    d'.Entered (rs ++ [r]) := by
  unfold Draft.enter at hd
  split at hd
  · simp at hd
  · next hrec =>
    exact h.writeRecord (h.not_mem_of_hasRecord (Bool.eq_false_iff.2 hrec))
      (d.arena.reserve_extends r.id) (h.sound.reserve r.id)
      (slot?_eq_some_slot (d := d.reserve r.id) (d.arena.slot?_reserve r.id)) rfl hd

/-- Reading several records enters all of them. -/
theorem foldlM_enter {d' : Draft} {rs' : List SymbolRecord} (h : d.Entered rs)
    (hd : rs'.foldlM Draft.enter d = .ok d') : d'.Entered (rs ++ rs') := by
  induction rs' generalizing d rs with
  | nil =>
    obtain rfl := Except.ok.inj hd
    simpa using h
  | cons r rs' ih =>
    obtain ⟨d₁, hr, hd⟩ := foldlM_cons_eq_ok_iff.1 hd
    simpa using ih (h.enter hr) hd

end Entered

end Draft

end NativeBindings
