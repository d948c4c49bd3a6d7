import NativeBindings.Graph.Dangling
import NativeBindings.Proofs.Graph.Drawing

/-!
# What the second pass fills in

The second pass writes over user types only, and over each of them once: the layout of a
class names the record it was made from, so no other record's pass can touch it
(`Draft.Entered.fill`). What is left as a placeholder after it belongs to a symbol
without a record, and is refused or becomes the unknown type.

`Arena.Settled` is the outcome: every record is drawn, the layout of every class has the
record's bases and fields, and every other symbol that was mentioned is unknown. It holds of
every draft that gets that far (`Draft.settled_spec`).
-/

namespace NativeBindings

/-- A layout that is not yet populated can be. -/
theorem BuildState.advance_populated {s : BuildState} (h : s.rank ≤ 1) :
    s.advance .populated = .populated := by
  cases s <;> simp_all [advance, movesTo, rank]

namespace Arena

/-! ## Filled layouts -/

/-- A user type with the bases and fields of a record, each at the slot of its symbol. -/
structure Fills (a : Arena) (r : SymbolRecord) (u : UserType) : Prop where
  bases : a.Slots r.bases u.bases
  fields : u.fields.map (fun f => (f.name, some f.type, f.offset)) =
    r.fields.map fun f => (f.name, a.slot? f.typeId, f.offset)
  state : u.state = .populated

/-- A class whose layout is filled. -/
def Filled (a : Arena) (r : SymbolRecord) : Prop :=
  ∃ id l u, a.slot? r.id = some id ∧ a.layout? id = some l ∧ a.user? l = some u ∧ a.Fills r u

/-- The fields have the slots of their types, in order. -/
theorem Fills.slots {a : Arena} {r : SymbolRecord} {u : UserType} (hf : a.Fills r u) :
    a.Slots (r.fields.map (·.typeId)) (u.fields.map (·.type)) := by
  have htypes := congrArg (List.map fun x => x.2.1) hf.fields
  simpa [Slots, Function.comp_def] using htypes.symm

/-- A layout stays filled where slots are kept. -/
theorem Fills.mono {a b : Arena} (h : ∀ {s id}, a.slot? s = some id → b.slot? s = some id)
    {r : SymbolRecord} {u : UserType} (hf : a.Fills r u) : b.Fills r u where
  bases := hf.bases.mono h
  fields := by
    rw [hf.fields]
    refine List.map_congr_left fun f hmem => ?_
    obtain ⟨k, -, hk⟩ := hf.slots.mem (List.mem_map_of_mem hmem)
    rw [hk, h hk]
  state := hf.state

/-- A filled user type may be put into a sound arena. -/
theorem Fills.admits {a : Arena} (hs : a.Sound) {r : SymbolRecord} {u : UserType}
    (hf : a.Fills r u) : a.Admits (.user u) where
  isPlaceholder := rfl
  links_lt link hmem := by
    rcases List.mem_append.1 hmem with hmem | hmem
    · obtain ⟨s, -, hslot⟩ := hf.bases.exists_slot? hmem
      exact hs.slot_lt hslot
    · obtain ⟨s, -, hslot⟩ := hf.slots.exists_slot? hmem
      exact hs.slot_lt hslot
  underway heq := by
    rw [← Node.user.inj heq, hf.state]
    exact Nat.le_refl _

theorem layout?_of_extends {a b : Arena} (h : a.Extends b) {id l : NodeId}
    (hl : a.layout? id = some l) : b.layout? id = some l := by
  unfold layout? at hl ⊢
  cases hn : a.node? id with
  | none => simp [hn] at hl
  | some n =>
    rw [hn] at hl
    rw [h.node hn]
    exact hl

theorem user?_of_extends {a b : Arena} (h : a.Extends b) {l : NodeId} {u : UserType}
    (hu : a.user? l = some u) : b.user? l = some u :=
  user?_of_node? (h.node (node?_user hu))

/-- A class stays filled when the arena is added to. -/
theorem Filled.extend {a b : Arena} (h : a.Extends b) {r : SymbolRecord} (hf : a.Filled r) :
    b.Filled r := by
  obtain ⟨id, l, u, hid, hl, hu, hfill⟩ := hf
  exact ⟨id, l, u, h.slot hid, layout?_of_extends h hl, user?_of_extends h hu, hfill.mono h.slot⟩

/-- Writing a user type over another moves no layout. -/
theorem layout?_write_user {a : Arena} {l : NodeId} {u : UserType} (hu : a.user? l = some u)
    (v : UserType) (id : NodeId) : (a.write l (.user v)).layout? id = a.layout? id := by
  have hn := node?_user hu
  unfold layout?
  by_cases hid : id = l
  · subst hid
    rw [node?_write_self hn, hn]
  · rw [node?_write_of_ne a hid]

theorem user?_write_of_ne (a : Arena) {l k : NodeId} (h : k ≠ l) (n : Node) :
    (a.write l n).user? k = a.user? k := by
  rw [user?, user?, node?_write_of_ne a h]

theorem user?_write_self {a : Arena} {l : NodeId} {u : UserType} (hu : a.user? l = some u)
    (v : UserType) : (a.write l (.user v)).user? l = some v :=
  user?_of_node? (node?_write_self (node?_user hu) _)

end Arena

namespace Draft

/-! ## The second pass -/

/-- With its bases and fields mentioned, a record's user type is filled with it. -/
theorem fills_fillUser {d : Draft} {r : SymbolRecord} {u : UserType}
    (hb : ∀ s ∈ r.bases, ∃ k, d.arena.slot? s = some k)
    (hf : ∀ s ∈ r.fields.map (·.typeId), ∃ k, d.arena.slot? s = some k) (hu : u.state.rank ≤ 1) :
    d.arena.Fills r (d.fillUser r u) where
  bases := slots_map_slot hb
  fields := by
    simp only [fillUser, List.map_map]
    refine List.map_congr_left fun f hmem => ?_
    obtain ⟨k, hk⟩ := hf f.typeId (List.mem_map_of_mem hmem)
    simp [slot?_eq_some_slot hk]
  state := BuildState.advance_populated hu

namespace Entered

variable {d d' : Draft} {rs : List SymbolRecord} {r : SymbolRecord}

/-- Adding to the arena keeps what was entered. -/
theorem extend {a : Arena} (h : d.Entered rs) (hext : d.arena.Extends a) (hs : a.Sound)
    (ha : d'.arena = a) (hc : d'.classes = d.classes) : d'.Entered rs := by
  subst ha
  refine ⟨hs, fun r hr => (h.drawn r hr).grow hext.grows, fun hslot hmem => ?_, h.nodup, ?_,
    fun hn hcomp => ?_⟩
  · rcases hext.fresh hslot with hslot | hp
    · exact hext.node (h.waiting hslot hmem)
    · exact hp
  · rw [hc]
    exact h.classes.mono hext.slot
  · obtain ⟨r, hr, hslot⟩ := h.origin (hext.compound hn hcomp) hcomp
    exact ⟨r, hr, hext.slot hslot⟩

/-- Writing over the body of a user type keeps what was entered. -/
theorem writeUser {l : NodeId} {u v : UserType} (h : d.Entered rs) (hu : d.arena.user? l = some u)
    (hv : v.head = u.head) (hadm : d.arena.Admits (.user v))
    (ha : d'.arena = d.arena.write l (.user v)) (hc : d'.classes = d.classes) :
    d'.Entered rs := by
  have hn := Arena.node?_user hu
  have hgrow : d.arena.Grows d'.arena := ha ▸ Arena.write_grows hn (.user hv)
  refine ⟨ha ▸ h.sound.write hn (.user hv) hadm, fun r hr => (h.drawn r hr).grow hgrow,
    fun {s id} hslot hmem => ?_, h.nodup, ?_, fun {id m} hm hcomp => ?_⟩
  · rw [ha] at hslot ⊢
    have hp := h.waiting hslot hmem
    have hne : id ≠ l := by
      rintro rfl
      simp [hn] at hp
    rwa [Arena.node?_write_of_ne _ hne]
  · rw [hc]
    exact h.classes.mono hgrow.slot
  · rw [ha, Arena.node?_write] at hm
    split at hm
    · obtain rfl := Option.some.inj hm
      cases hcomp
    · obtain ⟨r, hr, hslot⟩ := h.origin hm hcomp
      exact ⟨r, hr, hgrow.slot hslot⟩

/-- The layouts of two classes are distinct. -/
theorem layout_ne (h : d.Entered rs) {r' : SymbolRecord} (hr : r ∈ rs) (hr' : r' ∈ rs)
    (hk : r.kind.isClass = true) (hk' : r'.kind.isClass = true) (hne : r'.id ≠ r.id)
    {id id' l l' : NodeId} (hid : d.arena.slot? r.id = some id)
    (hid' : d.arena.slot? r'.id = some id') (hl : d.arena.layout? id = some l)
    (hl' : d.arena.layout? id' = some l') : l' ≠ l := by
  obtain ⟨_, _, u, hid₁, hl₁, hu, hhead⟩ := (h.drawn r hr).exists_layout hk
  obtain ⟨_, _, u', hid₂, hl₂, hu', hhead'⟩ := (h.drawn r' hr').exists_layout hk'
  obtain rfl := Option.some.inj (hid.symm.trans hid₁)
  obtain rfl := Option.some.inj (hid'.symm.trans hid₂)
  obtain rfl := Option.some.inj (hl.symm.trans hl₁)
  obtain rfl := Option.some.inj (hl'.symm.trans hl₂)
  rintro rfl
  obtain rfl := Option.some.inj (hu.symm.trans hu')
  have hsymbol := congrArg UserType.symbol (hhead.symm.trans hhead')
  exact hne hsymbol.symm

/-- Filling in a class mentions its bases and fields and then writes over its layout. -/
theorem exists_mentioned (h : d.Entered rs) {id l : NodeId} {u : UserType}
    (hid : d.arena.slot? r.id = some id) (hl : d.arena.layout? id = some l)
    (hu : d.arena.user? l = some u) :
    ∃ d₁ : Draft, d.arena.Extends d₁.arena ∧ d₁.Entered rs ∧
      d₁.arena.Fills r (d₁.fillUser r u) ∧
      (d.fill r).arena = d₁.arena.write l (.user (d₁.fillUser r u)) ∧
      (d.fill r).classes = d₁.classes := by
  let d₁ := (d.mentionAll r r.bases).mentionFields r
  have harena : d₁.arena =
      (d.arena.reserveAll r.bases).reserveAll (r.fields.map (·.typeId)) := by
    rw [arena_mentionFields, arena_mentionAll]
  have hclasses : d₁.classes = d.classes :=
    (classes_mentionFields _ r).trans (classes_mentionAll d r r.bases)
  have hfields := (d.arena.reserveAll r.bases).reserveAll_extends (r.fields.map (·.typeId))
  have hext : d.arena.Extends d₁.arena :=
    harena ▸ (d.arena.reserveAll_extends r.bases).trans hfields
  have h₁ : d₁.Entered rs :=
    h.extend hext (harena ▸ (h.sound.reserveAll _).reserveAll _) rfl hclasses
  have hu₁ := Arena.user?_of_extends hext hu
  have hslotsB : ∀ s ∈ r.bases, ∃ k, d₁.arena.slot? s = some k := by
    intro s hs
    obtain ⟨k, hk⟩ := d.arena.exists_slot?_reserveAll hs
    exact ⟨k, harena ▸ hfields.slot hk⟩
  have hslotsF : ∀ s ∈ r.fields.map (·.typeId), ∃ k, d₁.arena.slot? s = some k :=
    fun s hs => harena ▸ Arena.exists_slot?_reserveAll _ hs
  refine ⟨d₁, hext, h₁, fills_fillUser hslotsB hslotsF ?_, ?_, ?_⟩
  · exact h₁.sound.underway (Arena.node?_user hu₁)
  · unfold Draft.fill
    rw [hid, Option.bind_some, hl]
    exact Arena.updateUser_of_user? hu₁ _
  · unfold Draft.fill
    rw [hid, Option.bind_some, hl]

/-- Filling in a class keeps what was entered and filled, and fills the class. -/
theorem fill (h : d.Entered rs) (hr : r ∈ rs) (hk : r.kind.isClass = true) :
    (d.fill r).Entered rs ∧ (d.fill r).arena.Filled r ∧
      ∀ r' ∈ rs, r'.kind.isClass = true → r'.id ≠ r.id → d.arena.Filled r' →
        (d.fill r).arena.Filled r' := by
  obtain ⟨id, l, u, hid, hl, hu, -⟩ := (h.drawn r hr).exists_layout hk
  obtain ⟨d₁, hext, h₁, hfills, hfill, hclasses⟩ := h.exists_mentioned hid hl hu
  have hu₁ := Arena.user?_of_extends hext hu
  have hl₁ := Arena.layout?_of_extends hext hl
  have hslot {s : SymbolId} {k : NodeId} (hs : d₁.arena.slot? s = some k) :
      (d.fill r).arena.slot? s = some k := by
    rwa [hfill, Arena.slot?_write]
  refine ⟨h₁.writeUser hu₁ (v := d₁.fillUser r u) rfl (hfills.admits h₁.sound) hfill hclasses,
    ?_, fun r' hr' hk' hne hf => ?_⟩
  · refine ⟨id, l, d₁.fillUser r u, hslot (hext.slot hid), ?_, ?_, hfills.mono hslot⟩
    · rw [hfill, Arena.layout?_write_user hu₁]
      exact hl₁
    · rw [hfill, Arena.user?_write_self hu₁]
  · obtain ⟨id', l', u', hid', hl', hu', hfills'⟩ := hf.extend hext
    have hne' := h₁.layout_ne hr hr' hk hk' hne (hext.slot hid) hid' hl₁ hl'
    refine ⟨id', l', u', hslot hid', ?_, ?_, hfills'.mono hslot⟩
    · rw [hfill, Arena.layout?_write_user hu₁]
      exact hl'
    · rw [hfill, Arena.user?_write_of_ne _ hne']
      exact hu'

/-- Filling in the classes of a list one after the other fills all of them. -/
theorem foldl_fill {cs done : List SymbolRecord} (h : d.Entered rs) (hcs : ∀ r ∈ cs, r ∈ rs)
    (hk : ∀ r ∈ cs, r.kind.isClass = true) (hdone : ∀ r ∈ done, r ∈ rs ∧ r.kind.isClass = true)
    (hne : ∀ r ∈ cs, ∀ r' ∈ done, r'.id ≠ r.id) (hnodup : (cs.map (·.id)).Nodup)
    (hf : ∀ r ∈ done, d.arena.Filled r) :
    (cs.foldl Draft.fill d).Entered rs ∧
      ∀ r ∈ done ++ cs, (cs.foldl Draft.fill d).arena.Filled r := by
  induction cs generalizing d done with
  | nil => exact ⟨h, by simpa using hf⟩
  | cons c cs ih =>
    obtain ⟨h', hfc, hkeep⟩ := h.fill (hcs c (by simp)) (hk c (by simp))
    simp only [List.map_cons, List.nodup_cons] at hnodup
    have hstep : (cs.foldl Draft.fill (d.fill c)).Entered rs ∧
        ∀ r ∈ done ++ [c] ++ cs, (cs.foldl Draft.fill (d.fill c)).arena.Filled r := by
      refine ih h' (fun r hr => hcs r (by simp [hr])) (fun r hr => hk r (by simp [hr])) ?_ ?_
        hnodup.2 ?_
      · intro r hr
        rcases List.mem_append.1 hr with hr | hr
        · exact hdone r hr
        · obtain rfl := List.mem_singleton.1 hr
          exact ⟨hcs r (by simp), hk r (by simp)⟩
      · intro r hr r' hr' heq
        rcases List.mem_append.1 hr' with hr' | hr'
        · exact hne r (by simp [hr]) r' hr' heq
        · obtain rfl := List.mem_singleton.1 hr'
          exact hnodup.1 (heq ▸ List.mem_map_of_mem hr)
      · intro r hr
        rcases List.mem_append.1 hr with hr | hr
        · exact hkeep r (hdone r hr).1 (hdone r hr).2 (hne c (by simp) r hr) (hf r hr)
        · obtain rfl := List.mem_singleton.1 hr
          exact hfc
    simpa using hstep

end Entered

/-- A draft of records comes from entering all of them and then filling the classes. -/
theorem ofRecords_eq_ok_iff {records : List SymbolRecord} {d : Draft} :
    Draft.ofRecords records = .ok d ↔ ∃ d₁, records.foldlM enter initial = .ok d₁ ∧
      (records.filter (·.kind.isClass)).foldl fill d₁ = d := by
  unfold Draft.ofRecords
  simp only [bind_eq_ok_iff, pure, Except.pure, Except.ok.injEq]

/-- Both passes enter all records and fill in the classes among them. -/
theorem ofRecords_spec {records : List SymbolRecord} {d : Draft}
    (h : Draft.ofRecords records = .ok d) :
    d.Entered records ∧ ∀ r ∈ records, r.kind.isClass = true → d.arena.Filled r := by
  obtain ⟨d₁, hd, rfl⟩ := ofRecords_eq_ok_iff.1 h
  have h₁ := entered_initial.foldlM_enter hd
  rw [List.nil_append] at h₁
  have hsub : (records.filter (·.kind.isClass)).Sublist records := List.filter_sublist
  have hnone : ∀ r ∈ ([] : List SymbolRecord), d₁.arena.Filled r := by simp
  obtain ⟨hent, hfilled⟩ := h₁.foldl_fill (fun r hr => hsub.subset hr)
    (fun r hr => (List.mem_filter.1 hr).2) (by simp) (by simp)
    ((hsub.map (·.id)).nodup h₁.nodup) hnone
  exact ⟨hent, fun r hr hk => hfilled r (by simp [hr, hk])⟩

/-! ## Dangling references -/

theorem mem_dangling {d : Draft} {id : NodeId} {s : SymbolId} :
    (id, s) ∈ d.dangling ↔ d.arena.node? id = some (.placeholder s) := by
  simp only [dangling, Arena.entries, List.mem_filterMap, List.mem_map, Arena.node?]
  constructor
  · rintro ⟨⟨k, n⟩, ⟨⟨n', k'⟩, hmem, heq⟩, hn⟩
    obtain ⟨rfl, rfl⟩ := Prod.mk.inj heq
    have hget := List.mk_mem_zipIdx_iff_getElem?.1 hmem
    cases n' <;> simp at hn
    obtain ⟨rfl, rfl⟩ := hn
    simpa using hget
  · intro h
    refine ⟨(id, .placeholder s), ⟨(.placeholder s, id), ?_, rfl⟩, rfl⟩
    rw [List.mk_mem_zipIdx_iff_getElem?]
    simpa using h

end Draft

/-- What becomes of a node when references without a record are given up. -/
def Node.degraded : Node → Node
  | placeholder _ => primitive Arena.unknownName
  | n => n

namespace Arena

/-- Writing one node into many slots replaces just these. -/
theorem node?_foldl_write (n : Node) (slots : List (NodeId × SymbolId)) (a : Arena) (id : NodeId) :
    (slots.foldl (fun a slot => a.write slot.1 n) a).node? id =
      if id ∈ slots.map (·.1) then (a.node? id).map fun _ => n else a.node? id := by
  induction slots generalizing a with
  | nil => simp
  | cons slot slots ih =>
    rw [List.foldl_cons, ih]
    by_cases hid : id = slot.1
    · subst hid
      cases hn : a.node? slot.1 with
      | none => simp [node?_write, hn, Nat.not_lt.2 (node?_eq_none_iff.1 hn)]
      | some m => simp [node?_write_self hn]
    · rw [node?_write_of_ne a hid]
      simp only [List.map_cons, List.mem_cons, hid, false_or]

/-- Writing one node into many slots changes no bindings, no sharing and no size. -/
theorem foldl_write_eq (n : Node) (slots : List (NodeId × SymbolId)) (a : Arena) :
    (slots.foldl (fun a slot => a.write slot.1 n) a).bindings = a.bindings ∧
      (slots.foldl (fun a slot => a.write slot.1 n) a).shared = a.shared ∧
      (slots.foldl (fun a slot => a.write slot.1 n) a).size = a.size := by
  induction slots generalizing a with
  | nil => exact ⟨rfl, rfl, rfl⟩
  | cons slot slots ih =>
    obtain ⟨hb, hs, hz⟩ := ih (a.write slot.1 n)
    exact ⟨hb, hs, hz.trans (size_write a slot.1 n)⟩

end Arena

namespace Arena

/-- An arena in which every placeholder was given up and nothing else changed. -/
structure Degrades (a b : Arena) : Prop where
  bindings : b.bindings = a.bindings
  shared : b.shared = a.shared
  size : b.size = a.size
  node : ∀ id, b.node? id = (a.node? id).map Node.degraded

namespace Degrades

variable {a b : Arena} {id : NodeId} {n : Node}

theorem slot (h : a.Degrades b) (s : SymbolId) : b.slot? s = a.slot? s := by
  rw [slot?, h.bindings, slot?]

theorem keep (h : a.Degrades b) (hn : a.node? id = some n) (hp : n.isPlaceholder = false) :
    b.node? id = some n := by
  rw [h.node, hn, Option.map_some]
  cases n <;> simp_all [Node.degraded, Node.isPlaceholder]

/-- A node is now the unknown type, or what it was before. -/
theorem cases (h : a.Degrades b) (hn : b.node? id = some n) :
    n = .primitive unknownName ∨ a.node? id = some n ∧ n.isPlaceholder = false := by
  rw [h.node, Option.map_eq_some_iff] at hn
  obtain ⟨m, hm, rfl⟩ := hn
  cases m with
  | placeholder s => exact Or.inl rfl
  | _ => exact Or.inr ⟨hm, rfl⟩

theorem grows (h : a.Degrades b) : a.Grows b where
  size_le := Nat.le_of_eq h.size.symm
  slot hs := (h.slot _).trans hs
  shared hs := h.shared ▸ hs
  node {id n} hn := by
    cases n with
    | placeholder s =>
      exact ⟨.primitive unknownName, by rw [h.node, hn]; rfl, .placeholder _ _⟩
    | _ => exact ⟨_, h.keep hn rfl, .same _⟩

theorem sound (h : a.Degrades b) (hs : a.Sound) : b.Sound where
  slot_lt hk := by
    rw [h.size]
    exact hs.slot_lt (h.slot _ ▸ hk)
  slot_inj hk hk' := hs.slot_inj (h.slot _ ▸ hk) (h.slot _ ▸ hk')
  shared hk := h.keep (hs.shared (h.shared ▸ hk)) rfl
  void := h.keep hs.void rfl
  slot_of_placeholder hn := by
    rcases h.cases hn with heq | ⟨-, hp⟩
    · simp at heq
    · simp [Node.isPlaceholder] at hp
  links_lt hn hl := by
    rw [h.size]
    rcases h.cases hn with rfl | ⟨hn, -⟩
    · simp [Node.links] at hl
    · exact hs.links_lt hn hl
  underway hn := by
    rcases h.cases hn with heq | ⟨hn, -⟩
    · simp at heq
    · exact hs.underway hn

theorem layout? (h : a.Degrades b) {l : NodeId} (hl : a.layout? id = some l) :
    b.layout? id = some l := by
  unfold Arena.layout? at hl ⊢
  cases hn : a.node? id with
  | none => simp [hn] at hl
  | some n =>
    rw [hn] at hl
    cases n with
    | user u => rwa [h.keep hn rfl]
    | template l args => rwa [h.keep hn rfl]
    | _ => simp at hl

theorem filled (h : a.Degrades b) {r : SymbolRecord} (hf : a.Filled r) : b.Filled r := by
  obtain ⟨id, l, u, hid, hl, hu, hfills⟩ := hf
  exact ⟨id, l, u, h.grows.slot hid, h.layout? hl, user?_of_node? (h.keep (node?_user hu) rfl),
    hfills.mono h.grows.slot⟩

end Degrades

end Arena

namespace Draft

/-- Giving up dangling references changes the placeholders alone. -/
theorem settle_spec {d d' : Draft} {options : Options} {ws : Diagnostics}
    (h : d.settle options = .ok (d', ws)) :
    d'.classes = d.classes ∧ d.arena.Degrades d'.arena := by
  unfold settle at h
  split at h
  · next hnil =>
    obtain ⟨rfl, -⟩ := Prod.mk.inj (Except.ok.inj h)
    refine ⟨rfl, rfl, rfl, rfl, fun id => ?_⟩
    cases hn : d.arena.node? id with
    | none => rfl
    | some n =>
      cases n with
      | placeholder s => simpa [hnil] using mem_dangling.2 hn
      | _ => rfl
  · split at h
    · obtain ⟨rfl, -⟩ := Prod.mk.inj (Except.ok.inj h)
      obtain ⟨hb, hs, hz⟩ :=
        Arena.foldl_write_eq (.primitive Arena.unknownName) d.dangling d.arena
      refine ⟨rfl, hb, hs, hz, fun id => ?_⟩
      simp only [degrade, Arena.node?_foldl_write]
      cases hn : d.arena.node? id with
      | none => simp
      | some n =>
        by_cases hmem : id ∈ d.dangling.map (·.1)
        · obtain ⟨⟨_, s⟩, hs, rfl⟩ := List.mem_map.1 hmem
          obtain rfl := Option.some.inj (hn.symm.trans (mem_dangling.1 hs))
          simp only [if_pos hmem, Option.map_some, Node.degraded]
        · rw [if_neg hmem]
          cases n with
          | placeholder s => exact absurd (List.mem_map_of_mem (mem_dangling.2 hn)) hmem
          | _ => rfl
    · simp at h

end Draft

/-! ## Settled drafts -/

/-- What an arena holds before duplicates are united: the node of every record, every
layout filled, the unknown type for symbols without a record, and no compound node but those
of records. -/
structure Arena.Settled (a : Arena) (records : List SymbolRecord) (classes : List NodeId) :
    Prop where
  sound : a.Sound
  drawn : ∀ r ∈ records, a.Drawn r
  filled : ∀ r ∈ records, r.kind.isClass = true → a.Filled r
  missing : ∀ {s id}, a.slot? s = some id → s ∉ records.map (·.id) →
    a.node? id = some (.primitive Arena.unknownName)
  nodup : (records.map (·.id)).Nodup
  classes : a.Slots ((records.filter (·.kind.isClass)).map (·.id)) classes
  placed : ∀ {id n}, a.node? id = some n → n.isPlaceholder = false
  origin : ∀ {id n}, a.node? id = some n → n.isCompound = true →
    ∃ r ∈ records, a.slot? r.id = some id

namespace Draft

/-- The draft of all records when no reference dangles any more. -/
def settled (options : Options) (records : List SymbolRecord) : Except Failure Draft := do
  let draft ← Draft.ofRecords records
  return (← draft.settle options).1

/-- A settled draft comes from a draft that could be settled. -/
theorem settled_eq_ok_iff {options : Options} {records : List SymbolRecord} {d : Draft} :
    settled options records = .ok d ↔ ∃ draft ws,
      Draft.ofRecords records = .ok draft ∧ draft.settle options = .ok (d, ws) := by
  unfold settled
  simp only [bind_eq_ok_iff, pure, Except.pure, Except.ok.injEq]
  constructor
  · rintro ⟨draft, hdraft, ⟨d, ws⟩, hsettle, rfl⟩
    exact ⟨draft, ws, hdraft, hsettle⟩
  · rintro ⟨draft, ws, hdraft, hsettle⟩
    exact ⟨draft, hdraft, (d, ws), hsettle, rfl⟩

/-- Every draft that gets through both passes and loses its placeholders is settled. -/
theorem settled_spec {options : Options} {records : List SymbolRecord} {d : Draft}
    (h : settled options records = .ok d) : d.arena.Settled records d.classes := by
  obtain ⟨draft, ws, hdraft, hsettle⟩ := settled_eq_ok_iff.1 h
  obtain ⟨hent, hfilled⟩ := ofRecords_spec hdraft
  obtain ⟨hclasses, hdeg⟩ := settle_spec hsettle
  have hgrow := hdeg.grows
  refine ⟨hdeg.sound hent.sound, fun r hr => (hent.drawn r hr).grow hgrow,
    fun r hr hk => hdeg.filled (hfilled r hr hk), fun {s id} hs hmem => ?_, hent.nodup,
    hclasses ▸ hent.classes.mono hgrow.slot, fun {id n} hn => ?_, fun {id n} hn hcomp => ?_⟩
  · rw [hdeg.node, hent.waiting (hdeg.slot s ▸ hs) hmem]
    rfl
  · rcases hdeg.cases hn with rfl | ⟨-, hp⟩
    · rfl
    · exact hp
  · rcases hdeg.cases hn with rfl | ⟨hn', -⟩
    · cases hcomp
    · obtain ⟨r, hr, hslot⟩ := hent.origin hn' hcomp
      exact ⟨r, hr, hgrow.slot hslot⟩

end Draft

end NativeBindings
