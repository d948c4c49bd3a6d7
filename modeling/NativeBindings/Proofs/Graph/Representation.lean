import Mathlib.Data.List.Find
import NativeBindings.Proofs.Graph.Finished

/-!
# A graph represents its records

The slot a symbol ends up at says all there is to say of its record, whatever the order of
the records and whichever of them were mentioned before they were read. A class is
represented by the first class with its identity, so what its node shows is the record of
that one (`TypeGraph.Represents`, `TypeGraph.LaysOut`).

`TypeGraph.ofRecords_represents` puts the stages together: the draft draws and fills every
record, and finishing the graph sends each reference where the symbol itself goes.
-/

namespace NativeBindings

/-- The identity that a record has in a draft. -/
def Draft.identityOf? (d : Draft) (r : SymbolRecord) : Option Identity :=
  (d.arena.slot? r.id).bind d.arena.identity?

namespace TypeGraph

/-! ## Represented records -/

/-- Where the element of a record ended up, `void` if it has none. -/
def elementOf? (g : TypeGraph) (r : SymbolRecord) : Option NodeId :=
  match r.element with
  | some e => g.nodeOf? e
  | none => some .void

/-- Where the underlying type of an enum ended up: with its element, or at the integer that
all enums of its size share. -/
def IsUnderlying (g : TypeGraph) (r : SymbolRecord) (id : NodeId) : Prop :=
  match r.element with
  | some e => g.nodeOf? e = some id
  | none => g.arena.shared.lookup (Scalar.enumInteger r.size) = some id ∧
      g.arena.node? id = some (.primitive (Scalar.enumInteger r.size))

/-- A user type that shows what a record says: size, name, symbol, the fields with
their types, and those bases that have a record. -/
structure LaysOut (g : TypeGraph) (records : List SymbolRecord) (r : SymbolRecord)
    (u : UserType) : Prop where
  size : u.size = r.size
  nativeName : u.nativeName = r.name
  symbol : u.symbol = r.id
  fields : u.fields.map (fun f => (f.name, some f.type, f.offset)) =
    r.fields.map fun f => (f.name, g.nodeOf? f.typeId, f.offset)
  bases : u.bases.map some = (r.bases.filter (· ∈ records.map (·.id))).map g.nodeOf?

/-- A node of a graph that represents a class: it shows the first record that has the same
identity in a draft, with that one's template arguments if there are any. -/
def RepresentsClass (g : TypeGraph) (d : Draft) (records : List SymbolRecord)
    (r : SymbolRecord) (id : NodeId) (n : Node) : Prop :=
  ∃ key first u, d.identityOf? r = some key ∧
    records.find? (fun r' => d.identityOf? r' == some key) = some first ∧
    g.nodeOf? first.id = some id ∧ g.layoutType? id = some u ∧ g.LaysOut records first u ∧
    r.isApplied = first.isApplied ∧
    if first.isApplied then
      ∃ l args, n = .template l args ∧ args.map some = first.templateArguments.map g.nodeOf?
    else n = .user u

/-- A node of a graph that represents a record. -/
def Represents (g : TypeGraph) (d : Draft) (records : List SymbolRecord) (r : SymbolRecord)
    (id : NodeId) (n : Node) : Prop :=
  match r.kind with
  | .primitive => n = .primitive (String.ofList (Text.trim r.name.toList))
  | .pointer => ∃ t, g.elementOf? r = some t ∧ n = .pointer t
  | .array => ∃ t, g.elementOf? r = some t ∧ n = .array t
  | .enumeration => ∃ e, n = .enumeration e ∧ e.nativeName = r.name ∧
      e.members = r.enumerators.map (fun m => ⟨m.name, m.value⟩) ∧ g.IsUnderlying r e.underlying
  | .userType | .templateInstantiation => g.RepresentsClass d records r id n

theorem represents_iff_of_isClass {g : TypeGraph} {d : Draft} {records : List SymbolRecord}
    {r : SymbolRecord} {id : NodeId} {n : Node} (hk : r.kind.isClass = true) :
    g.Represents d records r id n ↔ g.RepresentsClass d records r id n := by
  unfold Represents
  cases hkind : r.kind <;> simp_all [SymbolKind.isClass]

end TypeGraph

/-! ## References after finishing -/

/-- Symbols are filtered like their slots. -/
theorem Arena.Slots.filter {a : Arena} {p : SymbolId → Bool} {q : NodeId → Bool}
    {ss : List SymbolId} {ids : List NodeId} (h : a.Slots ss ids)
    (hpq : ∀ s ∈ ss, ∀ id ∈ ids, a.slot? s = some id → p s = q id) :
    a.Slots (ss.filter p) (ids.filter q) := by
  induction ss generalizing ids with
  | nil =>
    obtain rfl : ids = [] := by simpa [Slots] using h
    rfl
  | cons s ss ih =>
    cases ids with
    | nil => simp [Slots] at h
    | cons id ids =>
      simp only [Slots, List.map_cons, List.cons.injEq] at h
      have htail := ih h.2 fun s hs id hid => hpq s (by simp [hs]) id (by simp [hid])
      rw [List.filter_cons, List.filter_cons, hpq s (by simp) id (by simp) h.1]
      split
      · simp only [Slots, List.map_cons, List.cons.injEq]
        exact ⟨h.1, htail⟩
      · exact htail

namespace TypeGraph.Finishes

variable {g : TypeGraph} {a : Arena} {records : List SymbolRecord} {classes : List NodeId}

theorem nodeOf? (h : g.Finishes a records classes) {s : SymbolId} {id : NodeId}
    (hs : a.slot? s = some id) : g.nodeOf? s = some (a.standIn classes id) := by
  rw [TypeGraph.nodeOf?, h.slot, hs]
  rfl

theorem map_nodeOf? (h : g.Finishes a records classes) {ss : List SymbolId} {ids : List NodeId}
    (hs : a.Slots ss ids) : (ids.map (a.standIn classes)).map some = ss.map g.nodeOf? := by
  have hslots : ss.map g.nodeOf? = (ss.map a.slot?).map (Option.map (a.standIn classes)) := by
    rw [List.map_map]
    exact List.map_congr_left fun s _ => h.slot s
  rw [hslots, show ss.map a.slot? = ids.map some from hs]
  simp

/-- A node that is no class stays, with its links sent on. -/
theorem node?_of_not_class (h : g.Finishes a records classes) (hs : a.Settled records classes)
    {id : NodeId} {n : Node} (hn : a.node? id = some n) (hk : n.isClass = false) :
    a.standIn classes id = id ∧ g.arena.node? id = some (n.mapLinks (a.standIn classes)) := by
  refine ⟨hs.standIn_of_not_class hn hk, h.node hn ?_⟩
  cases n <;> simp_all [Node.userType?, Node.isClass]

theorem elementOf? (h : g.Finishes a records classes) (hs : a.Settled records classes)
    {r : SymbolRecord} {t : NodeId} (ht : a.Target r t) :
    g.elementOf? r = some (a.standIn classes t) := by
  unfold Arena.Target at ht
  unfold TypeGraph.elementOf?
  cases he : r.element with
  | some e =>
    rw [he] at ht
    exact h.nodeOf? ht
  | none =>
    rw [he] at ht
    rw [ht, (h.node?_of_not_class hs hs.sound.void rfl).1]

/-- The underlying type of an enum is what stands in for it. -/
theorem isUnderlying (h : g.Finishes a records classes) (hs : a.Settled records classes)
    {r : SymbolRecord} {t : NodeId} (ht : a.Underlying r t) :
    g.IsUnderlying r (a.standIn classes t) := by
  unfold Arena.Underlying at ht
  unfold IsUnderlying
  cases he : r.element with
  | some e =>
    rw [he] at ht
    exact h.nodeOf? ht
  | none =>
    rw [he] at ht
    obtain ⟨hstay, hn⟩ := h.node?_of_not_class hs (hs.sound.shared ht) rfl
    rw [hstay, h.shared]
    exact ⟨ht, hn⟩

end TypeGraph.Finishes

/-! ## First records -/

namespace Arena

/-- The first slot with a property is that of the first record whose slot has it. -/
theorem Slots.find? {a : Arena} {rs : List SymbolRecord} {ids : List NodeId}
    (h : a.Slots (rs.map (·.id)) ids) (p : NodeId → Bool) :
    ids.find? p = (rs.find? fun r => (a.slot? r.id).any p).bind fun r => a.slot? r.id := by
  induction rs generalizing ids with
  | nil =>
    obtain rfl : ids = [] := by simpa [Slots] using h
    rfl
  | cons r rs ih =>
    cases ids with
    | nil => simp [Slots] at h
    | cons id ids =>
      simp only [Slots, List.map_cons, List.cons.injEq] at h
      rw [List.find?_cons, List.find?_cons, h.1, Option.any_some, ih h.2]
      cases p id
      · rfl
      · exact h.1.symm

theorem Settled.isClass_of_identity {a : Arena} {records : List SymbolRecord}
    {classes : List NodeId} (h : a.Settled records classes) {r : SymbolRecord} (hr : r ∈ records)
    {key : Identity} (hkey : (a.slot? r.id).bind a.identity? = some key) :
    r.kind.isClass = true := by
  obtain ⟨id, n, hid, hn, hdraw⟩ := h.drawn r hr
  rw [hid, Option.bind_some, identity?, hn] at hkey
  cases hdraw with
  | primitive | pointer | array | enumeration => simp at hkey
  | plain hk => exact hk
  | applied ha => exact SymbolRecord.isClass_of_isApplied ha

end Arena

/-- A class is its own layout unless it is a template applied to arguments. -/
theorem Arena.Settled.layout?_self_iff {a : Arena} {records : List SymbolRecord}
    {classes : List NodeId} (h : a.Settled records classes) {r : SymbolRecord} (hr : r ∈ records)
    (hk : r.kind.isClass = true) {id : NodeId} (hid : a.slot? r.id = some id) :
    a.layout? id = some id ↔ r.isApplied = false := by
  obtain ⟨_, n, hid', hn, hdraw⟩ := h.drawn r hr
  obtain rfl := Option.some.inj (hid.symm.trans hid')
  cases hdraw with
  | primitive hk' | pointer hk' | array hk' | enumeration hk' =>
    simp [hk', SymbolKind.isClass] at hk
  | plain _ ha => simp [Arena.layout?, hn, ha]
  | @applied l _ _ ha _ hl =>
    have hne : l ≠ id := fun heq => by
      rw [heq, Arena.user?, hn] at hl
      simp [Node.userType?] at hl
    simp [Arena.layout?, hn, ha, hne]

/-- The first record with the identity of a class is that of the first class with it. -/
theorem Draft.exists_first {d : Draft} {records : List SymbolRecord}
    (h : d.arena.Settled records d.classes) {r : SymbolRecord} (hr : r ∈ records)
    (hk : r.kind.isClass = true) {id : NodeId} (hid : d.arena.slot? r.id = some id) :
    ∃ key first, d.identityOf? r = some key ∧
      records.find? (fun r' => d.identityOf? r' == some key) = some first ∧
      d.arena.slot? first.id = some (d.arena.firstLike d.classes id) := by
  have hmem : id ∈ d.classes := h.mem_classes_iff.2 ⟨r, hr, hk, hid⟩
  obtain ⟨key, hkey⟩ := h.exists_identity hmem
  have hfind := Arena.find?_firstLike (a := d.arena) hmem
  rw [h.classes.find?, List.find?_filter, hkey] at hfind
  obtain ⟨first, hfirst, hslot⟩ := Option.bind_eq_some_iff.1 hfind
  refine ⟨key, first, by rw [identityOf?, hid]; exact hkey, ?_, hslot⟩
  rw [← hfirst]
  refine List.find?_congr fun r' hr' => ?_
  obtain ⟨id', n', hid', hn', hdraw'⟩ := h.drawn r' hr'
  have hclass : (d.arena.slot? r'.id).bind d.arena.identity? = some key → r'.kind.isClass = true :=
    h.isClass_of_identity hr'
  rw [identityOf?, hid', Option.bind_some] at *
  by_cases heq : d.arena.identity? id' = some key
  · simp [heq, hclass heq]
  · simp [heq]

namespace TypeGraph.Finishes

variable {g : TypeGraph} {a : Arena} {records : List SymbolRecord} {classes : List NodeId}

/-- The layout of a class that is kept shows its record. -/
theorem exists_laysOut (h : g.Finishes a records classes) (hs : a.Settled records classes)
    {r : SymbolRecord} (hr : r ∈ records) (hk : r.kind.isClass = true) {id : NodeId}
    (hid : a.slot? r.id = some id) (hkept : id ∈ g.classes) :
    ∃ l u, a.layout? id = some l ∧ g.arena.layout? id = some l ∧ g.arena.user? l = some u ∧
      g.LaysOut records r u := by
  obtain ⟨_, l, u, hid₁, hl, hu, hfill⟩ := hs.filled r hr hk
  obtain rfl := Option.some.inj (hid.symm.trans hid₁)
  obtain ⟨_, _, _, hid₂, hl₂, hu₂, hhead⟩ := (hs.drawn r hr).exists_layout hk
  obtain rfl := Option.some.inj (hid.symm.trans hid₂)
  obtain rfl := Option.some.inj (hl.symm.trans hl₂)
  obtain rfl := Option.some.inj (hu.symm.trans hu₂)
  obtain ⟨v, hv, hvhead, hvfields⟩ := h.user hu
  obtain ⟨hvbases, hclass⟩ := h.bases hkept hl hu hv
  have hhead' := hvhead.trans hhead
  refine ⟨l, v, hl, (h.layout hkept).trans hl, hv, ⟨?_, ?_, ?_, ?_, ?_⟩⟩
  · exact congrArg UserType.size hhead'
  · exact congrArg UserType.nativeName hhead'
  · exact congrArg UserType.symbol hhead'
  · have hfields := congrArg (List.map fun x => (x.1, x.2.1.map (a.standIn classes), x.2.2))
      hfill.fields
    simp only [List.map_map, Function.comp_def, Option.map_some] at hfields
    rw [hvfields, List.map_map]
    simp only [Function.comp_def, hfields]
    exact List.map_congr_left fun f _ => by rw [TypeGraph.nodeOf?, h.slot]
  · have hslots : a.Slots (r.bases.filter (· ∈ records.map (·.id)))
        (u.bases.filter a.isClassAt) := by
      refine hfill.bases.filter fun s _ b hb hslot => ?_
      by_cases hmem : s ∈ records.map (·.id)
      · simp [hmem, hclass s b hb hslot hmem]
      · simp [hmem, Arena.isClassAt, hs.missing hslot hmem, Node.isClass]
    rw [hvbases]
    exact h.map_nodeOf? hslots

variable {d : Draft}

/-- A record that is no class is represented where it was drawn. -/
theorem represents_of_not_class (h : g.Finishes d.arena records d.classes)
    (hs : d.arena.Settled records d.classes) {r : SymbolRecord} (hr : r ∈ records)
    (hk : r.kind.isClass = false) : ∃ id n, g.nodeOf? r.id = some id ∧
      g.arena.node? id = some n ∧ g.Represents d records r id n := by
  obtain ⟨id, n, hid, hn, hdraw⟩ := hs.drawn r hr
  obtain ⟨hstay, hnode⟩ := h.node?_of_not_class hs hn (hdraw.isClass.trans hk)
  refine ⟨id, _, hstay ▸ h.nodeOf? hid, hnode, ?_⟩
  cases hdraw with
  | primitive hk' =>
    simp only [Represents, hk']
    rfl
  | pointer hk' ht =>
    simp only [Represents, hk']
    exact ⟨_, h.elementOf? hs ht, rfl⟩
  | array hk' ht =>
    simp only [Represents, hk']
    exact ⟨_, h.elementOf? hs ht, rfl⟩
  | enumeration hk' ht =>
    simp only [Represents, hk']
    exact ⟨_, rfl, rfl, rfl, h.isUnderlying hs ht⟩
  | plain hk' => simp [hk] at hk'
  | applied ha => simp [SymbolRecord.isClass_of_isApplied ha] at hk

/-- A class is represented by the first one with its identity. -/
theorem represents_of_class (h : g.Finishes d.arena records d.classes)
    (hs : d.arena.Settled records d.classes) {r : SymbolRecord} (hr : r ∈ records)
    (hk : r.kind.isClass = true) : ∃ id n, g.nodeOf? r.id = some id ∧
      g.arena.node? id = some n ∧ g.Represents d records r id n := by
  obtain ⟨id, n, hid, hn, hdraw⟩ := hs.drawn r hr
  have hmem : id ∈ d.classes := hs.mem_classes_iff.2 ⟨r, hr, hk, hid⟩
  obtain ⟨key, first, hkey, hfind, hslot⟩ := Draft.exists_first hs hr hk hid
  have hmem' := Arena.firstLike_mem (a := d.arena) hmem
  have hkept : d.arena.firstLike d.classes id ∈ g.classes :=
    h.mem_classes.2 ⟨hmem', Arena.firstLike_firstLike hmem⟩
  have hfirst : first ∈ records := List.mem_of_find?_eq_some hfind
  have hfirstKey : d.identityOf? first = some key := by
    simpa using List.find?_some hfind
  have hfirstClass := hs.isClass_of_identity hfirst hfirstKey
  obtain ⟨l, u, hl, hl', hu, hlays⟩ := h.exists_laysOut hs hfirst hfirstClass hslot hkept
  have hnode : g.nodeOf? r.id = some (d.arena.firstLike d.classes id) :=
    hs.standIn_class hmem ▸ h.nodeOf? hid
  have hnode' : g.nodeOf? first.id = some (d.arena.firstLike d.classes id) := by
    rw [h.nodeOf? hslot, hs.standIn_class hmem', Arena.firstLike_firstLike hmem]
  have hform : r.isApplied = first.isApplied := by
    have hiff := hs.plain_iff_of_identity? hmem hmem' (Arena.identity?_firstLike hmem).symm
    rw [hs.layout?_self_iff hr hk hid, hs.layout?_self_iff hfirst hfirstClass hslot] at hiff
    exact Bool.eq_iff_iff.2 (by simpa using not_congr hiff)
  have hlayout : g.layoutType? (d.arena.firstLike d.classes id) = some u := by
    rw [TypeGraph.layoutType?, Arena.layoutType?, hl']
    exact hu
  obtain ⟨_, m, hslot', hm, hdraw'⟩ := hs.drawn first hfirst
  obtain rfl := Option.some.inj (hslot.symm.trans hslot')
  have hshow {m' : Node} (hm' : if first.isApplied then ∃ l args, m' = .template l args ∧
      args.map some = first.templateArguments.map g.nodeOf? else m' = .user u) :
      g.Represents d records r (d.arena.firstLike d.classes id) m' :=
    (represents_iff_of_isClass hk).2
      ⟨key, first, u, hkey, hfind, hnode', hlayout, hlays, hform, hm'⟩
  cases hdraw' with
  | plain _ ha =>
    have hself : d.arena.layout? (d.arena.firstLike d.classes id) =
        some (d.arena.firstLike d.classes id) := by simp [Arena.layout?, hm]
    obtain rfl := Option.some.inj (hl.symm.trans hself)
    refine ⟨_, .user u, hnode, Arena.node?_user hu, hshow ?_⟩
    rw [ha]
    exact rfl
  | applied ha hargs =>
    refine ⟨_, _, hnode, h.node hm rfl, hshow ?_⟩
    rw [ha]
    exact ⟨_, _, rfl, h.map_nodeOf? hargs⟩
  | primitive hk' | pointer hk' | array hk' | enumeration hk' =>
    simp [hk', SymbolKind.isClass] at hfirstClass

end TypeGraph.Finishes

namespace TypeGraph

/-- Whenever a graph is built, every record resolves to a node that represents it. -/
theorem ofRecords_represents {options : Options} {records : List SymbolRecord} {g : TypeGraph}
    {w : Diagnostics} (h : ofRecords options records = .ok (g, w)) :
    ∃ d, Draft.settled options records = .ok d ∧ ∀ r ∈ records, ∃ id n,
      g.nodeOf? r.id = some id ∧ g.arena.node? id = some n ∧ g.Represents d records r id n := by
  obtain ⟨d, hd, -, hs, hf⟩ := exists_finishes h
  refine ⟨d, hd, fun r hr => ?_⟩
  cases hk : r.kind.isClass with
  | false => exact hf.represents_of_not_class hs hr hk
  | true => exact hf.represents_of_class hs hr hk

/-- A list node recorded twice, reached through a pointer that comes before both records. -/
def twiceRecorded : List SymbolRecord :=
  [.ofPointer ⟨1⟩ (some ⟨3⟩) 8,
    (SymbolRecord.ofUserType ⟨2⟩ "Node" 8).addField "next" ⟨1⟩ 0,
    (SymbolRecord.ofUserType ⟨3⟩ "Node" 8).addField "next" ⟨1⟩ 0,
    .ofInstantiation ⟨4⟩ "Box<Node>" 8 [⟨3⟩]]

/-- Both records of one type are represented by one node. -/
theorem twiceRecorded_represented : ∃ g w d, ofRecords {} twiceRecorded = .ok (g, w) ∧
    Draft.settled {} twiceRecorded = .ok d ∧ ∀ r ∈ twiceRecorded, ∃ id n,
      g.nodeOf? r.id = some id ∧ g.arena.node? id = some n ∧
        g.Represents d twiceRecorded r id n := by
  obtain ⟨⟨g, w⟩, h⟩ : ∃ x, ofRecords {} twiceRecorded = .ok x := exists_eq_ok (by decide +kernel)
  obtain ⟨d, hd, hall⟩ := ofRecords_represents h
  exact ⟨g, w, d, h, hd, hall⟩

end TypeGraph

end NativeBindings
