import NativeBindings.Proofs.Graph.Distinctness

/-!
# Names and identities by the records alone

What a type is called, which ids its name depends on and what makes a class the type it is
are settled by the records. They do not depend on the order of the records or on the slots
that symbols were given: `Called` and `SymbolRecord.IdentifiedAs` say so without an arena,
and `Arena.Settled.native?_eq_some_iff` and `Draft.identityOf?_eq_some_iff` say that every
settled draft agrees.

The order of records counts for one thing only: of the classes with one identity the
first one stands for the others (`SymbolRecord.ComesFirst`).
-/

namespace NativeBindings

open Relation

/-- What a reference is called natively. No reference is `void`, and one without a record is
the unknown type. -/
inductive Called (records : List SymbolRecord) : Option SymbolId → String → Prop
  | void : Called records none "void"
  | missing {s : SymbolId} (h : s ∉ records.map (·.id)) :
    Called records (some s) Arena.unknownName
  | primitive {r : SymbolRecord} (hr : r ∈ records) (hk : r.kind = .primitive) :
    Called records (some r.id) (String.ofList (Text.trim r.name.toList))
  | pointer {r : SymbolRecord} {name : String} (hr : r ∈ records) (hk : r.kind = .pointer)
    (ht : Called records r.element name) : Called records (some r.id) (name ++ "*")
  | array {r : SymbolRecord} {name : String} (hr : r ∈ records) (hk : r.kind = .array)
    (ht : Called records r.element name) : Called records (some r.id) (name ++ "[]")
  | enumeration {r : SymbolRecord} (hr : r ∈ records) (hk : r.kind = .enumeration) :
    Called records (some r.id) r.name
  | ofClass {r : SymbolRecord} (hr : r ∈ records) (hk : r.kind.isClass = true) :
    Called records (some r.id) r.name

/-- Without a record there is no other name than that of the unknown type. -/
theorem Called.eq_unknownName {records : List SymbolRecord} {s : SymbolId} {name : String}
    (h : Called records (some s) name) (hs : s ∉ records.map (·.id)) :
    name = Arena.unknownName := by
  have hrec {r : SymbolRecord} (hr : r ∈ records) : r.id ∈ records.map (·.id) :=
    List.mem_map_of_mem hr
  cases h with
  | missing => rfl
  | primitive hr | pointer hr | array hr | enumeration hr | ofClass hr => exact absurd (hrec hr) hs

/-- A record is called after its own name, or after its element. -/
theorem called_iff_of_mem {records : List SymbolRecord} (hnodup : (records.map (·.id)).Nodup)
    {r : SymbolRecord} (hr : r ∈ records) {name : String} : Called records (some r.id) name ↔
      match r.kind with
      | .primitive => name = String.ofList (Text.trim r.name.toList)
      | .pointer => ∃ target, Called records r.element target ∧ name = target ++ "*"
      | .array => ∃ element, Called records r.element element ∧ name = element ++ "[]"
      | .enumeration | .userType | .templateInstantiation => name = r.name := by
  constructor
  · intro h
    have hsame {r' : SymbolRecord} (hr' : r' ∈ records) (hid : some r.id = some r'.id) : r' = r :=
      List.inj_on_of_nodup_map hnodup hr' hr (Option.some.inj hid).symm
    generalize hs : some r.id = s at h
    cases h with
    | void => cases hs
    | missing hmissing =>
      exact absurd (List.mem_map_of_mem hr) (Option.some.inj hs ▸ hmissing)
    | primitive hr' hk | enumeration hr' hk =>
      obtain rfl := hsame hr' hs
      simp [hk]
    | pointer hr' hk ht | array hr' hk ht =>
      obtain rfl := hsame hr' hs
      simp only [hk]
      exact ⟨_, ht, rfl⟩
    | @ofClass r' hr' hk =>
      obtain rfl := hsame hr' hs
      cases hkind : r'.kind <;> simp_all [SymbolKind.isClass]
  · intro h
    cases hk : r.kind with
    | primitive =>
      simp only [hk] at h
      exact h ▸ .primitive hr hk
    | pointer =>
      simp only [hk] at h
      obtain ⟨target, htarget, rfl⟩ := h
      exact .pointer hr hk htarget
    | array =>
      simp only [hk] at h
      obtain ⟨element, helement, rfl⟩ := h
      exact .array hr hk helement
    | enumeration =>
      simp only [hk] at h
      exact h ▸ .enumeration hr hk
    | userType | templateInstantiation =>
      simp only [hk] at h
      exact h ▸ .ofClass hr (by rw [hk]; rfl)

/-- The written name of one id depends on the other. -/
def SpelledWith (records : List SymbolRecord) (s t : SymbolId) : Prop :=
  ∃ r ∈ records, r.id = s ∧ t ∈ r.spelled

namespace SymbolRecord

/-- The record of a class has an identity: its namespace and name, and what its template
arguments are called. -/
def IdentifiedAs (records : List SymbolRecord) (r : SymbolRecord) (key : Identity) : Prop :=
  r.kind.isClass = true ∧ ∃ args,
    List.Forall₂ (fun s name => Called records (some s) name) r.spelled args ∧
      key = (Draft.unfilled r r.isApplied).identity args

/-- No record before this one has an identity of it. -/
def ComesFirst (records : List SymbolRecord) (r : SymbolRecord) : Prop :=
  ∃ before after, records = before ++ r :: after ∧
    ∀ r' ∈ before, ∀ key, r.IdentifiedAs records key → ¬r'.IdentifiedAs records key

end SymbolRecord

/-! ## Names in a settled draft -/

theorem Reading.native_total : native.Total := by
  intro id n known hlinks hlayout
  cases n <;> simp_all [native, Node.spellingLinks]

namespace Arena

/-- The place of a reference: `void` if there is none. -/
def place? (a : Arena) : Option SymbolId → Option NodeId
  | none => some .void
  | some s => a.slot? s

theorem target_iff {a : Arena} {r : SymbolRecord} {t : NodeId} :
    a.Target r t ↔ a.place? r.element = some t := by
  unfold Target place?
  cases r.element <;> simp [eq_comm]

theorem Slots.forall₂_iff {α : Type} {a : Arena} {p : SymbolId → α → Prop} {f : NodeId → α}
    {ss : List SymbolId} {ids : List NodeId} (h : a.Slots ss ids)
    (hp : ∀ s ∈ ss, ∀ id ∈ ids, a.slot? s = some id → ∀ x, p s x ↔ x = f id) {xs : List α} :
    List.Forall₂ p ss xs ↔ xs = ids.map f := by
  induction ss generalizing ids xs with
  | nil =>
    obtain rfl : ids = [] := by simpa [Slots] using h
    simp
  | cons s ss ih =>
    cases ids with
    | nil => simp [Slots] at h
    | cons id ids =>
      simp only [Slots, List.map_cons, List.cons.injEq] at h
      have htail {ys : List α} : List.Forall₂ p ss ys ↔ ys = ids.map f :=
        ih h.2 fun s hs id hid => hp s (by simp [hs]) id (by simp [hid])
      have hhead := hp s (by simp) id (by simp) h.1
      cases xs <;> simp [hhead, htail]

namespace Settled

variable {a : Arena} {records : List SymbolRecord} {classes : List NodeId}

/-- A class is called by the name of its record. -/
theorem readWithin_of_class (h : a.Settled records classes) {r : SymbolRecord} (hr : r ∈ records)
    (hk : r.kind.isClass = true) {id : NodeId} (hid : a.slot? r.id = some id) :
    a.readWithin .native 2 id = some r.name := by
  obtain ⟨r', hr', -, hslot, hcases⟩ := h.class_cases (h.mem_classes_iff.2 ⟨r, hr, hk, hid⟩)
  obtain rfl := List.inj_on_of_nodup_map h.nodup hr' hr (h.sound.slot_inj hslot hid)
  rcases hcases with ⟨u, -, hn, hu⟩ | ⟨l, args, u, -, hn, -, -, hl, hu⟩
  · rw [readWithin_native_user (user?_of_node? hn)]
    exact congrArg (fun u => some u.nativeName) hu
  · rw [readWithin_native_template hn hl]
    exact congrArg (fun u => some u.nativeName) hu

theorem called_of_readWithin (h : a.Settled records classes) {k : Nat} {s : Option SymbolId}
    {id : NodeId} {name : String} (hid : a.place? s = some id)
    (hname : a.readWithin .native k id = some name) : Called records s name := by
  induction k generalizing s id name with
  | zero => simp [readWithin] at hname
  | succ k ih =>
    cases s with
    | none =>
      obtain rfl := Option.some.inj hid
      rw [readWithin_succ, h.sound.void] at hname
      obtain rfl := Option.some.inj hname
      exact .void
    | some s =>
      by_cases hs : s ∈ records.map (·.id)
      · obtain ⟨r, hr, rfl⟩ := List.mem_map.1 hs
        obtain ⟨_, n, hid', hn, hdraw⟩ := h.drawn r hr
        obtain rfl := Option.some.inj (hid.symm.trans hid')
        have hclass (hk : r.kind.isClass = true) : Called records (some r.id) name := by
          rw [← native_eq_of_readWithin hname,
            native_eq_of_readWithin (h.readWithin_of_class hr hk hid)]
          exact .ofClass hr hk
        rw [readWithin_succ, hn, Option.bind_some] at hname
        cases hdraw with
        | primitive hk =>
          obtain rfl := Option.some.inj hname
          exact .primitive hr hk
        | pointer hk ht =>
          obtain ⟨inner, hinner, rfl⟩ := Option.map_eq_some_iff.1 hname
          exact .pointer hr hk (ih (target_iff.1 ht) hinner)
        | array hk ht =>
          obtain ⟨inner, hinner, rfl⟩ := Option.map_eq_some_iff.1 hname
          exact .array hr hk (ih (target_iff.1 ht) hinner)
        | enumeration hk =>
          obtain rfl := Option.some.inj hname
          exact .enumeration hr hk
        | plain hk => exact hclass hk
        | applied ha => exact hclass (SymbolRecord.isClass_of_isApplied ha)
      · rw [readWithin_succ, h.missing hid hs] at hname
        obtain rfl := Option.some.inj hname
        exact .missing hs

theorem exists_readWithin_of_called (h : a.Settled records classes) {s : Option SymbolId}
    {name : String} (hc : Called records s name) {id : NodeId} (hid : a.place? s = some id) :
    ∃ k, a.readWithin .native k id = some name := by
  have hdrawn {r : SymbolRecord} {id : NodeId} (hr : r ∈ records) (hid : a.slot? r.id = some id) :
      ∃ n, a.node? id = some n ∧ a.Draws r n := by
    obtain ⟨_, n, hid', hn, hdraw⟩ := h.drawn r hr
    obtain rfl := Option.some.inj (hid.symm.trans hid')
    exact ⟨n, hn, hdraw⟩
  induction hc generalizing id with
  | void =>
    obtain rfl := Option.some.inj hid
    exact ⟨1, by rw [readWithin_succ, h.sound.void]; rfl⟩
  | missing hs => exact ⟨1, by rw [readWithin_succ, h.missing hid hs]; rfl⟩
  | primitive hr hk =>
    obtain ⟨n, hn, hdraw⟩ := hdrawn hr hid
    refine ⟨1, ?_⟩
    rw [readWithin_succ, hn]
    cases hdraw <;> simp_all [SymbolRecord.isApplied, SymbolKind.isClass, Reading.native]
  | pointer hr hk ht ih =>
    obtain ⟨n, hn, hdraw⟩ := hdrawn hr hid
    cases hdraw with
    | pointer _ hplace =>
      obtain ⟨k, hk⟩ := ih (target_iff.1 hplace)
      exact ⟨k + 1, by rw [readWithin_succ, hn]; simp [Reading.native, hk]⟩
    | _ => simp_all [SymbolRecord.isApplied, SymbolKind.isClass]
  | array hr hk ht ih =>
    obtain ⟨n, hn, hdraw⟩ := hdrawn hr hid
    cases hdraw with
    | array _ hplace =>
      obtain ⟨k, hk⟩ := ih (target_iff.1 hplace)
      exact ⟨k + 1, by rw [readWithin_succ, hn]; simp [Reading.native, hk]⟩
    | _ => simp_all [SymbolRecord.isApplied, SymbolKind.isClass]
  | enumeration hr hk =>
    obtain ⟨n, hn, hdraw⟩ := hdrawn hr hid
    refine ⟨1, ?_⟩
    rw [readWithin_succ, hn]
    cases hdraw <;>
      simp_all [SymbolRecord.isApplied, SymbolKind.isClass, Reading.native, Draft.enumType]
  | ofClass hr hk => exact ⟨2, h.readWithin_of_class hr hk hid⟩

/-- A settled draft calls a reference what the records call it. -/
theorem native?_eq_some_iff (h : a.Settled records classes) {s : Option SymbolId} {id : NodeId}
    {name : String} (hid : a.place? s = some id) :
    a.native? id = some name ↔ Called records s name :=
  ⟨fun hname => h.called_of_readWithin hid hname, fun hc =>
    (read?_eq_some_iff Reading.native_stable).2 (h.exists_readWithin_of_called hc hid)⟩

/-- Where spelling ends, everything that has a place is called something. -/
theorem called_iff (h : a.Settled records classes) (hends : a.SpellingEnds) {s : SymbolId}
    {id : NodeId} (hid : a.slot? s = some id) {name : String} :
    Called records (some s) name ↔ name = a.native id := by
  obtain ⟨x, hx⟩ := h.closed.exists_read? Reading.native_stable Reading.native_total
    (hends.acc id) (h.sound.slot_lt hid)
  have hnative : a.native? id = some (a.native id) := by
    rw [native, show a.native? id = some x from hx]
    rfl
  rw [← h.native?_eq_some_iff (s := some s) hid, hnative, Option.some.injEq, eq_comm]

/-! ## Rings -/

/-- A node that its spelling links lead back to is the node of a record whose id is on a ring. Only
the nodes of records have links. -/
theorem exists_record_of_ring (h : a.Settled records classes) {x : NodeId}
    (hring : TransGen a.Spells x x) : ∃ r ∈ records, a.slot? r.id = some x ∧
      TransGen (SpelledWith records) r.id r.id := by
  have horigin {x y : NodeId} (hxy : a.Spells x y) :
      ∃ r ∈ records, a.slot? r.id = some x ∧ ∃ n, a.Draws r n ∧ y ∈ n.spellingLinks := by
    obtain ⟨n, hn, hy⟩ := spells_iff.1 hxy
    obtain ⟨r, hr, hx⟩ := h.origin hn (Node.isCompound_of_mem_spellingLinks hy)
    obtain ⟨_, n', hx', hn', hdraw⟩ := h.drawn r hr
    obtain rfl := Option.some.inj (hx.symm.trans hx')
    obtain rfl := Option.some.inj (hn.symm.trans hn')
    exact ⟨r, hr, hx, n, hdraw, hy⟩
  obtain ⟨z, hxz, -⟩ := TransGen.head'_iff.1 hring
  obtain ⟨r, hr, hx, -⟩ := horigin hxz
  refine ⟨r, hr, hx, ?_⟩
  refine ring_of_steps (fun x s => a.slot? s = some x) (fun {x y z s} hs hxy hyz => ?_)
    (fun hs ht => h.sound.slot_inj ht hs) hx hring
  obtain ⟨r', hr', hx', n, hdraw, hy⟩ := horigin hxy
  obtain rfl := h.sound.slot_inj hs hx'
  rcases h.spelled_links hdraw with hslots | ⟨-, hprims⟩
  · obtain ⟨t, ht, hslot⟩ := hslots.exists_slot? hy
    exact ⟨t, ⟨r', hr', rfl, ht⟩, hslot⟩
  · obtain ⟨name, hprim⟩ := hprims y hy
    obtain ⟨n', hn', hz⟩ := spells_iff.1 hyz
    obtain rfl := Option.some.inj (hprim.symm.trans hn')
    simp [Node.spellingLinks] at hz

/-- The rings of the arena are the rings of the ids. -/
theorem spellingEnds_iff (h : a.Settled records classes) :
    a.SpellingEnds ↔ ∀ s, ¬TransGen (SpelledWith records) s s := by
  constructor
  · intro hends s hring
    obtain ⟨-, ⟨r, hr, rfl, -⟩, -⟩ := TransGen.head'_iff.1 hring
    obtain ⟨x, -, hx, -⟩ := h.drawn r hr
    refine hends x (ring_of_steps (fun s x => a.slot? s = some x) (fun {s t _ x} hs hst _ => ?_)
      (fun hx hy => Option.some.inj (hy.symm.trans hx)) hx hring)
    obtain ⟨r, hr, rfl, ht⟩ := hst
    obtain ⟨_, n, hid, hn, hdraw⟩ := h.drawn r hr
    obtain rfl := Option.some.inj (hs.symm.trans hid)
    rcases h.spelled_links hdraw with hslots | ⟨hnone, -⟩
    · obtain ⟨y, hy, hslot⟩ := hslots.mem ht
      exact ⟨y, spells_iff.2 ⟨n, hn, hy⟩, hslot⟩
    · simp [hnone] at ht
  · intro hno x hring
    obtain ⟨r, -, -, hids⟩ := h.exists_record_of_ring hring
    exact hno r.id hids

end Settled

end Arena

/-! ## Identities in a settled draft -/

namespace Draft

variable {d : Draft} {records : List SymbolRecord} {r : SymbolRecord}

/-- A settled draft in which spelling ends identifies a class as the records do. -/
theorem identityOf?_eq_some_iff (h : d.arena.Settled records d.classes)
    (hends : d.arena.SpellingEnds) (hr : r ∈ records) {key : Identity} :
    d.identityOf? r = some key ↔ r.IdentifiedAs records key := by
  obtain ⟨id, n, hid, hn, hdraw⟩ := h.drawn r hr
  rw [identityOf?, hid, Option.bind_some, Arena.identity?, hn]
  unfold SymbolRecord.IdentifiedAs
  cases hdraw with
  | primitive hk | pointer hk | array hk | enumeration hk => simp [hk, SymbolKind.isClass]
  | plain hk ha hu =>
    have hspelled : r.spelled = [] := by
      cases hkind : r.kind <;>
        simp_all [SymbolRecord.spelled, SymbolRecord.isApplied, SymbolKind.isClass]
    have hhead := hu.trans (head_unfilled r false).symm
    simp [hk, ha, hspelled, UserType.identity_of_head hhead, eq_comm]
  | @applied l args u ha hargs hl hu =>
    have hspelled : r.spelled = r.templateArguments := by
      rw [SymbolRecord.spelled, SymbolRecord.kind_of_isApplied ha]
    have hnames {names : List String} :
        List.Forall₂ (fun s name => Called records (some s) name) r.templateArguments names ↔
          names = args.map d.arena.native :=
      hargs.forall₂_iff fun s _ id _ hslot name => h.called_iff hends hslot
    have hhead := hu.trans (head_unfilled r true).symm
    simp [SymbolRecord.isClass_of_isApplied ha, ha, hspelled, hnames, hl,
      UserType.identity_of_head hhead, eq_comm]

theorem identity?_eq_some_iff (h : d.arena.Settled records d.classes)
    (hends : d.arena.SpellingEnds) (hr : r ∈ records) {id : NodeId}
    (hid : d.arena.slot? r.id = some id) {key : Identity} :
    d.arena.identity? id = some key ↔ r.IdentifiedAs records key := by
  rw [← identityOf?_eq_some_iff h hends hr, identityOf?, hid, Option.bind_some]

/-- A class stands for itself if and only if its record comes first. -/
theorem standFor_eq_self_iff (h : d.arena.Settled records d.classes)
    (hends : d.arena.SpellingEnds) (hr : r ∈ records) (hk : r.kind.isClass = true) :
    d.standFor records r = r ↔ r.ComesFirst records := by
  obtain ⟨id, -, hid, -⟩ := h.drawn r hr
  obtain ⟨key, first, hkey, hfind, -⟩ := exists_first h hr hk hid
  have hthis := (identityOf?_eq_some_iff h hends hr).1 hkey
  have hunique {key' : Identity} (hkey' : r.IdentifiedAs records key') : key' = key := by
    have heq := (identityOf?_eq_some_iff h hends hr).2 hkey'
    exact Option.some.inj (heq.symm.trans hkey)
  have hstand : d.standFor records r = first := by
    rw [standFor, if_pos hk, hkey, hfind, Option.getD_some]
  rw [hstand]
  constructor
  · rintro rfl
    obtain ⟨-, before, after, hrecords, hbefore⟩ := List.find?_eq_some_iff_append.1 hfind
    refine ⟨before, after, hrecords, fun r' hr' key' hkey' hother => ?_⟩
    obtain rfl := hunique hkey'
    have hmem : r' ∈ records := by simp [hrecords, hr']
    have hsame := (identityOf?_eq_some_iff h hends hmem).2 hother
    simpa [hsame] using hbefore r' hr'
  · rintro ⟨before, after, hrecords, hbefore⟩
    have hfind' : records.find? (fun r' => d.identityOf? r' == some key) = some r := by
      refine List.find?_eq_some_iff_append.2 ⟨by simp [hkey], before, after, hrecords, ?_⟩
      intro r' hr'
      have hmem : r' ∈ records := by simp [hrecords, hr']
      have hother := hbefore r' hr' key hthis
      rw [← identityOf?_eq_some_iff h hends hmem] at hother
      simpa using hother
    exact Option.some.inj (hfind.symm.trans hfind')

end Draft

end NativeBindings
