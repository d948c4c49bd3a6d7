import NativeBindings.Proofs.Graph.Acceptance
import NativeBindings.Proofs.Graph.Depiction
import NativeBindings.Proofs.Graph.MissingArguments

/-!
# The order of records

Records come in no particular order. Which slots symbols get, who mentions them first and which
class stands for its duplicates all depend on the order. Where there are no duplicates, nothing
that can be seen of the graph does: the records are accepted in every order, and every symbol
shows the same (`TypeGraph.ofRecords_perm`).

Two facts carry this. That no class is discarded is a matter of the identities of the records,
which are the same in any order (`TypeGraph.keepsAll_iff_distinct`). And without duplicates
no link is sent on, so that the graph depicts its records (`TypeGraph.depicts_of_keepsAll`).
-/

namespace NativeBindings

open Relation

/-! ## What the order leaves alone -/

section

variable {records records' : List SymbolRecord} (hperm : records.Perm records')

include hperm

theorem Called.perm {s : Option SymbolId} {name : String} (h : Called records s name) :
    Called records' s name := by
  induction h with
  | void => exact .void
  | missing hs => exact .missing (mt (hperm.map (·.id)).mem_iff.2 hs)
  | primitive hr hk => exact .primitive (hperm.mem_iff.1 hr) hk
  | pointer hr hk _ ih => exact .pointer (hperm.mem_iff.1 hr) hk ih
  | array hr hk _ ih => exact .array (hperm.mem_iff.1 hr) hk ih
  | enumeration hr hk => exact .enumeration (hperm.mem_iff.1 hr) hk
  | ofClass hr hk => exact .ofClass (hperm.mem_iff.1 hr) hk

namespace SymbolRecord

variable {r : SymbolRecord}

/-- What a record is identified as does not depend on the order of records. -/
theorem IdentifiedAs.perm {key : Identity} (h : r.IdentifiedAs records key) :
    r.IdentifiedAs records' key := by
  obtain ⟨hk, args, hargs, rfl⟩ := h
  exact ⟨hk, args, hargs.imp fun _ _ hcalled => hcalled.perm hperm, rfl⟩

theorem HasBadBase.perm (h : r.HasBadBase records) : r.HasBadBase records' := by
  obtain ⟨hk, b, hb, hbase⟩ := h
  exact ⟨hk, b, hperm.mem_iff.1 hb, hbase⟩

end SymbolRecord

theorem SpelledWith.perm {s t : SymbolId} (h : SpelledWith records s t) :
    SpelledWith records' s t := by
  obtain ⟨r, hr, hst⟩ := h
  exact ⟨r, hperm.mem_iff.1 hr, hst⟩

theorem Readable.perm {options : Options} (h : Readable options records) :
    Readable options records' where
  nodup := (hperm.map (·.id)).nodup_iff.1 h.nodup
  named r hr := h.named r (hperm.mem_iff.2 hr)
  recorded := h.recorded.imp_right fun hall r hr s hs =>
    (hperm.map (·.id)).mem_iff.1 (hall r (hperm.mem_iff.2 hr) s hs)
  acyclic s hring := h.acyclic s (hring.lift id fun _ _ hst => hst.perm hperm.symm)

end

/-! ## Distinct classes -/

/-- No two of the records are of classes with one identity. -/
def DistinctClasses (records : List SymbolRecord) : Prop :=
  ∀ r ∈ records, ∀ r' ∈ records, ∀ key, r.IdentifiedAs records key →
    r'.IdentifiedAs records key → r = r'

namespace DistinctClasses

variable {records records' : List SymbolRecord}

theorem perm (hperm : records.Perm records') (h : DistinctClasses records) :
    DistinctClasses records' := fun r hr r' hr' key hkey hkey' =>
  h r (hperm.mem_iff.2 hr) r' (hperm.mem_iff.2 hr') key (hkey.perm hperm.symm)
    (hkey'.perm hperm.symm)

/-- Of distinct classes, every one comes first. -/
theorem comesFirst (h : DistinctClasses records) (hnodup : (records.map (·.id)).Nodup)
    {r : SymbolRecord} (hr : r ∈ records) : r.ComesFirst records := by
  obtain ⟨before, after, hrecords⟩ := List.append_of_mem hr
  refine ⟨before, after, hrecords, fun r' hr' key hkey hkey' => ?_⟩
  obtain rfl := h r hr r' (by simp [hrecords, hr']) key hkey hkey'
  rw [hrecords, List.map_append, List.nodup_append] at hnodup
  exact hnodup.2.2 r.id (List.mem_map_of_mem hr') r.id (by simp) rfl

/-- Records of distinct classes are accepted in any order. -/
theorem exists_ofRecords (h : DistinctClasses records) (hperm : records.Perm records')
    {options : Options} (hok : ∃ x, TypeGraph.ofRecords options records = .ok x) :
    ∃ x, TypeGraph.ofRecords options records' = .ok x := by
  obtain ⟨hread, hbases⟩ := TypeGraph.exists_ofRecords_iff.1 hok
  refine TypeGraph.exists_ofRecords_iff.2 ⟨hread.perm hperm, fun r hr _ hbad => ?_⟩
  have hr' := hperm.mem_iff.2 hr
  exact hbases r hr' (h.comesFirst hread.nodup hr') (hbad.perm hperm.symm)

end DistinctClasses

/-! ## Graphs that keep all classes -/

/-- Where every class is first, no node is sent to another. -/
theorem Arena.Settled.standIn_eq_self {a : Arena} {records : List SymbolRecord}
    {classes : List NodeId} (h : a.Settled records classes)
    (hfirst : ∀ c ∈ classes, a.firstLike classes c = c) (x : NodeId) :
    a.standIn classes x = x := by
  rcases h.standIn_cases x with ⟨hmem, heq⟩ | ⟨j, hj, -, -, hl, -, hm, -⟩ | heq
  · rw [heq, hfirst x hmem]
  · rw [hfirst j hj] at hm
    exact Option.some.inj (hm.symm.trans hl)
  · exact heq

namespace TypeGraph

/-- No user type of the graph was discarded as a duplicate. -/
def KeepsAll (g : TypeGraph) : Prop :=
  ∀ n ∈ g.arena.nodes, ∀ u ∈ n.userType?, u.state.counts = true

instance : DecidablePred KeepsAll := fun g =>
  inferInstanceAs (Decidable (∀ n ∈ g.arena.nodes, ∀ u ∈ n.userType?, u.state.counts = true))

/-- A graph keeps all classes if every layout counts. -/
theorem keepsAll_iff {g : TypeGraph} :
    g.KeepsAll ↔ ∀ {x u}, g.arena.user? x = some u → u.state.counts = true := by
  constructor
  · intro h x u hu
    exact h (.user u) (Array.mem_of_getElem? (Arena.node?_user hu)) u rfl
  · intro h n hn u hu
    obtain ⟨x, hx⟩ := Array.mem_iff_getElem?.1 hn
    exact h (x := x) (Option.bind_eq_some_iff.2 ⟨n, hx, hu⟩)

variable {options : Options} {records records' : List SymbolRecord} {g : TypeGraph}
  {w : Diagnostics}

/-- A graph keeps all classes if and only if every class of the draft is first. -/
theorem keepsAll_iff_firstLike (h : ofRecords options records = .ok (g, w)) {d : Draft}
    (hd : Draft.settled options records = .ok d) :
    g.KeepsAll ↔ ∀ c ∈ d.classes, d.arena.firstLike d.classes c = c := by
  obtain ⟨d₁, hd₁, -, hs, hf⟩ := exists_finishes h
  obtain rfl := Except.ok.inj (hd.symm.trans hd₁)
  obtain ⟨d₂, hd₂, -, -, hm⟩ := marked_of_ofRecords h
  obtain rfl := Except.ok.inj (hd.symm.trans hd₂)
  rw [keepsAll_iff]
  constructor
  · intro hkeeps c hc
    by_contra hne
    obtain ⟨l, u, m, -, hu, -, -, hstate⟩ := exists_discarded hs hf hm hc hne
    have hcounts := hkeeps hu
    rw [hstate] at hcounts
    cases hcounts
  · intro hfirst x v hv
    have hstay := hs.standIn_eq_self hfirst x
    have hlt := Arena.lt_size_of_node? (Arena.node?_user hv)
    obtain ⟨n, hn⟩ := Arena.exists_node?_of_lt (hf.size ▸ hlt)
    cases n with
    | user u =>
      obtain ⟨v', hv', -, hstate, -⟩ := hm.user (Arena.user?_of_node? hn)
      obtain rfl := Option.some.inj (hv.symm.trans hv')
      rw [hstate, ← hstay]
      exact hs.counts_standIn (hs.sound.underway hn)
    | _ =>
      have hnode := (Arena.node?_user hv).symm.trans (hf.node hn rfl)
      simp [Node.mapLinks] at hnode

/-- A graph keeps all classes if and only if the records say that they are distinct. -/
theorem keepsAll_iff_distinct (h : ofRecords options records = .ok (g, w)) :
    g.KeepsAll ↔ DistinctClasses records := by
  obtain ⟨d, hd, hspell, hs, hf⟩ := exists_finishes h
  have hends := (Arena.checkSpelling_eq_ok_iff fun _ _ => hs.spells_lt).1 hspell
  rw [keepsAll_iff_firstLike h hd]
  constructor
  · intro hfirst r hr r' hr' key hkey hkey'
    obtain ⟨id, hmem, hid⟩ := hs.exists_class hr hkey.1
    obtain ⟨id', hmem', hid'⟩ := hs.exists_class hr' hkey'.1
    have hidentity := (Draft.identity?_eq_some_iff hs hends hr hid).2 hkey
    have hidentity' := (Draft.identity?_eq_some_iff hs hends hr' hid').2 hkey'
    have hsame := Arena.firstLike_eq_of_identity? hmem hmem' (hidentity.trans hidentity'.symm)
    rw [hfirst id hmem, hfirst id' hmem'] at hsame
    exact List.inj_on_of_nodup_map hs.nodup hr hr' (hs.sound.slot_inj hid (hsame ▸ hid'))
  · intro hdistinct c hc
    obtain ⟨r, hr, -, hid⟩ := hs.mem_classes_iff.1 hc
    obtain ⟨r', hr', -, hid'⟩ := hs.mem_classes_iff.1 (Arena.firstLike_mem (a := d.arena) hc)
    obtain ⟨key, hkey⟩ := hs.exists_identity hc
    have hkey' := (Arena.identity?_firstLike hc).trans hkey
    obtain rfl := hdistinct r hr r' hr' key
      ((Draft.identity?_eq_some_iff hs hends hr hid).1 hkey)
      ((Draft.identity?_eq_some_iff hs hends hr' hid').1 hkey')
    exact Option.some.inj (hid'.symm.trans hid)

/-- Without duplicates a graph depicts its records. -/
theorem depicts_of_keepsAll (h : ofRecords options records = .ok (g, w)) (hkeeps : g.KeepsAll) :
    g.Depicts records := by
  obtain ⟨d, hd, -, hs, hf⟩ := exists_finishes h
  have hfirst := (keepsAll_iff_firstLike h hd).1 hkeeps
  have hstay : d.arena.standIn d.classes = id := funext (hs.standIn_eq_self hfirst)
  have hslot (s : SymbolId) : g.nodeOf? s = d.arena.slot? s := by
    rw [nodeOf?, hf.slot, hstay, Option.map_id, id]
  have hnode {x : NodeId} {n : Node} (hn : d.arena.node? x = some n) (hu : n.userType? = none) :
      g.arena.node? x = some n := by
    rw [hf.node hn hu, hstay, n.mapLinks_id]
  have hgrow : d.arena.Grows g.arena := by
    refine ⟨Nat.le_of_eq hf.size.symm, fun hx => (hslot _).trans hx, fun hx => hf.shared ▸ hx,
      fun {x n} hn => ?_⟩
    cases n with
    | user u =>
      obtain ⟨v, hv, hhead, -⟩ := hf.user (Arena.user?_of_node? hn)
      exact ⟨_, Arena.node?_user hv, .user hhead⟩
    | _ => exact ⟨_, hnode hn rfl, .same _⟩
  obtain ⟨draft, ws, hdraft, hsettle⟩ := Draft.settled_eq_ok_iff.1 hd
  obtain ⟨-, hdeg⟩ := Draft.settle_spec hsettle
  refine ⟨hnode hs.sound.void rfl, fun hx => ?_, fun {s} => ?_,
    fun r hr => (hs.drawn r hr).grow hgrow, fun hx hmissing => ?_, fun r hr hk => ?_⟩
  · exact hnode (hs.sound.shared (hf.shared ▸ hx)) rfl
  · rw [hslot, hdeg.slot]
    constructor
    · rintro ⟨x, hx⟩
      exact Draft.slotsIn_ofRecords hdraft s x hx
    · rintro (hs' | ⟨r, hr, hs'⟩)
      · obtain ⟨r, hr, rfl⟩ := List.mem_map.1 hs'
        obtain ⟨x, -, hx, -⟩ := (Draft.ofRecords_spec hdraft).1.drawn r hr
        exact ⟨x, hx⟩
      · exact Draft.exists_slot?_of_followed hdraft hr hs'
  · exact hnode (hs.missing (hslot _ ▸ hx) hmissing) rfl
  · obtain ⟨x, hx, hid⟩ := hs.exists_class hr hk
    have hkept : x ∈ g.classes := hf.mem_classes.2 ⟨hx, hfirst x hx⟩
    obtain ⟨l, u, -, hl, hu, hlays⟩ := hf.exists_laysOut hs hr hk hid hkept
    refine ⟨x, u, (hslot _).trans hid, ?_, hlays⟩
    rw [layoutType?, Arena.layoutType?, hl]
    exact hu

/-- Where no class is discarded, the order of the records does not matter: they are accepted in
any order, again no class is discarded, and every symbol shows the same or has no place in both
graphs. -/
theorem ofRecords_perm (h : ofRecords options records = .ok (g, w)) (hkeeps : g.KeepsAll)
    (hperm : records.Perm records') : ∃ g' w', ofRecords options records' = .ok (g', w') ∧
      g'.KeepsAll ∧ ∀ s, (g.nodeOf? s).map g.view = (g'.nodeOf? s).map g'.view := by
  have hdistinct := (keepsAll_iff_distinct h).1 hkeeps
  obtain ⟨⟨g', w'⟩, h'⟩ := hdistinct.exists_ofRecords hperm ⟨_, h⟩
  have hkeeps' : g'.KeepsAll := (keepsAll_iff_distinct h').2 (hdistinct.perm hperm)
  have hdepicts := (depicts_of_keepsAll h hkeeps).perm hperm
  exact ⟨g', w', h', hkeeps', hdepicts.view_eq (depicts_of_keepsAll h' hkeeps')⟩

/-- Two classes that point at each other, one of them the base of the other, and an
instantiation over an enum; a pointer leads to a class without a record. -/
def linkedTypes : List SymbolRecord :=
  [(SymbolRecord.ofUserType ⟨1⟩ "ui::Widget" 16).addField "owner" ⟨2⟩ 0,
    .ofPointer ⟨2⟩ (some ⟨3⟩) 8,
    ((SymbolRecord.ofUserType ⟨3⟩ "ui::Window" 32).addBase ⟨1⟩).addField "front" ⟨4⟩ 16,
    .ofPointer ⟨4⟩ (some ⟨1⟩) 8,
    (SymbolRecord.ofInstantiation ⟨5⟩ "Box<Colour>" 8 [⟨6⟩]).addField "hidden" ⟨7⟩ 0,
    .ofEnumeration ⟨6⟩ "Colour" 4 none,
    .ofPointer ⟨7⟩ (some ⟨9⟩) 8]

/-- Read backwards, nearly every symbol gets another slot, and all show the same. -/
theorem linkedTypes_reversed : ∃ g w g' w',
    ofRecords { allowMissing := true } linkedTypes = .ok (g, w) ∧
      ofRecords { allowMissing := true } linkedTypes.reverse = .ok (g', w') ∧
      g.nodeOf? ⟨3⟩ ≠ g'.nodeOf? ⟨3⟩ ∧
      ∀ s, (g.nodeOf? s).map g.view = (g'.nodeOf? s).map g'.view := by
  obtain ⟨g, w, h, hkeeps, hslot⟩ : ∃ g w,
      ofRecords { allowMissing := true } linkedTypes = .ok (g, w) ∧
        g.KeepsAll ∧ g.nodeOf? ⟨3⟩ = some 4 := exists_ofRecords_and (by decide +kernel)
  obtain ⟨g₁, w₁, h₁, hslot₁⟩ : ∃ g w,
      ofRecords { allowMissing := true } linkedTypes.reverse = .ok (g, w) ∧
        g.nodeOf? ⟨3⟩ ≠ some 4 := exists_ofRecords_and (by decide +kernel)
  obtain ⟨g', w', h', -, hview⟩ := ofRecords_perm h hkeeps linkedTypes.reverse_perm.symm
  obtain ⟨rfl, rfl⟩ := Prod.mk.inj (Except.ok.inj (h₁.symm.trans h'))
  exact ⟨g, w, g₁, w₁, h, h₁, hslot ▸ hslot₁.symm, hview⟩

end TypeGraph

end NativeBindings
