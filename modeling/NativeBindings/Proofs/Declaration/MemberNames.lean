import NativeBindings.Proofs.Declaration.RawNames

/-!
# Names of members

Whatever native names the fields of a declaration have, its members have legal names, and none is
written twice. Yet two fields called `type` and one called `type_2` give `r#type`, `r#type_2` and
`type_2`, and the last two are one identifier (`Bindings.typeFields_clash`). A keyword with a
number, beside as many fields called by the keyword, is all that goes wrong
(`Struct.NamesMembers`, `Bindings.ofRecords_memberNames`).
-/

namespace NativeBindings

namespace Name

variable {s word : String} {k : Nat}

/-! ## Native names -/

/-- The word that a native name becomes. -/
def wordOf (native : String) : String :=
  String.ofList (identifier native.toList)

/-- What a field with a native name is called, unless that is taken. -/
def baseOf (native : String) : String :=
  String.ofList (memberIdentifier native.toList)

/-- A member is called by the word of its native name, raw if this is a keyword and with an
underscore if it must not be raw. -/
theorem baseOf_eq (native : String) : baseOf native =
    if wordOf native ∈ unrawable then wordOf native ++ "_"
    else if wordOf native ∈ keywords then "r#" ++ wordOf native else wordOf native := by
  have hraw (l : List Char) : String.ofList ('r' :: '#' :: l) = "r#" ++ String.ofList l :=
    String.toList_injective (by simp [String.toList_append])
  have hmember : memberIdentifier native.toList =
      if wordOf native ∈ unrawable then identifier native.toList ++ ['_']
      else if wordOf native ∈ keywords then 'r' :: '#' :: identifier native.toList
      else identifier native.toList := rfl
  rw [baseOf, hmember, apply_ite String.ofList, apply_ite String.ofList, String.ofList_append, hraw]
  rfl

theorem word_wordOf (native : String) : Word (wordOf native) :=
  Word.identifier native.toList

theorem legal_of_mem_unrawable (hs : s ∈ unrawable) : Legal (s ++ "_") := by
  have hall : ∀ s ∈ unrawable, Word (s ++ "_") ∧ s ++ "_" ∉ reserved := by decide +kernel
  exact ⟨(hall s hs).1, (hall s hs).2⟩

/-- So members are called by what may be repeated. -/
theorem memberBase_baseOf (native : String) : MemberBase (baseOf native) := by
  rw [baseOf_eq]
  split
  · next h => exact .plain (legal_of_mem_unrawable h)
  · next h =>
    split
    · next hkeyword => exact .keyword hkeyword
    · next hkeyword =>
      refine .plain ⟨word_wordOf native, fun hmem => ?_⟩
      exact (List.mem_append.1 hmem).elim hkeyword h

/-- The fields with a raw name are those whose word is a keyword. -/
theorem baseOf_eq_raw_iff {native : String} (hword : word ∈ keywords) :
    baseOf native = "r#" ++ word ↔ wordOf native = word := by
  rw [baseOf_eq]
  split
  · next h =>
    refine iff_of_false ((legal_of_mem_unrawable h).word.ne_raw word) ?_
    rintro rfl
    exact not_mem_unrawable_of_mem_keywords hword h
  · split
    · exact String.append_right_inj _
    · next hkeyword =>
      refine iff_of_false ((word_wordOf native).ne_raw word) ?_
      rintro rfl
      exact hkeyword hword

/-- The fields that are called by a keyword with a number are those with this word. -/
theorem baseOf_eq_repeated_iff {native : String} (hword : word ∈ keywords) (hk : k ≠ 1) :
    baseOf native = repeated word k ↔ wordOf native = repeated word k := by
  rw [baseOf_eq]
  split
  · next h =>
    have hdigits : ∀ s ∈ unrawable, (s ++ "_").toList.all (!·.isDigit) = true := by decide
    refine iff_of_false ?_ fun heq => repeated_not_mem_unrawable hword k (heq ▸ h)
    rw [repeated_of_ne word hk]
    exact (append_toString_ne (hdigits _ h) _ k).symm
  · split
    · next hkeyword =>
      refine iff_of_false (((word_of_mem_keywords hword).repeated k).ne_raw _).symm ?_
      intro heq
      exact repeated_not_mem_reserved word hk (heq ▸ mem_reserved_of_mem_keywords hkeyword)
    · rfl

end Name

open Name

/-! ## Structs -/

/-- The members of a struct have legal names and none is written twice. They denote different
identifiers unless some keyword is what several fields are called, and a keyword with a number
up to how many these are is what another field is called. -/
structure Struct.NamesMembers (t : Struct) (natives : List String) : Prop where
  legal : ∀ m ∈ t.members, LegalMember m.name
  nodup : (t.members.map (·.name)).Nodup
  distinct_iff : (t.members.map fun m => denoted m.name).Nodup ↔
    ∀ word ∈ keywords, ∀ k, 2 ≤ k → k ≤ (natives.map wordOf).count word →
      repeated word k ∉ natives.map wordOf

theorem legal_markerName : Legal Catalog.markerName :=
  ⟨by decide, by decide⟩

/-- Names that fields take, and a marker behind them, are such names. -/
theorem Struct.namesMembers_of_allotted {t : Struct} {natives : List String} (marker : List String)
    (h : Allotted [] (natives.map baseOf ++ marker) (t.members.map (·.name)))
    (hmarker : ∀ b ∈ marker, b = Catalog.markerName) : t.NamesMembers natives := by
  have hbases : ∀ b ∈ natives.map baseOf ++ marker, MemberBase b := by
    intro b hb
    rcases List.mem_append.1 hb with hb | hb
    · obtain ⟨native, -, rfl⟩ := List.mem_map.1 hb
      exact memberBase_baseOf native
    · exact hmarker b hb ▸ .plain legal_markerName
  have hcount {word : String} (hword : word ∈ keywords) :
      (natives.map baseOf ++ marker).count ("r#" ++ word) = (natives.map wordOf).count word := by
    have hnone : marker.count ("r#" ++ word) = 0 := List.count_eq_zero.2 fun hmem =>
      legal_markerName.word.ne_raw word (hmarker _ hmem).symm
    rw [List.count_append, hnone, Nat.add_zero, List.count, List.count, List.countP_map,
      List.countP_map]
    exact List.countP_congr fun native _ => by simpa using baseOf_eq_raw_iff hword
  have hmem {word : String} (hword : word ∈ keywords) {k : Nat} (hk : 2 ≤ k) :
      repeated word k ∈ natives.map baseOf ++ marker ↔ repeated word k ∈ natives.map wordOf := by
    have hne : repeated word k ∉ marker := fun hmem => by
      have heq := hmarker _ hmem
      rw [repeated_of_ne word (by omega)] at heq
      exact append_toString_ne (by decide) _ k heq
    rw [List.mem_append, or_iff_left hne, List.mem_map, List.mem_map]
    exact exists_congr fun native => and_congr_right fun _ =>
      baseOf_eq_repeated_iff hword (by omega)
  refine ⟨fun m hm => ?_, h.nodup, ?_⟩
  · obtain ⟨b, hb, k, -, heq⟩ := h.exists_base (List.mem_map_of_mem hm)
    exact heq ▸ (hbases b hb).legalMember_repeated k
  · rw [← Function.comp_def, ← List.map_map, h.nodup_denoted_iff hbases]
    refine forall₂_congr fun word hword => forall₂_congr fun k hk => ?_
    rw [hcount hword, hmem hword hk]

namespace Catalog

/-- Fields get their names one after the other. -/
theorem allotted_nameFields (taken natives : List String) :
    Allotted taken (natives.map baseOf) (nameFields taken natives) := by
  induction natives generalizing taken with
  | nil => exact .nil
  | cons native natives ih =>
    obtain ⟨k, hname, hk⟩ := exists_distinct taken (baseOf native)
    have hfirst : nameFields taken (native :: natives) =
        repeated (baseOf native) k :: nameFields (repeated (baseOf native) k :: taken) natives := by
      rw [← hname]
      rfl
    exact hfirst ▸ .cons hk (ih _)

/-- The native names of the fields of a subject. -/
def fieldNames (c : Catalog) : Subject → List String
  | .user id => ((c.graph.arena.user? id).map (·.fields.map (·.name))).getD []
  | .specialized id => ((c.graph.layoutType? id).map (·.fields.map (·.name))).getD []
  | .generic family => ((c.planned.plan.layout? family).map (·.fields.map (·.name))).getD []

theorem map_name_zip {α : Type} (natives : List String) (fields : List α)
    (hlen : natives.length = fields.length) (kind : α → MemberKind) :
    (((nameFields [] natives).zip fields).map fun x =>
      (⟨x.1, kind x.2⟩ : Member)).map (·.name) = nameFields [] natives := by
  rw [List.map_map]
  exact List.map_fst_zip (by rw [length_nameFields, hlen])

/-- The members of a type are named after its fields. -/
theorem namesMembers_concreteStruct (c : Catalog) (documented specialized : Bool)
    (ident : String) (u : UserType) :
    (c.concreteStruct documented ident specialized u).NamesMembers (u.fields.map (·.name)) := by
  refine Struct.namesMembers_of_allotted [] ?_ (by simp)
  have hnames := map_name_zip (u.fields.map (·.name)) u.fields (List.length_map _)
    fun f => .field (some f.offset) (c.refTo f.type) (c.enumAt? f.type)
  rw [List.append_nil]
  exact hnames ▸ allotted_nameFields [] _

/-- The members of a family are named after the fields of its layout. The marker comes last and is
called by what these leave free. -/
theorem namesMembers_genericStruct (c : Catalog) (documented : Bool) (ident : String)
    (family : Nat) (l : SharedLayout) :
    (c.genericStruct documented ident family l).NamesMembers (l.fields.map (·.name)) := by
  have hnames := map_name_zip (l.fields.map (·.name)) l.fields (List.length_map _) c.genericKind
  have hfields := allotted_nameFields [] (l.fields.map (·.name))
  obtain ⟨k, hmarker, hk⟩ := exists_distinct (nameFields [] (l.fields.map (·.name))) markerName
  have hmembers : (c.genericStruct documented ident family l).members.map (·.name) =
      nameFields [] (l.fields.map (·.name)) ++
        if writesAll l then [] else [repeated markerName k] := by
    change (c.genericMembers l).map (·.name) = _
    unfold genericMembers
    split
    · exact hnames.trans (List.append_nil _).symm
    · dsimp only
      rw [List.map_append, hnames, hmarker]
      rfl
  cases hall : writesAll l with
  | true =>
    rw [hall, if_pos rfl, List.append_nil] at hmembers
    refine Struct.namesMembers_of_allotted [] ?_ (by simp)
    rw [hmembers, List.append_nil]
    exact hfields
  | false =>
    rw [hall, if_neg Bool.false_ne_true] at hmembers
    refine Struct.namesMembers_of_allotted [markerName] ?_ (by simp)
    rw [hmembers]
    exact hfields.concat (by rwa [List.append_nil])

/-- So the members of every declaration are named after its fields. -/
theorem namesMembers_of_struct? {c : Catalog} {documented : Bool} {ident : String} {s : Subject}
    {t : Struct} (h : c.struct? documented ident s = some t) :
    t.NamesMembers (c.fieldNames s) := by
  cases s with
  | user id =>
    obtain ⟨u, hu, rfl⟩ := Option.map_eq_some_iff.1 h
    rw [fieldNames, hu]
    exact c.namesMembers_concreteStruct documented false ident u
  | specialized id =>
    obtain ⟨u, hu, rfl⟩ := Option.map_eq_some_iff.1 h
    rw [fieldNames, hu]
    exact c.namesMembers_concreteStruct documented true ident u
  | generic family =>
    obtain ⟨l, hl, rfl⟩ := Option.map_eq_some_iff.1 h
    rw [fieldNames, hl]
    exact c.namesMembers_genericStruct documented ident family l

end Catalog

namespace Bindings

/-- Whenever bindings are generated, the members of every declaration have legal names and none
is written twice. They denote different identifiers if and only if there is no keyword that is
what `n` fields are called, with a number from two to `n` that makes it what another field is
called. -/
theorem ofRecords_memberNames {options : Options} {records : List SymbolRecord} {b : Bindings}
    (h : ofRecords options records = .ok b) :
    ∃ g w, TypeGraph.ofRecords options records = .ok (g, w) ∧
      b.declarations.Perm ((g.catalog options).entries.map fun e =>
        (g.catalog options).declaration options.documented e.1 e.2) ∧
      ∀ e ∈ (g.catalog options).entries, ∃ t,
        (g.catalog options).struct? options.documented e.2.ident e.1 = some t ∧
          ((g.catalog options).declaration options.documented e.1 e.2).text = t.text ∧
            t.NamesMembers ((g.catalog options).fieldNames e.1) := by
  obtain ⟨g, w, hgraph, hperm, hstructs⟩ := exists_structs h
  refine ⟨g, w, hgraph, hperm, fun e he => ?_⟩
  obtain ⟨t, ht, htext, -⟩ := hstructs e he
  exact ⟨t, ht, htext, Catalog.namesMembers_of_struct? ht⟩

/-- Fields whose native names are no identifiers, and a template that does not use its parameter. -/
def oddFields : List SymbolRecord :=
  [.ofPrimitive ⟨1⟩ "int" 4,
    ((((((SymbolRecord.ofUserType ⟨2⟩ "Odd" 24).addField "type" ⟨1⟩ 0).addField "type" ⟨1⟩
      4).addField "self" ⟨1⟩ 8).addField "" ⟨1⟩ 12).addField "a.b" ⟨1⟩ 16).addField "a_b" ⟨1⟩ 20,
    (SymbolRecord.ofInstantiation ⟨3⟩ "Tag<Odd>" 4 [⟨2⟩]).addField "_params" ⟨1⟩ 0]

theorem exists_ofRecords_oddFields : ∃ g w, TypeGraph.ofRecords {} oddFields = .ok (g, w) ∧
    (∀ e ∈ (g.catalog {}).entries, ∀ word ∈ keywords, ∀ k < 7, 2 ≤ k →
      k ≤ (((g.catalog {}).fieldNames e.1).map wordOf).count word →
        repeated word k ∉ ((g.catalog {}).fieldNames e.1).map wordOf) ∧
    (g.catalog {}).entries.map (fun e => ((g.catalog {}).fieldNames e.1).length) = [6, 1] ∧
    (g.catalog {}).entries.map (fun e => ((g.catalog {}).struct? true e.2.ident e.1).map fun t =>
      t.members.map (·.name)) =
        [some ["r#type", "r#type_2", "self_", "__", "a_b", "a_b_2"], some ["params", "_params"]] :=
  TypeGraph.exists_ofRecords_and (by decide +kernel)

/-- All of their names denote different identifiers. -/
theorem oddFields_distinct : ∃ b, ofRecords {} oddFields = .ok b ∧ ∃ g w,
    TypeGraph.ofRecords {} oddFields = .ok (g, w) ∧ (g.catalog {}).entries.length = 2 ∧
      ∀ e ∈ (g.catalog {}).entries, ∃ t, (g.catalog {}).struct? true e.2.ident e.1 = some t ∧
        (t.members.map fun m => denoted m.name).Nodup := by
  obtain ⟨g, w, hgraph, hfree, hlengths, -⟩ := exists_ofRecords_oddFields
  obtain ⟨b, hb⟩ : ∃ b, ofRecords {} oddFields = .ok b := exists_eq_ok (by decide +kernel)
  obtain ⟨g', w', hgraph', -, hnames⟩ := ofRecords_memberNames hb
  obtain ⟨rfl, rfl⟩ := Prod.mk.inj (Except.ok.inj (hgraph.symm.trans hgraph'))
  refine ⟨b, hb, g, w, hgraph, ?_, fun e he => ?_⟩
  · simpa using congrArg List.length hlengths
  · obtain ⟨t, ht, -, hmembers⟩ := hnames e he
    refine ⟨t, ht, hmembers.distinct_iff.2 fun word hword k hk hcount => ?_⟩
    refine hfree e he word hword k ?_ hk hcount
    have hlength : ((g.catalog {}).fieldNames e.1).length ∈ [6, 1] :=
      hlengths ▸ List.mem_map_of_mem he
    have hle := hcount.trans List.count_le_length
    rw [List.length_map] at hle
    simp only [List.mem_cons, List.not_mem_nil, or_false] at hlength
    omega

/-- A class with two fields that are called by a keyword, and one that is called by what the
number of the second makes of it. -/
def typeFields : List SymbolRecord :=
  [.ofPrimitive ⟨1⟩ "int" 4,
    (((SymbolRecord.ofUserType ⟨2⟩ "Info" 12).addField "type" ⟨1⟩ 0).addField "type" ⟨1⟩
      4).addField "type_2" ⟨1⟩ 8]

theorem exists_ofRecords_typeFields : ∃ g w, TypeGraph.ofRecords {} typeFields = .ok (g, w) ∧
    (g.catalog {}).entries.map (fun e => ((g.catalog {}).struct? true e.2.ident e.1).map fun t =>
      t.members.map (·.name)) = [some ["r#type", "r#type_2", "type_2"]] :=
  TypeGraph.exists_ofRecords_and (by decide +kernel)

/-- The second field and the third one are declared under one identifier. -/
theorem typeFields_clash : ∃ b, ofRecords {} typeFields = .ok b ∧ ∃ d ∈ b.declarations,
    ∃ t : Struct, d.text = t.text ∧ t.members.map (·.name) = ["r#type", "r#type_2", "type_2"] ∧
      ¬(t.members.map fun m => denoted m.name).Nodup := by
  obtain ⟨g, w, hgraph, hentries⟩ := exists_ofRecords_typeFields
  obtain ⟨b, hb⟩ : ∃ b, ofRecords {} typeFields = .ok b := exists_eq_ok (by decide +kernel)
  obtain ⟨g', w', hgraph', hwritten⟩ := exists_of_ofRecords hb
  obtain ⟨rfl, rfl⟩ := Prod.mk.inj (Except.ok.inj (hgraph.symm.trans hgraph'))
  obtain ⟨e, he, heq⟩ := List.mem_map.1 (hentries ▸ List.mem_singleton_self _)
  obtain ⟨t, ht, hnames⟩ := Option.map_eq_some_iff.1 heq
  have hd := (Catalog.declarations_perm hwritten).mem_iff.2 (List.mem_map_of_mem he)
  refine ⟨b, hb, _, hd, t, ?_, hnames, ?_⟩
  · have ht' : (g.catalog {}).struct? ({} : Options).documented e.2.ident e.1 = some t := ht
    rw [Catalog.declaration, ht']
  · have hmap : (t.members.map fun m => denoted m.name) =
        ["r#type", "r#type_2", "type_2"].map denoted := by
      rw [← hnames, List.map_map]
      rfl
    rw [hmap]
    decide

end Bindings

end NativeBindings
