import NativeBindings.Proofs.Declaration.FieldLines
import NativeBindings.Proofs.Name.Spaced
import NativeBindings.Proofs.Text.Literals

/-!
# Enums in attributes

The attribute of a field whose type is an enum names the enum and lists its constants. The name of
a declared type is written so that it is read back, but the name of an enum only stands between
quotes: it is read back if and only if nothing in it has a meaning there
(`Bindings.ofRecords_quotes`), and the enum `Tag<'"'>` is cut short (`Bindings.quotedTag_cut`).

The constants are listed by identifiers, none of which are numbered. So they are told apart if and
only if no two of their native names are spaced alike (`Bindings.ofRecords_constants`), and `None`
and `_None` are listed under one identifier (`Bindings.twoNones_alike`).
-/

namespace NativeBindings

/-! ## The records of enums -/

/-- Every enum of a graph that is built shows a record. -/
theorem TypeGraph.exists_record_of_enumeration {options : Options} {records : List SymbolRecord}
    {g : TypeGraph} {w : Diagnostics} (h : ofRecords options records = .ok (g, w)) {x : NodeId}
    {e : EnumType} (hx : g.arena.node? x = some (.enumeration e)) :
    ∃ r ∈ records, r.kind = .enumeration ∧ e.nativeName = r.name ∧
      e.members = r.enumerators.map fun m => ⟨m.name, m.value⟩ := by
  obtain ⟨d, -, -, hs, hf⟩ := exists_finishes h
  obtain ⟨n, hn, -, heq⟩ := hf.exists_node? hx rfl
  cases n with
  | enumeration drawn =>
    obtain rfl := Node.enumeration.inj heq
    obtain ⟨r, hr, hslot⟩ := hs.origin hn rfl
    obtain ⟨_, _, hslot', hn', hdraws⟩ := hs.drawn r hr
    obtain rfl := Option.some.inj (hslot.symm.trans hslot')
    obtain rfl := Option.some.inj (hn.symm.trans hn')
    cases hdraws with
    | enumeration hk _ => exact ⟨r, hr, hk, rfl, rfl⟩
  | _ => cases heq

namespace Catalog

variable {c : Catalog}

theorem node?_of_enumAt? {x : NodeId} {e : EnumType} (h : c.enumAt? x = some e) :
    c.graph.arena.node? x = some (.enumeration e) := by
  unfold enumAt? at h
  split at h
  · next e' hx => exact Option.some.inj h ▸ hx
  · cases h

/-- A member that carries an enum has it from a node. The marker carries none. -/
theorem exists_enumeration_of_mem {documented : Bool} {ident : String} {s : Subject} {t : Struct}
    (h : c.struct? documented ident s = some t) {m : Member} (hm : m ∈ t.members)
    {offset : Option UInt64} {type : TypeRef} {e : EnumType}
    (hkind : m.kind = .field offset type (some e)) :
    ∃ x, c.graph.arena.node? x = some (.enumeration e) := by
  have hconcrete {u : UserType} (hm : m ∈ c.members u) :
      ∃ x, c.graph.arena.node? x = some (.enumeration e) := by
    obtain ⟨⟨name, f⟩, -, rfl⟩ := List.mem_map.1 hm
    exact ⟨f.type, node?_of_enumAt? (MemberKind.field.inj hkind).2.2⟩
  cases s with
  | user x =>
    obtain ⟨u, -, rfl⟩ := Option.map_eq_some_iff.1 h
    exact hconcrete hm
  | specialized x =>
    obtain ⟨u, -, rfl⟩ := Option.map_eq_some_iff.1 h
    exact hconcrete hm
  | generic family =>
    obtain ⟨l, -, rfl⟩ := Option.map_eq_some_iff.1 h
    have hfield {fields : List (String × SharedField)}
        (hm : m ∈ fields.map fun x => (⟨x.1, c.genericKind x.2⟩ : Member)) :
        ∃ x, c.graph.arena.node? x = some (.enumeration e) := by
      obtain ⟨⟨name, f⟩, -, rfl⟩ := List.mem_map.1 hm
      have henum := (MemberKind.field.inj hkind).2.2
      split at henum
      · next id _ _ => exact ⟨id, node?_of_enumAt? henum⟩
      · cases henum
    have hmembers : m ∈ c.genericMembers l := hm
    unfold genericMembers at hmembers
    split at hmembers
    · exact hfield hmembers
    · rcases List.mem_append.1 hmembers with hmem | hmem
      · exact hfield hmem
      · obtain rfl := List.mem_singleton.1 hmem
        cases hkind

end Catalog

/-! ## Attributes -/

namespace MemberKind

/-- What follows the name of an enum in the attribute of a field. -/
def valueList (e : EnumType) : String :=
  commaList (e.members.map constant) ++ "))]"

theorem attr_enumeration (offset : Option UInt64) (type : TypeRef) (e : EnumType) :
    (field offset type (some e)).attr = "#[field(" ++ place offset ++ ", enumeration = " ++
      ("\"" ++ e.nativeName ++ "\"" ++ (", values(" ++ valueList e)) := by
  refine String.toList_injective ?_
  simp [attr, constants, valueList, commaList, String.intercalate_cons_cons, String.toList_append]

/-- The list of constants holds no quote. -/
theorem quote_not_mem_valueList (e : EnumType) : '"' ∉ (", values(" ++ valueList e).toList := by
  have hconstant (m : EnumConstant) : '"' ∉ (constant m).toList := by
    have hword : '"' ∉ Name.identifier m.name.toList := fun hmem =>
      absurd (Name.isWord_of_mem_identifier hmem) (by decide)
    have hvalue : '"' ∉ (toString m.value.toInt).toList := fun hmem =>
      absurd (Text.isDigit_of_mem_toString_int hmem) (by decide)
    simpa [constant, String.toList_append] using ⟨hword, hvalue⟩
  have hlist : '"' ∉ (commaList (e.members.map constant)).toList :=
    Text.not_mem_intercalate (by decide) (List.forall_mem_map.2 fun m _ => hconstant m)
  simpa [valueList, String.toList_append] using hlist

end MemberKind

/-- The name of a declared type comes first in its attribute. -/
theorem NativeType.exists_attr_eq (t : NativeType) (arity : Nat) :
    ∃ rest, t.attr arity = "#[native_type(name = " ++ (Text.quoted t.name ++ rest) := by
  have hfirst (first : String) (parts : List String) :
      ∃ rest, commaList (first :: parts) = first ++ rest := by
    cases parts with
    | nil => exact ⟨"", (String.append_empty).symm⟩
    | cons next parts =>
      exact ⟨", " ++ commaList (next :: parts), by
        rw [commaList, commaList, String.intercalate_cons_cons, String.append_assoc]⟩
  obtain ⟨rest, hrest⟩ := hfirst ("name = " ++ Text.quoted t.name)
    (t.size.toList.map (fun n => "size = " ++ toString n.toNat) ++
      if t.bases.isEmpty then []
      else ["bases(" ++ commaList (TypeRef.texts arity t.bases) ++ ")"])
  refine ⟨rest ++ ")]\n", ?_⟩
  delta attr
  dsimp only
  rw [List.cons_append, hrest]
  refine String.toList_injective ?_
  simp [String.toList_append]

/-- How a struct writes native names. That of the type is read back from its attribute. A field
with an enum has this from a record, and the name of the record is read back from the attribute if
and only if all of it stands for itself. -/
structure Struct.QuotesNames (t : Struct) (records : List SymbolRecord) : Prop where
  native : ∃ after rest, t.native.attr t.params = "#[native_type(name = " ++ after ∧
    Text.Quotes after t.native.name rest
  enumeration : ∀ m ∈ t.members, ∀ offset type e, m.kind = .field offset type (some e) →
    (∃ r ∈ records, r.kind = .enumeration ∧ e.nativeName = r.name) ∧
      ∃ after, m.kind.attr = "#[field(" ++ MemberKind.place offset ++ ", enumeration = " ++ after ∧
        ((∃ rest, Text.Quotes after e.nativeName (", values(" ++ rest)) ↔
          Text.Verbatim e.nativeName.toList)

/-- How a struct lists the constants of an enum: those of a record, all of them and in order. They
have different identifiers if and only if no two of them are spaced alike. -/
structure Struct.ListsConstants (t : Struct) (records : List SymbolRecord) : Prop where
  enumeration : ∀ m ∈ t.members, ∀ offset type e, m.kind = .field offset type (some e) →
    (∃ r ∈ records, r.kind = .enumeration ∧ e.nativeName = r.name ∧
      e.members = r.enumerators.map fun m => ⟨m.name, m.value⟩) ∧
    m.kind.attr = "#[field(" ++ MemberKind.place offset ++ ", enumeration = " ++
      ("\"" ++ e.nativeName ++ "\"" ++ (", values(" ++ (commaList (e.members.map fun m =>
        String.ofList (Name.identifier m.name.toList) ++ " = " ++ toString m.value.toInt)
          ++ "))]"))) ∧
    ((e.members.map fun m => Name.identifier m.name.toList).Nodup ↔
      (e.members.map fun m => Name.spaced m.name.toList).Nodup)

namespace Catalog

variable {options : Options} {records : List SymbolRecord} {g : TypeGraph} {w : Diagnostics}
  {c : Catalog} {documented : Bool} {ident : String} {s : Subject} {t : Struct}

theorem quotesNames_of_struct? (hgraph : TypeGraph.ofRecords options records = .ok (g, w))
    (hc : c.graph = g) (h : c.struct? documented ident s = some t) : t.QuotesNames records where
  native := by
    obtain ⟨rest, hrest⟩ := t.native.exists_attr_eq t.params
    exact ⟨_, rest, hrest, Text.quotes_quoted _ _⟩
  enumeration m hm offset type e hkind := by
    obtain ⟨x, hx⟩ := exists_enumeration_of_mem h hm hkind
    obtain ⟨r, hr, hk, hname, -⟩ := TypeGraph.exists_record_of_enumeration hgraph (hc ▸ hx)
    refine ⟨⟨r, hr, hk, hname⟩, _, hkind ▸ MemberKind.attr_enumeration offset type e, ?_⟩
    simp only [Text.quotes_verbatim_iff (MemberKind.quote_not_mem_valueList e)]
    exact ⟨fun ⟨_, hverbatim, _⟩ => hverbatim, fun hverbatim => ⟨_, hverbatim, rfl⟩⟩

theorem listsConstants_of_struct? (hgraph : TypeGraph.ofRecords options records = .ok (g, w))
    (hc : c.graph = g) (h : c.struct? documented ident s = some t) : t.ListsConstants records where
  enumeration m hm offset type e hkind := by
    obtain ⟨x, hx⟩ := exists_enumeration_of_mem h hm hkind
    refine ⟨TypeGraph.exists_record_of_enumeration hgraph (hc ▸ hx),
      hkind ▸ MemberKind.attr_enumeration offset type e, ?_⟩
    rw [List.Nodup, List.Nodup, List.pairwise_map, List.pairwise_map]
    simp only [ne_eq, Name.identifier_eq_iff]

end Catalog

/-- Whether the attribute of a member names an enum with some property. -/
def MemberKind.shows (p : EnumType → Bool) : MemberKind → Bool
  | .field _ _ (some e) => p e
  | _ => false

theorem Struct.exists_of_shows {t? : Option Struct} {t : Struct} {p : EnumType → Prop}
    [DecidablePred p] (ht : t? = some t)
    (h : t?.any (fun t => t.members.any fun m => m.kind.shows fun e => p e) = true) :
    ∃ m ∈ t.members, ∃ offset type e, m.kind = .field offset type (some e) ∧ p e := by
  rw [ht, Option.any_some, List.any_eq_true] at h
  obtain ⟨m, hm, hshows⟩ := h
  unfold MemberKind.shows at hshows
  split at hshows
  · next offset type e hkind => exact ⟨m, hm, offset, type, e, hkind, of_decide_eq_true hshows⟩
  · cases hshows

namespace Bindings

/-- Whenever bindings are generated, the native name of every declared type is read back from its
attribute, and that of an enum from the attribute of a field exactly if it holds no quote, no
backslash and no carriage return. -/
theorem ofRecords_quotes {options : Options} {records : List SymbolRecord} {b : Bindings}
    (h : ofRecords options records = .ok b) :
    ∃ g w, TypeGraph.ofRecords options records = .ok (g, w) ∧
      b.declarations.Perm ((g.catalog options).entries.map fun e =>
        (g.catalog options).declaration options.documented e.1 e.2) ∧
      ∀ e ∈ (g.catalog options).entries, ∃ t,
        (g.catalog options).struct? options.documented e.2.ident e.1 = some t ∧
          ((g.catalog options).declaration options.documented e.1 e.2).text = t.text ∧
            t.QuotesNames records := by
  obtain ⟨g, w, hgraph, hperm, hstructs⟩ := exists_structs h
  refine ⟨g, w, hgraph, hperm, fun e he => ?_⟩
  obtain ⟨t, ht, htext, -⟩ := hstructs e he
  exact ⟨t, ht, htext, Catalog.quotesNames_of_struct? hgraph rfl ht⟩

/-- A class and an instantiation that both have a field of an enum with a character in its name. -/
def characterMode : List SymbolRecord :=
  [.ofPrimitive ⟨1⟩ "int" 4,
    (((((SymbolRecord.ofEnumeration ⟨2⟩ "Mode<'x'>" 4 (some ⟨1⟩)).addEnumerator "ab"
      0).addEnumerator "a-b" 1).addEnumerator "a__b" 2).addEnumerator "_ab_c" (-1)),
    (SymbolRecord.ofUserType ⟨3⟩ "Device" 4).addField "mode" ⟨2⟩ 0,
    (SymbolRecord.ofInstantiation ⟨4⟩ "Slot<Device>" 4 [⟨3⟩]).addField "mode" ⟨2⟩ 0]

theorem exists_ofRecords_characterMode : ∃ g w, TypeGraph.ofRecords {} characterMode = .ok (g, w) ∧
    (g.catalog {}).entries.map (fun e => e.1.isGeneric) = [false, true] ∧
      ∀ e ∈ (g.catalog {}).entries, ((g.catalog {}).struct? true e.2.ident e.1).any (fun t =>
        t.members.any fun m => m.kind.shows fun e => e.nativeName = "Mode<'x'>" ∧
          (e.members.map fun m => Name.spaced m.name.toList).Nodup) = true :=
  TypeGraph.exists_ofRecords_and (by decide +kernel)

/-- Its name is read back from both fields. -/
theorem characterMode_read : ∃ b, ofRecords {} characterMode = .ok b ∧ ∃ g w,
    TypeGraph.ofRecords {} characterMode = .ok (g, w) ∧ (g.catalog {}).entries.length = 2 ∧
      ∀ e ∈ (g.catalog {}).entries, ∃ t, (g.catalog {}).struct? true e.2.ident e.1 = some t ∧
        ∃ m ∈ t.members, ∃ before after rest, m.kind.attr = before ++ ", enumeration = " ++ after ∧
          Text.Quotes after "Mode<'x'>" (", values(" ++ rest) := by
  obtain ⟨g, w, hgraph, hentries, hmodes⟩ := exists_ofRecords_characterMode
  obtain ⟨b, hb⟩ : ∃ b, ofRecords {} characterMode = .ok b := exists_eq_ok (by decide +kernel)
  obtain ⟨g', w', hgraph', -, hquotes⟩ := ofRecords_quotes hb
  obtain ⟨rfl, rfl⟩ := Prod.mk.inj (Except.ok.inj (hgraph.symm.trans hgraph'))
  refine ⟨b, hb, g, w, hgraph, by simpa using congrArg List.length hentries, fun e he => ?_⟩
  obtain ⟨t, ht, -, hnames⟩ := hquotes e he
  obtain ⟨m, hm, offset, type, mode, hkind, hname, -⟩ :=
    Struct.exists_of_shows ht (hmodes e he)
  obtain ⟨-, after, hattr, hread⟩ := hnames.enumeration m hm offset type mode hkind
  rw [hname] at hread
  obtain ⟨rest, hrest⟩ := hread.2 (by decide)
  exact ⟨t, ht, m, hm, _, after, rest, hattr, hrest⟩

/-- A class with a field of an enum that has a quote in its name. -/
def quotedTag : List SymbolRecord :=
  [.ofPrimitive ⟨1⟩ "int" 4,
    (SymbolRecord.ofEnumeration ⟨2⟩ "Tag<'\"'>" 4 (some ⟨1⟩)).addEnumerator "Off" 0,
    (SymbolRecord.ofUserType ⟨3⟩ "Item" 4).addField "tag" ⟨2⟩ 0]

/-- The literal behind the offset of this field does not denote the name of the enum. -/
theorem quotedTag_cut : ∃ b, ofRecords {} quotedTag = .ok b ∧ ∃ d, b.declarations = [d] ∧
    ∃ before after, d.text = before ++ "    #[field(offset = 0x0, enumeration = " ++ after ∧
      ¬∃ rest, Text.Quotes after "Tag<'\"'>" (", values(" ++ rest) := by
  obtain ⟨b, hb, hd⟩ : ∃ b, ofRecords {} quotedTag = .ok b ∧ b.declarations = [⟨"Item", none,
      "/// Native type `Item` (4 bytes).\n#[native_type(name = \"Item\", size = 4)]\n" ++
      "pub struct Item \x7b\n" ++ "    #[field(offset = 0x0, enumeration = " ++
      ("\"" ++ "Tag<'\"'>" ++ "\"" ++ ", values(Off = 0))]\n    pub tag: i32,\n\x7d\n")⟩] :=
    exists_eq_ok_and (by decide +kernel)
  refine ⟨b, hb, _, hd, _, _, rfl, ?_⟩
  rintro ⟨rest, hquotes⟩
  have hverbatim := ((Text.quotes_verbatim_iff (by decide)).1 hquotes).1
  exact absurd hverbatim (by decide)

/-- Whenever bindings are generated, the constants of an enum are listed in the attribute of a
field under identifiers that differ exactly if their native names differ in letters and digits or
in the widths of the gaps between these. -/
theorem ofRecords_constants {options : Options} {records : List SymbolRecord} {b : Bindings}
    (h : ofRecords options records = .ok b) :
    ∃ g w, TypeGraph.ofRecords options records = .ok (g, w) ∧
      b.declarations.Perm ((g.catalog options).entries.map fun e =>
        (g.catalog options).declaration options.documented e.1 e.2) ∧
      ∀ e ∈ (g.catalog options).entries, ∃ t,
        (g.catalog options).struct? options.documented e.2.ident e.1 = some t ∧
          ((g.catalog options).declaration options.documented e.1 e.2).text = t.text ∧
            t.ListsConstants records := by
  obtain ⟨g, w, hgraph, hperm, hstructs⟩ := exists_structs h
  refine ⟨g, w, hgraph, hperm, fun e he => ?_⟩
  obtain ⟨t, ht, htext, -⟩ := hstructs e he
  exact ⟨t, ht, htext, Catalog.listsConstants_of_struct? hgraph rfl ht⟩

/-- Four constants whose names are spaced differently. -/
theorem characterMode_apart : ∃ b, ofRecords {} characterMode = .ok b ∧ ∃ g w,
    TypeGraph.ofRecords {} characterMode = .ok (g, w) ∧ (g.catalog {}).entries.length = 2 ∧
      ∀ e ∈ (g.catalog {}).entries, ∃ t, (g.catalog {}).struct? true e.2.ident e.1 = some t ∧
        ∃ m ∈ t.members, ∃ offset type mode, m.kind = .field offset type (some mode) ∧
          mode.nativeName = "Mode<'x'>" ∧
            (mode.members.map fun m => Name.identifier m.name.toList).Nodup := by
  obtain ⟨g, w, hgraph, hentries, hmodes⟩ := exists_ofRecords_characterMode
  obtain ⟨b, hb⟩ : ∃ b, ofRecords {} characterMode = .ok b := exists_eq_ok (by decide +kernel)
  obtain ⟨g', w', hgraph', -, hlists⟩ := ofRecords_constants hb
  obtain ⟨rfl, rfl⟩ := Prod.mk.inj (Except.ok.inj (hgraph.symm.trans hgraph'))
  refine ⟨b, hb, g, w, hgraph, by simpa using congrArg List.length hentries, fun e he => ?_⟩
  obtain ⟨t, ht, -, hconstants⟩ := hlists e he
  obtain ⟨m, hm, offset, type, mode, hkind, hname, hspaced⟩ :=
    Struct.exists_of_shows ht (hmodes e he)
  obtain ⟨-, -, hdistinct⟩ := hconstants.enumeration m hm offset type mode hkind
  exact ⟨t, ht, m, hm, offset, type, mode, hkind, hname, hdistinct.2 hspaced⟩

/-- A class with a field of an enum two of whose constants differ in an underscore in front. -/
def twoNones : List SymbolRecord :=
  [.ofPrimitive ⟨1⟩ "int" 4,
    ((SymbolRecord.ofEnumeration ⟨2⟩ "Choice" 4 (some ⟨1⟩)).addEnumerator "None" 0).addEnumerator
      "_None" 1,
    (SymbolRecord.ofUserType ⟨3⟩ "Item" 4).addField "choice" ⟨2⟩ 0]

/-- Both are listed under one identifier. -/
theorem twoNones_alike : (∀ r ∈ twoNones, (r.enumerators.map (·.name)).Nodup) ∧
    ∃ b, ofRecords {} twoNones = .ok b ∧ ∃ d, b.declarations = [d] ∧ ∃ before name after,
      d.text = before ++ "    #[field(offset = 0x0, enumeration = \"Choice\", values("
        ++ commaList [name ++ " = 0", name ++ " = 1"] ++ "))]\n" ++ after := by
  obtain ⟨b, hb, hd⟩ : ∃ b, ofRecords {} twoNones = .ok b ∧ b.declarations = [⟨"Item", none,
      "/// Native type `Item` (4 bytes).\n#[native_type(name = \"Item\", size = 4)]\n" ++
      "pub struct Item \x7b\n" ++ "    #[field(offset = 0x0, enumeration = \"Choice\", values("
        ++ commaList ["None" ++ " = 0", "None" ++ " = 1"] ++ "))]\n" ++
      "    pub choice: i32,\n\x7d\n"⟩] :=
    exists_eq_ok_and (by decide +kernel)
  exact ⟨by decide, b, hb, _, hd, _, _, _, rfl⟩

end Bindings

end NativeBindings
