import NativeBindings.Proofs.Json.Skipping
import NativeBindings.Record.Fault

/-!
# Documents are loaded in every way to write them

The same records can be written as many documents. A record, a field or an enumerator is an array
of its members or an object whose members come in any order, with others between them that mean
nothing; most members of a record may be left out where they hold their default, and its element
goes by two names (`SymbolRecord.RecordText`). Every such document is loaded as the records that
it writes: `loadDocument_of_documentText`.

An object is read member by member. The members that have been read, in whatever order, determine
what the reader knows (`Members.ofRead`). For fields, enumerators and records alike it is only
said which members are known and where their values go (`RecordObject.readsObject`).
-/

namespace NativeBindings

namespace SymbolRecord

open Json Json.Reader

/-! ## How records are written -/

/-- The digits of a symbol id. -/
def IdText (id : SymbolId) (s : List Char) : Prop :=
  NaturalText id.value s

/-- The word of a kind. -/
def KindText (k : SymbolKind) (s : List Char) : Prop :=
  StringText k.keyword s

/-- The members of a field that is written as an object. -/
structure FieldObject (f : FieldRecord) (ms : List (String × List Char)) : Prop where
  name : HasMember ms ["name"] (StringText f.name) False
  typeId : HasMember ms ["typeId"] (IdText f.typeId) False
  offset : HasMember ms ["offset"] (NaturalText f.offset) False
  others : ∀ m ∈ ms, m.1 ∉ ["name", "typeId", "offset"] → ValueText m.2

/-- The ways to write a field. -/
def FieldText (f : FieldRecord) : List Char → Prop :=
  StructText [StringText f.name, IdText f.typeId, NaturalText f.offset] (FieldObject f)

/-- The members of an enumerator that is written as an object. -/
structure EnumeratorObject (e : EnumeratorRecord) (ms : List (String × List Char)) : Prop where
  name : HasMember ms ["name"] (StringText e.name) False
  value : HasMember ms ["value"] (IntegerText e.value) False
  others : ∀ m ∈ ms, m.1 ∉ ["name", "value"] → ValueText m.2

/-- The ways to write an enumerator. -/
def EnumeratorText (e : EnumeratorRecord) : List Char → Prop :=
  StructText [StringText e.name, IntegerText e.value] (EnumeratorObject e)

/-- The names of the members of a record. -/
def memberNames : List String :=
  ["id", "kind", "name", "size", "elementId", "pointeeId", "baseTypeIds", "fields",
    "templateArgumentIds", "enumerators"]

/-- The members of a record that is written as an object. -/
structure RecordObject (r : SymbolRecord) (ms : List (String × List Char)) : Prop where
  id : HasMember ms ["id"] (IdText r.id) False
  kind : HasMember ms ["kind"] (KindText r.kind) False
  name : HasMember ms ["name"] (StringText r.name) (r.name = "")
  size : HasMember ms ["size"] (NaturalText r.size) (r.size = 0)
  element : HasMember ms ["elementId", "pointeeId"] (OptionText IdText r.element)
    (r.element = none)
  bases : HasMember ms ["baseTypeIds"] (ListText IdText r.bases) (r.bases = [])
  fields : HasMember ms ["fields"] (ListText FieldText r.fields) (r.fields = [])
  templateArguments : HasMember ms ["templateArgumentIds"] (ListText IdText r.templateArguments)
    (r.templateArguments = [])
  enumerators : HasMember ms ["enumerators"] (ListText EnumeratorText r.enumerators)
    (r.enumerators = [])
  others : ∀ m ∈ ms, m.1 ∉ memberNames → ValueText m.2

/-- The members of a record in the order in which an array has them. -/
def elementTexts (r : SymbolRecord) : List (List Char → Prop) :=
  [IdText r.id, KindText r.kind, StringText r.name, NaturalText r.size,
    OptionText IdText r.element, ListText IdText r.bases, ListText FieldText r.fields,
    ListText IdText r.templateArguments, ListText EnumeratorText r.enumerators]

/-- The ways to write a record. -/
def RecordText (r : SymbolRecord) : List Char → Prop :=
  StructText r.elementTexts (RecordObject r)

/-! ## Ids and kinds -/

theorem reads_id {id : SymbolId} {s : List Char} (h : IdText id s) : Reads readId id s :=
  (reads_natural64 h).map SymbolId.mk

/-- An id does not start like `null`. -/
theorem reads_element {o : Option SymbolId} {s : List Char} (h : OptionText IdText o s) :
    Reads (optional readId) o s := by
  refine reads_optional h fun id t ht => ⟨reads_id ht, ?_⟩
  obtain ⟨c, r, hs, hc⟩ := numberText_starts
    (ht ▸ NumberLiteral.numberText_decimal false id.value.toNat)
  have hhead : t.head? = some c := by
    rw [show t = c :: r from hs]
    rfl
  rw [hhead]
  exact fun heq => ne_of_startsNumber hc (by decide) (Option.some.inj heq)

/-- A kind is read from its word. -/
theorem reads_kind {k : SymbolKind} {s : List Char} (h : KindText k s) : Reads readKind k s := by
  refine ⟨StringText.starts h, fun b rest hb _ => ?_⟩
  obtain ⟨ts, hts, rfl⟩ := h
  have hpeek := run_peek hb (show '"' ∉ blanks by decide) (ts.flatten ++ '"' :: rest)
  have hword : (advance *> stringBody).run ('"' :: (ts.flatten ++ '"' :: rest)) =
      .ok (k.keyword, rest) := by
    rw [run_seqRight_of (run_advance _ _), run_stringBody hts]
  rw [List.cons_append, List.append_assoc, List.singleton_append, readKind, run_bind_of hpeek]
  simp only
  rw [run_bind_of hword, kindOfWord, SymbolKind.ofKeyword?_keyword]
  rfl

/-! ## Fields and enumerators -/

/-- What the members `ms` of a field tell of it. -/
def FieldMembers.ofRead (f : FieldRecord) (ms : List (String × List Char)) : FieldMembers where
  name := told ["name"] f.name ms
  typeId := told ["typeId"] f.typeId ms
  offset := told ["offset"] f.offset ms

/-- A reader of fields knows three members, none of which may be left out. -/
theorem FieldObject.readsObject {f : FieldRecord} {ms : List (String × List Char)}
    (h : FieldObject f ms) : ReadsObject FieldMembers.read FieldMembers.finish
      (FieldMembers.ofRead f) [["name"], ["typeId"], ["offset"]] f ms where
  known := by
    refine ⟨readsKeys "name" h.name (fun _ => reads_text) ({ · with name := · }) ?_ ?_,
      readsKeys "typeId" h.typeId (fun _ => reads_id) ({ · with typeId := · }) ?_ ?_,
      readsKeys "offset" h.offset (fun _ => reads_natural64) ({ · with offset := · }) ?_ ?_⟩ <;>
      simp [FieldMembers.read, FieldMembers.ofRead, told_concat]
  others := h.others
  ignores s k hk := by simp_all [FieldMembers.read]
  untold p k v hk := by simp_all [FieldMembers.ofRead, told_concat]
  finish := by
    simp only [FieldMembers.finish, FieldMembers.ofRead, told_eq_some h.name,
      told_eq_some h.typeId, told_eq_some h.offset]
    rfl

/-- A field is read whichever way it is written. -/
theorem reads_field {f : FieldRecord} {s : List Char} (h : FieldText f s) :
    Reads readField f s := by
  refine reads_struct h (fun ts hts => ?_) fun ms => FieldObject.readsObject
  obtain _ | ⟨hname, _ | ⟨htype, _ | ⟨hoffset, ⟨⟩⟩⟩⟩ := hts
  simp only [seq_eq_bind_map, map_eq_pure_bind, bind_assoc, pure_bind]
  exact .requiredAt (reads_text hname) (.requiredAt (reads_id htype)
    (.requiredAt (reads_natural64 hoffset) (readsItems_pure f false)))

/-- What the members `ms` of an enumerator tell of it. -/
def EnumeratorMembers.ofRead (e : EnumeratorRecord) (ms : List (String × List Char)) :
    EnumeratorMembers where
  name := told ["name"] e.name ms
  value := told ["value"] e.value ms

/-- A reader of enumerators knows two members, neither of which may be left out. -/
theorem EnumeratorObject.readsObject {e : EnumeratorRecord} {ms : List (String × List Char)}
    (h : EnumeratorObject e ms) : ReadsObject EnumeratorMembers.read EnumeratorMembers.finish
      (EnumeratorMembers.ofRead e) [["name"], ["value"]] e ms where
  known := by
    refine ⟨readsKeys "name" h.name (fun _ => reads_text) ({ · with name := · }) ?_ ?_,
      readsKeys "value" h.value (fun _ => reads_integer64) ({ · with value := · }) ?_ ?_⟩ <;>
      simp [EnumeratorMembers.read, EnumeratorMembers.ofRead, told_concat]
  others := h.others
  ignores s k hk := by simp_all [EnumeratorMembers.read]
  untold p k v hk := by simp_all [EnumeratorMembers.ofRead, told_concat]
  finish := by
    simp only [EnumeratorMembers.finish, EnumeratorMembers.ofRead, told_eq_some h.name,
      told_eq_some h.value]
    rfl

/-- An enumerator is read whichever way it is written. -/
theorem reads_enumerator {e : EnumeratorRecord} {s : List Char} (h : EnumeratorText e s) :
    Reads readEnumerator e s := by
  refine reads_struct h (fun ts hts => ?_) fun ms => EnumeratorObject.readsObject
  obtain _ | ⟨hname, _ | ⟨hvalue, ⟨⟩⟩⟩ := hts
  simp only [seq_eq_bind_map, map_eq_pure_bind, bind_assoc, pure_bind]
  exact .requiredAt (reads_text hname) (.requiredAt (reads_integer64 hvalue)
    (readsItems_pure e false))

/-! ## Records -/

/-- What the members `ms` of a record tell of it. -/
def Members.ofRead (r : SymbolRecord) (ms : List (String × List Char)) : Members where
  id := told ["id"] r.id ms
  kind := told ["kind"] r.kind ms
  name := told ["name"] r.name ms
  size := told ["size"] r.size ms
  element := told ["elementId", "pointeeId"] r.element ms
  bases := told ["baseTypeIds"] r.bases ms
  fields := told ["fields"] r.fields ms
  templateArguments := told ["templateArgumentIds"] r.templateArguments ms
  enumerators := told ["enumerators"] r.enumerators ms

theorem reads_ids {ids : List SymbolId} {s : List Char} (h : ListText IdText ids s) :
    Reads (list readId) ids s :=
  reads_list h fun _ _ => reads_id

/-- A reader of records knows nine members. All but the id and the kind may be left out where
they hold their default, and the element goes by two names. -/
theorem RecordObject.readsObject {r : SymbolRecord} {ms : List (String × List Char)}
    (h : RecordObject r ms) : ReadsObject Members.read Members.finish (Members.ofRead r)
      [["id"], ["kind"], ["name"], ["size"], ["elementId", "pointeeId"], ["baseTypeIds"],
        ["fields"], ["templateArgumentIds"], ["enumerators"]] r ms where
  known := by
    refine ⟨readsKeys "id" h.id (fun _ => reads_id) ({ · with id := · }) ?_ ?_,
      readsKeys "kind" h.kind (fun _ => reads_kind) ({ · with kind := · }) ?_ ?_,
      readsKeys "name" h.name (fun _ => reads_text) ({ · with name := · }) ?_ ?_,
      readsKeys "size" h.size (fun _ => reads_natural64) ({ · with size := · }) ?_ ?_,
      readsKeys "elementId" h.element (fun _ => reads_element) ({ · with element := · }) ?_ ?_,
      readsKeys "baseTypeIds" h.bases (fun _ => reads_ids) ({ · with bases := · }) ?_ ?_,
      readsKeys "fields" h.fields (fun _ ht => reads_list ht fun _ _ => reads_field)
        ({ · with fields := · }) ?_ ?_,
      readsKeys "templateArgumentIds" h.templateArguments (fun _ => reads_ids)
        ({ · with templateArguments := · }) ?_ ?_,
      readsKeys "enumerators" h.enumerators (fun _ ht => reads_list ht fun _ _ => reads_enumerator)
        ({ · with enumerators := · }) ?_ ?_⟩ <;>
      simp [Members.read, Members.ofRead, told_concat]
  others := h.others
  ignores s k hk := by simp_all [Members.read]
  untold p k v hk := by simp_all [Members.ofRead, told_concat]
  finish := by
    simp only [Members.finish, Members.ofRead, told_eq_some h.id, told_eq_some h.kind,
      getD_told h.name, getD_told h.size, getD_told h.element, getD_told h.bases,
      getD_told h.fields, getD_told h.templateArguments, getD_told h.enumerators]
    rfl

/-- A record is read whichever way it is written. -/
theorem reads_record {r : SymbolRecord} {s : List Char} (h : RecordText r s) : Reads read r s := by
  refine reads_struct h (fun ts hts => ?_) fun ms => RecordObject.readsObject
  obtain _ | ⟨hid, _ | ⟨hkind, _ | ⟨hname, _ | ⟨hsize, _ | ⟨helement, _ | ⟨hbases,
    _ | ⟨hfields, _ | ⟨harguments, _ | ⟨henumerators, ⟨⟩⟩⟩⟩⟩⟩⟩⟩⟩⟩ := hts
  exact .requiredAt (reads_id hid) <| .requiredAt (reads_kind hkind) <|
    .elementAt (reads_text hname) <| .elementAt (reads_natural64 hsize) <|
    .elementAt (reads_element helement) <| .elementAt (reads_ids hbases) <|
    .elementAt (reads_list hfields fun _ _ => reads_field) <|
    .elementAt (reads_ids harguments) <|
    .elementAt (reads_list henumerators fun _ _ => reads_enumerator) <| readsItems_pure r false

end SymbolRecord

/-! ## Documents -/

section

open Json SymbolRecord

/-- Every document that writes a list of records is loaded as that list: whatever order, form and
names its members have, whatever else they are mixed with, and however its strings are escaped. -/
theorem loadDocument_of_documentText {records : List SymbolRecord} {json : String}
    (h : DocumentText (ListText RecordText records) json.toList) :
    loadDocument json = .ok records := by
  obtain ⟨b, t, b', hb, ht, hb', hjson⟩ := h
  have hread : Reader.Reads (Reader.list read) records t :=
    Reader.reads_list ht fun _ _ => reads_record
  rw [loadDocument, ofDocument, hjson, Reader.document_of_reads hread hb hb']
  rfl

/-- A pointer whose members are out of order, with its pointee under the other name, an escape in
the word of its kind, and an unknown member that holds a lone surrogate. -/
def pointerText : String :=
  "\x7b\"kind\":\"\\u0070ointer\",\"or\":[\x7b\x7d,-1e5,\"\\ud800\"],\n\"pointeeId\":7,\"id\":9\x7d"

/-- An enum as an array, with a surrogate pair for a name. -/
def enumText : String :=
  "[0,\"enum\",\"\\uD83D\\ude00\",18446744073709551615,null,[],[],[],[[\"\",-9223372036854775808]]]"

/-- What the unknown member holds is a value. -/
theorem valueText_unknown : ValueText ['[', '{', '}', ',', '-', '1', 'e', '5', ',',
    '"', '\\', 'u', 'd', '8', '0', '0', '"', ']'] := by
  have hobject : ValueText ['{', '}'] :=
    @ValueText.object [] [] _ (fun v hv => absurd hv List.not_mem_nil) .nil ⟨[], .done .nil, rfl⟩
  have hdigits {c : Char} (hc : c.isDigit) : NumberLiteral.Digits [c] :=
    ⟨List.cons_ne_nil c [], fun d hd => List.mem_singleton.mp hd ▸ hc⟩
  have hnumber : ValueText ['-', '1', 'e', '5'] :=
    @ValueText.number ⟨true, ['1'], [], some (false, ['5'])⟩ _ ⟨[], ['e', '5'],
      ⟨hdigits (by decide), fun h => absurd h (by decide)⟩, .inl ⟨rfl, rfl⟩,
      ⟨'e', [], .inl rfl, .inl rfl, hdigits (by decide), rfl⟩, rfl⟩
  have hsurrogate : RawPart ['\\', 'u', 'd', '8', '0', '0'] :=
    @RawPart.unit 0xd800 _ ⟨by decide, _, _, _, _, by decide, by decide, by decide, by decide, rfl⟩
  have hstring : ValueText ['"', '\\', 'u', 'd', '8', '0', '0', '"'] :=
    .string ⟨[['\\', 'u', 'd', '8', '0', '0']], by simpa using hsurrogate, rfl⟩
  refine @ValueText.array
    [['{', '}'], ['-', '1', 'e', '5'], ['"', '\\', 'u', 'd', '8', '0', '0', '"']] _ ?_
    ⟨_, .first .nil <| .next .nil .nil <| .next .nil .nil <| .done .nil, rfl⟩
  simp only [List.forall_mem_cons]
  exact ⟨hobject, hnumber, hstring, fun t ht => absurd ht List.not_mem_nil⟩

theorem recordText_pointer :
    RecordText { id := ⟨9⟩, kind := .pointer, element := some ⟨7⟩ } pointerText.toList := by
  have hkind : StringText "pointer"
      ['"', '\\', 'u', '0', '0', '7', '0', 'o', 'i', 'n', 't', 'e', 'r', '"'] := by
    refine ⟨[['\\', 'u', '0', '0', '7', '0'], ['o'], ['i'], ['n'], ['t'], ['e'], ['r']], ?_, rfl⟩
    refine .cons (.unit ⟨by decide, _, _, _, _, by decide, by decide, by decide, by decide, rfl⟩) ?_
    exact .cons (.plain (by decide)) <| .cons (.plain (by decide)) <| .cons (.plain (by decide)) <|
      .cons (.plain (by decide)) <| .cons (.plain (by decide)) <| .cons (.plain (by decide)) .nil
  exact .inr ⟨[("kind", ['"', '\\', 'u', '0', '0', '7', '0', 'o', 'i', 'n', 't', 'e', 'r', '"']),
      ("or", ['[', '{', '}', ',', '-', '1', 'e', '5', ',', '"', '\\', 'u', 'd', '8', '0', '0', '"',
        ']']),
      ("pointeeId", ['7']), ("id", ['9'])],
    ⟨_, .cons (.of_plain rfl (by decide)) <| .cons (.of_plain rfl (by decide)) <|
      .cons (.of_plain rfl (by decide)) <| .cons (.of_plain rfl (by decide)) .nil, _,
      .first .nil <| .next .nil .nil <| .next .nil (by decide : Blanks ['\n']) <|
      .next .nil .nil <| .done .nil, String.toList_ofList⟩, {
    id := .of_append (p := [_, _, _]) (q := []) (by decide) rfl (by decide)
    kind := .of_append (p := []) (q := [_, _, _]) (by decide) hkind (by decide)
    name := .of_omitted (by decide) rfl
    size := .of_omitted (by decide) rfl
    element := .of_append (p := [_, _]) (q := [_]) (by decide) rfl (by decide)
    bases := .of_omitted (by decide) rfl
    fields := .of_omitted (by decide) rfl
    templateArguments := .of_omitted (by decide) rfl
    enumerators := .of_omitted (by decide) rfl
    others := by
      simp only [List.forall_mem_cons]
      exact ⟨fun hk => absurd (by decide) hk, fun _ => valueText_unknown,
        fun hk => absurd (by decide) hk, fun hk => absurd (by decide) hk,
        fun m hm => absurd hm List.not_mem_nil⟩ }⟩

theorem recordText_enum :
    RecordText
      { id := ⟨0⟩, kind := .enumeration, name := "😀", size := 18446744073709551615,
        enumerators := [⟨"", -9223372036854775808⟩] }
      enumText.toList := by
  have hname : StringText "😀"
      ['"', '\\', 'u', 'D', '8', '3', 'D', '\\', 'u', 'd', 'e', '0', '0', '"'] := by
    refine ⟨[['\\', 'u', 'D', '8', '3', 'D', '\\', 'u', 'd', 'e', '0', '0']], .cons ?_ .nil, rfl⟩
    exact @CharText.pair '😀' 0xf600 ['\\', 'u', 'D', '8', '3', 'D'] _ (by decide)
      ⟨by decide, _, _, _, _, by decide, by decide, by decide, by decide, rfl⟩
      ⟨by decide, _, _, _, _, by decide, by decide, by decide, by decide, rfl⟩
  have hvalue : IntegerText (-9223372036854775808) ['-', '9', '2', '2', '3', '3', '7', '2', '0',
      '3', '6', '8', '5', '4', '7', '7', '5', '8', '0', '8'] := rfl
  have henumerator : EnumeratorText ⟨"", -9223372036854775808⟩ _ :=
    .inl ⟨_, .cons (.of_plain rfl (by decide)) <| .cons hvalue .nil, _,
      .first .nil <| .next .nil .nil <| .done .nil, rfl⟩
  have hid : IdText ⟨0⟩ ['0'] := rfl
  have hsize : NaturalText 18446744073709551615 ['1', '8', '4', '4', '6', '7', '4', '4', '0', '7',
      '3', '7', '0', '9', '5', '5', '1', '6', '1', '5'] := rfl
  exact .inl ⟨_, .cons hid <| .cons (.of_plain rfl (by decide)) <| .cons hname <|
    .cons hsize <| .cons rfl <| .cons .nil <| .cons .nil <| .cons .nil <|
    .cons ⟨_, .cons henumerator .nil, _, .first .nil <| .done .nil, rfl⟩ .nil, _, .first .nil <|
      .next .nil .nil <| .next .nil .nil <| .next .nil .nil <| .next .nil .nil <|
      .next .nil .nil <| .next .nil .nil <| .next .nil .nil <| .next .nil .nil <| .done .nil,
    String.toList_ofList⟩

/-- Both records are loaded from one document. -/
theorem pointerAndEnum_loaded :
    loadDocument (" [" ++ pointerText ++ "," ++ enumText ++ "] ") = .ok [
      { id := ⟨9⟩, kind := .pointer, element := some ⟨7⟩ },
      { id := ⟨0⟩, kind := .enumeration, name := "😀", size := 18446744073709551615,
        enumerators := [⟨"", -9223372036854775808⟩] }] :=
  loadDocument_of_documentText ⟨[' '], _, [' '], by decide,
    ⟨_, .cons recordText_pointer (.cons recordText_enum .nil), _,
      .first .nil <| .next .nil .nil <| .done .nil, rfl⟩, by decide,
    by simp [String.toList_append]⟩

end

end NativeBindings
