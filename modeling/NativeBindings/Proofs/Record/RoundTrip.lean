import NativeBindings.Record.Snapshot

/-!
# Snapshots are read back

A reader reads bytes as a value if it takes exactly these bytes off the front, whatever follows
them (`Wire.Reader.Reads`). Readers that are run one after the other read what was written one
after the other, so each reader of a snapshot reads what the writer of the same value writes, from
numbers up to whole records (`Snapshot.reads_record`).

What follows a snapshot is left alone, and therefore no snapshot starts with another one:
`Snapshot.decode_encode_append`. The only bound is that counts have to be numbers of 64 bits.
-/

namespace NativeBindings

namespace Wire

/-! ## Reading what was written -/

/-- A reader takes the given bytes off the front as a value, and leaves whatever follows. -/
def Reader.Reads {α : Type} (value : Reader α) (bytes : List UInt8) (a : α) : Prop :=
  ∀ rest, value.run (bytes ++ rest) = .ok (a, rest)

namespace Reader.Reads

variable {α β : Type} {x : Reader α} {a : α} {bytes more : List UInt8}

theorem pure (a : α) : Reader.Reads (Pure.pure a) [] a :=
  fun _ => rfl

/-- Two steps read what each of them reads, one behind the other. -/
theorem bind {f : α → Reader β} {b : β} (hx : x.Reads bytes a) (hf : (f a).Reads more b) :
    Reader.Reads (x >>= f) (bytes ++ more) b := by
  intro rest
  rw [StateT.run_bind, List.append_assoc, hx (more ++ rest), ok_bind]
  exact hf rest

theorem map (f : α → β) (hx : x.Reads bytes a) : Reader.Reads (f <$> x) bytes (f a) := by
  intro rest
  rw [StateT.run_map, hx rest]
  rfl

theorem seq {g : Reader (α → β)} {f : α → β} (hg : g.Reads bytes f) (hx : x.Reads more a) :
    Reader.Reads (g <*> x) (bytes ++ more) (f a) := by
  rw [seq_eq_bind_map]
  exact hg.bind (hx.map f)

end Reader.Reads

theorem reads_byte (b : UInt8) : byte.Reads [b] b :=
  run_byte b

/-- Numbers of 64 bits are read back. -/
theorem reads_varint {n : Nat} (hn : n < UInt64.size) :
    (varint .bits64).Reads (encodeVarint n) n :=
  run_varintWithin_encodeVarint (by decide) hn

/-- As many bytes are taken as there are to take. -/
theorem reads_take (bytes : List UInt8) : (take bytes.length).Reads bytes bytes := by
  intro rest
  have hlen : ¬(bytes ++ rest).length < bytes.length := by simp
  have htake : (take bytes.length).run (bytes ++ rest) =
      .ok ((bytes ++ rest).take bytes.length, (bytes ++ rest).drop bytes.length) := by
    simp only [take, StateT.run_bind, StateT.run_get, pure_bind, if_neg hlen]
    rfl
  rw [htake, List.take_left, List.drop_left]

/-! ## Texts, lists, options -/

theorem toList_loop (bytes : ByteArray) (i : Nat) (r : List UInt8) :
    ByteArray.toList.loop bytes i r = r.reverse ++ bytes.data.toList.drop i := by
  fun_induction ByteArray.toList.loop bytes i r with
  | case1 i r hi ih =>
    have hi' : i < bytes.data.toList.length := by simpa using hi
    have hget : bytes.get! i = bytes.data.toList[i] := by
      simp only [ByteArray.get!, Array.getElem_toList]
      exact getElem!_pos bytes.data i (by simpa using hi)
    rw [ih, List.drop_eq_getElem_cons hi', hget]
    simp
  | case2 i r hi =>
    have hi' : bytes.data.toList.length ≤ i := by simpa using hi
    rw [List.drop_eq_nil_of_le hi', List.append_nil]

/-- The bytes of an array are those of its data. -/
theorem toList_eq_data (bytes : ByteArray) : bytes.toList = bytes.data.toList := by
  rw [ByteArray.toList, toList_loop]
  simp

/-- The bytes of a text make up that text. -/
theorem fromUTF8?_toUTF8 (s : String) : String.fromUTF8? ⟨s.toUTF8.toList.toArray⟩ = some s := by
  rw [toList_eq_data, Array.toArray_toList]
  exact dif_pos s.isValidUTF8

/-- A text whose length is a number of 64 bits is read back. -/
theorem reads_text {s : String} (hs : s.utf8ByteSize < UInt64.size) :
    text.Reads (encodeText s) s := by
  have hlen : s.toUTF8.toList.length = s.utf8ByteSize := by
    rw [toList_eq_data]
    exact Array.length_toList
  have hread : text.Reads
      (encodeVarint s.toUTF8.toList.length ++ (s.toUTF8.toList ++ [])) s := by
    refine (reads_varint (hlen ▸ hs)).bind ((reads_take _).bind ?_)
    simp only [fromUTF8?_toUTF8]
    exact .pure s
  rwa [List.append_nil] at hread

section

variable {α : Type} {value : Reader α} {encode : α → List UInt8}

/-- Values are read one behind the other. -/
theorem reads_replicate {xs : List α} (h : ∀ a ∈ xs, value.Reads (encode a) a) :
    (replicate value xs.length).Reads (xs.flatMap encode) xs := by
  induction xs with
  | nil => exact .pure []
  | cons a xs ih =>
    have hrest := ih fun b hb => h b (List.mem_cons_of_mem a hb)
    have hread : (replicate value (xs.length + 1)).Reads
        (encode a ++ (xs.flatMap encode ++ [])) (a :: xs) :=
      (h a List.mem_cons_self).bind (hrest.bind (.pure _))
    rwa [List.append_nil] at hread

/-- A list whose length is a number of 64 bits is read back if each of its values is. -/
theorem reads_list {xs : List α} (hlen : xs.length < UInt64.size)
    (h : ∀ a ∈ xs, value.Reads (encode a) a) : (list value).Reads (encodeList encode xs) xs :=
  (reads_varint hlen).bind (reads_replicate h)

/-- An optional value is read with the byte that tells whether it is there. -/
theorem reads_option {x : Option α} (h : ∀ a ∈ x, value.Reads (encode a) a) :
    (option value).Reads (encodeOption encode x) x := by
  cases x with
  | none => exact (reads_byte 0).bind (.pure none)
  | some a => exact (reads_byte 1).bind ((h a rfl).map some)

end

/-- Folding numbers of 64 bits gives numbers of 64 bits. -/
theorem fold_lt (n : Int64) : fold n.toInt < UInt64.size := by
  have hlow := n.le_toInt
  have hhigh := n.toInt_lt
  unfold fold
  split <;> simp only [UInt64.size] <;> omega

end Wire

/-! ## Records -/

/-- The lengths of the names and lists in a record are numbers of 64 bits. -/
structure SymbolRecord.CountsFit (r : SymbolRecord) : Prop where
  name : r.name.utf8ByteSize < UInt64.size
  bases : r.bases.length < UInt64.size
  fields : r.fields.length < UInt64.size
  fieldName : ∀ f ∈ r.fields, f.name.utf8ByteSize < UInt64.size
  templateArguments : r.templateArguments.length < UInt64.size
  enumerators : r.enumerators.length < UInt64.size
  enumeratorName : ∀ e ∈ r.enumerators, e.name.utf8ByteSize < UInt64.size

namespace SymbolRecord

theorem countsFit_iff {r : SymbolRecord} :
    r.CountsFit ↔ r.name.utf8ByteSize < UInt64.size ∧ r.bases.length < UInt64.size ∧
      r.fields.length < UInt64.size ∧ (∀ f ∈ r.fields, f.name.utf8ByteSize < UInt64.size) ∧
      r.templateArguments.length < UInt64.size ∧ r.enumerators.length < UInt64.size ∧
      ∀ e ∈ r.enumerators, e.name.utf8ByteSize < UInt64.size :=
  ⟨fun ⟨h₁, h₂, h₃, h₄, h₅, h₆, h₇⟩ => ⟨h₁, h₂, h₃, h₄, h₅, h₆, h₇⟩,
    fun ⟨h₁, h₂, h₃, h₄, h₅, h₆, h₇⟩ => ⟨h₁, h₂, h₃, h₄, h₅, h₆, h₇⟩⟩

instance (r : SymbolRecord) : Decidable r.CountsFit :=
  decidable_of_iff _ countsFit_iff.symm

end SymbolRecord

namespace Snapshot

theorem reads_word (n : UInt64) : word.Reads (Wire.encodeVarint n.toNat) n := by
  have hread := (Wire.reads_varint n.toNat_lt).map UInt64.ofNat
  rwa [UInt64.ofNat_toNat] at hread

theorem reads_id (id : SymbolId) : readId.Reads (encodeId id) id :=
  (reads_word id.value).map SymbolId.mk

/-- A kind is read from its number. -/
theorem reads_kind (k : SymbolKind) : readKind.Reads (Wire.encodeVarint k.toNat) k := by
  have hlt : k.toNat < Wire.Width.bits32.bound * Nat.pow 128 Wire.Width.bits32.more := by
    cases k <;> decide
  have hnumber : (Wire.varint .bits32).Reads (Wire.encodeVarint k.toNat) k.toNat :=
    Wire.run_varintWithin_encodeVarint (by decide) hlt
  have hread : readKind.Reads (Wire.encodeVarint k.toNat ++ []) k := by
    refine hnumber.bind ?_
    simp only [SymbolKind.ofNat?_toNat]
    exact .pure k
  rwa [List.append_nil] at hread

/-- A field is read with its name, type and offset. -/
theorem reads_field {f : FieldRecord} (h : f.name.utf8ByteSize < UInt64.size) :
    readField.Reads (encodeField f) f :=
  (((Wire.reads_text h).map FieldRecord.mk).seq (reads_id f.typeId)).seq (reads_word f.offset)

/-- A signed value is read from the number that it was folded to. -/
theorem reads_value (n : Int64) : readValue.Reads (Wire.encodeVarint (Wire.fold n.toInt)) n := by
  have hread := (Wire.reads_varint (Wire.fold_lt n)).map fun k => Int64.ofInt (Wire.unfold k)
  rwa [Wire.unfold_fold, Int64.ofInt_toInt] at hread

/-- An enumerator is read with its name and value. -/
theorem reads_enumerator {e : EnumeratorRecord} (h : e.name.utf8ByteSize < UInt64.size) :
    readEnumerator.Reads (encodeEnumerator e) e :=
  ((Wire.reads_text h).map EnumeratorRecord.mk).seq (reads_value e.value)

/-- A record is read back. -/
theorem reads_record {r : SymbolRecord} (h : r.CountsFit) :
    readRecord.Reads (encodeRecord r) r := by
  have helement : (Wire.option readId).Reads (Wire.encodeOption encodeId r.element) r.element :=
    Wire.reads_option fun id _ => reads_id id
  have hids {ids : List SymbolId} (hids : ids.length < UInt64.size) :
      (Wire.list readId).Reads (Wire.encodeList encodeId ids) ids :=
    Wire.reads_list hids fun id _ => reads_id id
  have hfields : (Wire.list readField).Reads (Wire.encodeList encodeField r.fields) r.fields :=
    Wire.reads_list h.fields fun f hf => reads_field (h.fieldName f hf)
  have henumerators : (Wire.list readEnumerator).Reads
      (Wire.encodeList encodeEnumerator r.enumerators) r.enumerators :=
    Wire.reads_list h.enumerators fun e he => reads_enumerator (h.enumeratorName e he)
  exact ((reads_id r.id).map SymbolRecord.mk).seq (reads_kind r.kind)
    |>.seq (Wire.reads_text h.name) |>.seq (reads_word r.size) |>.seq helement
    |>.seq (hids h.bases) |>.seq hfields |>.seq (hids h.templateArguments) |>.seq henumerators

/-! ## Snapshots -/

/-- The lengths in a list of records, its own included, are numbers of 64 bits. -/
def CountsFit (records : List SymbolRecord) : Prop :=
  records.length < UInt64.size ∧ ∀ r ∈ records, r.CountsFit

instance (records : List SymbolRecord) : Decidable (CountsFit records) :=
  inferInstanceAs (Decidable (_ ∧ _))

/-- Records whose counts fit are read one behind the other. -/
theorem reads_records {records : List SymbolRecord} (h : CountsFit records) :
    (Wire.list readRecord).Reads (Wire.encodeList encodeRecord records) records :=
  Wire.reads_list h.1 fun r hr => reads_record (h.2 r hr)

/-- Records are decoded from what they were encoded to, whatever comes behind. -/
theorem decode_encode {records : List SymbolRecord} (h : CountsFit records) (rest : List UInt8) :
    decode (encode records ++ rest) = .ok records := by
  have hread := reads_records h rest
  simp only [encode, magic, List.cons_append, List.nil_append, decode, ne_eq, not_true_eq_false,
    if_false, hread]

/-- Records are read back from their snapshot, whatever follows it. So no other records have a
snapshot that starts, or goes on, in the same way. -/
theorem decode_encode_append {records : List SymbolRecord} (h : CountsFit records)
    (rest : List UInt8) : decode (encode records ++ rest) = .ok records ∧
      ∀ records' rest', CountsFit records' → encode records' ++ rest' = encode records ++ rest →
        records' = records ∧ rest' = rest := by
  refine ⟨decode_encode h rest, fun records' rest' h' heq => ?_⟩
  have hsame : records' = records := by
    have hread := decode_encode h' rest'
    rw [heq, decode_encode h rest] at hread
    exact (Except.ok.inj hread).symm
  rw [hsame] at heq
  exact ⟨hsame, List.append_cancel_left heq⟩

/-- Records with the greatest ids and offsets, the least and the greatest value of a constant,
names that are no words, and members that their kinds have no use for. -/
def extremeRecords : List SymbolRecord :=
  [((SymbolRecord.ofEnumeration ⟨18446744073709551615⟩ "Größe::𝔼" 0 (some ⟨0⟩)).addBase ⟨128⟩)
    |>.addEnumerator "" Int64.minValue |>.addEnumerator "→" Int64.maxValue,
   SymbolRecord.ofInstantiation ⟨0⟩ "Vec<Vec<int>>" 0 [⟨16384⟩, ⟨18446744073709551615⟩]
    |>.addField "x\x00" ⟨127⟩ 18446744073709551615]

/-- The extreme records are read back in front of two bytes that mean nothing. -/
theorem decode_encode_extremeRecords :
    CountsFit extremeRecords ∧
      decode (encode extremeRecords ++ [0xff, 0x00]) = .ok extremeRecords ∧
      ∀ records' rest', CountsFit records' →
        encode records' ++ rest' = encode extremeRecords ++ [0xff, 0x00] →
          records' = extremeRecords ∧ rest' = [0xff, 0x00] :=
  have hfit : CountsFit extremeRecords := by decide +kernel
  ⟨hfit, decode_encode_append hfit [0xff, 0x00]⟩

end Snapshot

end NativeBindings
