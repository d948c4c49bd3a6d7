import NativeBindings.Proofs.Record.RoundTrip
import NativeBindings.Proofs.Steps

/-!
# Snapshots that are cut off

A reader goes through its bytes from the front. Once it has come to a value, or to a fault other
than that the bytes run out, it makes no difference what follows (`Wire.Reader.Decides`). All
readers of a snapshot are like this, whatever bytes they are given, since single bytes and blocks
of bytes are read like this and putting readers together keeps it.

So a reader that reads some bytes as a value can come to nothing on a part of them that ends early:
it would come to the same on all of them. It runs out of bytes (`Wire.Reader.Reads.run_cut`),
wherever the cut falls, and so does a whole snapshot behind its first five bytes
(`Snapshot.decode_take_encode`).
-/

namespace NativeBindings

namespace Wire

/-! ## What is decided early -/

/-- What a reader comes to without running out of bytes, it comes to whatever follows them. -/
structure Reader.Decides {α : Type} (value : Reader α) : Prop where
  /-- A value that is read is read again, and the bytes that follow are left as well. -/
  ok : ∀ {bytes rest : List UInt8} {a : α} (more : List UInt8),
    value.run bytes = .ok (a, rest) → value.run (bytes ++ more) = .ok (a, rest ++ more)
  /-- A fault is met again. -/
  error : ∀ {bytes : List UInt8} {f : Fault} (more : List UInt8), f ≠ .unexpectedEnd →
    value.run bytes = .error f → value.run (bytes ++ more) = .error f

/-- What is read as a value runs out of bytes when it is cut off. Otherwise it would leave the bytes
that were cut off. -/
theorem Reader.Reads.run_cut {α : Type} {value : Reader α} {bytes part : List UInt8} {a : α}
    (h : value.Reads bytes a) (hd : value.Decides) (hpart : part <+: bytes)
    (hlt : part.length < bytes.length) : value.run part = .error .unexpectedEnd := by
  obtain ⟨more, rfl⟩ := hpart
  have hall : value.run (part ++ more) = .ok (a, []) := by simpa using h []
  cases hrun : value.run part with
  | ok result =>
    obtain ⟨b, rest⟩ := result
    have hrest := (Prod.mk.inj (Except.ok.inj ((hd.ok more hrun).symm.trans hall))).2
    obtain rfl := (List.append_eq_nil_iff.1 hrest).2
    simp at hlt
  | error f =>
    by_cases hf : f = .unexpectedEnd
    · rw [hf]
    · have hmore := hd.error more hf hrun
      rw [hall] at hmore
      cases hmore

namespace Reader.Decides

variable {α β : Type} {x : Reader α}

theorem pure (a : α) : Reader.Decides (Pure.pure a) where
  ok more h := by
    obtain ⟨rfl, rfl⟩ := Prod.mk.inj (Except.ok.inj h)
    rfl
  error _ _ h := by cases h

theorem throw (f : Fault) : Reader.Decides (throw f : Reader α) where
  ok _ h := by cases h
  error _ _ h := h

/-- Two steps are decided early if both are, whatever the first one reads. -/
theorem bind {f : α → Reader β} (hx : x.Decides) (hf : ∀ a, (f a).Decides) :
    Reader.Decides (x >>= f) where
  ok {bytes _ _} more h := by
    rw [StateT.run_bind, bind_eq_ok_iff] at h
    obtain ⟨⟨a, rest⟩, hrun, h⟩ := h
    rw [StateT.run_bind, hx.ok more hrun]
    exact (hf a).ok more h
  error {bytes f'} more hne h := by
    rw [StateT.run_bind] at h ⊢
    cases hrun : x.run bytes with
    | ok result =>
      obtain ⟨a, rest⟩ := result
      rw [hrun] at h
      rw [hx.ok more hrun]
      exact (hf a).error more hne h
    | error g =>
      rw [hrun] at h
      obtain rfl := Except.error.inj h
      rw [hx.error more hne hrun]
      rfl

theorem map (f : α → β) (hx : x.Decides) : Reader.Decides (f <$> x) := by
  rw [map_eq_pure_bind]
  exact hx.bind fun a => .pure (f a)

theorem seq {g : Reader (α → β)} (hg : g.Decides) (hx : x.Decides) :
    Reader.Decides (g <*> x) := by
  rw [seq_eq_bind_map]
  exact hg.bind fun f => hx.map f

end Reader.Decides

/-! ## Bytes, numbers, texts and lists -/

theorem decides_byte : byte.Decides where
  ok {bytes _ _} more h := by
    cases bytes with
    | nil => cases h
    | cons b bytes =>
      obtain ⟨rfl, rfl⟩ := Prod.mk.inj (Except.ok.inj h)
      rfl
  error {bytes f} more hne h := by
    cases bytes with
    | nil => exact absurd (Except.error.inj h).symm hne
    | cons b bytes => cases h

theorem run_take (n : Nat) (bytes : List UInt8) : (take n).run bytes =
    if bytes.length < n then .error .unexpectedEnd else .ok (bytes.take n, bytes.drop n) := by
  simp only [take, StateT.run_bind, StateT.run_get, pure_bind]
  split <;> rfl

/-- Some bytes are taken as soon as they are there. -/
theorem decides_take (n : Nat) : (take n).Decides where
  ok {bytes _ _} more h := by
    rw [run_take] at h
    split at h
    · cases h
    · next hlen =>
      obtain ⟨rfl, rfl⟩ := Prod.mk.inj (Except.ok.inj h)
      have hle : n ≤ bytes.length := Nat.le_of_not_lt hlen
      have hmore : ¬(bytes ++ more).length < n := by
        rw [List.length_append]
        omega
      rw [run_take, if_neg hmore, List.take_append_of_le_length hle,
        List.drop_append_of_le_length hle]
  error {bytes f} more hne h := by
    rw [run_take] at h
    split at h
    · exact absurd (Except.error.inj h).symm hne
    · cases h

/-- A number is read as soon as its last byte is there. -/
theorem decides_varintWithin (bound more : Nat) : (varintWithin bound more).Decides := by
  induction more with
  | zero =>
    refine decides_byte.bind fun b => ?_
    split
    · exact .pure _
    · exact .throw _
  | succ more ih =>
    refine decides_byte.bind fun b => ?_
    split
    · exact .pure _
    · exact ih.bind fun n => .pure _

theorem decides_varint (w : Width) : (varint w).Decides :=
  decides_varintWithin w.bound w.more

/-- A text is read as soon as all its bytes are there. -/
theorem decides_text : text.Decides := by
  refine (decides_varint _).bind fun n => (decides_take n).bind fun bytes => ?_
  split
  · exact .pure _
  · exact .throw _

section

variable {α : Type} {value : Reader α} (h : value.Decides)

include h

/-- A list is decided early if its elements are. -/
theorem decides_list : (list value).Decides := by
  have hreplicate (n : Nat) : (replicate value n).Decides := by
    induction n with
    | zero => exact .pure []
    | succ n ih => exact h.bind fun a => ih.bind fun as => .pure (a :: as)
  exact (decides_varint _).bind hreplicate

/-- An optional value is decided early if the value is. -/
theorem decides_option : (option value).Decides := by
  refine decides_byte.bind fun tag => ?_
  split
  · exact .pure none
  · exact h.map some
  · exact .throw _

end

end Wire

/-! ## Snapshots -/

namespace Snapshot

open Wire (decides_varint decides_text decides_list decides_option)

theorem decides_word : word.Decides :=
  (decides_varint _).map _

theorem decides_id : readId.Decides :=
  decides_word.map _

/-- A kind is known by its number, and refused by it. -/
theorem decides_kind : readKind.Decides := by
  refine (decides_varint _).bind fun n => ?_
  split
  · exact .pure _
  · exact .throw _

theorem decides_field : readField.Decides :=
  ((decides_text.map FieldRecord.mk).seq decides_id).seq decides_word

theorem decides_enumerator : readEnumerator.Decides :=
  (decides_text.map EnumeratorRecord.mk).seq ((decides_varint _).map _)

/-- A record is read as soon as its last member is. -/
theorem decides_record : readRecord.Decides :=
  ((decides_id.map SymbolRecord.mk).seq decides_kind).seq decides_text |>.seq decides_word
    |>.seq (decides_option decides_id) |>.seq (decides_list decides_id)
    |>.seq (decides_list decides_field) |>.seq (decides_list decides_id)
    |>.seq (decides_list decides_enumerator)

/-- Fewer than five bytes are no snapshot. -/
theorem decode_of_length_lt {bytes : List UInt8} (h : bytes.length < 5) :
    decode bytes = .error .badMagic := by
  unfold decode
  split
  · simp only [List.length_cons] at h
    omega
  · rfl

/-- Records that cannot be read behind the first five bytes are at fault. -/
theorem decode_magic {payload : List UInt8} {f : Wire.Fault}
    (h : (Wire.list readRecord).run payload = .error f) :
    decode (magic ++ version :: payload) = .error (.badPayload f) := by
  simp only [magic, List.cons_append, List.nil_append, decode, ne_eq, not_true_eq_false, if_false,
    h]

/-- A snapshot that is cut off is never read as records. If not even the first five bytes are
left, it does not start like a snapshot; otherwise its bytes run out. -/
theorem decode_take_encode {records : List SymbolRecord} (h : CountsFit records) {k : Nat}
    (hk : k < (encode records).length) : decode ((encode records).take k) =
      .error (if k < 5 then .badMagic else .badPayload .unexpectedEnd) := by
  split
  · next hshort =>
    refine decode_of_length_lt ?_
    rw [List.length_take]
    omega
  · next hlong =>
    obtain ⟨n, rfl⟩ : ∃ n, k = n + 5 := ⟨k - 5, by omega⟩
    have htake : (encode records).take (n + 5) =
        magic ++ version :: (Wire.encodeList encodeRecord records).take n := rfl
    have hlt : ((Wire.encodeList encodeRecord records).take n).length <
        (Wire.encodeList encodeRecord records).length := by
      have hlength : (encode records).length =
          (Wire.encodeList encodeRecord records).length + 5 := rfl
      rw [List.length_take]
      omega
    have hcut := (reads_records h).run_cut (decides_list decides_record) (List.take_prefix n _) hlt
    rw [htake]
    exact decode_magic hcut

/-- A cut before the version, and one between the two bytes of a letter. -/
theorem decode_take_extremeRecords : CountsFit extremeRecords ∧
    21 < (encode extremeRecords).length ∧ (encode extremeRecords)[20]? = some 0xc3 ∧
      decode ((encode extremeRecords).take 4) = .error .badMagic ∧
        decode ((encode extremeRecords).take 21) = .error (.badPayload .unexpectedEnd) :=
  have hfit : CountsFit extremeRecords := by decide +kernel
  have hlong : 21 < (encode extremeRecords).length := by decide +kernel
  ⟨hfit, hlong, by decide +kernel, decode_take_encode hfit (Nat.lt_trans (by decide) hlong),
    decode_take_encode hfit hlong⟩

end Snapshot

end NativeBindings
