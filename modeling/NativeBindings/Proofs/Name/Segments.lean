import NativeBindings.Proofs.Name.Balanced

/-!
# Segments of any text

The segments of a name put together again are the name, and no segment has segments of its own
(`Name.cut_of_mem_cut`), however the brackets of the name stand. The other way round, balanced
texts without a colon outside of brackets are the segments of what they are put together to
(`Name.segments_intercalate`).

A name is cut between bytes, where its encoding has the two bytes of a separator. Read as a
character each (`Name.octets`), the bytes of a name are cut into the bytes of its segments
(`Name.cut_octets`): no byte of a longer character is taken for a bracket or for a part of the
separator, and so every cut lies between two characters.
-/

namespace NativeBindings.Name

variable {c : Char} {sep s t p : List Char} {ps : List (List Char)} {d : Nat}

/-! ## Cutting once -/

/-- The first piece stands at the start. -/
theorem prefix_of_cut (hsep : sep ≠ []) (h : cut sep d s = p :: ps) : p <+: s := by
  have hs := intercalate_cut hsep d s
  rw [h] at hs
  cases ps with
  | nil => exact ⟨[], by simpa using hs⟩
  | cons q ps => exact ⟨_, by rw [← hs, List.intercalate_cons_cons, List.append_assoc]⟩

/-- What was cut is not cut again: the first piece not where as many brackets are open as before,
and the others not where none are. A separator in a piece would be one in the text. -/
theorem cut_of_cut (hsep : sep ≠ []) (h : cut sep d s = p :: ps) :
    cut sep d p = [p] ∧ ∀ q ∈ ps, cut sep 0 q = [q] := by
  fun_induction cut sep d s generalizing p ps with
  | case1 d =>
    obtain ⟨rfl, rfl⟩ := List.cons.inj h
    exact ⟨by rw [cut], by simp⟩
  | case2 d c r ho ih =>
    obtain ⟨q, qs, hr⟩ := exists_cut_eq_cons sep (d + 1) r
    obtain ⟨hq, hqs⟩ := ih hr
    rw [hr] at h
    obtain ⟨rfl, rfl⟩ := List.cons.inj h
    exact ⟨by rw [cut, if_pos ho, hq, extendFirst], hqs⟩
  | case3 d c r ho hc ih =>
    obtain ⟨q, qs, hr⟩ := exists_cut_eq_cons sep (d - 1) r
    obtain ⟨hq, hqs⟩ := ih hr
    rw [hr] at h
    obtain ⟨rfl, rfl⟩ := List.cons.inj h
    exact ⟨by rw [cut, if_neg ho, if_pos hc, hq, extendFirst], hqs⟩
  | case4 d c r ho hc hd ih =>
    obtain ⟨q, qs, hr⟩ := exists_cut_eq_cons sep 0 (r.drop (sep.length - 1))
    obtain ⟨hq, hqs⟩ := ih hr
    rw [hr] at h
    obtain ⟨rfl, rfl⟩ := List.cons.inj h
    exact ⟨by rw [cut], List.forall_mem_cons.2 ⟨hq, hqs⟩⟩
  | case5 d c r ho hc hd ih =>
    obtain ⟨q, qs, hr⟩ := exists_cut_eq_cons sep d r
    obtain ⟨hq, hqs⟩ := ih hr
    rw [hr] at h
    obtain ⟨rfl, rfl⟩ := List.cons.inj h
    have hd' : ¬(d = 0 ∧ sep <+: c :: q) := fun hd' =>
      hd ⟨hd'.1, hd'.2.trans (List.cons_prefix_cons.2 ⟨rfl, prefix_of_cut hsep hr⟩)⟩
    exact ⟨by rw [cut, if_neg ho, if_neg hc, if_neg hd', hq, extendFirst], hqs⟩

/-- No piece is cut again. -/
theorem cut_of_mem_cut (hsep : sep ≠ []) (h : p ∈ cut sep 0 s) : cut sep 0 p = [p] := by
  obtain ⟨q, qs, hs⟩ := exists_cut_eq_cons sep 0 s
  obtain ⟨hq, hqs⟩ := cut_of_cut hsep hs
  rw [hs] at h
  rcases List.mem_cons.1 h with rfl | h
  · exact hq
  · exact hqs p h

/-! ## Putting segments together -/

/-- Balanced texts with no colon outside of brackets are the segments of what they make. -/
theorem segments_intercalate (hne : ps ≠ []) (h : ∀ p ∈ ps, Balanced p ∧ ':' ∉ outside 0 p) :
    segments (separator.intercalate ps) = ps := by
  induction ps with
  | nil => exact absurd rfl hne
  | cons p ps ih =>
    obtain ⟨⟨hp, hcolon⟩, hps⟩ := List.forall_mem_cons.1 h
    cases ps with
    | nil => rw [List.intercalate_singleton, segments_single hp hcolon]
    | cons q ps =>
      rw [List.intercalate_cons_cons, segments_append hp hcolon, ih (List.cons_ne_nil q ps) hps]

/-! ## Bytes -/

/-- The bytes of a text in UTF-8, each read as the character with its number. -/
def octets (s : List Char) : List Char :=
  (s.flatMap String.utf8EncodeChar).map Char.ofUInt8

theorem octets_append (s t : List Char) : octets (s ++ t) = octets s ++ octets t := by
  simp [octets]

theorem octets_cons (c : Char) (s : List Char) : octets (c :: s) = octets [c] ++ octets s :=
  octets_append [c] s

theorem octets_single (h : c.toNat < 128) : octets [c] = [c] := by
  have hc : c.val.toNat ≤ 127 := Nat.le_of_lt_succ h
  simp only [octets, List.flatMap_singleton, String.utf8EncodeChar, hc, if_true, List.map_singleton,
    List.cons.injEq, and_true]
  apply Char.ext
  apply UInt32.toNat_inj.1
  change (UInt8.ofNat c.val.toNat).toUInt32.toNat = c.val.toNat
  rw [UInt8.toNat_toUInt32, UInt8.toNat_ofNat']
  omega

/-- The bytes of a longer character are none of a shorter one. -/
theorem le_of_mem_octets {x : Char} (h : 128 ≤ c.toNat) (hx : x ∈ octets [c]) :
    128 ≤ x.toNat := by
  have hc : ¬c.val.toNat ≤ 127 := Nat.not_le.2 h
  simp only [octets, List.flatMap_singleton, String.utf8EncodeChar, hc, if_false] at hx
  obtain ⟨b, hb, rfl⟩ := List.mem_map.1 hx
  change 128 ≤ b.toUInt32.toNat
  rw [UInt8.toNat_toUInt32]
  split at hb
  · simp only [List.mem_cons, List.not_mem_nil, or_false] at hb
    rcases hb with rfl | rfl <;> simp only [UInt8.toNat_ofNat'] <;> omega
  · split at hb <;> simp only [List.mem_cons, List.not_mem_nil, or_false] at hb
    · rcases hb with rfl | rfl | rfl <;> simp only [UInt8.toNat_ofNat'] <;> omega
    · rcases hb with rfl | rfl | rfl | rfl <;> simp only [UInt8.toNat_ofNat'] <;> omega

theorem octets_single_ne_nil (c : Char) : octets [c] ≠ [] := by
  have hlength : (octets [c]).length = c.utf8Size := by simp [octets]
  exact List.ne_nil_of_length_pos (hlength ▸ c.utf8Size_pos)

/-- Characters below 128 are their own bytes. -/
theorem octets_ascii (h : ∀ c ∈ s, c.toNat < 128) : octets s = s := by
  induction s with
  | nil => rfl
  | cons c s ih =>
    obtain ⟨hc, hs⟩ := List.forall_mem_cons.1 h
    rw [octets_cons, octets_single hc, ih hs, List.singleton_append]

/-- A separator that is its own bytes stays between what it separates. -/
theorem octets_intercalate (hsep : octets sep = sep) (ps : List (List Char)) :
    octets (sep.intercalate ps) = sep.intercalate (ps.map octets) := by
  induction ps with
  | nil => rfl
  | cons p ps ih =>
    cases ps with
    | nil => simp
    | cons q ps =>
      rw [List.intercalate_cons_cons, octets_append, octets_append, hsep, ih]
      simp only [List.map_cons, List.intercalate_cons_cons]

theorem lt_of_opens (h : opens c = true) : c.toNat < 128 := by
  simp only [opens, Bool.or_eq_true, beq_iff_eq] at h
  rcases h with (rfl | rfl) | rfl <;> decide

theorem lt_of_closes (h : closes c = true) : c.toNat < 128 := by
  simp only [closes, Bool.or_eq_true, beq_iff_eq] at h
  rcases h with (rfl | rfl) | rfl <;> decide

/-- A separator of characters below 128 stands at the start of the bytes exactly if it does so in
the text, since a longer character begins with no such byte. -/
theorem prefix_octets_iff (hsep : ∀ c ∈ sep, c.toNat < 128) : sep <+: octets s ↔ sep <+: s := by
  induction sep generalizing s with
  | nil => simp
  | cons x sep ih =>
    obtain ⟨hx, hsep⟩ := List.forall_mem_cons.1 hsep
    cases s with
    | nil => exact Iff.rfl
    | cons c s =>
      rw [octets_cons]
      rcases Nat.lt_or_ge c.toNat 128 with hc | hc
      · rw [octets_single hc, List.singleton_append, List.cons_prefix_cons, List.cons_prefix_cons,
          ih hsep]
      · obtain ⟨y, ys, hy⟩ := List.exists_cons_of_ne_nil (octets_single_ne_nil c)
        have hle : 128 ≤ y.toNat := le_of_mem_octets hc (hy ▸ List.mem_cons_self)
        rw [hy, List.cons_append, List.cons_prefix_cons, List.cons_prefix_cons]
        constructor
        · rintro ⟨rfl, -⟩
          omega
        · rintro ⟨rfl, -⟩
          omega

/-- The bytes of a longer character belong to the first piece. -/
theorem cut_octets_append (hsep : sep ≠ []) (hascii : ∀ x ∈ sep, x.toNat < 128)
    (hc : 128 ≤ c.toNat) (ht : cut sep d t = p :: ps) :
    cut sep d (octets [c] ++ t) = (octets [c] ++ p) :: ps := by
  obtain ⟨x, sep, rfl⟩ := List.exists_cons_of_ne_nil hsep
  refine cut_append ht (depthBehind_plain (fun y hy => ?_) d) fun hmem => ?_
  · have hle := le_of_mem_octets hc hy
    have hopens : ¬opens y = true := fun h => Nat.not_lt.2 hle (lt_of_opens h)
    have hcloses : ¬closes y = true := fun h => Nat.not_lt.2 hle (lt_of_closes h)
    exact ⟨eq_false_of_ne_true hopens, eq_false_of_ne_true hcloses⟩
  · have hle := le_of_mem_octets hc (mem_of_mem_outside hmem)
    exact Nat.not_lt.2 hle (hascii x List.mem_cons_self)

/-- Cutting the bytes of a text gives the bytes of its pieces. -/
theorem cut_octets (hsep : sep ≠ []) (hascii : ∀ x ∈ sep, x.toNat < 128) (d : Nat)
    (s : List Char) : cut sep d (octets s) = (cut sep d s).map octets := by
  fun_induction cut sep d s with
  | case1 d => rw [show octets [] = [] from rfl, cut]; rfl
  | case2 d c r ho ih =>
    obtain ⟨p, ps, hr⟩ := exists_cut_eq_cons sep (d + 1) r
    have hc := octets_single (lt_of_opens ho)
    rw [octets_cons, hc, List.singleton_append, cut, if_pos ho, ih, hr]
    simp only [List.map_cons, extendFirst, octets_cons c p, hc, List.singleton_append]
  | case3 d c r ho hcl ih =>
    obtain ⟨p, ps, hr⟩ := exists_cut_eq_cons sep (d - 1) r
    have hc := octets_single (lt_of_closes hcl)
    rw [octets_cons, hc, List.singleton_append, cut, if_neg ho, if_pos hcl, ih, hr]
    simp only [List.map_cons, extendFirst, octets_cons c p, hc, List.singleton_append]
  | case4 d c r ho hcl hd ih =>
    obtain ⟨rfl, t, ht⟩ := hd
    obtain ⟨x, sep, rfl⟩ := List.exists_cons_of_ne_nil hsep
    obtain ⟨rfl, rfl⟩ : x = c ∧ sep ++ t = r := List.cons.inj ht
    have hbytes : octets (x :: (sep ++ t)) = x :: (sep ++ octets t) := by
      rw [← List.cons_append, octets_append, octets_ascii hascii, List.cons_append]
    have hprefix : x :: sep <+: x :: (sep ++ octets t) := ⟨octets t, rfl⟩
    simp only [List.length_cons, Nat.add_sub_cancel, List.drop_left] at ih ⊢
    rw [hbytes, cut, if_neg ho, if_neg hcl, if_pos ⟨rfl, hprefix⟩]
    simp only [List.length_cons, Nat.add_sub_cancel, List.drop_left, ih, List.map_cons]
    rfl
  | case5 d c r ho hcl hd ih =>
    obtain ⟨p, ps, hr⟩ := exists_cut_eq_cons sep d r
    rw [hr, List.map_cons] at ih
    rw [hr, extendFirst, List.map_cons, octets_cons c p, octets_cons c r]
    rcases Nat.lt_or_ge c.toNat 128 with hc | hc
    · have hd' : ¬(d = 0 ∧ sep <+: c :: octets r) := by
        have hbytes := octets_cons c r
        rw [octets_single hc, List.singleton_append] at hbytes
        rwa [← hbytes, prefix_octets_iff hascii]
      rw [octets_single hc, List.singleton_append, cut, if_neg ho, if_neg hcl, if_neg hd', ih,
        extendFirst, List.singleton_append]
    · exact cut_octets_append hsep hascii hc ih

theorem separator_ascii : ∀ x ∈ separator, x.toNat < 128 := by
  simp [separator]

/-- A name is cut in the same places, whether by characters or by bytes. -/
theorem segments_octets (name : List Char) :
    segments (octets name) = (segments name).map octets :=
  cut_octets (by simp [separator]) separator_ascii 0 name

/-- The last segment is cut off, and the others are put together again. -/
theorem split_eq_ite (name : List Char) : split name =
    if (segments name).length = 1 then (none, name)
    else (some (separator.intercalate (segments name).dropLast), (segments name).getLastD []) := by
  have hjoin := intercalate_segments name
  unfold split
  split
  · next h => exact absurd h (cut_ne_nil _ _ _)
  · next last h =>
    rw [h, List.intercalate_singleton] at hjoin
    simp [h, hjoin]
  · next p q ps h => simp [h]

theorem split_octets (name : List Char) :
    split (octets name) = ((split name).1.map octets, octets (split name).2) := by
  have hlast : ((segments name).map octets).getLastD [] = octets ((segments name).getLastD []) := by
    rw [List.getLastD_eq_getLast?, List.getLastD_eq_getLast?, List.getLast?_map]
    cases (segments name).getLast? <;> rfl
  rw [split_eq_ite, split_eq_ite, segments_octets, List.length_map]
  split
  · rfl
  · rw [hlast, ← List.map_dropLast, ← octets_intercalate (octets_ascii separator_ascii),
      Option.map_some]

/-- Behind the bytes of a part of a text comes a character of the text, or its end. -/
theorem isValid_length_octets (s t : List Char) :
    String.Pos.Raw.IsValid (String.ofList (s ++ t)) ⟨(octets s).length⟩ := by
  refine String.Pos.Raw.isValid_iff_exists_append.2
    ⟨String.ofList s, String.ofList t, String.ofList_append, ?_⟩
  simp [octets, String.rawEndPos, ← String.size_toByteArray, List.utf8Encode]

theorem intercalate_append {ps qs : List (List Char)} (hps : ps ≠ []) (hqs : qs ≠ []) :
    sep.intercalate (ps ++ qs) = sep.intercalate ps ++ sep ++ sep.intercalate qs := by
  induction ps with
  | nil => exact absurd rfl hps
  | cons p ps ih =>
    cases ps with
    | nil => rw [List.singleton_append, List.intercalate_singleton,
        List.intercalate_cons_of_ne_nil hqs]
    | cons q ps =>
      rw [List.cons_append, List.intercalate_cons_of_ne_nil (by simp), ih (by simp),
        List.intercalate_cons_cons]
      simp only [List.append_assoc]

/-- Where the bytes of a name are cut, a character ends before the separator and one begins behind
it, or the name ends. -/
theorem isValid_cut {name : List Char} {front back : List (List Char)} (hfront : front ≠ [])
    (hback : back ≠ []) (h : segments (octets name) = front ++ back) :
    String.Pos.Raw.IsValid (String.ofList name) ⟨(separator.intercalate front).length⟩ ∧
      String.Pos.Raw.IsValid (String.ofList name)
        ⟨(separator.intercalate front).length + separator.length⟩ := by
  rw [segments_octets] at h
  obtain ⟨ps, qs, hname, rfl, rfl⟩ := List.map_eq_append_iff.1 h
  have hascii : octets separator = separator := octets_ascii separator_ascii
  have hjoin := intercalate_segments name
  rw [hname, intercalate_append (by simpa using hfront) (by simpa using hback)] at hjoin
  rw [← octets_intercalate hascii]
  constructor
  · have hvalid := isValid_length_octets (separator.intercalate ps)
      (separator ++ separator.intercalate qs)
    rwa [← List.append_assoc, hjoin] at hvalid
  · have hvalid := isValid_length_octets (separator.intercalate ps ++ separator)
      (separator.intercalate qs)
    rwa [hjoin, octets_append, hascii, List.length_append] at hvalid

/-- Cutting a name into segments and putting segments together undo each other, a segment is not
cut again, and the namespace is all segments but the last. The same cuts are made in the bytes of
the name, each between two characters. -/
theorem segments_inverse_join (name : List Char) :
    separator.intercalate (segments name) = name ∧
      (∀ s ∈ segments name, segments s = [s]) ∧
      (split name = if (segments name).length = 1 then (none, name)
        else (some (separator.intercalate (segments name).dropLast),
          (segments name).getLastD [])) ∧
      (segments (octets name) = (segments name).map octets ∧
        split (octets name) = ((split name).1.map octets, octets (split name).2)) ∧
      (∀ front back, front ≠ [] → back ≠ [] → segments (octets name) = front ++ back →
        String.Pos.Raw.IsValid (String.ofList name) ⟨(separator.intercalate front).length⟩ ∧
          String.Pos.Raw.IsValid (String.ofList name)
            ⟨(separator.intercalate front).length + separator.length⟩) ∧
      ∀ ss : List (List Char), ss ≠ [] → (∀ s ∈ ss, Balanced s ∧ ':' ∉ outside 0 s) →
        segments (separator.intercalate ss) = ss := by
  refine ⟨intercalate_segments name, fun s hs => ?_, split_eq_ite name,
    ⟨segments_octets name, split_octets name⟩, fun front back => isValid_cut,
    fun ss => segments_intercalate⟩
  exact cut_of_mem_cut (by simp [separator]) hs

/-- Separators within brackets of all kinds are not cut at. -/
theorem nestedSegments_joined :
    segments (separator.intercalate ["ns".toList, "Map<a::K, b::V>".toList, "(f::g)[::]".toList]) =
      ["ns".toList, "Map<a::K, b::V>".toList, "(f::g)[::]".toList] :=
  (segments_inverse_join []).2.2.2.2.2 _ (List.cons_ne_nil _ _) (by decide +kernel)

/-- Brackets that do not match, and colons in a row. -/
example : segments "é>:::ü<::x".toList = ["é>".toList, ":ü<::x".toList] := by
  decide +kernel

end NativeBindings.Name
