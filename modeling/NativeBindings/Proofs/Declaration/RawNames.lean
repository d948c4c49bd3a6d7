import NativeBindings.Proofs.Declaration.LegalNames

/-!
# Raw and numbered names

Members take their names one after the other (`Name.Allotted`). Each comes with a base, and is
called by that or by the base with the least number that is still free (`Name.repeated`). So no
name is written twice (`Name.Allotted.nodup`).

One identifier may be given twice all the same. Names are compared as they are written, but a raw
word denotes the same identifier as the word alone (`Name.denoted`). Only keywords are written
raw, and a number is not part of a keyword: the second `r#type` becomes `r#type_2`, and `type_2`
may be a base as well. This is all that can happen (`Name.Allotted.nodup_denoted_iff`).
-/

namespace NativeBindings

namespace Name

variable {s t base : String} {k : Nat} {taken bases names : List String}

/-! ## Legal names -/

/-- A name that a member may have: a word that is not reserved, or a raw word. -/
inductive LegalMember : String → Prop
  | plain {s : String} (h : Legal s) : LegalMember s
  | raw {s : String} (h : Word s) (hs : s ∉ unrawable) : LegalMember ("r#" ++ s)

/-- The identifier that a written name denotes. -/
def denoted (written : String) : String :=
  match written.toList with
  | 'r' :: '#' :: word => String.ofList word
  | _ => written

theorem Word.hash_not_mem (h : Word s) : '#' ∉ s.toList :=
  fun hmem => absurd (h.chars '#' hmem) (by decide)

theorem Word.ne_raw (h : Word s) (t : String) : s ≠ "r#" ++ t := by
  rintro rfl
  exact h.hash_not_mem (by simp [String.toList_append])

theorem denoted_raw (s : String) : denoted ("r#" ++ s) = s := by
  simp [denoted, String.toList_append]

theorem denoted_word (h : Word s) : denoted s = s := by
  unfold denoted
  split
  · next hs => exact absurd (by simp [hs]) h.hash_not_mem
  · rfl

/-- A raw name is legal if it is a word that may be written raw. -/
theorem legalMember_raw_iff : LegalMember ("r#" ++ s) ↔ Word s ∧ s ∉ unrawable := by
  refine ⟨fun h => ?_, fun h => .raw h.1 h.2⟩
  generalize heq : "r#" ++ s = t at h
  cases h with
  | plain h => exact absurd heq.symm (h.word.ne_raw s)
  | raw h hs =>
    obtain rfl := (String.append_right_inj _).1 heq
    exact ⟨h, hs⟩

/-- A legal member that is a word is a legal name. -/
theorem LegalMember.legal (h : LegalMember s) (hs : Word s) : Legal s := by
  cases h with
  | plain h => exact h
  | raw => exact absurd rfl (hs.ne_raw _)

/-- Different legal names denote one identifier if one of them is the other in raw form. -/
theorem nodup_denoted_iff (hlegal : ∀ n ∈ names, LegalMember n) (hnodup : names.Nodup) :
    (names.map denoted).Nodup ↔ ∀ w, "r#" ++ w ∈ names → w ∉ names := by
  refine ⟨fun h w hraw hw => ?_, fun h => hnodup.map_on fun s hs t ht heq => ?_⟩
  · have hword := (legalMember_raw_iff.1 (hlegal _ hraw)).1
    have hsame : denoted ("r#" ++ w) = denoted w := by rw [denoted_raw, denoted_word hword]
    exact hword.ne_raw w (List.inj_on_of_nodup_map h hraw hw hsame).symm
  · cases hlegal s hs with
    | plain hs' =>
      rw [denoted_word hs'.word] at heq
      cases hlegal t ht with
      | plain ht' => rwa [denoted_word ht'.word] at heq
      | raw =>
        rw [denoted_raw] at heq
        exact absurd (heq ▸ hs) (h _ ht)
    | @raw s =>
      rw [denoted_raw] at heq
      cases hlegal t ht with
      | plain ht' =>
        rw [denoted_word ht'.word] at heq
        exact absurd (heq ▸ ht) (h _ hs)
      | raw => rw [heq, denoted_raw]

/-! ## Numbers -/

/-- A base, with a number behind it from the second time on. -/
def repeated (base : String) (k : Nat) : String :=
  if k = 1 then base else base ++ "_" ++ toString k

theorem repeated_one (base : String) : repeated base 1 = base :=
  rfl

theorem repeated_of_ne (base : String) (hk : k ≠ 1) :
    repeated base k = base ++ "_" ++ toString k :=
  if_neg hk

/-- Numbers stand at the end. -/
theorem repeated_append (s t : String) (k : Nat) : repeated (s ++ t) k = s ++ repeated t k := by
  unfold repeated
  split
  · rfl
  · simp only [String.append_assoc]

/-- A number and what stands before it can be told from the text. Read backwards, its digits are
those before the first underscore. -/
theorem eq_of_numbered_eq {i j : Nat} (h : s ++ "_" ++ toString i = t ++ "_" ++ toString j) :
    s = t ∧ i = j := by
  have hdigits (s : String) (k : Nat) : (s ++ "_" ++ toString k).toList.reverse.takeWhile
      Char.isDigit = (toString k).toList.reverse := by
    have hall : ∀ c ∈ (toString k).toList.reverse, c.isDigit = true := fun c hc =>
      Text.isDigit_of_mem_toString (List.mem_reverse.1 hc)
    rw [String.toList_append, String.toList_append, List.reverse_append, List.reverse_append,
      List.takeWhile_append_of_pos hall]
    exact List.append_nil _
  have hnumber : toString i = toString j := by
    rw [← String.toList_inj, ← List.reverse_inj, ← hdigits s, h, hdigits t]
  rw [hnumber, String.append_left_inj, String.append_left_inj] at h
  exact ⟨h, eq_of_toString_eq hnumber⟩

/-- Different numbers make different names. -/
theorem repeated_inj {i j : Nat} (h : repeated base i = repeated base j) : i = j := by
  have hne (k : Nat) : base ≠ base ++ "_" ++ toString k := fun h => by
    rw [String.append_assoc] at h
    have hempty := String.append_eq_left_iff.1 h.symm
    rw [String.append_eq_empty_iff] at hempty
    exact absurd hempty.1 (by decide)
  unfold repeated at h
  split at h <;> split at h
  · next hi hj => rw [hi, hj]
  · exact absurd h (hne j)
  · exact absurd h.symm (hne i)
  · exact (eq_of_numbered_eq h).2

theorem Word.repeated (h : Word s) (k : Nat) : Word (repeated s k) := by
  unfold Name.repeated
  split
  · exact h
  · exact (h.append (by simp [isWord])).append fun c => isWord_of_mem_toString

/-- No reserved word ends with a number. -/
theorem repeated_not_mem_reserved (s : String) (hk : k ≠ 1) : repeated s k ∉ reserved :=
  repeated_of_ne s hk ▸ append_toString_not_mem_reserved _ k

theorem Legal.repeated (h : Legal s) (k : Nat) : Legal (repeated s k) where
  word := h.word.repeated k
  free := by
    by_cases hk : k = 1
    · exact hk ▸ h.free
    · exact repeated_not_mem_reserved s hk

/-! ## Bases -/

/-- What members may be called: a word that is not reserved, or a keyword in raw form. -/
inductive MemberBase : String → Prop
  | plain {s : String} (h : Legal s) : MemberBase s
  | keyword {s : String} (hs : s ∈ keywords) : MemberBase ("r#" ++ s)

theorem word_of_mem_keywords (hs : s ∈ keywords) : Word s :=
  (by decide +kernel : ∀ s ∈ keywords, Word s) s hs

theorem not_mem_unrawable_of_mem_keywords (hs : s ∈ keywords) : s ∉ unrawable :=
  (by decide : ∀ s ∈ keywords, s ∉ unrawable) s hs

theorem mem_reserved_of_mem_keywords (hs : s ∈ keywords) : s ∈ reserved :=
  List.mem_append_left _ hs

/-- Neither a keyword nor one with a number is a word that is not allowed in raw form. -/
theorem repeated_not_mem_unrawable (hs : s ∈ keywords) (k : Nat) : repeated s k ∉ unrawable := by
  by_cases hk : k = 1
  · exact hk ▸ not_mem_unrawable_of_mem_keywords hs
  · exact fun hmem => repeated_not_mem_reserved s hk (List.mem_append_right _ hmem)

/-- A keyword with a number is no other word with a number. -/
theorem keyword_eq_of_repeated_eq {i j : Nat} (hs : s ∈ keywords) (ht : t ∈ keywords)
    (h : repeated s i = repeated t j) : s = t := by
  by_cases hi : i = 1
  · by_cases hj : j = 1
    · rwa [hi, hj] at h
    · refine absurd (mem_reserved_of_mem_keywords hs) ?_
      rw [hi, repeated_one] at h
      exact h ▸ repeated_not_mem_reserved t hj
  · by_cases hj : j = 1
    · refine absurd (mem_reserved_of_mem_keywords ht) ?_
      rw [hj, repeated_one] at h
      exact h ▸ repeated_not_mem_reserved s hi
    · rw [repeated_of_ne s hi, repeated_of_ne t hj] at h
      exact (eq_of_numbered_eq h).1

namespace MemberBase

/-- A base with any number is a legal member. -/
theorem legalMember_repeated (h : MemberBase base) (k : Nat) :
    LegalMember (repeated base k) := by
  cases h with
  | plain h => exact .plain (h.repeated k)
  | keyword hs =>
    rw [repeated_append]
    exact .raw ((word_of_mem_keywords hs).repeated k) (repeated_not_mem_unrawable hs k)

/-- What is written raw comes from a keyword. -/
theorem exists_keyword_of_raw (h : MemberBase base) (heq : repeated base k = "r#" ++ s) :
    ∃ word ∈ keywords, base = "r#" ++ word ∧ s = repeated word k := by
  cases h with
  | plain h => exact absurd heq ((h.repeated k).word.ne_raw s)
  | @keyword word hs =>
    rw [repeated_append, String.append_right_inj] at heq
    exact ⟨word, hs, rfl, heq.symm⟩

/-- A raw keyword with a number has only that keyword for its base. -/
theorem eq_raw_of_repeated_eq {j : Nat} (h : MemberBase base) (hs : s ∈ keywords)
    (heq : repeated base j = repeated ("r#" ++ s) k) : base = "r#" ++ s := by
  rw [repeated_append] at heq
  obtain ⟨word, hword, rfl, hrepeated⟩ := h.exists_keyword_of_raw heq
  rw [keyword_eq_of_repeated_eq hs hword hrepeated]

/-- A keyword with a number that is not raw is a base itself. -/
theorem eq_of_repeated_eq_keyword {j : Nat} (h : MemberBase base) (hs : s ∈ keywords)
    (hk : k ≠ 1) (heq : repeated base j = repeated s k) : base = repeated s k := by
  cases h with
  | plain h =>
    by_cases hj : j = 1
    · rwa [hj] at heq
    · rw [repeated_of_ne _ hj, repeated_of_ne s hk] at heq
      obtain ⟨rfl, -⟩ := eq_of_numbered_eq heq
      exact absurd (mem_reserved_of_mem_keywords hs) h.free
  | keyword =>
    rw [repeated_append] at heq
    exact absurd heq.symm (((word_of_mem_keywords hs).repeated k).ne_raw _)

end MemberBase

/-! ## One after the other -/

/-- How bases become names when some names are taken: in order, each is repeated the least number
of times that gives a free name. -/
inductive Allotted : List String → List String → List String → Prop
  | nil {taken : List String} : Allotted taken [] []
  | cons {taken bases names : List String} {base : String} {k : Nat}
    (hk : IsLeast {k | 1 ≤ k ∧ repeated base k ∉ taken} k)
    (h : Allotted (repeated base k :: taken) bases names) :
    Allotted taken (base :: bases) (repeated base k :: names)

/-- The least free number is chosen. -/
theorem exists_distinct (taken : List String) (base : String) :
    ∃ k, (distinct taken base fun k => base ++ "_" ++ toString k) = repeated base k ∧
      IsLeast {k | 1 ≤ k ∧ repeated base k ∉ taken} k := by
  unfold distinct
  by_cases hmem : base ∈ taken
  · have hleast : IsLeast {k | 2 ≤ k ∧ base ++ "_" ++ toString k ∉ taken}
        (firstFree taken fun k => base ++ "_" ++ toString k) :=
      isLeast_firstFree fun i j h => (eq_of_numbered_eq h).2
    generalize (firstFree taken fun k => base ++ "_" ++ toString k) = k at hleast
    obtain ⟨⟨hk, hfree⟩, hbelow⟩ := hleast
    rw [if_pos hmem]
    refine ⟨k, (repeated_of_ne base (by omega)).symm, ⟨by omega, ?_⟩, fun i ⟨hi, hi'⟩ => ?_⟩
    · rwa [repeated_of_ne base (by omega)]
    · have hne : i ≠ 1 := by
        rintro rfl
        exact hi' hmem
      rw [repeated_of_ne base hne] at hi'
      exact hbelow ⟨by omega, hi'⟩
  · rw [if_neg hmem]
    exact ⟨1, rfl, ⟨Nat.le_refl 1, hmem⟩, fun k hk => hk.1⟩

namespace Allotted

variable (h : Allotted taken bases names)

include h

/-- One more base chooses when all names before it are taken too. -/
theorem concat (hk : IsLeast {k | 1 ≤ k ∧ repeated base k ∉ names ++ taken} k) :
    Allotted taken (bases ++ [base]) (names ++ [repeated base k]) := by
  induction h with
  | nil => exact .cons hk .nil
  | cons hk' _ ih =>
    refine .cons hk' (ih ?_)
    simpa only [List.cons_append, List.mem_append, List.mem_cons, or_left_comm] using hk

/-- No name is allotted that was taken. -/
theorem not_mem_taken {name : String} (hname : name ∈ names) : name ∉ taken := by
  induction h with
  | nil => cases hname
  | cons hk _ ih =>
    rcases List.mem_cons.1 hname with rfl | hname
    · exact hk.1.2
    · exact fun hmem => ih hname (List.mem_cons_of_mem _ hmem)

/-- No name is given twice. -/
theorem nodup : names.Nodup := by
  induction h with
  | nil => exact List.nodup_nil
  | cons _ h ih =>
    exact List.nodup_cons.2 ⟨fun hmem => h.not_mem_taken hmem List.mem_cons_self, ih⟩

/-- Every name that is allotted is a base with a number. -/
theorem exists_base {name : String} (hname : name ∈ names) :
    ∃ base ∈ bases, ∃ k, 1 ≤ k ∧ name = repeated base k := by
  induction h with
  | nil => cases hname
  | @cons _ _ _ base k hk _ ih =>
    rcases List.mem_cons.1 hname with rfl | hname
    · exact ⟨base, List.mem_cons_self, k, hk.1.1, rfl⟩
    · obtain ⟨base', hbase, hk'⟩ := ih hname
      exact ⟨base', List.mem_cons_of_mem _ hbase, hk'⟩

/-- Every base is a name in the end. -/
theorem mem_of_mem_bases (hbase : base ∈ bases) : base ∈ names ∨ base ∈ taken := by
  induction h with
  | nil => cases hbase
  | @cons taken _ names first k hk _ ih =>
    rcases List.mem_cons.1 hbase with rfl | hbase
    · by_cases hmem : base ∈ taken
      · exact Or.inr hmem
      · have hone : k = 1 := Nat.le_antisymm (hk.2 ⟨Nat.le_refl 1, hmem⟩) hk.1.1
        rw [hone]
        exact Or.inl List.mem_cons_self
    · have hmem := ih hbase
      rw [List.mem_cons] at hmem ⊢
      tauto

/-- A base that shares its numbered forms with no other one is repeated as often as it occurs. -/
theorem repeated_mem_iff (hbase : ∀ b ∈ bases, ∀ i j, repeated b i = repeated base j → b = base)
    {n : Nat} (htaken : ∀ k, 1 ≤ k → (repeated base k ∈ taken ↔ k ≤ n)) (hk : 1 ≤ k) :
    repeated base k ∈ names ∨ repeated base k ∈ taken ↔ k ≤ n + bases.count base := by
  induction h generalizing n with
  | nil => simpa using htaken k hk
  | @cons taken bases names b i hi h ih =>
    have hmem : (repeated base k ∈ repeated b i :: names ∨ repeated base k ∈ taken) ↔
        repeated base k ∈ names ∨ repeated base k ∈ repeated b i :: taken := by
      simp only [List.mem_cons]
      tauto
    have hbases := fun b hb => hbase b (List.mem_cons_of_mem _ hb)
    rw [hmem]
    by_cases hb : b = base
    · subst hb
      obtain rfl : i = n + 1 := by
        refine hi.unique ⟨⟨by omega, (htaken _ (by omega)).not.2 (by omega)⟩, fun k hk => ?_⟩
        have := (htaken k hk.1).not.1 hk.2
        omega
      rw [ih hbases fun k hk => ?_, List.count_cons_self, Nat.add_right_comm, Nat.add_assoc]
      rw [List.mem_cons, htaken k hk]
      constructor
      · rintro (heq | hle)
        · exact Nat.le_of_eq (repeated_inj heq)
        · omega
      · intro hle
        rcases Nat.lt_or_ge n k with hlt | hle'
        · obtain rfl : k = n + 1 := by omega
          exact Or.inl rfl
        · exact Or.inr hle'
    · rw [ih hbases fun k hk => ?_, List.count_cons_of_ne hb]
      rw [List.mem_cons, htaken k hk, or_iff_right]
      exact fun heq => hb (hbase b List.mem_cons_self i k heq.symm)

end Allotted

/-- The identifiers of names are distinct if and only if no keyword with a number that its
repetitions reach is a base. -/
theorem Allotted.nodup_denoted_iff (h : Allotted [] bases names)
    (hbases : ∀ b ∈ bases, MemberBase b) :
    (names.map denoted).Nodup ↔ ∀ word ∈ keywords, ∀ k, 2 ≤ k →
      k ≤ bases.count ("r#" ++ word) → repeated word k ∉ bases := by
  have hlegal : ∀ n ∈ names, LegalMember n := fun n hn => by
    obtain ⟨b, hb, k, -, rfl⟩ := h.exists_base hn
    exact (hbases b hb).legalMember_repeated k
  have hraw {word : String} (hword : word ∈ keywords) {k : Nat} (hk : 1 ≤ k) :
      "r#" ++ repeated word k ∈ names ↔ k ≤ bases.count ("r#" ++ word) := by
    have hiff := h.repeated_mem_iff (n := 0)
      (fun b hb i j => (hbases b hb).eq_raw_of_repeated_eq hword) (by simp; omega) hk
    simpa [repeated_append] using hiff
  rw [Name.nodup_denoted_iff hlegal h.nodup]
  refine ⟨fun hclash word hword k hk hcount hmem => ?_, fun hfree s hs hmem => ?_⟩
  · have hname : repeated word k ∈ names := (h.mem_of_mem_bases hmem).resolve_right (by simp)
    exact hclash _ ((hraw hword (by omega)).2 hcount) hname
  · obtain ⟨b, hb, k, hk, heq⟩ := h.exists_base hs
    obtain ⟨word, hword, rfl, rfl⟩ := (hbases b hb).exists_keyword_of_raw heq.symm
    obtain ⟨b', hb', j, -, heq'⟩ := h.exists_base hmem
    by_cases hone : k = 1
    · subst hone
      exact ((hlegal _ hmem).legal (word_of_mem_keywords hword)).free
        (mem_reserved_of_mem_keywords hword)
    · have hbase := (hbases b' hb').eq_of_repeated_eq_keyword hword hone heq'.symm
      exact hfree word hword k (by omega) ((hraw hword hk).1 hs) (hbase ▸ hb')

end Name

end NativeBindings
