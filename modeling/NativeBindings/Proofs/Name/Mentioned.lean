import NativeBindings.NameTable
import NativeBindings.Proofs.FirstOccurrence

/-!
# Mentioned names

Names are mentioned one after the other, as texts of their own or as parts of others. Whatever is
mentioned, and in which way, a table holds each name once, in the order of first mention, and
finds it at its place there (`NameTable.Knows`). Places are told apart by their numbers as long as
there are at most 2³² of them: then numbers and names determine each other, for good
(`NameTable.numbers_calls`). The next name after these gets the number of the first
(`NameTable.run_of_full`).
-/

namespace NativeBindings

namespace NameTable

/-! ## Calls -/

/-- A name that is mentioned, as part of another text or as a text of its own. -/
inductive Call where
  | slice (name : String.Slice)
  | whole (name : String)

namespace Call

/-- The name that is mentioned. -/
def name : Call → String
  | slice name => name.copy
  | whole name => name

/-- The number that a call answers, and the table after it. -/
def run (t : NameTable) : Call → UInt32 × NameTable
  | slice name => t.mentionSlice name
  | whole name => t.mention name

theorem run_eq_mention (t : NameTable) (c : Call) : c.run t = t.mention c.name := by
  cases c with
  | slice name => exact t.mentionSlice_eq_mention name
  | whole name => rfl

end Call

/-- The table after calls. -/
def runAll (t : NameTable) (cs : List Call) : NameTable :=
  cs.foldl (fun t c => (c.run t).2) t

/-- Calls with the numbers that they answer. -/
def log (t : NameTable) : List Call → List (Call × UInt32)
  | [] => []
  | c :: cs => (c, (c.run t).1) :: log (c.run t).2 cs

/-- The different names that calls mention, in the order of first mention. -/
def firstMentions (cs : List Call) : List String :=
  (cs.map Call.name).eraseDups

/-! ## One call -/

/-- A table holds names in the order of first mention, each at its place. -/
structure Knows (t : NameTable) (names : List String) : Prop where
  names_eq : t.names.toList = names.eraseDups
  number?_eq : ∀ a, t.number? a =
    if a ∈ names then some (names.eraseDups.idxOf a).toUInt32 else none

theorem knows_empty : empty.Knows [] where
  names_eq := rfl
  number?_eq _ := rfl

variable {t : NameTable} {names : List String} {a b : String} {n : UInt32}

/-- There are as many numbers as different names. -/
theorem Knows.size_eq (h : t.Knows names) : t.size = names.eraseDups.length := by
  rw [← h.names_eq, size, Array.length_toList]

/-- The name of a number is the one at its place among the first mentions. -/
theorem Knows.name?_eq (h : t.Knows names) (n : UInt32) :
    t.name? n = names.eraseDups[n.toNat]? := by
  rw [← h.names_eq, name?, Array.getElem?_toList]

/-- A name has no number if it was not mentioned. -/
theorem Knows.number?_eq_none_iff (h : t.Knows names) : t.number? a = none ↔ a ∉ names := by
  simp [h.number?_eq a]

/-- Mentioning a name again teaches nothing. -/
theorem Knows.append_of_mem (h : t.Knows names) {name : String} (hname : name ∈ names) :
    t.Knows (names ++ [name]) := by
  have hdups : (names ++ [name]).eraseDups = names.eraseDups := by
    rw [eraseDups_concat, if_pos hname]
  have hmem (a : String) : a ∈ names ++ [name] ↔ a ∈ names := by
    simp only [List.mem_append, List.mem_singleton, or_iff_left_iff_imp]
    rintro rfl
    exact hname
  exact ⟨hdups ▸ h.names_eq, fun a => by simp only [hdups, hmem, h.number?_eq a]⟩

/-- A new name comes behind all others. -/
theorem Knows.insert (h : t.Knows names) {name : String} (hname : name ∉ names) :
    (t.insert name).2.Knows (names ++ [name]) := by
  have hdups : (names ++ [name]).eraseDups = names.eraseDups ++ [name] := by
    rw [eraseDups_concat, if_neg hname]
  refine ⟨?_, fun a => ?_⟩
  · rw [hdups, ← h.names_eq]
    exact Array.toList_push
  · by_cases ha : a = name
    · subst ha
      have hplace : (names.eraseDups ++ [a]).idxOf a = t.size := by
        rw [List.idxOf_append_of_notMem (mt List.mem_eraseDups.1 hname), List.idxOf_cons_self,
          Nat.add_zero, h.size_eq]
      rw [number?_insert_self, hdups, hplace, if_pos (by simp)]
      rfl
    · rw [number?_insert_of_ne t ha, h.number?_eq, hdups]
      by_cases hold : a ∈ names
      · rw [if_pos hold, if_pos (List.mem_append_left _ hold),
          List.idxOf_append_of_mem (List.mem_eraseDups.2 hold)]
      · rw [if_neg hold, if_neg (by simp [hold, ha])]

/-- Mentioning a name adds it to what is known. -/
theorem Knows.mention (h : t.Knows names) (name : String) :
    (t.mention name).2.Knows (names ++ [name]) := by
  by_cases hname : name ∈ names
  · have hn : t.mention name = ((names.eraseDups.idxOf name).toUInt32, t) := by
      rw [NameTable.mention, h.number?_eq, if_pos hname]
    exact hn ▸ h.append_of_mem hname
  · have hn : t.mention name = t.insert name := by
      rw [NameTable.mention, h.number?_eq_none_iff.2 hname]
    exact hn ▸ h.insert hname

/-! ## Runs -/

/-- A table knows the names that it knew and those that were mentioned since. -/
theorem Knows.runAll (h : t.Knows names) (cs : List Call) :
    (t.runAll cs).Knows (names ++ cs.map Call.name) := by
  induction cs generalizing t names with
  | nil => simpa [NameTable.runAll] using h
  | cons c cs ih =>
    have hc : (c.run t).2.Knows (names ++ [c.name]) := c.run_eq_mention t ▸ h.mention c.name
    simpa [NameTable.runAll] using ih hc

theorem knows_runAll_empty (cs : List Call) : (empty.runAll cs).Knows (cs.map Call.name) :=
  knows_empty.runAll cs

theorem runAll_append (t : NameTable) (cs ds : List Call) :
    t.runAll (cs ++ ds) = (t.runAll cs).runAll ds :=
  List.foldl_append

/-- A number that was given is kept. -/
theorem number?_runAll (h : t.number? a = some n) (cs : List Call) :
    (t.runAll cs).number? a = some n := by
  induction cs generalizing t with
  | nil => exact h
  | cons c cs ih =>
    refine ih (t := (c.run t).2) ?_
    rw [c.run_eq_mention]
    exact number?_mention_of_number? h c.name

theorem map_fst_log (t : NameTable) (cs : List Call) : (t.log cs).map Prod.fst = cs := by
  induction cs generalizing t with
  | nil => rfl
  | cons c cs ih => rw [log, List.map_cons, ih]

/-- What a call answers is found in the end. -/
theorem number?_of_mem_log {cs : List Call} {p : Call × UInt32} (hp : p ∈ t.log cs) :
    (t.runAll cs).number? p.1.name = some p.2 := by
  induction cs generalizing t with
  | nil => cases hp
  | cons c cs ih =>
    rcases List.mem_cons.1 hp with rfl | hp
    · refine number?_runAll (t := (c.run t).2) ?_ cs
      rw [c.run_eq_mention]
      exact t.number?_mention c.name
    · exact ih hp

theorem exists_mem_log {cs : List Call} {c : Call} (hc : c ∈ cs) : ∃ n, (c, n) ∈ t.log cs := by
  rw [← t.map_fst_log cs] at hc
  obtain ⟨⟨_, n⟩, hp, rfl⟩ := List.mem_map.1 hc
  exact ⟨n, hp⟩

/-! ## Numbers -/

/-- Numbers below the bound are told apart by 32 bits. -/
theorem toNat_toUInt32 {i k : Nat} (hi : i < k) (hk : k ≤ UInt32.size) : i.toUInt32.toNat = i :=
  UInt32.toNat_ofNat_of_lt' (Nat.lt_of_lt_of_le hi hk)

section

variable (h : t.Knows names) (hsize : t.size ≤ UInt32.size)

include h hsize

/-- The number of a name is its place. -/
theorem Knows.toNat_of_number? (hn : t.number? a = some n) :
    a ∈ names.eraseDups ∧ n.toNat = names.eraseDups.idxOf a := by
  rw [h.number?_eq] at hn
  split at hn
  · next hmem =>
    have hmem := List.mem_eraseDups.2 hmem
    obtain rfl := Option.some.inj hn
    exact ⟨hmem, toNat_toUInt32 (List.idxOf_lt_length_of_mem hmem) (h.size_eq ▸ hsize)⟩
  · cases hn

/-- Within the bound, names and numbers belong to each other. -/
theorem Knows.number?_eq_some_iff : t.number? a = some n ↔ t.name? n = some a := by
  rw [h.name?_eq]
  constructor
  · intro hn
    obtain ⟨hmem, hplace⟩ := h.toNat_of_number? hsize hn
    rw [hplace, List.getElem?_eq_some_iff]
    exact ⟨List.idxOf_lt_length_of_mem hmem, List.getElem_idxOf _⟩
  · intro hn
    obtain ⟨hlt, rfl⟩ := List.getElem?_eq_some_iff.1 hn
    rw [h.number?_eq, if_pos (List.mem_eraseDups.1 (List.getElem_mem hlt)),
      (nodup_eraseDups names).idxOf_getElem _ hlt]
    exact congrArg some UInt32.ofNat_toNat

theorem Knows.eq_of_number? (ha : t.number? a = some n) (hb : t.number? b = some n) : a = b := by
  rw [h.number?_eq_some_iff hsize] at ha hb
  exact Option.some.inj (ha.symm.trans hb)

end

theorem mem_firstMentions {cs : List Call} : a ∈ firstMentions cs ↔ a ∈ cs.map Call.name :=
  List.mem_eraseDups

theorem nodup_firstMentions (cs : List Call) : (firstMentions cs).Nodup :=
  nodup_eraseDups _

/-- What calls answer are the places of the names that they mention. -/
theorem map_snd_log (cs : List Call) : (empty.log cs).map Prod.snd =
    (cs.map Call.name).map fun a => ((firstMentions cs).idxOf a).toUInt32 := by
  have hanswer : ∀ p ∈ empty.log cs, p.2 = ((firstMentions cs).idxOf p.1.name).toUInt32 := by
    intro p hp
    have hc : p.1 ∈ cs := by
      rw [← empty.map_fst_log cs]
      exact List.mem_map_of_mem hp
    have hn := number?_of_mem_log hp
    rw [(knows_runAll_empty cs).number?_eq, if_pos (List.mem_map_of_mem hc)] at hn
    exact (Option.some.inj hn).symm
  calc (empty.log cs).map Prod.snd
      = (empty.log cs).map fun p => ((firstMentions cs).idxOf p.1.name).toUInt32 :=
        List.map_congr_left hanswer
    _ = (((empty.log cs).map Prod.fst).map Call.name).map
          fun a => ((firstMentions cs).idxOf a).toUInt32 := by
        simp only [List.map_map, Function.comp_def]
    _ = _ := by rw [map_fst_log]

/-- The numbers are handed out in order, from zero on. -/
theorem eraseDups_map_snd_log {cs : List Call}
    (hsize : (firstMentions cs).length ≤ UInt32.size) :
    ((empty.log cs).map Prod.snd).eraseDups =
      (List.range (firstMentions cs).length).map Nat.toUInt32 := by
  have htoNat {a : String} (ha : a ∈ cs.map Call.name) :
      ((firstMentions cs).idxOf a).toUInt32.toNat = (firstMentions cs).idxOf a :=
    toNat_toUInt32 (List.idxOf_lt_length_of_mem (mem_firstMentions.2 ha)) hsize
  have hinj : ∀ a ∈ cs.map Call.name, ∀ b ∈ cs.map Call.name,
      ((firstMentions cs).idxOf a).toUInt32 = ((firstMentions cs).idxOf b).toUInt32 → a = b := by
    intro a ha b hb heq
    have hplace := congrArg UInt32.toNat heq
    rw [htoNat ha, htoNat hb] at hplace
    exact (List.idxOf_inj (mem_firstMentions.2 ha)).1 hplace
  rw [map_snd_log, eraseDups_map hinj, ← firstMentions]
  refine List.ext_getElem (by simp) fun i hi _ => ?_
  rw [List.length_map] at hi
  rw [List.getElem_map, List.getElem_map, List.getElem_range,
    (nodup_firstMentions cs).idxOf_getElem i hi]

/-- How a table numbers names that were mentioned, some of them `before` and the others `after`,
beginning with the empty table. -/
structure Numbers (t : NameTable) (before after : List Call) : Prop where
  /-- There is one number for every name. -/
  size : t.size = (firstMentions (before ++ after)).length
  /-- Every call answers a number. -/
  answered : (empty.log (before ++ after)).map Prod.fst = before ++ after
  /-- The numbers are handed out in order, from zero on, … -/
  answers : ((empty.log (before ++ after)).map Prod.snd).eraseDups =
    (List.range t.size).map Nat.toUInt32
  /-- … to the names in the order of first mention. -/
  name? : ∀ n, t.name? n = (firstMentions (before ++ after))[n.toNat]?
  /-- Two calls answer the same number exactly if they mention the same name. -/
  same : ∀ p ∈ empty.log (before ++ after), ∀ q ∈ empty.log (before ++ after),
    p.2 = q.2 ↔ p.1.name = q.1.name
  /-- A number that was answered before still has its name. -/
  kept : ∀ p ∈ empty.log before, t.name? p.2 = some p.1.name
  /-- A name is found exactly if a call mentioned it, with the number that this call answered … -/
  found : ∀ {a n}, t.number? a = some n ↔
    ∃ p ∈ empty.log (before ++ after), p.1.name = a ∧ p.2 = n
  /-- … and that has this name. -/
  inverse : ∀ {a n}, t.number? a = some n ↔ t.name? n = some a
  /-- The numbers from the size on have no name, and no others. -/
  beyond : ∀ n, t.name? n = none ↔ t.size ≤ n.toNat

/-- Calls on the empty table number the names that they mention, if these are at most 2³². -/
theorem numbers_calls {before after : List Call}
    (h : (firstMentions (before ++ after)).length ≤ UInt32.size) :
    (empty.runAll (before ++ after)).Numbers before after := by
  have hknows := knows_runAll_empty (before ++ after)
  have hsize : (empty.runAll (before ++ after)).size ≤ UInt32.size := hknows.size_eq ▸ h
  refine
    { size := hknows.size_eq
      answered := map_fst_log _ _
      answers := hknows.size_eq ▸ eraseDups_map_snd_log h
      name? := hknows.name?_eq
      same := fun p hp q hq => ⟨fun heq => ?_, fun heq => ?_⟩
      kept := fun p hp => ?_
      found := fun {a n} => ⟨fun hn => ?_, ?_⟩
      inverse := hknows.number?_eq_some_iff hsize
      beyond := fun n => ?_ }
  · exact hknows.eq_of_number? hsize (number?_of_mem_log hp) (heq ▸ number?_of_mem_log hq)
  · have hp := number?_of_mem_log hp
    rw [heq, number?_of_mem_log hq] at hp
    exact (Option.some.inj hp).symm
  · rw [← hknows.number?_eq_some_iff hsize, runAll_append]
    exact number?_runAll (number?_of_mem_log hp) after
  · obtain ⟨hmem, -⟩ := hknows.toNat_of_number? hsize hn
    obtain ⟨c, hc, rfl⟩ := List.mem_map.1 (List.mem_eraseDups.1 hmem)
    obtain ⟨m, hm⟩ := exists_mem_log (t := empty) hc
    exact ⟨(c, m), hm, rfl, Option.some.inj ((number?_of_mem_log hm).symm.trans hn)⟩
  · rintro ⟨p, hp, rfl, rfl⟩
    exact number?_of_mem_log hp
  · rw [hknows.name?_eq, List.getElem?_eq_none_iff, hknows.size_eq]

/-- Calls of both kinds that mention three names, one of them twice, are numbered so. -/
theorem zetaAndAlpha_numbered :
    (firstMentions ([.whole "zeta", .slice "alpha".toSlice] ++
      [.slice ("zeta<int>".toSlice.take 4), .whole ""])).length ≤ UInt32.size ∧
    (empty.runAll ([.whole "zeta", .slice "alpha".toSlice] ++
        [.slice ("zeta<int>".toSlice.take 4), .whole ""])).Numbers
      [.whole "zeta", .slice "alpha".toSlice]
      [.slice ("zeta<int>".toSlice.take 4), .whole ""] :=
  ⟨by decide, numbers_calls (by decide)⟩

example : (empty.log [.whole "zeta", .slice "alpha".toSlice, .slice ("zeta<int>".toSlice.take 4),
    .whole ""]).map Prod.snd = [0, 1, 0, 2] := by
  decide

/-- With 2³² names, a new one gets the number of another. -/
theorem run_of_full {cs : List Call} (h : (firstMentions cs).length = UInt32.size) {c : Call}
    (hc : c.name ∉ cs.map Call.name) : ∃ a ∈ cs.map Call.name,
      (c.run (empty.runAll cs)).1 = 0 ∧ (c.run (empty.runAll cs)).2.name? 0 = some a := by
  have hknows := knows_runAll_empty cs
  have hsize : (empty.runAll cs).size = UInt32.size := hknows.size_eq.trans h
  have hlt : 0 < (firstMentions cs).length := h ▸ by decide
  refine ⟨(firstMentions cs)[0], mem_firstMentions.1 (List.getElem_mem hlt), ?_, ?_⟩
  · rw [c.run_eq_mention, mention, hknows.number?_eq_none_iff.2 hc]
    simp only [insert, hsize]
    rfl
  · rw [c.run_eq_mention]
    refine name?_mention_of_name? ?_ c.name
    rw [hknows.name?_eq]
    exact List.getElem?_eq_getElem hlt

end NameTable

end NativeBindings
