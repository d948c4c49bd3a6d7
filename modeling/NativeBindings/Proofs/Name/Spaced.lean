import Mathlib.Data.List.Basic
import NativeBindings.Name.Identifier

/-!
# Names with one identifier

An identifier keeps the letters and digits of a name and the widths of the gaps between them: every
underscore widens a gap by one, and any other character makes it one wide at least
(`Name.spaced`). Nothing else of a name is kept, so two names have one identifier if and only if
they are spaced alike (`Name.identifier_eq_iff`).
-/

namespace NativeBindings.Name

variable {c : Char} {s t : List Char}

/-! ## Gaps -/

/-- The width of a gap with one more character in it. -/
def widened (c : Char) (width : Nat) : Nat :=
  if c = '_' then width + 1 else max width 1

/-- The letters and digits of a text, each with the width of the gap before it, when a gap of some
width is open already. Without one, what comes before the first of them counts for nothing. -/
def spacedFrom (gap : Option Nat) : List Char → List (Nat × Char)
  | [] => []
  | c :: r =>
    if c.isAlphanum then (gap.getD 0, c) :: spacedFrom (some 0) r
    else spacedFrom (gap.map (widened c)) r

/-- The letters and digits of a name, each with the width of the gap before it. -/
def spaced (name : List Char) : List (Nat × Char) :=
  spacedFrom none name

/-- Letters and digits with as many underscores before each as its gap is wide. -/
def spelled (ps : List (Nat × Char)) : List Char :=
  ps.flatMap fun p => List.replicate p.1 '_' ++ [p.2]

theorem spelled_cons (n : Nat) (c : Char) (ps : List (Nat × Char)) :
    spelled ((n, c) :: ps) = List.replicate n '_' ++ c :: spelled ps := by
  simp [spelled]

/-- Only letters and digits are spaced. -/
theorem isAlphanum_of_mem_spacedFrom {gap : Option Nat} {p : Nat × Char}
    (h : p ∈ spacedFrom gap s) : p.2.isAlphanum = true := by
  fun_induction spacedFrom gap s with
  | case1 => cases h
  | case2 gap c r hc ih =>
    rcases List.mem_cons.1 h with rfl | h
    · exact hc
    · exact ih h
  | case3 gap c r hc ih => exact ih h

theorem ne_underscore_of_isAlphanum (h : c.isAlphanum = true) : c ≠ '_' := by
  rintro rfl
  exact absurd h (by decide)

theorem ne_underscore_of_mem_spaced {p : Nat × Char} (h : p ∈ spaced s) : p.2 ≠ '_' :=
  ne_underscore_of_isAlphanum (isAlphanum_of_mem_spacedFrom h)

/-- The text tells the gaps. -/
theorem spelled_inj {ps qs : List (Nat × Char)} (hp : ∀ p ∈ ps, p.2 ≠ '_')
    (hq : ∀ q ∈ qs, q.2 ≠ '_') (h : spelled ps = spelled qs) : ps = qs := by
  have hdrop (n : Nat) {c : Char} (hc : c ≠ '_') (r : List Char) :
      (List.replicate n '_' ++ c :: r).takeWhile (· == '_') = List.replicate n '_' := by
    rw [List.takeWhile_append_of_pos fun d hd => by simp [List.eq_of_mem_replicate hd]]
    simp [hc]
  induction ps generalizing qs with
  | nil =>
    cases qs with
    | nil => rfl
    | cons q qs =>
      rw [spelled_cons] at h
      simp [spelled] at h
  | cons p ps ih =>
    obtain ⟨n, c⟩ := p
    obtain ⟨hc, hps⟩ := List.forall_mem_cons.1 hp
    cases qs with
    | nil =>
      rw [spelled_cons] at h
      simp [spelled] at h
    | cons q qs =>
      obtain ⟨m, d⟩ := q
      obtain ⟨hd, hqs⟩ := List.forall_mem_cons.1 hq
      rw [spelled_cons, spelled_cons] at h
      have hwidth := congrArg (List.takeWhile (· == '_')) h
      rw [hdrop n hc, hdrop m hd] at hwidth
      obtain rfl : n = m := by simpa using congrArg List.length hwidth
      obtain ⟨rfl, hrest⟩ := List.cons.inj (List.append_cancel_left h)
      rw [ih hps hqs hrest]

/-! ## Squeezing -/

/-- The width of a gap that was squeezed so far: what is written, or one if nothing is yet. -/
def widthSoFar (gap : Bool) (written : Nat) : Nat :=
  if gap ∧ written = 0 then 1 else written

/-- Before a word character, what is left of a gap is written. -/
theorem squeeze_word {last : Char} {gap : Bool} {written : Nat} (h : last = '_' ↔ written ≠ 0)
    (hc : isWord c = true) (r : List Char) :
    List.replicate written '_' ++ squeeze (some last) gap (c :: r) =
      List.replicate (widthSoFar gap written) '_' ++ c :: squeeze (some c) false r := by
  rw [squeeze, if_pos hc, widthSoFar]
  cases written with
  | zero =>
    have hlast : last ≠ '_' := by simpa using h
    cases gap <;> simp [hlast]
  | succ n =>
    obtain rfl : last = '_' := by simpa using h
    simp

/-- Behind a letter or digit and the underscores that are written, squeezing spells what comes
next, and may end in underscores. -/
theorem exists_squeeze_eq (s : List Char) {last : Char} {gap : Bool} {written : Nat}
    (h : last = '_' ↔ written ≠ 0) : ∃ trailing,
      List.replicate written '_' ++ squeeze (some last) gap s =
        spelled (spacedFrom (some (widthSoFar gap written)) s) ++
          List.replicate trailing '_' := by
  induction s generalizing last gap written with
  | nil => exact ⟨written, by simp [squeeze, spacedFrom, spelled]⟩
  | cons c r ih =>
    by_cases hc : c.isAlphanum = true
    · obtain ⟨trailing, hr⟩ : ∃ trailing, List.replicate 0 '_' ++ squeeze (some c) false r =
          spelled (spacedFrom (some 0) r) ++ List.replicate trailing '_' :=
        ih (iff_of_false (ne_underscore_of_isAlphanum hc) (by simp))
      rw [List.replicate_zero, List.nil_append] at hr
      refine ⟨trailing, ?_⟩
      rw [squeeze_word h (by simp [isWord, hc]), spacedFrom, if_pos hc, spelled_cons, hr]
      simp
    · rw [spacedFrom, if_neg hc, Option.map_some]
      by_cases hunderscore : c = '_'
      · subst hunderscore
        obtain ⟨trailing, hr⟩ : ∃ trailing,
            List.replicate (widthSoFar gap written + 1) '_' ++ squeeze (some '_') false r =
              spelled (spacedFrom (some (widthSoFar gap written + 1)) r) ++
                List.replicate trailing '_' := ih (iff_of_true rfl (Nat.succ_ne_zero _))
        refine ⟨trailing, ?_⟩
        rw [squeeze_word h rfl, widened, if_pos rfl, ← hr, List.replicate_succ']
        simp
      · have hword : ¬isWord c = true := by simp [isWord, hc, hunderscore]
        have hwidth : widened c (widthSoFar gap written) = widthSoFar true written := by
          cases written <;> cases gap <;> simp [widened, widthSoFar, hunderscore]
        rw [squeeze, if_neg hword, hwidth]
        exact ih h

/-- Before the first letter or digit, only underscores are written. -/
theorem exists_squeeze_eq_start (s : List Char) (last : Option Char) (gap : Bool)
    (h : ∀ l ∈ last, l = '_') : ∃ leading trailing, squeeze last gap s =
      List.replicate leading '_' ++ spelled (spacedFrom none s) ++
        List.replicate trailing '_' := by
  induction s generalizing last gap with
  | nil => exact ⟨0, 0, by simp [squeeze, spacedFrom, spelled]⟩
  | cons c r ih =>
    have hsilent : (gap && last.isSome && last != some '_') = false := by
      cases last with
      | none => simp
      | some l => simp [h l rfl]
    by_cases hc : c.isAlphanum = true
    · obtain ⟨trailing, hr⟩ : ∃ trailing, List.replicate 0 '_' ++ squeeze (some c) false r =
          spelled (spacedFrom (some 0) r) ++ List.replicate trailing '_' :=
        exists_squeeze_eq r (iff_of_false (ne_underscore_of_isAlphanum hc) (by simp))
      rw [List.replicate_zero, List.nil_append] at hr
      refine ⟨0, trailing, ?_⟩
      rw [squeeze, if_pos (by simp [isWord, hc]), hsilent, if_neg Bool.false_ne_true, hr,
        spacedFrom, if_pos hc, spelled_cons]
      simp
    · rw [spacedFrom, if_neg hc, Option.map_none]
      by_cases hunderscore : c = '_'
      · subst hunderscore
        obtain ⟨leading, trailing, hr⟩ := ih (some '_') false (by simp)
        refine ⟨leading + 1, trailing, ?_⟩
        rw [squeeze, if_pos (by rfl), hsilent, if_neg Bool.false_ne_true, hr, List.replicate_succ]
        simp
      · rw [squeeze, if_neg (by simp [isWord, hc, hunderscore])]
        exact ih last true h

/-! ## Identifiers -/

theorem dropUnderscores_replicate_append (n : Nat) (hs : s.head? ≠ some '_') :
    dropUnderscores (List.replicate n '_' ++ s) = s := by
  rw [dropUnderscores, List.dropWhile_append_of_pos fun d hd => by
    simp [List.eq_of_mem_replicate hd]]
  cases s with
  | nil => rfl
  | cons c s =>
    refine List.dropWhile_cons_of_neg ?_
    simpa using hs

/-- Underscores at both ends are stripped. -/
theorem stripUnderscores_append (leading trailing : Nat) (hhead : s.head? ≠ some '_')
    (hlast : s.getLast? ≠ some '_') : stripUnderscores
      (List.replicate leading '_' ++ s ++ List.replicate trailing '_') = s := by
  rw [stripUnderscores, List.append_assoc]
  cases s with
  | nil =>
    have hall := dropUnderscores_replicate_append (leading + trailing) (s := []) (by simp)
    rw [List.append_nil, ← List.replicate_append_replicate] at hall
    rw [List.nil_append, hall]
    rfl
  | cons c s =>
    have hstart : (c :: s ++ List.replicate trailing '_').head? ≠ some '_' := hhead
    rw [dropUnderscores_replicate_append leading hstart, List.reverse_append,
      List.reverse_replicate,
      dropUnderscores_replicate_append trailing (by rwa [List.head?_reverse]), List.reverse_reverse]

/-- The first letter or digit has no gap before it. -/
theorem fst_eq_zero_of_head?_spaced {p : Nat × Char} (h : (spaced s).head? = some p) : p.1 = 0 := by
  unfold spaced at h
  induction s with
  | nil => cases h
  | cons c s ih =>
    rw [spacedFrom] at h
    split at h
    · obtain rfl := Option.some.inj h
      rfl
    · exact ih h

theorem head?_spelled_spaced (s : List Char) : (spelled (spaced s)).head? ≠ some '_' := by
  cases hs : spaced s with
  | nil => simp [spelled]
  | cons p ps =>
    obtain ⟨n, c⟩ := p
    obtain rfl : n = 0 := fst_eq_zero_of_head?_spaced (congrArg List.head? hs)
    have hc : (0, c) ∈ spaced s := hs ▸ List.mem_cons_self
    rw [spelled_cons]
    simpa using ne_underscore_of_mem_spaced hc

theorem getLast?_spelled_spaced (s : List Char) : (spelled (spaced s)).getLast? ≠ some '_' := by
  rcases List.eq_nil_or_concat (spaced s) with hs | ⟨ps, p, hs⟩
  · simp [hs, spelled]
  · rw [List.concat_eq_append] at hs
    have hp : p ∈ spaced s := hs ▸ List.mem_concat_self
    have hlast : (spelled (spaced s)).getLast? = some p.2 := by
      rw [hs, spelled, List.flatMap_append]
      simp
    rw [hlast]
    simpa using ne_underscore_of_mem_spaced hp

/-- What is left of a name is its letters and digits with their gaps. -/
theorem stripUnderscores_squeeze (s : List Char) :
    stripUnderscores (squeeze none false s) = spelled (spaced s) := by
  obtain ⟨leading, trailing, hs⟩ := exists_squeeze_eq_start s none false (by simp)
  rw [hs]
  exact stripUnderscores_append leading trailing (head?_spelled_spaced s)
    (getLast?_spelled_spaced s)

/-- The identifier that is made of stripped word characters. -/
def started : List Char → List Char
  | [] => ['_']
  | c :: r => if c.isDigit then '_' :: c :: r else c :: r

/-- What was started can be told, unless it started with an underscore itself. -/
theorem started_inj (hs : s.head? ≠ some '_') (ht : t.head? ≠ some '_')
    (h : started s = started t) : s = t := by
  cases s with
  | nil => cases t <;> grind [started]
  | cons c s => cases t <;> grind [started]

/-- An identifier spells the letters and digits of a name with the gaps between them. -/
theorem identifier_eq_started (s : List Char) : identifier s = started (spelled (spaced s)) := by
  rw [identifier, stripUnderscores_squeeze]
  cases spelled (spaced s) <;> rfl

/-- Two names have one identifier if and only if they have the same letters and digits with gaps
of the same widths between. -/
theorem identifier_eq_iff (s t : List Char) :
    identifier s = identifier t ↔ spaced s = spaced t := by
  rw [identifier_eq_started, identifier_eq_started]
  constructor
  · intro h
    have hspelled := started_inj (head?_spelled_spaced s) (head?_spelled_spaced t) h
    exact spelled_inj (fun _ => ne_underscore_of_mem_spaced) (fun _ => ne_underscore_of_mem_spaced)
      hspelled
  · intro h
    rw [h]

/-- A name of word characters, with no underscore at either end. -/
structure IsSnug (s : List Char) : Prop where
  chars : ∀ c ∈ s, isWord c = true
  head : s.head? ≠ some '_'
  last : s.getLast? ≠ some '_'

/-- A word is not squeezed. -/
theorem squeeze_of_isWord (h : ∀ c ∈ s, isWord c = true) (last : Option Char) :
    squeeze last false s = s := by
  induction s generalizing last with
  | nil => rfl
  | cons c s ih =>
    obtain ⟨hc, hs⟩ := List.forall_mem_cons.1 h
    rw [squeeze, if_pos hc, if_neg (by simp), ih hs]

theorem IsSnug.spelled_spaced (h : IsSnug s) : spelled (spaced s) = s := by
  rw [← stripUnderscores_squeeze, squeeze_of_isWord h.chars]
  simpa using stripUnderscores_append 0 0 h.head h.last

end NativeBindings.Name
