import NativeBindings.Proofs.Name.Balanced

/-!
# Taking applied names apart

An instantiation is printed as the name of its template with the list of its arguments behind it
(`Name.applied`). The name of the template comes back, however the arguments and the namespaces
nest (`Name.split_applied`). The arguments come back if no bracket is opened before the list: they
are looked for behind the first `<` of the whole name, which belongs to another list if an enclosing
class is an instantiation. From `A<int>::B<char>` comes the one argument `int>::B<char`
(`Name.enclosedClass_arguments`).

The main theorem, `Name.arguments_applied_iff`, says so of all names.
-/

namespace NativeBindings

/-! ## Trimming -/

namespace Text

/-- Trimming takes away blanks only. -/
theorem count_trim {c : Char} (hc : isBlank c = false) (s : List Char) :
    (trim s).count c = s.count c := by
  have hstart (s : List Char) : (trimStart s).count c = s.count c := by
    induction s with
    | nil => rfl
    | cons a s ih =>
      rw [trimStart, List.dropWhile_cons]
      split
      · next ha =>
        rw [← trimStart, ih, List.count_cons_of_ne]
        rintro rfl
        exact Bool.false_ne_true (hc.symm.trans ha)
      · rfl
  rw [trim, trimEnd, List.count_reverse, hstart, List.count_reverse, hstart]

theorem trimEnd_of_trim_eq {s : List Char} (h : trim s = s) : trimEnd s = s := by
  rw [← h, trim, trimEnd_trimEnd]

end Text

namespace Name

variable {name arg s t : List Char} {args : List (List Char)}

/-! ## Printing -/

/-- A name applied to arguments, as it is printed. -/
def applied (name : List Char) (args : List (List Char)) : List Char :=
  name ++ '<' :: ([',', ' '].intercalate args ++ ['>'])

/-- The name of a template without its namespace. -/
structure IsBase (s : List Char) : Prop where
  ne_nil : s ≠ []
  plain : ∀ c ∈ s, opens c = false ∧ closes c = false
  trimmed : Text.trim s = s

instance : DecidablePred IsBase := fun s =>
  have := List.decidableBAll (fun c => opens c = false ∧ closes c = false) s
  decidable_of_iff (s ≠ [] ∧ (∀ c ∈ s, opens c = false ∧ closes c = false) ∧ Text.trim s = s)
    ⟨fun h => ⟨h.1, h.2.1, h.2.2⟩, fun h => ⟨h.ne_nil, h.plain, h.trimmed⟩⟩

/-- One argument of a list. -/
structure IsArgument (s : List Char) : Prop where
  ne_nil : s ≠ []
  balanced : Balanced s
  trimmed : Text.trim s = s
  single : ',' ∉ outside 0 s

instance : DecidablePred IsArgument := fun s =>
  decidable_of_iff (s ≠ [] ∧ Balanced s ∧ Text.trim s = s ∧ ',' ∉ outside 0 s)
    ⟨fun h => ⟨h.1, h.2.1, h.2.2.1, h.2.2.2⟩,
      fun h => ⟨h.ne_nil, h.balanced, h.trimmed, h.single⟩⟩

theorem balanced_intercalate (h : ∀ a ∈ args, Balanced a) :
    Balanced ([',', ' '].intercalate args) := by
  induction args with
  | nil => rfl
  | cons a args ih =>
    obtain ⟨ha, hargs⟩ := List.forall_mem_cons.1 h
    cases args with
    | nil => rwa [List.intercalate_singleton]
    | cons b args =>
      have hrest : depthBehind 0 ([',', ' '].intercalate (b :: args)) = some 0 := ih hargs
      rw [List.intercalate_cons_cons, Balanced, List.append_assoc, depthBehind_append, ha,
        Option.bind_some, depthBehind_append, show depthBehind 0 [',', ' '] = some 0 from rfl,
        Option.bind_some, hrest]

/-! ## The template -/

/-- The template of an applied name is what stands before the arguments. -/
theorem withoutArguments_base (h : IsBase s) (t : List Char) :
    withoutArguments (s ++ '<' :: t) = s := by
  have hplain : ∀ c ∈ s, (c != '<') = true := by
    intro c hc
    rw [bne_iff_ne]
    rintro rfl
    exact Bool.false_ne_true (h.plain _ hc).1.symm
  have htake : (s ++ '<' :: t).takeWhile (· != '<') = s := by
    rw [List.takeWhile_append_of_pos hplain]
    simp
  unfold withoutArguments
  rw [htake]
  split
  · next hnil => exact absurd rfl h.ne_nil
  · next base c r =>
    rw [if_neg (by simp), Text.trimEnd_of_trim_eq h.trimmed]

/-- The name of the template stands before the argument list of the last segment. -/
theorem split_applied (hname : Balanced name) (hbase : IsBase (split name).2)
    (hargs : ∀ a ∈ args, Balanced a) :
    withoutArguments (split (applied name args)).2 = (split name).2 := by
  have hlist : cut separator 0 ('<' :: ([',', ' '].intercalate args ++ ['>'])) = [_] :=
    cut_bracketed (balanced_intercalate hargs) 0
  have hlast : (split (applied name args)).2 =
      (split name).2 ++ '<' :: ([',', ' '].intercalate args ++ ['>']) := by
    rw [split_snd, split_snd, segments, applied, cut_separator_append hname hlist]
    simp [segments]
  rw [hlast, withoutArguments_base hbase]

/-! ## The arguments -/

/-- Where the first bracket opens an argument list that ends the name, what it holds is cut. -/
theorem arguments_eq (hs : '<' ∉ s) (t : List Char) : arguments (s ++ '<' :: (t ++ ['>'])) =
    if (((cut [','] 0 t).map Text.trim).getLastD []).isEmpty
    then ((cut [','] 0 t).map Text.trim).dropLast else (cut [','] 0 t).map Text.trim := by
  have hopen : (s ++ '<' :: (t ++ ['>'])).dropWhile (· != '<') = '<' :: (t ++ ['>']) := by
    rw [List.dropWhile_append_of_pos fun c hc => bne_iff_ne.2 (ne_of_mem_of_not_mem hc hs)]
    rfl
  have hclose : upToLastClose (t ++ ['>']) = some t := by simp [upToLastClose]
  rw [arguments, hopen]
  simp only [hclose]

/-- A list of arguments is cut at its commas alone. -/
theorem cut_intercalate (hne : args ≠ []) (h : ∀ a ∈ args, IsArgument a) :
    (cut [','] 0 ([',', ' '].intercalate args)).map Text.trim = args := by
  induction args with
  | nil => exact absurd rfl hne
  | cons a args ih =>
    obtain ⟨ha, hargs⟩ := List.forall_mem_cons.1 h
    cases args with
    | nil =>
      have hlast : cut [','] 0 (a ++ []) = [a ++ []] :=
        cut_append (by rw [cut]) ha.balanced ha.single
      rw [List.append_nil] at hlast
      rw [List.intercalate_singleton, hlast, List.map_singleton, ha.trimmed]
    | cons b args =>
      obtain ⟨p, ps, hps⟩ := List.exists_cons_of_ne_nil
        (cut_ne_nil [','] 0 ([',', ' '].intercalate (b :: args)))
      have hcomma : cut [','] 0 ([',', ' '] ++ [',', ' '].intercalate (b :: args)) =
          [] :: (' ' :: p) :: ps := by
        simp [cut, opens, closes, hps, extendFirst]
      have hblank : Text.trim (' ' :: p) = Text.trim p := by
        rw [Text.trim, Text.trimStart, List.dropWhile_cons_of_pos (by decide)]
        rfl
      have hih := ih (List.cons_ne_nil _ _) hargs
      rw [hps, List.map_cons] at hih
      rw [List.intercalate_cons_cons, List.append_assoc,
        cut_append hcomma ha.balanced ha.single, List.append_nil, List.map_cons, List.map_cons,
        ha.trimmed, hblank, hih]

theorem getLastD_eq_getLast (hne : args ≠ []) : args.getLastD [] = args.getLast hne := by
  rw [List.getLastD_eq_getLast?, List.getLast?_eq_some_getLast hne, Option.getD_some]

/-- Where no list comes before that of the arguments, they come back. -/
theorem arguments_applied (hname : '<' ∉ name) (hne : args ≠ [])
    (h : ∀ a ∈ args, IsArgument a) : arguments (applied name args) = args := by
  rw [applied, arguments_eq hname, cut_intercalate hne h, if_neg]
  rw [getLastD_eq_getLast hne, List.isEmpty_iff]
  exact (h _ (List.getLast_mem hne)).ne_nil

theorem suffix_extendFirst (c : Char) {ps : List (List Char)} (h : t <:+ ps.getLastD []) :
    t <:+ (extendFirst c ps).getLastD [] := by
  match ps with
  | [] => exact h.trans (List.nil_suffix)
  | [p] => exact h.trans (List.suffix_cons c p)
  | p :: q :: ps => exact h

/-- What is not cut at any depth ends the last piece. -/
theorem suffix_cut {x : Char} (ht : ∀ d, cut [x] d t = [t]) (s : List Char) (d : Nat) :
    t <:+ (cut [x] d (s ++ t)).getLastD [] := by
  induction s generalizing d with
  | nil =>
    rw [List.nil_append, ht]
    exact List.suffix_rfl
  | cons c s ih =>
    rw [List.cons_append, cut]
    split
    · exact suffix_extendFirst c (ih _)
    · split
      · exact suffix_extendFirst c (ih _)
      · split
        · have hrest : t <:+ (cut [x] 0 (s ++ t)).getLastD [] := ih 0
          obtain ⟨p, ps, hps⟩ := exists_cut_eq_cons [x] 0 (s ++ t)
          rw [hps] at hrest
          rw [show (s ++ t).drop ([x].length - 1) = s ++ t from rfl, hps]
          exact hrest
        · exact suffix_extendFirst c (ih _)

theorem count_le_intercalate {x : Char} {sep : List Char} (h : arg ∈ args) :
    arg.count x ≤ (sep.intercalate args).count x := by
  induction args with
  | nil => cases h
  | cons a args ih =>
    cases args with
    | nil =>
      obtain rfl := List.mem_singleton.1 h
      exact Nat.le_of_eq (congrArg _ (List.intercalate_singleton ..).symm)
    | cons b args =>
      rw [List.intercalate_cons_cons, List.count_append, List.count_append]
      rcases List.mem_cons.1 h with rfl | h
      · omega
      · have := ih h
        omega

/-- Where another list comes first, the last argument that is found opens all brackets of this
list and that of the list itself, so it is none of this list. -/
theorem arguments_applied_ne (hname : '<' ∈ name) (h : ∀ a ∈ args, Balanced a) :
    arguments (applied name args) ≠ args := by
  obtain ⟨s, t, rfl, hs⟩ := List.eq_append_cons_of_mem hname
  have hunclosed (d : Nat) : cut [','] d ('<' :: [',', ' '].intercalate args) = [_] :=
    cut_unclosed (balanced_intercalate h) d
  have hsuffix := suffix_cut hunclosed t 0
  have hlist (a : List Char) (ha : a ∈ args) :
      a.count '<' ≤ ([',', ' '].intercalate args).count '<' := count_le_intercalate ha
  have happlied : applied (s ++ '<' :: t) args =
      s ++ '<' :: ((t ++ '<' :: [',', ' '].intercalate args) ++ ['>']) := by simp [applied]
  rw [happlied, arguments_eq hs]
  have hne := cut_ne_nil [','] 0 (t ++ '<' :: [',', ' '].intercalate args)
  generalize cut [','] 0 (t ++ '<' :: [',', ' '].intercalate args) = pieces at hsuffix hne ⊢
  rw [getLastD_eq_getLast hne] at hsuffix
  have hcount : ([',', ' '].intercalate args).count '<' <
      (Text.trim (pieces.getLast hne)).count '<' := by
    rw [Text.count_trim (by decide)]
    exact Nat.lt_of_lt_of_le (by simp) (hsuffix.sublist.count_le '<')
  have hmap : pieces.map Text.trim ≠ [] := mt List.map_eq_nil_iff.1 hne
  have hlast : (pieces.map Text.trim).getLast hmap = Text.trim (pieces.getLast hne) :=
    List.getLast_map ..
  rw [getLastD_eq_getLast hmap, hlast, if_neg]
  · rintro rfl
    exact absurd (hlist _ (hlast ▸ List.getLast_mem hmap)) (Nat.not_le.2 hcount)
  · intro hempty
    rw [List.isEmpty_iff.1 hempty] at hcount
    simp at hcount

/-- Taking a printed instantiation apart gives the name of the template without its namespace, and
it gives the arguments if and only if the name of the template opens no argument list before. -/
theorem arguments_applied_iff (hname : Balanced name) (hbase : IsBase (split name).2)
    (hne : args ≠ []) (h : ∀ a ∈ args, IsArgument a) :
    withoutArguments (split (applied name args)).2 = (split name).2 ∧
      (arguments (applied name args) = args ↔ '<' ∉ name) := by
  have hbalanced : ∀ a ∈ args, Balanced a := fun a ha => (h a ha).balanced
  refine ⟨split_applied hname hbase hbalanced, fun heq hmem => ?_, fun hfree => ?_⟩
  · exact arguments_applied_ne hmem hbalanced heq
  · exact arguments_applied hfree hne h

/-- Arguments that hold commas and separators inside of brackets of two kinds, behind a namespace
in brackets of a third. -/
def nestedArguments : List (List Char) :=
  ["Pair<a::A, b::B>".toList, "int (char, A<b>::C)".toList]

/-- Colons and commas within brackets of all kinds are left alone. -/
theorem nestedArguments_apart : Balanced "ns::[lambda::0]::Map".toList ∧
    IsBase (split "ns::[lambda::0]::Map".toList).2 ∧ (∀ a ∈ nestedArguments, IsArgument a) ∧
    applied "ns::[lambda::0]::Map".toList nestedArguments =
      "ns::[lambda::0]::Map<Pair<a::A, b::B>, int (char, A<b>::C)>".toList ∧
    arguments (applied "ns::[lambda::0]::Map".toList nestedArguments) = nestedArguments := by
  have hname : Balanced "ns::[lambda::0]::Map".toList := by decide +kernel
  have hbase : IsBase (split "ns::[lambda::0]::Map".toList).2 := by decide +kernel
  have hargs : ∀ a ∈ nestedArguments, IsArgument a := by decide +kernel
  refine ⟨hname, hbase, hargs, by decide +kernel, ?_⟩
  exact (arguments_applied_iff hname hbase (by decide) hargs).2.2 (by decide)

/-- For a class in an instantiation the list of the enclosing one is taken for the beginning. -/
theorem enclosedClass_arguments : Balanced "A<int>::B".toList ∧
    (split "A<int>::B".toList).2 = "B".toList ∧ IsBase "B".toList ∧ IsArgument "char".toList ∧
    applied "A<int>::B".toList ["char".toList] = "A<int>::B<char>".toList ∧
    arguments "A<int>::B<char>".toList = ["int>::B<char".toList] ∧
    arguments "A<int>::B<char>".toList ≠ ["char".toList] := by
  decide +kernel

end Name

end NativeBindings
