import NativeBindings.Name.Qualified

/-!
# Balanced texts

A text is balanced if it closes every bracket that it opens and no other one. Cutting looks only
at what stands outside of brackets, so a text that balances brackets comes through whole where
brackets are open already, and where none are open it does unless the separator begins outside of
its own (`cut_append`).

A qualified name is cut in the same places, then, if an argument list is written behind it: the
list goes with the last segment (`cut_separator_append`).
-/

namespace NativeBindings.Name

/-! ## Open brackets -/

/-- How many brackets are open behind a text when so many are before it. There is no answer if the
text closes a bracket that is not open. -/
def depthBehind (depth : Nat) : List Char → Option Nat
  | [] => some depth
  | c :: r =>
    if opens c then depthBehind (depth + 1) r
    else if closes c then
      if depth = 0 then none else depthBehind (depth - 1) r
    else depthBehind depth r

/-- The characters of a text that stand outside of all brackets, when so many are open before it. -/
def outside (depth : Nat) : List Char → List Char
  | [] => []
  | c :: r =>
    if opens c then outside (depth + 1) r
    else if closes c then outside (depth - 1) r
    else if depth = 0 then c :: outside depth r
    else outside depth r

/-- A text that closes every bracket that it opens and no other one. -/
def Balanced (s : List Char) : Prop :=
  depthBehind 0 s = some 0

instance : DecidablePred Balanced :=
  fun s => inferInstanceAs (Decidable (depthBehind 0 s = some 0))

variable {x : Char} {sep s t p : List Char} {ps : List (List Char)} {d e : Nat}

/-- Brackets are counted through one text and then the other. -/
theorem depthBehind_append (d : Nat) (s t : List Char) :
    depthBehind d (s ++ t) = (depthBehind d s).bind (depthBehind · t) := by
  fun_induction depthBehind d s <;> simp [depthBehind, *]

/-- More open brackets in front stay open behind. -/
theorem depthBehind_add (h : depthBehind d s = some e) (k : Nat) :
    depthBehind (d + k) s = some (e + k) := by
  fun_induction depthBehind d s with
  | case1 d => simp_all [depthBehind]
  | case2 d c r ho ih => rw [depthBehind, if_pos ho, Nat.add_right_comm, ih h]
  | case3 => cases h
  | case4 d c r ho hc hd ih =>
    rw [depthBehind, if_neg ho, if_pos hc, if_neg (by omega), Nat.sub_add_comm (by omega), ih h]
  | case5 d c r ho hc ih => rw [depthBehind, if_neg ho, if_neg hc, ih h]

/-- With one more bracket open than a text can do with, all of it is inside. -/
theorem outside_add (h : depthBehind d s = some e) (k : Nat) : outside (d + k + 1) s = [] := by
  fun_induction depthBehind d s with
  | case1 d => rfl
  | case2 d c r ho ih => rw [outside, if_pos ho, Nat.add_right_comm d k 1, ih h]
  | case3 => cases h
  | case4 d c r ho hc hd ih =>
    rw [outside, if_neg ho, if_pos hc, Nat.add_sub_cancel, ← ih h]
    congr 1
    omega
  | case5 d c r ho hc ih =>
    rw [outside, if_neg ho, if_neg hc, if_neg (Nat.succ_ne_zero _), ih h]

/-- A text without brackets leaves open what is open. -/
theorem depthBehind_plain (h : ∀ c ∈ s, opens c = false ∧ closes c = false) (d : Nat) :
    depthBehind d s = some d := by
  induction s with
  | nil => rfl
  | cons c s ih =>
    obtain ⟨hc, hs⟩ := List.forall_mem_cons.1 h
    rw [depthBehind, hc.1, hc.2, if_neg Bool.false_ne_true, if_neg Bool.false_ne_true, ih hs]

theorem mem_of_mem_outside (h : x ∈ outside d s) : x ∈ s := by
  fun_induction outside d s with
  | case1 => exact h
  | case2 d c r _ ih => exact List.mem_cons_of_mem c (ih h)
  | case3 d c r _ _ ih => exact List.mem_cons_of_mem c (ih h)
  | case4 c r _ _ ih => exact List.mem_cons.2 ((List.mem_cons.1 h).imp_right ih)
  | case5 d c r _ _ _ ih => exact List.mem_cons_of_mem c (ih h)

/-! ## What is not cut -/

theorem exists_cut_eq_cons (sep : List Char) (d : Nat) (s : List Char) :
    ∃ p ps, cut sep d s = p :: ps :=
  List.exists_cons_of_ne_nil (cut_ne_nil sep d s)

/-- Where no separator begins outside of brackets, all goes with the first piece. -/
theorem cut_append (ht : cut (x :: sep) e t = p :: ps) (h : depthBehind d s = some e)
    (hs : x ∉ outside d s) : cut (x :: sep) d (s ++ t) = (s ++ p) :: ps := by
  fun_induction depthBehind d s with
  | case1 d =>
    obtain rfl := Option.some.inj h
    exact ht
  | case2 d c r ho ih =>
    rw [outside, if_pos ho] at hs
    rw [List.cons_append, cut, if_pos ho, ih h hs, extendFirst, List.cons_append]
  | case3 => cases h
  | case4 d c r ho hc hd ih =>
    rw [outside, if_neg ho, if_pos hc] at hs
    rw [List.cons_append, cut, if_neg ho, if_pos hc, ih h hs, extendFirst, List.cons_append]
  | case5 d c r ho hc ih =>
    rw [outside, if_neg ho, if_neg hc] at hs
    have hsep : ¬(d = 0 ∧ x :: sep <+: c :: (r ++ t)) := by
      rintro ⟨rfl, hsep⟩
      rw [if_pos rfl] at hs
      exact hs ((List.cons_prefix_cons.1 hsep).1 ▸ List.mem_cons_self)
    have hr : x ∉ outside d r := by
      split at hs
      · exact mt (List.mem_cons_of_mem c) hs
      · exact hs
    rw [List.cons_append, cut, if_neg ho, if_neg hc, if_neg hsep, ih h hr, extendFirst,
      List.cons_append]

/-- A text behind an opening bracket is not cut before the bracket is closed. -/
theorem cut_opened (hs : Balanced s) (d : Nat) (ht : cut (x :: sep) (d + 1) t = p :: ps) :
    cut (x :: sep) d ('<' :: (s ++ t)) = ('<' :: (s ++ p)) :: ps := by
  have hdepth := depthBehind_add hs (d + 1)
  have houtside := outside_add hs d
  rw [Nat.zero_add] at hdepth houtside
  rw [cut, if_pos (show opens '<' = true from rfl),
    cut_append ht hdepth (houtside ▸ List.not_mem_nil), extendFirst]

/-- A text behind a bracket that is not closed is not cut. -/
theorem cut_unclosed (hs : Balanced s) (d : Nat) : cut (x :: sep) d ('<' :: s) = ['<' :: s] := by
  have h : cut (x :: sep) d ('<' :: (s ++ [])) = ['<' :: (s ++ [])] :=
    cut_opened hs d (by rw [cut])
  rwa [List.append_nil] at h

/-- A text in brackets is not cut. -/
theorem cut_bracketed (hs : Balanced s) (d : Nat) :
    cut (x :: sep) d ('<' :: (s ++ ['>'])) = ['<' :: (s ++ ['>'])] :=
  cut_opened hs d (by simp [cut, opens, closes, extendFirst])

theorem cut_separator (t : List Char) :
    cut separator 0 (separator ++ t) = [] :: cut separator 0 t := by
  rw [separator, List.cons_append, cut]
  simp [opens, closes]

/-- A balanced text without colons outside of brackets is one segment. -/
theorem segments_append (hs : Balanced s) (hcolon : ':' ∉ outside 0 s) (t : List Char) :
    segments (s ++ separator ++ t) = s :: segments t := by
  have hcut := cut_append (cut_separator t) hs hcolon
  rwa [List.append_nil, ← List.append_assoc] at hcut

theorem segments_single (hs : Balanced s) (hcolon : ':' ∉ outside 0 s) : segments s = [s] := by
  have hcut := cut_append (show cut separator 0 [] = [[]] by rw [cut]) hs hcolon
  rwa [List.append_nil] at hcut

/-! ## Behind a qualified name -/

theorem extendFirst_concat (c : Char) (t : List Char) (h : ps ≠ []) :
    extendFirst c (ps.dropLast ++ [ps.getLastD [] ++ t]) =
      (extendFirst c ps).dropLast ++ [(extendFirst c ps).getLastD [] ++ t] := by
  match ps with
  | [] => exact absurd rfl h
  | [p] => rfl
  | p :: q :: ps => rfl

/-- A separator at the start ends before an opening bracket. -/
theorem separator_prefix_append_iff (s t : List Char) :
    separator <+: s ++ '<' :: t ↔ separator <+: s := by
  match s with
  | [] => simp [separator]
  | [c] => simp [separator]
  | c :: d :: s => simp [separator]

/-- What stands in brackets behind a balanced name goes with its last segment. -/
theorem cut_separator_append (h : depthBehind d s = some 0)
    (ht : cut separator 0 ('<' :: t) = ['<' :: t]) : cut separator d (s ++ '<' :: t) =
      (cut separator d s).dropLast ++ [(cut separator d s).getLastD [] ++ '<' :: t] := by
  fun_induction cut separator d s with
  | case1 d =>
    obtain rfl := Option.some.inj h
    exact ht
  | case2 d c r ho ih =>
    rw [depthBehind, if_pos ho] at h
    rw [List.cons_append, cut, if_pos ho, ih h, extendFirst_concat _ _ (cut_ne_nil _ _ _)]
  | case3 d c r ho hc ih =>
    rw [depthBehind, if_neg ho, if_pos hc] at h
    split at h
    · cases h
    · rw [List.cons_append, cut, if_neg ho, if_pos hc, ih h,
        extendFirst_concat _ _ (cut_ne_nil _ _ _)]
  | case4 d c r ho hc hsep ih =>
    obtain ⟨rfl, r', hr'⟩ := hsep
    obtain ⟨rfl, rfl⟩ : ':' = c ∧ ':' :: r' = r := List.cons.inj hr'
    obtain ⟨q, qs, hqs⟩ := exists_cut_eq_cons separator 0 r'
    have hcut (r : List Char) : cut separator 0 (':' :: ':' :: r) = [] :: cut separator 0 r :=
      cut_separator r
    have hrest : cut separator 0 (r' ++ '<' :: t) = _ := ih h
    rw [show (':' :: r').drop (separator.length - 1) = r' from rfl] at hrest ⊢
    rw [List.cons_append, List.cons_append, hcut, hrest, hqs]
    rfl
  | case5 d c r ho hc hsep ih =>
    rw [depthBehind, if_neg ho, if_neg hc] at h
    have hsep' : ¬(d = 0 ∧ separator <+: c :: (r ++ '<' :: t)) := by
      rwa [← List.cons_append, separator_prefix_append_iff]
    rw [List.cons_append, cut, if_neg ho, if_neg hc, if_neg hsep', ih h,
      extendFirst_concat _ _ (cut_ne_nil _ _ _)]

/-- The last part of a name is its last segment. -/
theorem split_snd (s : List Char) : (split s).2 = (segments s).getLastD [] := by
  unfold split
  split <;> simp_all

end NativeBindings.Name
