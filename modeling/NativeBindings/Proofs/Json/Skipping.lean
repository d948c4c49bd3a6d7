import NativeBindings.Proofs.Json.Reading

/-!
# Unwanted values are skipped

Values of any form and depth are skipped to their end, with nothing but the list of open brackets
to tell how deep the text is. The invariant of the loop is told for the start of a value inside
any open brackets (`Reader.Skips`): the loop comes to the end of the value with the same brackets
open, and with a budget that is still as long as the text that is left. Every value that the
grammar allows is skipped in this way (`Reader.skips_valueText`), by induction on its parts.

A structure may hold members that its reader does not know. It is enough to say of each member
that is known where its value goes: `Reader.reads_struct`.
-/

namespace NativeBindings.Json.Reader

/-- Skip what is left inside the open brackets, with or without a value just read. -/
def skipRest (filled : Bool) (outer : List Bracket) (budget : List Char) : Reader Unit := do
  let left ← skipToValue filled outer
  if left.isEmpty then pure () else skipValues budget left

theorem skipRest_nil (budget s : List Char) : (skipRest true [] budget).run s = .ok ((), s) :=
  rfl

/-- The loop skips the value `v` inside any open brackets. -/
structure Skips (v : List Char) : Prop where
  starts : Starts v
  run : ∀ outer budget b rest, Blanks b → Follows rest → (v ++ rest).length ≤ budget.length →
    ∃ budget', rest.length ≤ budget'.length ∧
      (skipValues budget outer).run (b ++ (v ++ rest)) = (skipRest true outer budget').run rest

/-! ## Values without parts -/

/-- A value that is skipped in one step. -/
theorem skips_of_skipStart {v : List Char} (hv : Starts v)
    (h : ∀ b rest, Blanks b → Follows rest → skipStart.run (b ++ (v ++ rest)) = .ok (none, rest)) :
    Skips v where
  starts := hv
  run outer budget b rest hb hrest hbudget := by
    have hstart := h b rest hb hrest
    obtain ⟨c, r, rfl, -⟩ := hv
    obtain ⟨_, budget, rfl⟩ := List.exists_cons_of_length_pos (Nat.zero_lt_of_lt hbudget)
    refine ⟨budget, ?_, ?_⟩
    · simp only [List.length_append, List.length_cons] at hbudget
      omega
    · rw [skipValues, run_bind_of hstart]
      rfl

theorem skips_word {v : List Char} (h : v ∈ words) : Skips v := by
  simp only [words, List.mem_cons, List.not_mem_nil, or_false] at h
  obtain rfl | rfl | rfl := h
  all_goals
    refine skips_of_skipStart (starts_cons (by decide) _) fun b rest hb _ => ?_
    rw [List.cons_append, skipStart, run_bind_of (run_peek hb (by decide) _)]
    exact run_seqRight_of (run_word _ rest)

theorem skips_number {l : NumberLiteral} {v : List Char} (h : NumberText l v) : Skips v := by
  obtain ⟨c, r, hv, hc⟩ := numberText_starts h
  have hstarts := starts_of_startsNumber hc r
  refine skips_of_skipStart (hv ▸ hstarts) fun b rest hb hrest => ?_
  have hread : (ofStep (NumberLiteral.read .badNumber)).run (v ++ rest) = .ok (l, rest) :=
    run_ofStep_of (NumberLiteral.read_numberText .badNumber h hrest)
  have hother (d : Char) (hd : startsNumber d = false) : c ≠ d := ne_of_startsNumber hc hd
  obtain rfl := hv
  obtain ⟨_, _, ⟨⟩, hblank, -⟩ := hstarts
  rw [List.cons_append, skipStart, run_bind_of (run_peek hb hblank _)]
  simp only
  split
  case h_7 =>
    rw [if_pos hc, ← List.cons_append]
    exact run_seqRight_of hread
  all_goals exact absurd rfl (hother _ (by decide))

theorem run_skipString {ts : List (List Char)} (h : ∀ p ∈ ts, RawPart p) (rest : List Char) :
    (advance *> skipString).run ('"' :: (ts.flatten ++ '"' :: rest)) = .ok ((), rest) :=
  (run_seqRight_of (run_advance _ _)).trans (run_ofStep_of (StringLiteral.skip_body h rest))

theorem skips_string {v : List Char} (h : RawString v) : Skips v := by
  obtain ⟨ts, hts, rfl⟩ := h
  refine skips_of_skipStart (starts_cons (by decide) _) fun b rest hb _ => ?_
  rw [List.cons_append, List.append_assoc, List.singleton_append, skipStart,
    run_bind_of (run_peek hb (by decide) _)]
  exact run_seqRight_of (run_skipString hts rest)

/-! ## Arrays and objects -/

/-- The part `t` of a bracket comes down to the value `v`: a member once its key is skipped, and
an element as it is. -/
structure PartOf (br : Bracket) (v t : List Char) : Prop where
  starts : Starts t
  length_le : v.length ≤ t.length
  run : ∀ b rest, Blanks b → ∃ b', Blanks b' ∧
    (if br = .object then skipKey else pure ()).run (b ++ (t ++ rest)) =
      .ok ((), b' ++ (v ++ rest))

/-- The key of a part is skipped in front of whatever is to come. -/
theorem PartOf.run_pure {α : Type} {br : Bracket} {v t b : List Char} (h : PartOf br v t)
    (hb : Blanks b) (rest : List Char) (a : α) : ∃ b', Blanks b' ∧
      (if br = .object then do skipKey; pure a else pure a : Reader α).run (b ++ (t ++ rest)) =
        .ok (a, b' ++ (v ++ rest)) := by
  obtain ⟨b', hb', hrun⟩ := h.run b rest hb
  refine ⟨b', hb', ?_⟩
  cases br with
  | list => exact run_map_of (fun _ => a) hrun
  | object => exact run_bind_of hrun

theorem partOf_list {v : List Char} (h : Starts v) : PartOf .list v v where
  starts := h
  length_le := Nat.le_refl _
  run b _ hb := ⟨b, hb, rfl⟩

theorem partOf_object {v t : List Char} (h : MemberText RawString v t) :
    PartOf .object v t where
  starts := h.starts fun _ hk => hk.starts
  length_le := by
    obtain ⟨k, b, b', -, -, -, rfl⟩ := h
    simp only [List.length_append, List.length_cons]
    omega
  run b rest hb := by
    obtain ⟨_, d, d', ⟨ts, hts, rfl⟩, hd, hd', rfl⟩ := h
    refine ⟨d', hd', ?_⟩
    have hpeek := run_peek hb (show '"' ∉ blanks by decide)
      (ts.flatten ++ '"' :: (d ++ ':' :: (d' ++ (v ++ rest))))
    have hcolon := run_peek hd (show ':' ∉ blanks by decide) (d' ++ (v ++ rest))
    simp only [List.append_assoc, List.cons_append, List.nil_append, if_true, skipKey]
    rw [run_bind_of hpeek]
    simp only
    rw [run_bind_of (run_skipString hts _), run_bind_of hcolon]
    rfl

/-- The bracket is closed, and the loop is behind the value. -/
theorem run_skipRest_close {br : Bracket} {b : List Char} (hb : Blanks b) (filled : Bool)
    (outer : List Bracket) (budget rest : List Char) :
    (skipRest filled (br :: outer) budget).run (b ++ br.close :: rest) =
      (skipRest true outer budget).run rest := by
  have hclose : br.close ∉ blanks ∧ br.close ≠ ',' := by cases br <;> decide
  have hskip : (skipToValue filled (br :: outer)).run (b ++ br.close :: rest) =
      (skipToValue true outer).run rest := by
    rw [skipToValue, run_bind_of (run_peek hb hclose.1 rest)]
    simp only [hclose.2, and_false, if_false, if_true]
    exact run_seqRight_of (run_advance _ _)
  rw [skipRest, skipRest, StateT.run_bind, StateT.run_bind, hskip]

/-- In front of a part, the loop goes on with the value of that part. -/
theorem run_skipRest_item {br : Bracket} {first : Bool} {v t u : List Char}
    {ts : List (List Char)} (h : Items first (t :: ts) u) (ht : PartOf br v t) :
    ∃ u', Items false ts u' ∧ v.length + u'.length ≤ u.length ∧ ∀ outer budget rest,
      ∃ b', Blanks b' ∧ (skipRest (!first) (br :: outer) budget).run (u ++ rest) =
        (skipValues budget (br :: outer)).run (b' ++ (v ++ (u' ++ rest))) := by
  obtain ⟨c, r, rfl, hblank, hbracket, hbrace⟩ := ht.starts
  have hclose : c ≠ br.close := by cases br <;> assumption
  have hlen := ht.length_le
  cases h with
  | @first b _ u' _ hb hitems =>
    refine ⟨u', hitems, ?_, fun outer budget rest => ?_⟩
    · simp only [List.length_append]
      omega
    · obtain ⟨b', hb', hkey⟩ := ht.run_pure .nil (u' ++ rest) (br :: outer)
      have hpeek := run_peek hb hblank (r ++ (u' ++ rest))
      refine ⟨b', hb', ?_⟩
      simp only [List.append_assoc, List.cons_append, List.nil_append] at hkey ⊢
      rw [skipRest, skipToValue, bind_assoc, run_bind_of hpeek]
      simp only [hclose, if_false, Bool.not_true, Bool.false_eq_true, false_and]
      rw [run_bind_of hkey]
      rfl
  | @next b d _ u' _ hb hd hitems =>
    refine ⟨u', hitems, ?_, fun outer budget rest => ?_⟩
    · rw [List.length_append, List.length_cons, List.length_append, List.length_append]
      omega
    · obtain ⟨b', hb', hkey⟩ := ht.run_pure hd (u' ++ rest) (br :: outer)
      have hcomma := run_peek hb (show ',' ∉ blanks by decide) (d ++ c :: (r ++ (u' ++ rest)))
      refine ⟨b', hb', ?_⟩
      simp only [List.append_assoc, List.cons_append] at hkey ⊢
      rw [skipRest, skipToValue, bind_assoc, run_bind_of hcomma]
      simp only [Bool.not_false, and_self, if_true]
      rw [bind_assoc, run_bind_of (run_advance _ _), run_bind_of hkey]
      rfl

/-- What is between the brackets is skipped if the values of its parts are. Behind each of them the
loop is in front of the others. -/
theorem run_skipRest_items {br : Bracket} {vs ts : List (List Char)} {first : Bool}
    {u : List Char} (hu : Items first ts u) (hparts : List.Forall₂ (PartOf br) vs ts)
    (hvs : ∀ v ∈ vs, Skips v) (outer : List Bracket) (budget rest : List Char)
    (hbudget : (u ++ br.close :: rest).length ≤ budget.length) :
    ∃ budget', rest.length ≤ budget'.length ∧
      (skipRest (!first) (br :: outer) budget).run (u ++ br.close :: rest) =
        (skipRest true outer budget').run rest := by
  induction hparts generalizing first u budget with
  | nil =>
    cases hu with
    | done hb =>
      refine ⟨budget, ?_, run_skipRest_close hb _ outer budget rest⟩
      simp only [List.length_append, List.length_cons] at hbudget
      omega
  | @cons v t vs ts hpart _ ih =>
    obtain ⟨u', hu', hlen, hitem⟩ := run_skipRest_item hu hpart
    obtain ⟨b', hb', hitem⟩ := hitem outer budget (br.close :: rest)
    have hfollows : Follows (u' ++ br.close :: rest) :=
      hu'.follows (follows_cons (by cases br <;> decide))
    obtain ⟨budget', hbudget', hvalue⟩ := (hvs v List.mem_cons_self).run (br :: outer) budget b'
      (u' ++ br.close :: rest) hb' hfollows (by
        simp only [List.length_append, List.length_cons] at hbudget ⊢
        omega)
    obtain ⟨budget'', hrest, hrun⟩ :=
      ih hu' (fun w hw => hvs w (List.mem_cons_of_mem v hw)) budget' hbudget'
    exact ⟨budget'', hrest, hitem.trans (hvalue.trans hrun)⟩

/-- Brackets are skipped if the values of their parts are. -/
theorem skips_bracketed {br : Bracket} {opening : Char} {vs ts : List (List Char)}
    {s : List Char} (hparts : List.Forall₂ (PartOf br) vs ts) (hvs : ∀ v ∈ vs, Skips v)
    (h : Bracketed opening br.close ts s)
    (hopening : opening ∉ blanks ∧ opening ≠ ']' ∧ opening ≠ '}')
    (hstart : ∀ b rest, Blanks b → skipStart.run (b ++ opening :: rest) = .ok (some br, rest)) :
    Skips s := by
  obtain ⟨u, hu, rfl⟩ := h
  refine ⟨starts_cons hopening _, fun outer budget b rest hb _ hbudget => ?_⟩
  simp only [List.cons_append, List.append_assoc, List.nil_append] at hbudget ⊢
  obtain ⟨_, budget, rfl⟩ := List.exists_cons_of_length_pos (Nat.zero_lt_of_lt hbudget)
  obtain ⟨budget', hbudget', hrun⟩ := run_skipRest_items hu hparts hvs outer budget rest
    (Nat.le_of_succ_le_succ hbudget)
  refine ⟨budget', hbudget', ?_⟩
  rw [skipValues, run_bind_of (hstart b _ hb)]
  exact hrun

/-! ## All values -/

/-- Every value is skipped, however deep it is. -/
theorem skips_valueText {v : List Char} (h : ValueText v) : Skips v := by
  induction h with
  | word h => exact skips_word h
  | number h => exact skips_number h
  | string h => exact skips_string h
  | @array ts s _ hs ih =>
    have hparts : List.Forall₂ (PartOf .list) ts ts :=
      List.forall₂_same.mpr fun t ht => partOf_list (ih t ht).starts
    exact skips_bracketed hparts ih hs (by decide) fun b rest hb =>
      run_bind_of (run_peek hb (by decide) rest)
  | @object vs ts s _ hms hs ih =>
    have hparts : List.Forall₂ (PartOf .object) vs ts := hms.imp fun _ _ => partOf_object
    exact skips_bracketed hparts ih hs (by decide) fun b rest hb =>
      run_bind_of (run_peek hb (by decide) rest)

/-- A member that means nothing is passed over. -/
theorem readsMember_ignored {α : Type} {v : List Char} (h : ValueText v) (a : α) :
    ReadsMember (ignored *> pure a) v a := by
  intro b b' rest hb hb' hrest
  obtain ⟨budget, -, hskip⟩ := (skips_valueText h).run [] (b' ++ (v ++ rest)) b' rest hb' hrest
    (by simp only [List.length_append]; omega)
  have hignored : ignored.run (b ++ ':' :: (b' ++ (v ++ rest))) = .ok ((), rest) :=
    calc ignored.run (b ++ ':' :: (b' ++ (v ++ rest)))
        = skipValue.run (b' ++ (v ++ rest)) := run_bind_of (run_colon hb _)
      _ = (skipValues (b' ++ (v ++ rest)) []).run (b' ++ (v ++ rest)) := run_bind_of (run_get _)
      _ = (skipRest true [] budget).run rest := hskip
      _ = .ok ((), rest) := skipRest_nil budget rest
  exact run_seqRight_of hignored

/-! ## Structures of known and unknown members -/

section

variable {α β σ : Type} {member : σ → String → Reader σ} {finish : σ → Except Fault β} {b : β}
  {acc : List (String × List Char) → σ} {ms : List (String × List Char)}

/-- Wherever a member with a key of `names` stands among `ms`, it leads from what the members
before it have told to what they tell together with it. -/
def ReadsKeys (member : σ → String → Reader σ) (acc : List (String × List Char) → σ)
    (ms : List (String × List Char)) (names : List String) : Prop :=
  ∀ p k v q, ms = p ++ (k, v) :: q → k ∈ names →
    ReadsMember (member (acc p) k) v (acc (p ++ [(k, v)]))

/-- A member that comes once is read if its reader stores what it holds, and nothing else. -/
theorem readsKeys {names : List String} {Text : List Char → Prop} {omissible : Prop}
    {x : Reader α} {a : α} (name : String) (h : HasMember ms names Text omissible)
    (hx : ∀ t, Text t → Reads x a t) (store : σ → Option α → σ)
    (hread : ∀ p, ∀ k ∈ names,
      member (acc p) k = once name (told names a p) x >>= fun o => pure (store (acc p) o))
    (hstore : ∀ p v, ∀ k ∈ names, store (acc p) (some a) = acc (p ++ [(k, v)])) :
    ReadsKeys member acc ms names := by
  intro p k v q hms hk
  rw [hread p k hk]
  exact (reads_once h hms hk hx).bind_pure (hstore p v k hk)

/-- The reader of a structure knows the members with a key of a list of `groups`, passes over all
others, and makes `b` of what the members `ms` have told. -/
structure ReadsObject (member : σ → String → Reader σ) (finish : σ → Except Fault β)
    (acc : List (String × List Char) → σ) (groups : List (List String)) (b : β)
    (ms : List (String × List Char)) : Prop where
  known : groups.Forall (ReadsKeys member acc ms)
  others : ∀ m ∈ ms, m.1 ∉ groups.flatten → ValueText m.2
  ignores : ∀ s k, k ∉ groups.flatten → member s k = ignored *> pure s
  untold : ∀ p k v, k ∉ groups.flatten → acc (p ++ [(k, v)]) = acc p
  finish : finish (acc ms) = .ok b

/-- Every member of such a structure is read where it stands. -/
theorem ReadsObject.readsMember {groups : List (List String)}
    (h : ReadsObject member finish acc groups b ms) {p q : List (String × List Char)} {k : String}
    {v : List Char} (hms : ms = p ++ (k, v) :: q) :
    ReadsMember (member (acc p) k) v (acc (p ++ [(k, v)])) := by
  by_cases hk : k ∈ groups.flatten
  · obtain ⟨names, hnames, hk⟩ := List.mem_flatten.mp hk
    exact List.forall_iff_forall_mem.mp h.known names hnames p k v q hms hk
  · have hv : ValueText v := h.others (k, v) (hms ▸ by simp) hk
    rw [h.ignores _ k hk, h.untold p k v hk]
    exact readsMember_ignored hv _

/-- A structure is read from an array of its elements and from an object with its members. -/
theorem reads_struct {name : String} {x : Reader β} {elements : List (List Char → Prop)}
    {Object : List (String × List Char) → Prop} {groups : List (List String)} {s : List Char}
    (h : StructText elements Object s)
    (hitems : ∀ ts, List.Forall₂ (fun Text t => Text t) elements ts → ReadsItems x true ts b)
    (hobject : ∀ ms, Object ms → ReadsObject member finish acc groups b ms) :
    Reads (struct name x (acc []) member finish) b s := by
  obtain ⟨ts, hts, hs⟩ | ⟨ms, hs, hms⟩ := h
  · exact reads_struct_array hs (hitems ts hts)
  · exact reads_struct_object acc hs (fun _ _ _ _ h => (hobject ms hms).readsMember h)
      (hobject ms hms).finish

end

end NativeBindings.Json.Reader
