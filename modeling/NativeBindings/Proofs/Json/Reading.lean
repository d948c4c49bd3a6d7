import Mathlib.Data.List.TakeWhile
import NativeBindings.Json.Reader
import NativeBindings.Proofs.Json.Literals

/-!
# What the readers read

A reader reads a text as a value (`Reader.Reads`) if it takes this text off the front, with blanks
before it, and leaves what follows, whatever may follow a value. Texts, numbers, optional values
and lists are read as the grammar writes them (`Reader.reads_list`). A structure may be an array
of its elements (`Reader.reads_struct_array`) or an object (`Reader.reads_struct_object`).

The members of an object change what its reader knows, one after the other. It is enough to say
what is known when some of them have been read, in whatever order they come, and that one more
member leads from there to what is known with it.
-/

namespace NativeBindings.Json

/-! ## Items -/

theorem isBlank_iff {c : Char} : Reader.isBlank c = true ↔ c ∈ blanks := by
  simp only [Reader.isBlank, blanks, Bool.or_eq_true, beq_iff_eq, List.mem_cons, List.not_mem_nil,
    or_false, or_assoc]

theorem follows_cons {c : Char} {rest : List Char} (hc : c ∈ [',', ']', '}']) :
    Follows (c :: rest) := by
  rintro d ⟨⟩
  exact .inr hc

/-- Blanks do not change whether a text may follow a value. -/
theorem Blanks.follows {b rest : List Char} (hb : Blanks b) (hrest : Follows rest) :
    Follows (b ++ rest) := by
  cases b with
  | nil => exact hrest
  | cons c b =>
    rintro d ⟨⟩
    exact .inl (hb List.mem_cons_self)

/-- The parts behind an earlier one, and the bracket behind them, may follow a value. -/
theorem Items.follows {ts : List (List Char)} {u rest : List Char} (h : Items false ts u)
    (hrest : Follows rest) : Follows (u ++ rest) := by
  cases h with
  | done hb => exact hb.follows hrest
  | next hb _ _ =>
    rw [List.append_assoc]
    exact hb.follows (follows_cons (by decide))

/-- Parts between brackets take at least one character each. -/
theorem Items.length_le {first : Bool} {ts : List (List Char)} {u : List Char}
    (h : Items first ts u) (hts : ∀ t ∈ ts, Starts t) : ts.length ≤ u.length := by
  induction h with
  | done _ => exact Nat.zero_le _
  | first _ _ ih | next _ _ _ ih =>
    obtain ⟨c, r, rfl, -⟩ := hts _ List.mem_cons_self
    have hrest := ih fun t ht => hts t (List.mem_cons_of_mem _ ht)
    simp only [List.length_append, List.length_cons]
    omega

theorem starts_cons {c : Char} (hc : c ∉ blanks ∧ c ≠ ']' ∧ c ≠ '}') (r : List Char) :
    Starts (c :: r) :=
  ⟨c, r, rfl, hc⟩

theorem StringText.starts {s : String} {t : List Char} (h : StringText s t) : Starts t := by
  obtain ⟨ts, -, rfl⟩ := h
  exact starts_cons (by decide) _

theorem RawString.starts {t : List Char} (h : RawString t) : Starts t := by
  obtain ⟨ts, -, rfl⟩ := h
  exact starts_cons (by decide) _

theorem MemberText.starts {Key : List Char → Prop} {v t : List Char} (h : MemberText Key v t)
    (hkey : ∀ k, Key k → Starts k) : Starts t := by
  obtain ⟨k, b, b', hk, _, _, rfl⟩ := h
  obtain ⟨c, r, rfl, hc⟩ := hkey k hk
  exact ⟨c, _, rfl, hc⟩

namespace Reader

variable {α β σ : Type} {x : Reader α} {a : α} {s s' : List Char}

/-! ## Steps -/

/-- Reading goes on with what the first step has read, where it has stopped. -/
theorem run_bind_of {f : α → Reader β} (h : x.run s = .ok (a, s')) :
    (x >>= f).run s = (f a).run s' := by
  rw [StateT.run_bind, h]
  rfl

theorem run_seqRight_of {y : Reader β} (h : x.run s = .ok (a, s')) :
    (x *> y).run s = y.run s' := by
  rw [seqRight_eq_bind]
  exact run_bind_of h

theorem run_map_of (f : α → β) (h : x.run s = .ok (a, s')) :
    (f <$> x).run s = .ok (f a, s') := by
  rw [StateT.run_map, h]
  rfl

theorem run_liftM_of {y : Except Fault α} (h : y = .ok a) (s : List Char) :
    (liftM y : Reader α).run s = .ok (a, s) := by
  rw [h]
  rfl

theorem run_get (s : List Char) : (get : Reader (List Char)).run s = .ok (s, s) :=
  rfl

/-- A step on the text that is left is taken as it is. -/
theorem run_ofStep_of {step : List Char → Except Fault (α × List Char)}
    (h : step s = .ok (a, s')) : (ofStep step).run s = .ok (a, s') := by
  rw [ofStep, run_bind_of (run_get s), run_bind_of (run_liftM_of h s)]
  rfl

/-- Blanks are passed over, and the character behind them is left to be read. -/
theorem run_peek {b : List Char} {c : Char} (hb : Blanks b) (hc : c ∉ blanks) (r : List Char) :
    peek.run (b ++ c :: r) = .ok (some c, c :: r) := by
  have hdrop : (b ++ c :: r).dropWhile isBlank = c :: r := by
    rw [List.dropWhile_append_of_pos fun d hd => isBlank_iff.mpr (hb hd),
      List.dropWhile_cons_of_neg (isBlank_iff.not.mpr hc)]
  calc peek.run (b ++ c :: r) = .ok (((b ++ c :: r).dropWhile isBlank).head?,
        (b ++ c :: r).dropWhile isBlank) := rfl
    _ = .ok (some c, c :: r) := by rw [hdrop, List.head?_cons]

/-- At the end there is no character behind the blanks. -/
theorem run_peek_blanks {b : List Char} (hb : Blanks b) : peek.run b = .ok (none, []) := by
  have hdrop : b.dropWhile isBlank = [] :=
    List.dropWhile_eq_nil_iff.mpr fun d hd => isBlank_iff.mpr (hb hd)
  calc peek.run b = .ok ((b.dropWhile isBlank).head?, b.dropWhile isBlank) := rfl
    _ = .ok (none, []) := by rw [hdrop, List.head?_nil]

theorem run_advance (c : Char) (r : List Char) : advance.run (c :: r) = .ok ((), r) :=
  rfl

/-- A word is read letter by letter. -/
theorem run_word (w rest : List Char) : (word w).run (w ++ rest) = .ok ((), rest) := by
  induction w with
  | nil => rfl
  | cons c w ih =>
    rw [word, List.cons_append, run_bind_of (run_get _)]
    simp only [if_true]
    exact ih

/-- The inside of a string is read as its text, with the closing quote. -/
theorem run_stringBody {t : String} {ts : List (List Char)}
    (h : List.Forall₂ CharText t.toList ts) (rest : List Char) :
    stringBody.run (ts.flatten ++ '"' :: rest) = .ok (t, rest) := by
  refine run_ofStep_of ?_
  rw [StringLiteral.read_body h rest]
  exact congrArg (fun s => Except.ok (s, rest)) String.ofList_toList

/-- A colon is read with the blanks before it. -/
theorem run_colon {b : List Char} (hb : Blanks b) (r : List Char) :
    colon.run (b ++ ':' :: r) = .ok ((), r) :=
  (run_bind_of (run_peek hb (by decide) r)).trans (run_advance ':' r)

/-! ## Values -/

/-- A reader takes the text `s` off the front as the value `a`: blanks may stand before it, and
whatever follows is left. -/
structure Reads (value : Reader α) (a : α) (s : List Char) : Prop where
  starts : Starts s
  run : ∀ b rest, Blanks b → Follows rest → value.run (b ++ (s ++ rest)) = .ok (a, rest)

/-- A part between brackets is read up to what stands behind it. -/
theorem Reads.run_item (h : Reads x a s) {ts : List (List Char)} {u rest : List Char} {c : Char}
    (hu : Items false ts u) (hc : c ∈ [',', ']', '}']) :
    x.run (s ++ (u ++ c :: rest)) = .ok (a, u ++ c :: rest) :=
  h.run [] _ .nil (hu.follows (follows_cons hc))

theorem Reads.map (f : α → β) (h : Reads x a s) : Reads (f <$> x) (f a) s where
  starts := h.starts
  run b rest hb hrest := run_map_of f (h.run b rest hb hrest)

/-- A text is read, whatever escapes it is written with. -/
theorem reads_text {t : String} (h : StringText t s) : Reads text t s where
  starts := h.starts
  run b rest hb _ := by
    obtain ⟨ts, hts, rfl⟩ := h
    have hpeek := run_peek hb (show '"' ∉ blanks by decide) (ts.flatten ++ '"' :: rest)
    rw [List.cons_append, List.append_assoc, List.singleton_append, text, run_bind_of hpeek,
      if_pos rfl, run_seqRight_of (run_advance _ _), run_stringBody hts]

/-- A number starts with a digit or a minus sign. -/
theorem numberText_starts {l : NumberLiteral} (h : NumberText l s) :
    ∃ c r, s = c :: r ∧ startsNumber c = true := by
  obtain ⟨f, y, ⟨⟨hne, hdigits⟩, -⟩, -, -, rfl⟩ := h
  obtain ⟨d, ds, hds⟩ := List.exists_cons_of_ne_nil hne
  cases l.negative with
  | true => exact ⟨'-', _, rfl, by decide⟩
  | false =>
    have hd : d.isDigit := hdigits d (hds ▸ List.mem_cons_self)
    rw [hds]
    exact ⟨d, _, rfl, Bool.or_eq_true_iff.mpr (.inr hd)⟩

/-- A character that starts a number starts no blank, bracket, word or string. -/
theorem ne_of_startsNumber {c d : Char} (h : startsNumber c = true)
    (hd : startsNumber d = false) : c ≠ d := by
  rintro rfl
  exact absurd h (by simp [hd])

theorem starts_of_startsNumber {c : Char} (h : startsNumber c = true) (r : List Char) :
    Starts (c :: r) := by
  refine ⟨c, r, rfl, fun hc => ?_, ne_of_startsNumber h (by decide),
    ne_of_startsNumber h (by decide)⟩
  have hall : blanks.all fun d => !startsNumber d := by decide
  have hblank : startsNumber c = false := by simpa using List.all_eq_true.mp hall c hc
  exact ne_of_startsNumber h hblank rfl

/-- A literal is read as the number that it is worth. -/
theorem run_number {l : NumberLiteral} {n : Number} (h : NumberText l s) (hn : l.value = .ok n)
    {rest : List Char} (hrest : Follows rest) : number.run (s ++ rest) = .ok (n, rest) :=
  (run_bind_of (run_ofStep_of (NumberLiteral.read_numberText .endInValue h hrest))).trans
    (run_liftM_of hn rest)

/-- A reader that reads a number where one starts reads what it makes of the number. -/
theorem reads_of_number {l : NumberLiteral} {n : Number} (f : Number → Reader α)
    (other : Option Char → Reader α) (h : NumberText l s) (hn : l.value = .ok n)
    (hx : x = do
      match ← peek with
      | some c => if startsNumber c then number >>= f else other (some c)
      | none => other none)
    (hf : f n = pure a) : Reads x a s where
  starts := by
    obtain ⟨c, r, rfl, hc⟩ := numberText_starts h
    exact starts_of_startsNumber hc r
  run b rest hb hrest := by
    have hnumber := run_number h hn hrest
    obtain ⟨c, r, rfl, hc⟩ := numberText_starts h
    have hblank : c ∉ blanks := by
      obtain ⟨_, _, ⟨⟩, hblank, -⟩ := starts_of_startsNumber hc r
      exact hblank
    rw [hx, List.cons_append, run_bind_of (run_peek hb hblank _)]
    simp only [hc, if_true]
    rw [← List.cons_append, run_bind_of hnumber, hf]
    rfl

/-- A natural number of 64 bits is read from its digits. -/
theorem reads_natural64 {n : UInt64} (h : NaturalText n s) : Reads natural64 n s := by
  obtain rfl := h
  refine reads_of_number _ (fun _ => mismatch .natural64)
    (NumberLiteral.numberText_decimal false n.toNat) (NumberLiteral.value_natural n.toNat_lt)
    rfl ?_
  simp only [UInt64.ofNat_toNat]

/-- An integer of 64 bits is read from its digits, with a sign if it is negative. -/
theorem reads_integer64 {n : Int64} (h : IntegerText n s) : Reads integer64 n s := by
  have hlow := n.le_toInt
  have hhigh := n.toInt_lt
  have hhalf : Nat.pow 2 63 = 2 ^ 63 := rfl
  have hfull : Nat.pow 2 64 = 2 ^ 64 := rfl
  obtain rfl := h
  by_cases hneg : n.toInt < 0
  · rw [if_pos hneg]
    refine reads_of_number _ (fun _ => mismatch .integer64)
      (NumberLiteral.numberText_decimal true n.toInt.natAbs)
      (NumberLiteral.value_negative (by omega) (by omega)) rfl ?_
    have hvalue : -(n.toInt.natAbs : Int) = n.toInt := by omega
    simp only [hvalue, Int64.ofInt_toInt]
  · rw [if_neg hneg]
    refine reads_of_number _ (fun _ => mismatch .integer64)
      (NumberLiteral.numberText_decimal false n.toInt.natAbs)
      (NumberLiteral.value_natural (by omega)) rfl ?_
    have hbelow : n.toInt.natAbs < Nat.pow 2 63 := by omega
    have hvalue : Int64.ofNat n.toInt.natAbs = n := by
      rw [← Int64.toInt_inj, Int64.toInt_ofNat_of_lt hbelow]
      omega
    have hunsigned : (UInt64.ofNat n.toInt.natAbs).toNat = n.toInt.natAbs :=
      UInt64.toNat_ofNat_of_lt' (by simp only [UInt64.size]; omega)
    simp only [hunsigned, hbelow, if_true, hvalue]

/-- A value or `null` is read, as long as the value does not start like `null`. -/
theorem reads_optional {Text : α → List Char → Prop} {o : Option α} (h : OptionText Text o s)
    (hx : ∀ a t, Text a t → Reads x a t ∧ t.head? ≠ some 'n') : Reads (optional x) o s := by
  cases o with
  | none =>
    obtain rfl := h
    refine ⟨starts_cons (by decide) _, fun b rest hb _ => ?_⟩
    have hpeek := run_peek hb (show 'n' ∉ blanks by decide) (['u', 'l', 'l'] ++ rest)
    rw [List.cons_append, optional, run_bind_of hpeek, if_pos rfl]
    exact run_seqRight_of (run_word ['n', 'u', 'l', 'l'] rest)
  | some a =>
    obtain ⟨hreads, hhead⟩ := hx a s h
    refine ⟨hreads.starts, fun b rest hb hrest => ?_⟩
    obtain ⟨c, r, rfl, hblank, -⟩ := hreads.starts
    have hc : some c ≠ some 'n' := hhead
    rw [List.cons_append, optional, run_bind_of (run_peek hb hblank _), if_neg hc]
    exact run_map_of some (hreads.run [] rest .nil hrest)

/-! ## Lists -/

/-- At the closing bracket there is no element. -/
theorem run_nextElement_done {b : List Char} (hb : Blanks b) (first : Bool) (rest : List Char) :
    (nextElement first).run (b ++ ']' :: rest) = .ok (false, ']' :: rest) := by
  rw [nextElement, run_bind_of (run_peek hb (by decide) rest)]
  rfl

/-- In front of an element the reader goes to it, past the comma that may be due. -/
theorem run_nextElement_item {first : Bool} {t u : List Char} {ts : List (List Char)}
    (h : Items first (t :: ts) u) (ht : Starts t) : ∃ u', Items false ts u' ∧
      ∀ rest, (nextElement first).run (u ++ rest) = .ok (true, t ++ (u' ++ rest)) := by
  obtain ⟨c, r, rfl, hblank, hbracket, -⟩ := ht
  cases h with
  | @first b _ u' _ hb hitems =>
    refine ⟨u', hitems, fun rest => ?_⟩
    have hpeek := run_peek hb hblank (r ++ (u' ++ rest))
    simp only [List.append_assoc, List.cons_append, nextElement]
    rw [run_bind_of hpeek]
    simp only [hbracket, if_false, if_true]
    rfl
  | @next b b' _ u' _ hb hb' hitems =>
    refine ⟨u', hitems, fun rest => ?_⟩
    have hcomma := run_peek hb (show ',' ∉ blanks by decide) (b' ++ c :: (r ++ (u' ++ rest)))
    have hpeek := run_peek hb' hblank (r ++ (u' ++ rest))
    simp only [List.append_assoc, List.cons_append, nextElement]
    rw [run_bind_of hcomma]
    simp only [Bool.false_eq_true, if_false, if_true, show ',' ≠ ']' by decide]
    rw [run_bind_of (run_advance _ _), run_bind_of hpeek]
    simp only [hbracket, if_false]
    rfl

theorem run_endList {b : List Char} (hb : Blanks b) (rest : List Char) :
    endList.run (b ++ ']' :: rest) = .ok ((), rest) :=
  (run_bind_of (run_peek hb (by decide) rest)).trans (run_advance ']' rest)

theorem starts_of_reads {xs : List α} {ts : List (List Char)}
    (h : List.Forall₂ (Reads x) xs ts) : ∀ t ∈ ts, Starts t := by
  induction h with
  | nil => exact fun t ht => absurd ht List.not_mem_nil
  | cons ha _ ih => exact List.forall_mem_cons.mpr ⟨ha.starts, ih⟩

/-- The elements of a list are read one after the other, with enough fuel for all. -/
theorem run_elements {xs : List α} {ts : List (List Char)} {first : Bool} {u : List Char}
    (hu : Items first ts u) (h : List.Forall₂ (Reads x) xs ts) (budget : List Char)
    (hbudget : ts.length < budget.length) (rest : List Char) :
    (elements x budget first).run (u ++ ']' :: rest) = .ok (xs, ']' :: rest) := by
  induction h generalizing first u budget with
  | nil =>
    cases hu with
    | done hb =>
      obtain ⟨_, budget, rfl⟩ := List.exists_cons_of_length_pos hbudget
      rw [elements, run_bind_of (run_nextElement_done hb first rest)]
      rfl
  | @cons a t xs ts ha _ ih =>
    obtain ⟨_, budget, rfl⟩ := List.exists_cons_of_length_pos (Nat.zero_lt_of_lt hbudget)
    obtain ⟨u', hu', hnext⟩ := run_nextElement_item hu ha.starts
    have helement : x.run (t ++ (u' ++ ']' :: rest)) = .ok (a, u' ++ ']' :: rest) :=
      ha.run_item hu' (by decide)
    have hrest := ih hu' budget (Nat.lt_of_succ_lt_succ hbudget)
    rw [elements, run_bind_of (hnext _), if_pos rfl, run_bind_of helement, run_bind_of hrest]
    rfl

/-- A list is read if each of its elements is. -/
theorem reads_list {Text : α → List Char → Prop} {xs : List α} (h : ListText Text xs s)
    (hx : ∀ a t, Text a t → Reads x a t) : Reads (list x) xs s := by
  obtain ⟨ts, hts, u, hu, rfl⟩ := h
  have hreads : List.Forall₂ (Reads x) xs ts := hts.imp hx
  refine ⟨starts_cons (by decide) _, fun b rest hb _ => ?_⟩
  have hlen : ts.length ≤ u.length := hu.length_le (starts_of_reads hreads)
  have hpeek := run_peek hb (show '[' ∉ blanks by decide) (u ++ ']' :: rest)
  have helements := run_elements hu hreads (u ++ ']' :: rest)
    (by simp only [List.length_append, List.length_cons]; omega) rest
  have hend : endList.run (']' :: rest) = .ok ((), rest) := run_endList .nil rest
  rw [List.cons_append, List.append_assoc, List.singleton_append, list, run_bind_of hpeek,
    if_pos rfl, run_bind_of (run_advance _ _), run_bind_of (run_get _), run_bind_of helements,
    run_bind_of hend]
  rfl

/-! ## Structures as arrays -/

/-- A reader reads the parts `ts` of an array as the value `a`, up to the closing bracket. -/
def ReadsItems (x : Reader α) (first : Bool) (ts : List (List Char)) (a : α) : Prop :=
  ∀ u rest, Items first ts u →
    ∃ b, Blanks b ∧ x.run (u ++ ']' :: rest) = .ok (a, b ++ ']' :: rest)

theorem readsItems_pure (a : α) (first : Bool) : ReadsItems (pure a) first [] a := by
  rintro u rest (hb | _ | _)
  exact ⟨u, hb, rfl⟩

/-- An element that may be missing is read, and then the others are. -/
theorem ReadsItems.elementAt {f : Option α → Reader β} {index : Nat} {t : List Char}
    {ts : List (List Char)} {y : β} (h : Reads x a t) (hf : ReadsItems (f (some a)) false ts y) :
    ReadsItems (elementAt index x >>= f) (index = 0) (t :: ts) y := by
  intro u rest hu
  obtain ⟨u', hu', hnext⟩ := run_nextElement_item hu h.starts
  obtain ⟨b, hb, hrun⟩ := hf u' rest hu'
  have hvalue : x.run (t ++ (u' ++ ']' :: rest)) = .ok (a, u' ++ ']' :: rest) :=
    h.run_item hu' (by decide)
  have helement : (Reader.elementAt index x).run (u ++ ']' :: rest) =
      .ok (some a, u' ++ ']' :: rest) := by
    rw [Reader.elementAt, run_bind_of (hnext _), if_pos rfl, run_map_of some hvalue]
  exact ⟨b, hb, (run_bind_of helement).trans hrun⟩

/-- A required element is read, and then the others are. -/
theorem ReadsItems.requiredAt {f : α → Reader β} {name : String} {size index : Nat}
    {t : List Char} {ts : List (List Char)} {y : β} (h : Reads x a t)
    (hf : ReadsItems (f a) false ts y) :
    ReadsItems (requiredAt name size index x >>= f) (index = 0) (t :: ts) y := by
  rw [Reader.requiredAt, bind_assoc]
  refine .elementAt h ?_
  rw [pure_bind]
  exact hf

/-- A structure is read from an array of its elements. -/
theorem reads_struct_array {name : String} {start : σ} {member : σ → String → Reader σ}
    {finish : σ → Except Fault α} {ts : List (List Char)} (h : Bracketed '[' ']' ts s)
    (hx : ReadsItems x true ts a) : Reads (struct name x start member finish) a s := by
  obtain ⟨u, hu, rfl⟩ := h
  refine ⟨starts_cons (by decide) _, fun b rest hb _ => ?_⟩
  obtain ⟨b', hb', hrun⟩ := hx u rest hu
  have hpeek := run_peek hb (show '[' ∉ blanks by decide) (u ++ ']' :: rest)
  rw [List.cons_append, List.append_assoc, List.singleton_append, struct, run_bind_of hpeek]
  simp only
  rw [run_bind_of (run_advance _ _), run_bind_of hrun, run_bind_of (run_endList hb' rest)]
  rfl

/-! ## Structures as objects -/

/-- A reader reads a colon and the value `v` as `a`. -/
def ReadsMember (x : Reader α) (v : List Char) (a : α) : Prop :=
  ∀ b b' rest, Blanks b → Blanks b' → Follows rest →
    x.run (b ++ ':' :: (b' ++ (v ++ rest))) = .ok (a, rest)

theorem ReadsMember.bind_pure {v : List Char} {f : α → β} {y : β} (h : ReadsMember x v a)
    (hf : f a = y) : ReadsMember (x >>= fun a => pure (f a)) v y :=
  fun b b' rest hb hb' hrest => hf ▸ run_bind_of (h b b' rest hb hb' hrest)

/-- The value of a member that has not come before is read. -/
theorem readsMember_once {name : String} {v : List Char} (h : Reads x a v) :
    ReadsMember (once name none x) v (some a) := by
  intro b b' rest hb hb' hrest
  have hcolon := run_colon hb (b' ++ (v ++ rest))
  calc (once name none x).run (b ++ ':' :: (b' ++ (v ++ rest)))
      = (some <$> x).run (b' ++ (v ++ rest)) := run_bind_of hcolon
    _ = .ok (some a, rest) := run_map_of some (h.run b' rest hb' hrest)

theorem run_nextKey_done {b : List Char} (hb : Blanks b) (first : Bool) (rest : List Char) :
    (nextKey first).run (b ++ '}' :: rest) = .ok (none, '}' :: rest) := by
  rw [nextKey, run_bind_of (run_peek hb (by decide) rest)]
  rfl

/-- In front of a member the reader reads its key, past the comma that may be due. -/
theorem run_nextKey_item {first : Bool} {key : String} {v t u : List Char}
    {ts : List (List Char)} (h : Items first (t :: ts) u)
    (ht : MemberText (StringText key) v t) : ∃ u' b b', Items false ts u' ∧ Blanks b ∧ Blanks b' ∧
      ∀ rest, (nextKey first).run (u ++ rest) =
        .ok (some key, b ++ ':' :: (b' ++ (v ++ (u' ++ rest)))) := by
  obtain ⟨_, b, b', ⟨cs, hcs, rfl⟩, hb, hb', rfl⟩ := ht
  have hkey (r : List Char) : (advance *> (some <$> stringBody)).run
      ('"' :: (cs.flatten ++ '"' :: r)) = .ok (some key, r) := by
    rw [run_seqRight_of (run_advance _ _), run_map_of some (run_stringBody hcs r)]
  have hquote : '"' ∉ blanks := by decide
  cases h with
  | @first d _ u' _ hd hitems =>
    refine ⟨u', b, b', hitems, hb, hb', fun rest => ?_⟩
    have hpeek := run_peek hd hquote
      (cs.flatten ++ '"' :: (b ++ ':' :: (b' ++ (v ++ (u' ++ rest)))))
    have hagain := run_peek .nil hquote
      (cs.flatten ++ '"' :: (b ++ ':' :: (b' ++ (v ++ (u' ++ rest)))))
    simp only [List.append_assoc, List.cons_append, List.nil_append, nextKey] at hagain ⊢
    rw [run_bind_of hpeek]
    simp only [show '"' ≠ '}' by decide, if_false, Bool.not_true, Bool.false_eq_true]
    rw [run_bind_of hagain]
    exact hkey _
  | @next d d' _ u' _ hd hd' hitems =>
    refine ⟨u', b, b', hitems, hb, hb', fun rest => ?_⟩
    have hcomma := run_peek hd (show ',' ∉ blanks by decide)
      (d' ++ '"' :: (cs.flatten ++ '"' :: (b ++ ':' :: (b' ++ (v ++ (u' ++ rest))))))
    have hpeek := run_peek hd' hquote
      (cs.flatten ++ '"' :: (b ++ ':' :: (b' ++ (v ++ (u' ++ rest)))))
    simp only [List.append_assoc, List.cons_append, List.nil_append, nextKey]
    rw [run_bind_of hcomma]
    simp only [show ',' ≠ '}' by decide, if_false, Bool.not_false, if_true]
    rw [run_bind_of (run_advance _ _), run_bind_of hpeek]
    exact hkey _

theorem starts_of_members {ms : List (String × List Char)} {ts : List (List Char)}
    (h : List.Forall₂ (fun m t => MemberText (StringText m.1) m.2 t) ms ts) :
    ∀ t ∈ ts, Starts t := by
  induction h with
  | nil => exact fun t ht => absurd ht List.not_mem_nil
  | cons hm _ ih => exact List.forall_mem_cons.mpr ⟨hm.starts fun _ hk => hk.starts, ih⟩

/-- The members of an object are read one after the other, from what those in `pre` have told to
what all of them tell. -/
theorem run_members {member : σ → String → Reader σ} (acc : List (String × List Char) → σ)
    (pre : List (String × List Char)) {ms : List (String × List Char)} {ts : List (List Char)}
    {first : Bool} {u : List Char} (hu : Items first ts u)
    (hms : List.Forall₂ (fun m t => MemberText (StringText m.1) m.2 t) ms ts)
    (hstep : ∀ p k v q, pre ++ ms = p ++ (k, v) :: q →
      ReadsMember (member (acc p) k) v (acc (p ++ [(k, v)])))
    (budget : List Char) (hbudget : ts.length < budget.length) (rest : List Char) :
    (members member budget first (acc pre)).run (u ++ '}' :: rest) =
      .ok (acc (pre ++ ms), '}' :: rest) := by
  induction hms generalizing pre first u budget with
  | nil =>
    cases hu with
    | done hb =>
      obtain ⟨_, budget, rfl⟩ := List.exists_cons_of_length_pos hbudget
      rw [members, run_bind_of (run_nextKey_done hb first rest), List.append_nil]
      rfl
  | @cons m t ms ts hm _ ih =>
    obtain ⟨key, v⟩ := m
    obtain ⟨_, budget, rfl⟩ := List.exists_cons_of_length_pos (Nat.zero_lt_of_lt hbudget)
    obtain ⟨u', b, b', hu', hb, hb', hnext⟩ := run_nextKey_item hu hm
    have hfollows : Follows (u' ++ '}' :: rest) := hu'.follows (follows_cons (by decide))
    have hvalue := hstep pre key v ms rfl b b' _ hb hb' hfollows
    have hrest := ih (pre ++ [(key, v)]) hu'
      (by simpa only [List.append_assoc, List.singleton_append] using hstep) budget
      (Nat.lt_of_succ_lt_succ hbudget)
    rw [members, run_bind_of (hnext _), run_bind_of hvalue, hrest, List.append_assoc,
      List.singleton_append]

/-- A structure is read from an object if each member leads from what the members before it have
told to what they tell together with it. -/
theorem reads_struct_object {name : String} {member : σ → String → Reader σ}
    {finish : σ → Except Fault α} (acc : List (String × List Char) → σ)
    {ms : List (String × List Char)} (h : ObjectText ms s)
    (hstep : ∀ p k v q, ms = p ++ (k, v) :: q →
      ReadsMember (member (acc p) k) v (acc (p ++ [(k, v)])))
    (hfinish : finish (acc ms) = .ok a) : Reads (struct name x (acc []) member finish) a s := by
  obtain ⟨ts, hms, u, hu, rfl⟩ := h
  refine ⟨starts_cons (by decide) _, fun b rest hb _ => ?_⟩
  have hlen : ts.length ≤ u.length := hu.length_le (starts_of_members hms)
  have hpeek := run_peek hb (show '{' ∉ blanks by decide) (u ++ '}' :: rest)
  have hmembers := run_members acc [] hu hms hstep (u ++ '}' :: rest)
    (by simp only [List.length_append, List.length_cons]; omega) rest
  rw [List.nil_append] at hmembers
  rw [List.cons_append, List.append_assoc, List.singleton_append, struct, run_bind_of hpeek]
  simp only
  rw [run_bind_of (run_advance _ _), run_bind_of (run_get _), run_bind_of hmembers,
    run_bind_of (run_liftM_of hfinish _), run_bind_of (run_advance _ _)]
  rfl

/-! ## What members have told -/

/-- The value `a` once a member with a key of `names` has been read, and nothing before. -/
def told (names : List String) (a : α) (ms : List (String × List Char)) : Option α :=
  if ∃ m ∈ ms, m.1 ∈ names then some a else none

/-- One more member tells a value if its key is one of the names. -/
theorem told_concat (names : List String) (a : α) (p : List (String × List Char)) (k : String)
    (v : List Char) :
    told names a (p ++ [(k, v)]) = if k ∈ names then some a else told names a p := by
  by_cases hk : k ∈ names
  · rw [if_pos hk, told, if_pos ⟨(k, v), by simp, hk⟩]
  · have hmem : (∃ m ∈ p ++ [(k, v)], m.1 ∈ names) ↔ ∃ m ∈ p, m.1 ∈ names := by
      simp [or_and_right, exists_or, hk]
    rw [if_neg hk, told, told]
    simp only [hmem]

section

variable {names : List String} {Text : List Char → Prop} {omissible : Prop}
  {ms p q : List (String × List Char)} {k : String} {v : List Char}

/-- Before its only member, nothing has been told. -/
theorem told_eq_none (h : HasMember ms names Text omissible) (hms : ms = p ++ (k, v) :: q)
    (hk : k ∈ names) (a : α) : told names a p = none := by
  refine if_neg fun ⟨m, hm, hnames⟩ => ?_
  have honce := h.once
  have hpos : 0 < p.countP (fun m => m.1 ∈ names) :=
    List.countP_pos_iff.mpr ⟨m, hm, by simpa using hnames⟩
  rw [hms, List.countP_append, List.countP_cons_of_pos (by simpa using hk)] at honce
  omega

/-- The member of a name is read where it stands. -/
theorem reads_once {name : String} (h : HasMember ms names Text omissible)
    (hms : ms = p ++ (k, v) :: q) (hk : k ∈ names) (hx : ∀ t, Text t → Reads x a t) :
    ReadsMember (once name (told names a p) x) v (some a) := by
  have hv : Text v := h.written (k, v) (hms ▸ by simp) hk
  rw [told_eq_none h hms hk]
  exact readsMember_once (hx v hv)

/-- What must not be left out has been told in the end. -/
theorem told_eq_some (h : HasMember ms names Text False) (a : α) : told names a ms = some a :=
  if_pos (h.present.resolve_left id)

/-- What is left out has its default. -/
theorem getD_told {d : α} (h : HasMember ms names Text (a = d)) : (told names a ms).getD d = a := by
  by_cases hm : ∃ m ∈ ms, m.1 ∈ names
  · rw [told, if_pos hm, Option.getD_some]
  · rw [told, if_neg hm, Option.getD_none, h.present.resolve_right hm]

end

/-! ## Documents -/

/-- A document is read if its value is: blanks may stand around it. -/
theorem document_of_reads {b b' : List Char} (h : Reads x a s) (hb : Blanks b) (hb' : Blanks b') :
    document x (b ++ (s ++ b')) = .ok a := by
  have hfollows : Follows b' := by
    have hempty : Follows [] := fun c hc => absurd hc (by simp)
    simpa only [List.append_nil] using hb'.follows hempty
  have hrun : (x <* peek).run (b ++ (s ++ b')) = .ok (a, []) := by
    rw [seqLeft_eq_bind, run_bind_of (h.run b b' hb hfollows), run_bind_of (run_peek_blanks hb')]
    rfl
  rw [document, hrun]
  rfl

end Reader

end NativeBindings.Json
