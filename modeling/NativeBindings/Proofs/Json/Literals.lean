import Mathlib.Data.List.TakeDrop
import NativeBindings.Json.StringLiteral
import NativeBindings.Proofs.Json.Grammar

/-!
# String and number literals are read to their end

Whatever way the grammar has to write a text as a string, reading it gives back the text and what
comes behind the closing quote (`StringLiteral.read_body`); skipping finds the end of every
literal (`StringLiteral.skip_body`). A number literal is read whole if what comes behind it may
follow a value (`NumberLiteral.read_numberText`), and the decimal digits of a number below a bound
are absorbed into that number (`NumberLiteral.absorb_decimal`).
-/

namespace NativeBindings.Json

/-! ## Strings -/

namespace StringLiteral

theorem letterEscape?_of_mem {e c : Char} (h : (e, c) ∈ shortEscapes) :
    letterEscape? e = some c ∧ e ≠ 'u' := by
  have hall : ∀ p ∈ shortEscapes, letterEscape? p.1 = some p.2 ∧ p.1 ≠ 'u' := by decide
  exact hall (e, c) h

theorem hexValue?_of_hexDigit {n : Nat} {c : Char} (hn : n < 16) (h : HexDigit n c) :
    Text.hexValue? c = some n := by
  have hall : ∀ n < 16, Text.hexValue? n.digitChar = some n ∧
      Text.hexValue? n.digitChar.toUpper = some n := by decide
  obtain rfl | rfl := h
  · exact (hall n hn).1
  · exact (hall n hn).2

/-- The digits of a unit are read as the unit. -/
theorem hexUnit_of_unitText {n : Nat} {t : List Char} (h : UnitText n t) :
    ∃ ds, t = '\\' :: 'u' :: ds ∧ ∀ r, hexUnit (ds ++ r) = .ok (n, r) := by
  obtain ⟨hn, a, b, c, d, ha, hb, hc, hd, rfl⟩ := h
  refine ⟨[a, b, c, d], rfl, fun r => ?_⟩
  have hunit : hexUnit? a b c d = some n := by
    simp only [hexUnit?, hexValue?_of_hexDigit (by omega) ha, hexValue?_of_hexDigit (by omega) hb,
      hexValue?_of_hexDigit (by omega) hc, hexValue?_of_hexDigit (by omega) hd, Option.bind_eq_bind,
      Option.bind_some, Option.some.injEq]
    omega
  simp only [List.cons_append, List.nil_append, hexUnit, hunit]

theorem escape_short {e c : Char} (h : (e, c) ∈ shortEscapes) (r : List Char) :
    escape (e :: r) = .ok (c, r) := by
  obtain ⟨hletter, hu⟩ := letterEscape?_of_mem h
  rw [escape.eq_3 e r hu, hletter]

/-- A character has no unit of a surrogate pair for its code point. -/
theorem not_surrogate (c : Char) : isTrailing c.toNat = false ∧ isLeading c.toNat = false := by
  have hvalid : c.toNat < 0xd800 ∨ 0xdfff < c.toNat ∧ c.toNat < 0x110000 := c.valid
  simp only [isTrailing, isLeading, Bool.and_eq_false_iff, decide_eq_false_iff_not]
  omega

/-- A character of one unit is read from its escape. -/
theorem escape_unit {c : Char} {t : List Char} (h : UnitText c.toNat t) :
    ∃ s, t = '\\' :: s ∧ ∀ r, escape (s ++ r) = .ok (c, r) := by
  obtain ⟨ds, rfl, hds⟩ := hexUnit_of_unitText h
  obtain ⟨htrail, hlead⟩ := not_surrogate c
  refine ⟨'u' :: ds, rfl, fun r => ?_⟩
  simp only [List.cons_append, escape, hds, htrail, hlead, Bool.false_eq_true, if_false,
    Char.ofNat_toNat]

/-- A character of two units is read from the escapes of both. -/
theorem escape_pair {c : Char} {m : Nat} {t u : List Char} (hc : c.toNat = 0x10000 + m)
    (ht : UnitText (0xd800 + m / 0x400) t) (hu : UnitText (0xdc00 + m % 0x400) u) :
    ∃ s, t ++ u = '\\' :: s ∧ ∀ r, escape (s ++ r) = .ok (c, r) := by
  obtain ⟨ds, rfl, hds⟩ := hexUnit_of_unitText ht
  obtain ⟨ds', rfl, hds'⟩ := hexUnit_of_unitText hu
  have hvalid : c.toNat < 0xd800 ∨ 0xdfff < c.toNat ∧ c.toNat < 0x110000 := c.valid
  have hfirst : isTrailing (0xd800 + m / 0x400) = false ∧
      isLeading (0xd800 + m / 0x400) = true := by
    simp only [isTrailing, isLeading, Bool.and_eq_false_iff, decide_eq_false_iff_not,
      Bool.and_eq_true, decide_eq_true_eq]
    omega
  have hsecond : isTrailing (0xdc00 + m % 0x400) = true := by
    simp only [isTrailing, Bool.and_eq_true, decide_eq_true_eq]
    omega
  have hpair : pairChar (0xd800 + m / 0x400) (0xdc00 + m % 0x400) = c := by
    have hcode : 0x10000 + (0xd800 + m / 0x400 - 0xd800) * 0x400
        + (0xdc00 + m % 0x400 - 0xdc00) = c.toNat := by omega
    rw [pairChar, hcode, Char.ofNat_toNat]
  refine ⟨'u' :: ds ++ '\\' :: 'u' :: ds', rfl, fun r => ?_⟩
  simp only [List.cons_append, List.append_assoc, escape, hds, hfirst, Bool.false_eq_true, if_false,
    if_true, trailingUnit, hds', hsecond, hpair]

/-- Reading goes on behind an escape. -/
theorem read_escape {s r : List Char} {c : Char} (h : escape s = .ok (c, r)) :
    read ('\\' :: s) = (read r).map fun p => (c :: p.1, p.2) := by
  rw [read, if_neg (by decide), if_pos rfl]
  split
  · next e he =>
    rw [h] at he
    cases he
  · next d r' he =>
    rw [h] at he
    cases he
    cases read r <;> rfl

/-- Reading goes on behind every way to write a character. -/
theorem read_charText {c : Char} {t : List Char} (h : CharText c t) (r : List Char) :
    read (t ++ r) = (read r).map fun p => (c :: p.1, p.2) := by
  cases h with
  | plain hc =>
    obtain ⟨hspace, hquote, hslash⟩ := hc
    rw [List.singleton_append, read, if_neg hquote, if_neg hslash, if_neg (Char.not_lt.mpr hspace)]
    cases read r <;> rfl
  | short he => exact read_escape (escape_short he r)
  | unit ht =>
    obtain ⟨s, rfl, hs⟩ := escape_unit ht
    exact read_escape (hs r)
  | pair hm ht hu =>
    obtain ⟨s, hts, hs⟩ := escape_pair hm ht hu
    rw [hts]
    exact read_escape (hs r)

/-- A string is read back, whichever way its characters are written. -/
theorem read_body {cs : List Char} {ts : List (List Char)} (h : List.Forall₂ CharText cs ts)
    (rest : List Char) : read (ts.flatten ++ '"' :: rest) = .ok (cs, rest) := by
  induction h with
  | nil => rw [List.flatten_nil, List.nil_append, read, if_pos rfl]
  | cons hc _ ih =>
    rw [List.flatten_cons, List.append_assoc, read_charText hc, ih]
    rfl

/-- An escaped unit is skipped, whether it is a character or not. -/
theorem skipEscape_unit {n : Nat} {t : List Char} (h : UnitText n t) :
    ∃ s, t = '\\' :: s ∧ ∀ r, skipEscape (s ++ r) = .ok ((), r) := by
  obtain ⟨ds, rfl, hds⟩ := hexUnit_of_unitText h
  refine ⟨'u' :: ds, rfl, fun r => ?_⟩
  simp only [List.cons_append, skipEscape, hds]

theorem skipEscape_short {e c : Char} (h : (e, c) ∈ shortEscapes) (r : List Char) :
    skipEscape (e :: r) = .ok ((), r) := by
  obtain ⟨hletter, hu⟩ := letterEscape?_of_mem h
  rw [skipEscape.eq_3 e r hu, hletter]
  rfl

/-- Skipping goes on behind an escape. -/
theorem skip_escape {s r : List Char} (h : skipEscape s = .ok ((), r)) :
    skip ('\\' :: s) = skip r := by
  rw [skip, if_neg (by decide), if_pos rfl]
  split
  · next e he =>
    rw [h] at he
    cases he
  · next r' he =>
    rw [h] at he
    cases he
    rfl

/-- Skipping goes on behind every part of a literal. -/
theorem skip_rawPart {t : List Char} (h : RawPart t) (r : List Char) : skip (t ++ r) = skip r := by
  cases h with
  | plain hc =>
    obtain ⟨hspace, hquote, hslash⟩ := hc
    rw [List.singleton_append, skip, if_neg hquote, if_neg hslash, if_neg (Char.not_lt.mpr hspace)]
  | short he => exact skip_escape (skipEscape_short he r)
  | unit ht =>
    obtain ⟨s, rfl, hs⟩ := skipEscape_unit ht
    exact skip_escape (hs r)

/-- The end of a string literal is found, even if the literal denotes no text. -/
theorem skip_body {ts : List (List Char)} (h : ∀ p ∈ ts, RawPart p) (rest : List Char) :
    skip (ts.flatten ++ '"' :: rest) = .ok ((), rest) := by
  induction ts with
  | nil => rw [List.flatten_nil, List.nil_append, skip, if_pos rfl]
  | cons t ts ih =>
    rw [List.flatten_cons, List.append_assoc, skip_rawPart (h t List.mem_cons_self)]
    exact ih fun p hp => h p (List.mem_cons_of_mem t hp)

end StringLiteral

/-! ## Numbers -/

namespace NumberLiteral

/-- What may follow a value does not go on with a number. -/
theorem not_numeric {rest : List Char} (h : Follows rest) :
    ∀ c ∈ rest.head?, c.isDigit = false ∧ c ≠ '.' ∧ c ≠ 'e' ∧ c ≠ 'E' := by
  have hall : (blanks ++ [',', ']', '}']).all fun c =>
      c.isDigit = false ∧ c ≠ '.' ∧ c ≠ 'e' ∧ c ≠ 'E' := by decide
  exact fun c hc => of_decide_eq_true
    (List.all_eq_true.mp hall c (List.mem_append.mpr (h c hc)))

theorem digits_append {ds s : List Char} (hds : ∀ c ∈ ds, c.isDigit)
    (hs : ∀ c ∈ s.head?, c.isDigit = false) : digits (ds ++ s) = (ds, s) := by
  have hstop : s.takeWhile Char.isDigit = [] ∧ s.dropWhile Char.isDigit = s := by
    cases s with
    | nil => exact ⟨rfl, rfl⟩
    | cons c s => simp [hs c rfl]
  rw [digits, List.span_eq_takeWhile_dropWhile, List.takeWhile_append_of_pos hds,
    List.dropWhile_append_of_pos hds, hstop.1, hstop.2, List.append_nil]

theorem someDigits_append {ds s : List Char} (atEnd : Fault) (hds : Digits ds)
    (hs : ∀ c ∈ s.head?, c.isDigit = false) : someDigits atEnd (ds ++ s) = .ok (ds, s) := by
  obtain ⟨hne, hall⟩ := hds
  obtain ⟨d, ds, rfl⟩ := List.exists_cons_of_ne_nil hne
  unfold someDigits
  rw [digits_append hall hs]

/-- The sign of an exponent is told from its digits. -/
theorem exponentPart_append {e : Option (Bool × List Char)} {x rest : List Char} (atEnd : Fault)
    (hx : Exponent e x) (hrest : Follows rest) :
    exponentPart atEnd (x ++ rest) = .ok (e, rest) ∧
      ∀ c ∈ (x ++ rest).head?, c.isDigit = false ∧ c ≠ '.' := by
  have hafter := not_numeric hrest
  match e, hx with
  | none, rfl =>
    refine ⟨?_, fun c hc => ⟨(hafter c hc).1, (hafter c hc).2.1⟩⟩
    cases rest with
    | nil => rfl
    | cons c rest =>
      obtain ⟨_, _, he, hE⟩ := hafter c rfl
      exact if_neg (not_or.mpr ⟨he, hE⟩)
  | some (down, ds), ⟨c, sign, hc, hsign, hds, rfl⟩ =>
    have hread := someDigits_append atEnd hds fun c hc => (hafter c hc).1
    refine ⟨?_, ?_⟩
    · rw [List.cons_append, List.append_assoc]
      match down, hsign with
      | true, rfl =>
        rw [List.cons_append, List.nil_append, exponentPart, if_pos hc, hread]
        rfl
      | false, .inr rfl =>
        rw [List.cons_append, List.nil_append, exponentPart, if_pos hc, hread]
        rfl
      | false, .inl rfl =>
        obtain ⟨d, ds, rfl⟩ := List.exists_cons_of_ne_nil hds.1
        have hd : d.isDigit := hds.2 d List.mem_cons_self
        rw [List.nil_append, exponentPart, if_pos hc, hread]
        · rfl
        · rintro r ⟨⟩
          exact absurd hd (by decide)
        · rintro r ⟨⟩
          exact absurd hd (by decide)
    · rintro d hd
      obtain rfl : c = d := by simpa using hd
      obtain rfl | rfl := hc <;> decide

/-- A fraction is read with its point, which is no digit. -/
theorem fractionDigits_append {ds f s : List Char} (atEnd : Fault) (hf : Fraction ds f)
    (hs : ∀ c ∈ s.head?, c.isDigit = false ∧ c ≠ '.') :
    fractionDigits atEnd (f ++ s) = .ok (ds, s) ∧ ∀ c ∈ (f ++ s).head?, c.isDigit = false := by
  obtain ⟨rfl, rfl⟩ | ⟨hds, rfl⟩ := hf
  · refine ⟨?_, fun c hc => (hs c hc).1⟩
    cases s with
    | nil => rfl
    | cons c s => exact fractionDigits.eq_2 atEnd (c :: s) fun r heq =>
        (hs c rfl).2 (List.cons.inj heq).1
  · refine ⟨someDigits_append atEnd hds fun c hc => (hs c hc).1, fun c hc => ?_⟩
    obtain rfl : '.' = c := by simpa using hc
    decide

/-- Whole digits are read up to what is no digit. -/
theorem wholeDigits_append {w s : List Char} (atEnd : Fault) (hw : Whole w)
    (hs : ∀ c ∈ s.head?, c.isDigit = false) : wholeDigits atEnd (w ++ s) = .ok (w, s) := by
  obtain ⟨hdigits, hzero⟩ := hw
  have hshort : ¬(w.head? = some '0' ∧ 1 < w.length) := by
    rintro ⟨hhead, hlen⟩
    rw [hzero hhead] at hlen
    exact absurd hlen (by decide)
  rw [wholeDigits, someDigits_append atEnd hdigits hs]
  exact if_neg hshort

/-- A number is read to its end, whatever may follow a value. -/
theorem read_numberText {l : NumberLiteral} {s rest : List Char} (atEnd : Fault)
    (h : NumberText l s) (hrest : Follows rest) : read atEnd (s ++ rest) = .ok (l, rest) := by
  obtain ⟨f, x, hwhole, hfraction, hexponent, rfl⟩ := h
  obtain ⟨hx, hstop⟩ := exponentPart_append atEnd hexponent hrest
  obtain ⟨hf, hstop⟩ := fractionDigits_append atEnd hfraction hstop
  have hw := wholeDigits_append atEnd hwhole hstop
  obtain ⟨negative, whole, fraction, exponent⟩ := l
  cases negative with
  | true =>
    simp only [if_true, List.cons_append, List.nil_append, List.append_assoc, read, hw, hf, hx,
      bind, Except.bind]
  | false =>
    obtain ⟨d, ds, rfl⟩ := List.exists_cons_of_ne_nil hwhole.1.1
    have hd : d.isDigit := hwhole.1.2 d List.mem_cons_self
    have hminus : d ≠ '-' := by rintro rfl; exact absurd hd (by decide)
    simp only [Bool.false_eq_true, if_false, List.nil_append, List.append_assoc]
    rw [read]
    · simp only [hw, hf, hx, bind, Except.bind]
    · rintro r ⟨⟩
      exact hminus rfl

/-! ## Decimal numbers -/

theorem head?_decimal {n : Nat} (hn : 0 < n) : (Text.decimal n).head? ≠ some '0' := by
  induction n using Nat.strongRecOn with
  | _ n ih =>
    rw [Text.decimal]
    by_cases hlt : n < 10
    · have hall : ∀ n < 10, 0 < n → [n.digitChar].head? ≠ some '0' := by decide
      rw [Nat.toDigits_of_lt_base hlt]
      exact hall n hlt hn
    · have hfirst := ih (n / 10) (by omega) (by omega)
      rw [Nat.toDigits_of_base_le (by decide) (by omega),
        List.head?_append_of_ne_nil _ Nat.toDigits_ne_nil]
      exact hfirst

theorem whole_decimal (n : Nat) : Whole (Text.decimal n) := by
  refine ⟨⟨Nat.toDigits_ne_nil, fun c hc =>
    Nat.isDigit_of_mem_toDigits (by decide) (by decide) hc⟩, fun hzero => ?_⟩
  obtain rfl | hn := Nat.eq_zero_or_pos n
  · rfl
  · exact absurd hzero (head?_decimal hn)

/-- Decimal digits, with a sign or without, are a number literal. -/
theorem numberText_decimal (negative : Bool) (n : Nat) :
    NumberText ⟨negative, Text.decimal n, [], none⟩
      ((if negative then ['-'] else []) ++ Text.decimal n) := by
  refine ⟨[], [], whole_decimal n, .inl ⟨rfl, rfl⟩, rfl, ?_⟩
  simp only [List.append_nil]

theorem le_ofDigitChars (ds : List Char) (n : Nat) : n ≤ Nat.ofDigitChars 10 ds n := by
  induction ds generalizing n with
  | nil => exact Nat.le_refl n
  | cons d ds ih =>
    rw [Nat.ofDigitChars_cons]
    exact Nat.le_trans (by omega) (ih _)

/-- Digits are absorbed as long as the number that they all make up is below the bound. -/
theorem absorb_eq {bound n : Nat} {ds : List Char} (h : Nat.ofDigitChars 10 ds n < bound) :
    absorb bound n ds = (Nat.ofDigitChars 10 ds n, []) := by
  induction ds generalizing n with
  | nil => rfl
  | cons d ds ih =>
    have hnext : n * 10 + Text.digitValue d = 10 * n + (d.toNat - '0'.toNat) := by
      rw [Text.digitValue, Nat.mul_comm]
    have hbelow : n * 10 + Text.digitValue d < bound := by
      rw [hnext]
      exact Nat.lt_of_le_of_lt (le_ofDigitChars ds _) (Nat.ofDigitChars_cons ▸ h)
    rw [Nat.ofDigitChars_cons, ← hnext] at h ⊢
    exact (if_pos hbelow).trans (ih h)

theorem absorb_decimal {bound n : Nat} (hn : n < bound) :
    absorb bound 0 (Text.decimal n) = (n, []) := by
  have hvalue : Nat.ofDigitChars 10 (Text.decimal n) 0 = n :=
    Nat.ofDigitChars_toDigits (by decide) (by decide)
  rw [absorb_eq (hvalue.symm ▸ hn), hvalue]

/-- Digits below the bound are worth the number that they write. -/
theorem value_natural {n : Nat} (hn : n < Nat.pow 2 64) :
    value ⟨false, Text.decimal n, [], none⟩ = .ok (.natural (.ofNat n)) := by
  have habsorb : absorb (Nat.pow 2 64) 0 (Text.decimal n) = (n, []) := absorb_decimal hn
  simp only [value, habsorb, Bool.not_false, if_true]

/-- Digits with a sign are worth a negative number. -/
theorem value_negative {n : Nat} (hpos : 0 < n) (hn : n ≤ Nat.pow 2 63) :
    value ⟨true, Text.decimal n, [], none⟩ = .ok (.negative (.ofInt (-n))) := by
  have hbelow : n < Nat.pow 2 64 := Nat.lt_of_le_of_lt hn (by decide)
  simp only [value, absorb_decimal hbelow, Bool.not_true, Bool.false_eq_true, if_false]
  exact if_pos ⟨hpos, hn⟩

end NumberLiteral

end NativeBindings.Json
