/-!
# Numbers, texts and lists as bytes

The values of a snapshot are written one after the other with nothing between
them: numbers in groups of seven bits, the low ones first, with the top bit set
on all but the last; signed numbers folded so that small ones stay short; texts
and lists with their length in front; an optional value behind a tag.

A number is read as what it was written for, whatever follows
(`run_varintWithin_encodeVarint`), and folding is undone (`unfold_fold`).
-/

namespace NativeBindings.Wire

/-- Why bytes are not a value. -/
inductive Fault where
  /-- The bytes run out. -/
  | unexpectedEnd
  /-- A number is too long for its width. -/
  | badVarint
  /-- The bytes of a text are no UTF-8. -/
  | badUtf8
  /-- The tag of an optional value is neither 0 nor 1. -/
  | badOption
  /-- A number stands for none of the known cases. -/
  | unknownCase
deriving DecidableEq, Repr, Inhabited

/-- A fault in words. -/
def Fault.message : Fault → String
  | unexpectedEnd => "Hit the end of buffer, expected more data"
  | badVarint =>
    "Found a varint that didn't terminate. Is the usize too big for this platform?"
  | badUtf8 => "Tried to parse invalid utf-8"
  | badOption => "Found an Option discriminant that wasn't 0 or 1"
  | unknownCase => "Serde Deserialization Error"

/-- A step over a row of bytes. -/
abbrev Reader (α : Type) := StateT (List UInt8) (Except Fault) α

/-- One byte. -/
def byte : Reader UInt8 := do
  match ← get with
  | [] => throw .unexpectedEnd
  | b :: rest => set rest *> pure b

/-! ## Unsigned numbers -/

/-- A number in groups of seven bits, the low ones first. -/
def encodeVarint (n : Nat) : List UInt8 :=
  if n < 128 then [UInt8.ofNat n] else UInt8.ofNat (n % 128 + 128) :: encodeVarint (n / 128)

/-- How long a number may get: at most `more` bytes before the last one, whose
value is below `bound` if all of them are used. -/
structure Width where
  /-- Bytes that may come before the last. -/
  more : Nat
  /-- Bound on the last possible byte. -/
  bound : Nat
deriving Repr

/-- Numbers of 64 bits: ten bytes, the last of one bit. -/
def Width.bits64 : Width := ⟨9, 2⟩

/-- Numbers of 32 bits: five bytes, the last of four bits. -/
def Width.bits32 : Width := ⟨4, 16⟩

/-- A number whose last possible byte is below `bound` and comes after at most
`more` others. Needlessly long forms are read like the short ones. -/
def varintWithin (bound : Nat) : Nat → Reader Nat
  | 0 => do
    let b ← byte
    if b.toNat < bound then pure b.toNat else throw .badVarint
  | more + 1 => do
    let b ← byte
    if b.toNat < 128 then pure b.toNat
    else return b.toNat - 128 + 128 * (← varintWithin bound more)

/-- A number of a width. -/
def varint (w : Width) : Reader Nat :=
  varintWithin w.bound w.more

/-- A step that succeeds hands its result on. -/
theorem ok_bind {α β : Type} (a : α) (f : α → Except Fault β) : (Except.ok a >>= f) = f a :=
  rfl

/-- A byte in front is what is read. -/
theorem run_byte (b : UInt8) (rest : List UInt8) : byte.run (b :: rest) = .ok (b, rest) :=
  rfl

/-- What was written for a number below `bound · 128^more` is read as that number. -/
theorem run_varintWithin_encodeVarint {bound more n : Nat} (hb : bound ≤ 128)
    (hn : n < bound * Nat.pow 128 more) (rest : List UInt8) :
    (varintWithin bound more).run (encodeVarint n ++ rest) = .ok (n, rest) := by
  induction more generalizing n with
  | zero =>
    have hn : n < bound := by simpa using hn
    have hbyte : (UInt8.ofNat n).toNat = n := by simp; omega
    rw [encodeVarint, if_pos (by omega), varintWithin, StateT.run_bind]
    simp only [List.cons_append, List.nil_append, run_byte, ok_bind]
    rw [hbyte, if_pos hn]
    rfl
  | succ more ih =>
    rw [encodeVarint, varintWithin]
    split
    · rename_i h128
      have hbyte : (UInt8.ofNat n).toNat = n := by simp; omega
      rw [StateT.run_bind]
      simp only [List.cons_append, List.nil_append, run_byte, ok_bind]
      rw [hbyte, if_pos h128]
      rfl
    · rename_i h128
      have hbyte : (UInt8.ofNat (n % 128 + 128)).toNat = n % 128 + 128 := by
        simp only [UInt8.toNat_ofNat']; omega
      have hdiv : n / 128 < bound * Nat.pow 128 more := by
        have hlast : n < bound * (Nat.pow 128 more * 128) := hn
        rw [← Nat.mul_assoc] at hlast
        omega
      rw [StateT.run_bind]
      simp only [List.cons_append, run_byte, ok_bind]
      rw [hbyte, if_neg (by omega), StateT.run_bind, ih hdiv, ok_bind, StateT.run_pure]
      have : n % 128 + 128 - 128 + 128 * (n / 128) = n := by omega
      rw [this]
      rfl

/-! ## Signed numbers -/

/-- A signed number folded onto the unsigned ones, from `0, -1, 1, -2` on. -/
def fold (n : Int) : Nat :=
  if 0 ≤ n then 2 * n.toNat else 2 * (-n).toNat - 1

/-- The signed number that was folded. -/
def unfold (n : Nat) : Int :=
  if n % 2 = 0 then (n / 2 : Nat) else -((n + 1) / 2 : Nat)

/-- Folding loses nothing. -/
theorem unfold_fold (n : Int) : unfold (fold n) = n := by
  unfold fold unfold
  split <;> split <;> omega

/-! ## Texts, lists, options -/

/-- A length and then as many bytes as it says. -/
def encodeText (s : String) : List UInt8 :=
  let bytes := s.toUTF8.toList
  encodeVarint bytes.length ++ bytes

/-- A length and then as many values as it says. -/
def encodeList {α : Type} (encode : α → List UInt8) (xs : List α) : List UInt8 :=
  encodeVarint xs.length ++ xs.flatMap encode

/-- A zero byte, or a one and then the value. -/
def encodeOption {α : Type} (encode : α → List UInt8) : Option α → List UInt8
  | none => [0]
  | some a => 1 :: encode a

/-- A fixed number of bytes. -/
def take (n : Nat) : Reader (List UInt8) := do
  let s ← get
  if s.length < n then throw .unexpectedEnd
  set (s.drop n)
  pure (s.take n)

/-- A text. -/
def text : Reader String := do
  let bytes ← take (← varint .bits64)
  match String.fromUTF8? ⟨bytes.toArray⟩ with
  | some s => pure s
  | none => throw .badUtf8

/-- A fixed number of values. -/
def replicate {α : Type} (value : Reader α) : Nat → Reader (List α)
  | 0 => pure []
  | n + 1 => do
    let a ← value
    return a :: (← replicate value n)

/-- A list. -/
def list {α : Type} (value : Reader α) : Reader (List α) := do
  replicate value (← varint .bits64)

/-- An optional value. -/
def option {α : Type} (value : Reader α) : Reader (Option α) := do
  match ← byte with
  | 0 => pure none
  | 1 => some <$> value
  | _ => throw .badOption

end NativeBindings.Wire
