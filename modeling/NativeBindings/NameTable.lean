/-!
# Name tables

A name table numbers names in the order in which they are first mentioned. An index
finds the number of a name, an array the name with a number; a new name goes into
both. Mentioning a name again gives its number again (`number?_mention`), and what
a name or a number once stands for it keeps (`number?_mention_of_number?`,
`name?_mention_of_name?`).

Numbers have 32 bits. Past that many names they start over, and the index and the
array no longer agree.
-/

namespace NativeBindings

/-- Names, numbered from zero in the order of first mention. -/
structure NameTable where
  /-- The number of every name, the latest first. -/
  index : List (String × UInt32) := []
  /-- The names in the order of their numbers. -/
  names : Array String := #[]
deriving Repr, Inhabited

namespace NameTable

/-- The table without a name. -/
def empty : NameTable :=
  {}

/-- The number of a name that was mentioned. -/
def number? (t : NameTable) (name : String) : Option UInt32 :=
  t.index.lookup name

/-- The name with a number. -/
def name? (t : NameTable) (n : UInt32) : Option String :=
  t.names[n.toNat]?

/-- How many names there are. -/
def size (t : NameTable) : Nat :=
  t.names.size

/-- Give a name the next number. -/
def insert (t : NameTable) (name : String) : UInt32 × NameTable :=
  let n := t.size.toUInt32
  (n, { index := (name, n) :: t.index, names := t.names.push name })

/-- Mention a name: the number it has or gets, and the table that knows it. -/
def mention (t : NameTable) (name : String) : UInt32 × NameTable :=
  match t.number? name with
  | some n => (n, t)
  | none => t.insert name

/-- Mention a name that is part of another text. It is copied out if it is new. -/
def mentionSlice (t : NameTable) (name : String.Slice) : UInt32 × NameTable :=
  match t.number? name.copy with
  | some n => (n, t)
  | none => t.insert name.copy

/-- Mention names one after the other. -/
def mentionAll (t : NameTable) (names : List String) : NameTable :=
  names.foldl (fun t name => (t.mention name).2) t

/-- Every number with its name, in order. -/
def entries (t : NameTable) : List (UInt32 × String) :=
  t.names.toList.zipIdx.map fun (name, n) => (n.toUInt32, name)

/-! ## Laws -/

/-- Without a name nothing has a number. -/
theorem number?_empty (name : String) : empty.number? name = none :=
  rfl

theorem number?_insert_self (t : NameTable) (name : String) :
    (t.insert name).2.number? name = some (t.insert name).1 := by
  simp [number?, insert]

theorem number?_insert_of_ne (t : NameTable) {a name : String} (h : a ≠ name) :
    (t.insert name).2.number? a = t.number? a := by
  simp [number?, insert, List.lookup_cons, beq_eq_false_iff_ne.2 h]

/-- A mentioned name has the number that was given. -/
theorem number?_mention (t : NameTable) (name : String) :
    (t.mention name).2.number? name = some (t.mention name).1 := by
  unfold mention
  split
  · assumption
  · exact t.number?_insert_self name

/-- A name that has a number keeps it. -/
theorem number?_mention_of_number? {t : NameTable} {a : String} {n : UInt32}
    (h : t.number? a = some n) (name : String) : (t.mention name).2.number? a = some n := by
  unfold mention
  split
  · exact h
  · next hname =>
    have hne : a ≠ name := by
      rintro rfl
      simp [hname] at h
    rw [number?_insert_of_ne t hne, h]

/-- A number that was given keeps its name. -/
theorem name?_mention_of_name? {t : NameTable} {n : UInt32} {a : String} (h : t.name? n = some a)
    (name : String) : (t.mention name).2.name? n = some a := by
  unfold mention
  split
  · exact h
  · obtain ⟨hn, rfl⟩ := Array.getElem?_eq_some_iff.1 h
    simp only [insert, name?, Array.getElem?_push]
    rw [if_neg (by omega)]
    exact h

/-- It makes no difference how a name is handed over. -/
theorem mentionSlice_eq_mention (t : NameTable) (name : String.Slice) :
    t.mentionSlice name = t.mention name.copy :=
  rfl

end NameTable

end NativeBindings
