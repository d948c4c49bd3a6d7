import NativeBindings.Name.Identifier
import NativeBindings.Text.Blank

/-!
# Scalars

A native scalar has many spellings, differing in blanks, in qualifiers and in
words that may be left out. `scalar?` gives the scalar of the bindings for those
it knows. Widths follow the model in which `long` has 32 bits.
-/

namespace NativeBindings

namespace Scalar

/-- The scalars of the bindings, each with the native spellings that mean it. -/
def spellings : List (String × List String) :=
  [("Void", ["void"]),
    ("bool", ["bool", "_Bool"]),
    ("i8", ["char", "signed char", "int8_t", "__int8"]),
    ("u8", ["unsigned char", "uint8_t", "unsigned __int8", "byte", "BYTE"]),
    ("i16", ["short", "short int", "signed short", "int16_t", "__int16"]),
    ("u16", ["unsigned short", "unsigned short int", "uint16_t", "unsigned __int16", "wchar_t",
      "char16_t"]),
    ("i32", ["int", "signed int", "signed", "long", "long int", "signed long", "int32_t",
      "__int32", "HRESULT"]),
    ("u32", ["unsigned int", "unsigned", "unsigned long", "unsigned long int", "uint32_t",
      "unsigned __int32", "char32_t"]),
    ("i64", ["long long", "long long int", "signed long long", "int64_t", "__int64"]),
    ("u64", ["unsigned long long", "unsigned long long int", "uint64_t", "unsigned __int64"]),
    ("f32", ["float"]),
    ("f64", ["double", "long double"])]

/-- Words that do not change what a spelling means. -/
def qualifiers : List String :=
  ["const", "volatile"]

/-- A native spelling with single blanks and without qualifiers. -/
def canonical (native : String) : String :=
  " ".intercalate (((Text.words native.toList).map String.ofList).filter (· ∉ qualifiers))

/-- The scalar of the bindings that a native spelling means. -/
def ofNative? (native : String) : Option String :=
  let word := canonical native
  (spellings.find? fun s => word ∈ s.2).map (·.1)

/-- How the bindings write a native primitive: as the scalar it means, and
otherwise by its own name made an identifier. -/
def render (native : String) : String :=
  match ofNative? native with
  | some scalar => scalar
  | none => String.ofList (Name.identifier native.toList)

/-- The native integer type of an enum of a size that names none. -/
def enumInteger (size : UInt64) : String :=
  match size.toNat with
  | 1 => "char"
  | 2 => "short"
  | 8 => "long long"
  | _ => "int"

end Scalar

end NativeBindings
