import NativeBindings.Declaration.TypeRef
import NativeBindings.Text.Quoted

/-!
# Structs

A declaration is a struct with a documentation line, an attribute that ties it
to its native type and one attributed line per member. `Struct.text` writes it.
-/

namespace NativeBindings

/-- What a member line holds. -/
inductive MemberKind where
  /-- A native field. A generic one without a common offset has none; the enum
  is the field's type, if that is one. -/
  | field (offset : Option UInt64) (type : TypeRef) (enumeration : Option EnumType)
  /-- A marker that uses all parameters. -/
  | marker
deriving Inhabited

/-- A member of a struct. -/
structure Member where
  /-- Identifier. -/
  name : String
  /-- What it holds. -/
  kind : MemberKind
deriving Inhabited

/-- The native type that a struct describes. -/
structure NativeType where
  /-- Native name. -/
  name : String
  /-- Size in bytes, if it is known. -/
  size : Option UInt64
  /-- Base classes. -/
  bases : List TypeRef
deriving Inhabited

/-- A struct declaration. -/
structure Struct where
  /-- Documentation, if there is any. -/
  doc : Option String
  /-- The native type. -/
  native : NativeType
  /-- Whether the identifier may have any case. -/
  anyCase : Bool
  /-- Identifier. -/
  ident : String
  /-- Number of parameters of a generic struct. -/
  arity : Option Nat
  /-- Members, in order. -/
  members : List Member
deriving Inhabited

/-! ## Attributes -/

/-- The text of a list with commas. -/
def commaList (parts : List String) : String :=
  ", ".intercalate parts

namespace NativeType

/-- The attribute that names the native type. -/
def attr (t : NativeType) (arity : Nat) : String :=
  let size := t.size.toList.map fun n => "size = " ++ toString n.toNat
  let bases :=
    if t.bases.isEmpty then []
    else ["bases(" ++ commaList (TypeRef.texts arity t.bases) ++ ")"]
  "#[native_type(" ++ commaList (("name = " ++ Text.quoted t.name) :: size ++ bases) ++ ")]\n"

end NativeType

namespace MemberKind

/-- Where a field lies. -/
def place : Option UInt64 → String
  | some n => "offset = 0x" ++ String.ofList (Text.hexadecimal n.toNat)
  | none => "dynamic"

/-- One constant of an enum. -/
def constant (m : EnumConstant) : String :=
  String.ofList (Name.identifier m.name.toList) ++ " = " ++ toString m.value.toInt

/-- The native name and the constants of an enum. -/
def constants (e : EnumType) : List String :=
  ["enumeration = \"" ++ e.nativeName ++ "\"",
    "values(" ++ commaList (e.members.map constant) ++ ")"]

/-- The attribute of a member. -/
def attr : MemberKind → String
  | field offset _ enumeration =>
    "#[field(" ++ commaList (place offset :: enumeration.toList.flatMap constants) ++ ")]"
  | marker => "#[field(skip)]"

/-- The tuple of all parameters. -/
def paramTuple (arity : Nat) : String :=
  match TypeRef.paramNames arity with
  | [single] => "(" ++ single ++ ",)"
  | names => "(" ++ commaList names ++ ")"

/-- The type of a member in a struct with so many parameters. -/
def type (arity : Nat) : MemberKind → String
  | field _ t _ => t.text arity
  | marker => "::core::marker::PhantomData<" ++ paramTuple arity ++ ">"

end MemberKind

/-! ## Text -/

/-- The two lines of a member. -/
def Member.text (m : Member) (arity : Nat) : String :=
  "    " ++ m.kind.attr ++ "\n" ++ "    pub " ++ m.name ++ ": " ++ m.kind.type arity ++ ",\n"

namespace Struct

/-- The number of parameters; a struct that is not generic has none. -/
def params (s : Struct) : Nat :=
  s.arity.getD 0

/-- The parameter list behind the identifier. -/
def paramList (s : Struct) : String :=
  match s.arity with
  | some n => "<" ++ commaList (TypeRef.paramNames n) ++ ">"
  | none => ""

/-- The documentation line. -/
def docText (s : Struct) : String :=
  match s.doc with
  | some d => "/// " ++ d ++ "\n"
  | none => ""

/-- The struct itself, without what stands above it. -/
def body (s : Struct) : String :=
  let head := "pub struct " ++ s.ident ++ s.paramList
  if s.members.isEmpty then head ++ " \x7b\x7d\n"
  else head ++ " \x7b\n" ++ String.join (s.members.map (·.text s.params)) ++ "\x7d\n"

/-- The text of a declaration. -/
def text (s : Struct) : String :=
  s.docText ++ s.native.attr s.params
    ++ (if s.anyCase then "#[allow(non_camel_case_types)]\n" else "") ++ s.body

end Struct

end NativeBindings
