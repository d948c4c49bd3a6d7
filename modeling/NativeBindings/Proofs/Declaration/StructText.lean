import NativeBindings.Proofs.Declaration.Naming

/-!
# The text of a struct

The text of a struct is told by its parts: the names of its parameters, its base classes as the
attribute lists them, and one line for each member (`Struct.WrittenAs`). References are told by a
relation of their own (`TypeRef.WrittenAs`), which has a text for each parameter. In the struct
these are the names behind its identifier. A parameter without a text cannot be written at all, so
a reference never leaves the parameters of its struct.

Every struct is written so whose references stay within its parameters (`Struct.writtenAs_text`).
-/

namespace NativeBindings

/-! ## What a struct refers to -/

/-- The reference of a member, unless it is a marker. -/
def MemberKind.references : MemberKind → List TypeRef
  | field _ t _ => [t]
  | marker => []

/-- All references of a struct: those of the members and the base classes. -/
def Struct.references (t : Struct) : List TypeRef :=
  t.members.flatMap (·.kind.references) ++ t.native.bases

/-! ## References -/

/-- How a reference is written with the given texts for the parameters. -/
inductive TypeRef.WrittenAs (params : List String) : TypeRef → String → Prop
  | scalar {name : String} : WrittenAs params (.scalar name) name
  | declared {path : String} : WrittenAs params (.declared path) path
  | foreign {name : String} : WrittenAs params (.foreign name) name
  | param {i : Nat} {text : String} (h : params[i]? = some text) : WrittenAs params (.param i) text
  | pointer {t : TypeRef} {text : String} (h : WrittenAs params t text) :
    WrittenAs params (.pointer t) ("Pointer<" ++ text ++ ">")
  | array {t : TypeRef} {text : String} (h : WrittenAs params t text) :
    WrittenAs params (.array t) ("Array<" ++ text ++ ">")
  | applied {path : String} {args : List TypeRef} {texts : List String}
    (hlen : args.length = texts.length)
    (h : ∀ p ∈ args.zip texts, WrittenAs params p.1 p.2) :
    WrittenAs params (.applied path args) (path ++ "<" ++ ", ".intercalate texts ++ ">")

namespace TypeRef

variable {params : List String} {t : TypeRef} {args : List TypeRef} {text path : String}
  {arity : Nat}

theorem writtenAs_param_iff {i : Nat} : (param i).WrittenAs params text ↔ params[i]? = some text :=
  ⟨fun | .param h => h, .param⟩

theorem writtenAs_pointer_iff :
    (pointer t).WrittenAs params ("Pointer<" ++ text ++ ">") ↔ t.WrittenAs params text := by
  refine ⟨fun h => ?_, .pointer⟩
  generalize hs : "Pointer<" ++ text ++ ">" = s at h
  cases h with
  | pointer h =>
    rw [String.append_left_inj, String.append_right_inj] at hs
    exact hs ▸ h

theorem writtenAs_array_iff :
    (array t).WrittenAs params ("Array<" ++ text ++ ">") ↔ t.WrittenAs params text := by
  refine ⟨fun h => ?_, .array⟩
  generalize hs : "Array<" ++ text ++ ">" = s at h
  cases h with
  | array h =>
    rw [String.append_left_inj, String.append_right_inj] at hs
    exact hs ▸ h

/-- An applied path is written with its arguments one by one, whatever the list looks like. -/
theorem writtenAs_applied_iff :
    (applied path args).WrittenAs params (path ++ "<" ++ text ++ ">") ↔
      ∃ texts, List.Forall₂ (WrittenAs params) args texts ∧ ", ".intercalate texts = text := by
  constructor
  · intro h
    generalize hs : path ++ "<" ++ text ++ ">" = s at h
    cases h with
    | @applied _ _ texts hlen h =>
      rw [String.append_left_inj, String.append_right_inj] at hs
      exact ⟨texts, List.forall₂_iff_zip.2 ⟨hlen, fun hmem => h _ hmem⟩, hs.symm⟩
  · rintro ⟨texts, h, rfl⟩
    obtain ⟨hlen, hall⟩ := List.forall₂_iff_zip.1 h
    exact .applied hlen fun p hp => hall hp

/-- What is true of however an argument is written is true of all texts in a list of arguments. -/
theorem forall_text_of_args {P : String → Prop} {texts : List String}
    (h : List.Forall₂ (WrittenAs params) args texts)
    (hP : ∀ t ∈ args, ∀ {text : String}, t.WrittenAs params text → P text) :
    ∀ text ∈ texts, P text := by
  induction h with
  | nil => exact fun _ htext => absurd htext List.not_mem_nil
  | cons h _ ih =>
    obtain ⟨ht, hts⟩ := List.forall_mem_cons.1 hP
    exact List.forall_mem_cons.2 ⟨ht h, ih hts⟩

/-- There is one way to write a reference. -/
theorem WrittenAs.unique {text' : String} (h : t.WrittenAs params text)
    (h' : t.WrittenAs params text') : text = text' := by
  induction h generalizing text' with
  | scalar | declared | foreign =>
    cases h'
    rfl
  | param h => exact Option.some.inj (h.symm.trans (writtenAs_param_iff.1 h'))
  | pointer _ ih =>
    cases h' with
    | pointer h' => rw [ih h']
  | array _ ih =>
    cases h' with
    | array h' => rw [ih h']
  | @applied _ args _ hlen _ ih =>
    cases h' with
    | applied hlen' h' =>
      have hall : List.Forall₂ (fun t s => ∀ s', t.WrittenAs params s' → s = s') args _ :=
        List.forall₂_iff_zip.2 ⟨hlen, fun hmem _ => ih _ hmem⟩
      have hall' : List.Forall₂ (WrittenAs params) args _ :=
        List.forall₂_iff_zip.2 ⟨hlen', fun hmem => h' _ hmem⟩
      have htexts := List.ext_getElem (hlen.symm.trans hlen') fun i hi hi' =>
        hall.get (hlen ▸ hi) hi _ (hall'.get (hlen ▸ hi) hi')
      rw [htexts]

/-! ## What is written -/

/-- A list of arguments is written if each of them is. -/
theorem writtenAs_applied (h : ∀ t ∈ args, t.WrittenAs params (t.text arity)) :
    (applied path args).WrittenAs params ((applied path args).text arity) := by
  rw [text, texts_eq_map]
  refine writtenAs_applied_iff.2 ⟨_, ?_, rfl⟩
  rw [List.forall₂_map_right_iff, List.forall₂_same]
  exact h

/-- With the names of the parameters in it, a reference is written as its text. -/
theorem WrittenAs.eq_text (h : t.WrittenAs (paramNames arity) text) : text = t.text arity := by
  induction h with
  | scalar | declared | foreign => rfl
  | param h =>
    obtain ⟨hi, rfl⟩ := List.getElem?_eq_some_iff.1 h
    simp only [paramNames, List.getElem_map, List.getElem_range, TypeRef.text]
  | pointer _ ih | array _ ih => rw [TypeRef.text, ih]
  | applied hlen _ ih =>
    have hall : List.Forall₂ (fun t s => s = TypeRef.text arity t) _ _ :=
      List.forall₂_iff_zip.2 ⟨hlen, fun hmem => ih _ hmem⟩
    have htexts : List.Forall₂ (· = ·) _ _ := List.forall₂_map_right_iff.2 hall.flip
    rw [List.forall₂_eq_eq_eq] at htexts
    rw [TypeRef.text, texts_eq_map, htexts]

theorem length_paramNames (arity : Nat) : (paramNames arity).length = arity := by
  rw [paramNames, List.length_map, List.length_range]

/-- Parameters have distinct names. -/
theorem nodup_paramNames (arity : Nat) : (paramNames arity).Nodup := by
  refine List.Nodup.map_on (fun i hi j hj h => ?_) List.nodup_range
  rw [List.mem_range] at hi hj
  unfold paramName at h
  split at h
  · omega
  · exact Nat.succ.inj (Name.eq_of_toString_eq ((String.append_right_inj _).1 h))

end TypeRef

/-! ## Structs -/

/-- How a member is written in a struct whose parameters have the given names: under an attribute
and with its identifier, a field with its reference and a marker with all parameters. -/
inductive Member.WrittenAs (params : List String) : Member → String → Prop
  | field {ident type : String} {offset : Option UInt64} {t : TypeRef}
    {enumeration : Option EnumType} (h : t.WrittenAs params type) :
    WrittenAs params ⟨ident, .field offset t enumeration⟩
      ("    " ++ (MemberKind.field offset t enumeration).attr ++ "\n" ++ "    pub " ++ ident ++ ": "
        ++ type ++ ",\n")
  | marker {ident : String} :
    WrittenAs params ⟨ident, .marker⟩
      ("    " ++ "#[field(skip)]" ++ "\n" ++ "    pub " ++ ident ++ ": "
        ++ ("::core::marker::PhantomData<" ++ ("(" ++ ", ".intercalate params
          ++ if params.length = 1 then ",)" else ")") ++ ">") ++ ",\n")

/-- How a struct is written: its parameters have names of their own, which stand behind its
identifier; base classes are listed in the attribute, if there are any; and members follow line
by line. -/
inductive Struct.WrittenAs (t : Struct) : String → Prop
  | intro {params bases lines : List String} (hlength : params.length = t.params)
    (hnodup : params.Nodup) (hbases : List.Forall₂ (TypeRef.WrittenAs params) t.native.bases bases)
    (hlines : List.Forall₂ (Member.WrittenAs params) t.members lines) :
    t.WrittenAs (t.docText
      ++ ("#[native_type(" ++ ", ".intercalate (("name = " ++ Text.quoted t.native.name) ::
        t.native.size.toList.map (fun n => "size = " ++ toString n.toNat) ++
          if bases.isEmpty then [] else ["bases(" ++ ", ".intercalate bases ++ ")"]) ++ ")]\n")
      ++ (if t.anyCase then "#[allow(non_camel_case_types)]\n" else "")
      ++ ("pub struct " ++ t.ident
        ++ (if t.arity.isSome then "<" ++ ", ".intercalate params ++ ">" else "")
        ++ if lines.isEmpty then " \x7b\x7d\n" else " \x7b\n" ++ String.join lines ++ "\x7d\n"))

namespace Struct

variable {t : Struct}

theorem paramTuple_eq (arity : Nat) : MemberKind.paramTuple arity =
    "(" ++ ", ".intercalate (TypeRef.paramNames arity)
      ++ if (TypeRef.paramNames arity).length = 1 then ",)" else ")" := by
  unfold MemberKind.paramTuple
  split
  · next single h =>
    rw [h, String.intercalate_singleton, List.length_singleton, if_pos rfl]
  · next h =>
    rw [if_neg fun hlength => ?_]
    · rfl
    · obtain ⟨single, heq⟩ := List.length_eq_one_iff.1 hlength
      exact h single heq

/-- A member whose references stay within the parameters is written in its two lines. -/
theorem writtenAs_member {arity : Nat} {m : Member}
    (h : ∀ r ∈ m.kind.references, ∃ text, r.WrittenAs (TypeRef.paramNames arity) text) :
    m.WrittenAs (TypeRef.paramNames arity) (m.text arity) := by
  obtain ⟨ident, kind⟩ := m
  cases kind with
  | field offset t enumeration =>
    obtain ⟨text, htext⟩ := h t List.mem_cons_self
    obtain rfl := htext.eq_text
    exact .field htext
  | marker =>
    have htext : (⟨ident, .marker⟩ : Member).text arity = "    " ++ "#[field(skip)]" ++ "\n"
        ++ "    pub " ++ ident ++ ": " ++ ("::core::marker::PhantomData<"
          ++ MemberKind.paramTuple arity ++ ">") ++ ",\n" := rfl
    rw [htext, paramTuple_eq]
    exact .marker

theorem attr_eq (n : NativeType) (arity : Nat) : n.attr arity =
    "#[native_type(" ++ ", ".intercalate (("name = " ++ Text.quoted n.name) ::
      n.size.toList.map (fun k => "size = " ++ toString k.toNat) ++
        if (n.bases.map (TypeRef.text arity)).isEmpty then [] else
          ["bases(" ++ ", ".intercalate (n.bases.map (TypeRef.text arity)) ++ ")"]) ++ ")]\n" := by
  rw [NativeType.attr, TypeRef.texts_eq_map, List.isEmpty_map]
  rfl

theorem paramList_eq (t : Struct) : t.paramList = if t.arity.isSome then
    "<" ++ ", ".intercalate (TypeRef.paramNames t.params) ++ ">" else "" := by
  rw [paramList, params]
  cases t.arity <;> rfl

theorem body_eq (t : Struct) : t.body = "pub struct " ++ t.ident
    ++ (if t.arity.isSome then "<" ++ ", ".intercalate (TypeRef.paramNames t.params) ++ ">" else "")
    ++ if (t.members.map (·.text t.params)).isEmpty then " \x7b\x7d\n" else
      " \x7b\n" ++ String.join (t.members.map (·.text t.params)) ++ "\x7d\n" := by
  rw [body, ← paramList_eq, List.isEmpty_map]
  cases t.members.isEmpty with
  | true => rfl
  | false => simp only [Bool.false_eq_true, if_false, String.append_assoc]

/-- A struct whose references stay within its parameters is written with all of them. -/
theorem writtenAs_text
    (h : ∀ r ∈ t.references, ∃ text, r.WrittenAs (TypeRef.paramNames t.params) text) :
    t.WrittenAs t.text := by
  have hbases : List.Forall₂ (TypeRef.WrittenAs (TypeRef.paramNames t.params)) t.native.bases
      (t.native.bases.map (TypeRef.text t.params)) := by
    rw [List.forall₂_map_right_iff, List.forall₂_same]
    intro r hr
    obtain ⟨text, htext⟩ := h r (List.mem_append_right _ hr)
    exact htext.eq_text ▸ htext
  have hlines : List.Forall₂ (Member.WrittenAs (TypeRef.paramNames t.params)) t.members
      (t.members.map (·.text t.params)) := by
    rw [List.forall₂_map_right_iff, List.forall₂_same]
    intro m hm
    refine writtenAs_member fun r hr => h r (List.mem_append_left _ ?_)
    exact List.mem_flatMap_of_mem hm hr
  rw [text, attr_eq, body_eq]
  exact .intro (TypeRef.length_paramNames _) (TypeRef.nodup_paramNames _) hbases hlines

end Struct

end NativeBindings
