import NativeBindings.Proofs.Declaration.FieldLines
import NativeBindings.Proofs.Declaration.Ordered
import NativeBindings.Proofs.Name.Segments

/-!
# Documentation

Whether declarations are documented changes nothing but the comment above each of them. A comment
quotes native names as they are, and a name may hold a line break: what comes behind it is then a
line of its own, which has no slashes (`Bindings.brokenName_not_comment`). So documentation adds
only lines of comment exactly if three slashes follow every line break in the name of a class
(`Text.Continues`, `Bindings.documents_ofRecords`).
-/

namespace NativeBindings

/-! ## Lines of comment -/

namespace Text

/-- What a line of documentation starts with. -/
def slashes : List Char :=
  ['/', '/', '/']

/-- Complete lines, at least one, each of which starts with three slashes. -/
inductive CommentLines : List Char → Prop
  | single {line : List Char} (hstart : slashes <+: line) (hline : '\n' ∉ line) :
    CommentLines (line ++ ['\n'])
  | cons {line rest : List Char} (hstart : slashes <+: line) (hline : '\n' ∉ line)
    (hrest : CommentLines rest) : CommentLines (line ++ '\n' :: rest)

/-- Every line of a text but the first one starts with three slashes. -/
def Continues : List Char → Prop
  | [] => True
  | c :: r => (c = '\n' → slashes <+: r) ∧ Continues r

instance decidableContinues : DecidablePred Continues
  | [] => inferInstanceAs (Decidable True)
  | c :: r =>
    have := decidableContinues r
    inferInstanceAs (Decidable ((c = '\n' → slashes <+: r) ∧ Continues r))

variable {s t : List Char}

/-- A text without line breaks may come before any other. -/
theorem continues_append_of_not_mem (hs : '\n' ∉ s) : Continues (s ++ t) ↔ Continues t := by
  induction s with
  | nil => rfl
  | cons c s ih =>
    rw [List.mem_cons, not_or] at hs
    rw [List.cons_append, Continues, ih hs.2]
    exact and_iff_right fun hc => absurd hc.symm hs.1

theorem continues_of_not_mem (hs : '\n' ∉ s) : Continues s := by
  have h := (continues_append_of_not_mem (t := []) hs).2 trivial
  rwa [List.append_nil] at h

/-- Slashes in front of a text end before what does not start with one. -/
theorem slashes_prefix_append_iff (s : List Char) (ht : t.head? ≠ some '/') :
    slashes <+: s ++ t ↔ slashes <+: s := by
  cases t with
  | nil => rw [List.append_nil]
  | cons d t =>
    have hd : '/' ≠ d := fun heq => ht (congrArg some heq.symm)
    match s with
    | [] => simp [slashes, hd]
    | [a] => simp [slashes, hd]
    | [a, b] => simp [slashes, hd]
    | a :: b :: c :: s => simp [slashes]

/-- Texts continue a comment one by one if no slashes are put together. -/
theorem continues_append (ht : t.head? ≠ some '/') :
    Continues (s ++ t) ↔ Continues s ∧ Continues t := by
  induction s with
  | nil => exact (and_iff_right trivial).symm
  | cons c s ih =>
    rw [List.cons_append, Continues, Continues, ih, slashes_prefix_append_iff s ht, and_assoc]

theorem CommentLines.exists_continues (h : CommentLines s) :
    ∃ d, s = slashes ++ d ++ ['\n'] ∧ Continues d := by
  induction h with
  | @single line hstart hline =>
    obtain ⟨d, rfl⟩ := hstart
    exact ⟨d, rfl, continues_of_not_mem fun hd => hline (List.mem_append_right _ hd)⟩
  | @cons line rest hstart hline hrest ih =>
    obtain ⟨d, rfl⟩ := hstart
    obtain ⟨d', rfl, hd'⟩ := ih
    refine ⟨d ++ '\n' :: (slashes ++ d'), by simp, ?_⟩
    rw [continues_append_of_not_mem fun hd => hline (List.mem_append_right _ hd)]
    exact ⟨fun _ => List.prefix_append _ _, (continues_append_of_not_mem (by decide)).2 hd'⟩

theorem commentLines_of_continues (h : Continues s) : CommentLines (slashes ++ s ++ ['\n']) := by
  induction hn : s.length using Nat.strongRecOn generalizing s with
  | _ n ih =>
    have hslashes : '\n' ∉ slashes := by decide
    by_cases hs : '\n' ∈ s
    · obtain ⟨line, rest, rfl, hline⟩ := List.eq_append_cons_of_mem hs
      obtain ⟨hstart, hrest⟩ := (continues_append_of_not_mem hline).1 h
      obtain ⟨d, rfl⟩ := hstart rfl
      have hd : Continues d := (continues_append_of_not_mem hslashes).1 hrest
      have hcomment := ih d.length (by simp [← hn]; omega) hd rfl
      have hlines := CommentLines.cons (List.prefix_append slashes line)
        (List.not_mem_append hslashes hline) hcomment
      simpa using hlines
    · exact .single (List.prefix_append _ _) (List.not_mem_append hslashes hs)

/-- Between three slashes and a line break, comment is what has three slashes behind every line
break. -/
theorem commentLines_iff (s : List Char) :
    CommentLines (slashes ++ s ++ ['\n']) ↔ Continues s := by
  refine ⟨fun h => ?_, commentLines_of_continues⟩
  obtain ⟨d, heq, hd⟩ := h.exists_continues
  rw [List.append_left_inj, List.append_right_inj] at heq
  exact heq ▸ hd

/-- Only blanks are trimmed. -/
theorem exists_trimEnd_append (s : List Char) :
    ∃ blanks, s = trimEnd s ++ blanks ∧ ∀ c ∈ blanks, isBlank c = true := by
  refine ⟨(s.reverse.takeWhile isBlank).reverse, ?_, fun c hc => ?_⟩
  · rw [trimEnd, trimStart, ← List.reverse_append, List.takeWhile_append_dropWhile,
      List.reverse_reverse]
  · exact List.mem_takeWhile_imp (List.mem_reverse.1 hc)

end Text

/-! ## Names of templates -/

namespace Name

/-- A name without its arguments is cut off where no slash follows. -/
theorem exists_withoutArguments_append (s : List Char) :
    ∃ rest, s = withoutArguments s ++ rest ∧ rest.head? ≠ some '/' := by
  unfold withoutArguments
  split
  · exact ⟨[], by simp, by simp⟩
  · next base c r hbase =>
    split
    · exact ⟨[], by simp, by simp⟩
    · obtain ⟨blanks, hblanks, hall⟩ := Text.exists_trimEnd_append (c :: r)
      refine ⟨blanks ++ s.dropWhile (· != '<'), ?_, ?_⟩
      · rw [← List.append_assoc, ← hblanks, ← hbase, List.takeWhile_append_dropWhile]
      · cases blanks with
        | nil =>
          have hhead := List.head?_dropWhile_not (· != '<') s
          rw [List.nil_append]
          intro heq
          rw [heq] at hhead
          exact absurd hhead (by decide)
        | cons b blanks =>
          rw [List.cons_append, List.head?_cons]
          rintro ⟨⟩
          exact absurd (hall _ List.mem_cons_self) (by decide)

theorem intercalate_dropLast (sep : List Char) {ss : List (List Char)} (h : ss.dropLast ≠ []) :
    sep.intercalate ss.dropLast ++ sep ++ ss.getLastD [] = sep.intercalate ss := by
  have hne : ss ≠ [] := by
    rintro rfl
    exact h rfl
  have happend : sep.intercalate (ss.dropLast ++ [ss.getLast hne]) = _ :=
    intercalate_append h (List.cons_ne_nil _ [])
  rw [List.dropLast_concat_getLast, List.intercalate_singleton] at happend
  rw [List.getLastD_eq_getLast?, List.getLast?_eq_some_getLast hne, Option.getD_some, happend]

/-- A name is put together from its namespace and its last segment. -/
theorem split_append (s : List Char) :
    ((split s).1.map (· ++ separator)).getD [] ++ (split s).2 = s := by
  have hjoin := intercalate_segments s
  unfold split
  split
  · next h => simpa [h] using hjoin
  · next h => simpa [h] using hjoin
  · next a b ss h =>
    rw [h] at hjoin
    exact (intercalate_dropLast separator (by simp)).trans hjoin

/-- What follows the name of a template in that of an instantiation starts with no slash. -/
theorem exists_template_append (s : List Char) :
    ∃ rest, s = template s ++ rest ∧ rest.head? ≠ some '/' := by
  have htemplate : template s =
      ((split s).1.map (· ++ separator)).getD [] ++ withoutArguments (split s).2 := by
    unfold template
    rcases split s with ⟨_ | ns, last⟩ <;> rfl
  obtain ⟨rest, hrest, hhead⟩ := exists_withoutArguments_append (split s).2
  refine ⟨rest, ?_, hhead⟩
  rw [htemplate, List.append_assoc, ← hrest, split_append]

end Name

/-! ## Comments -/

namespace Text

/-- A name between backquotes adds no line but its own. -/
theorem continues_backquoted (name rest : List Char) :
    Continues ("`".toList ++ (name ++ ("`".toList ++ rest))) ↔
      Continues name ∧ Continues rest := by
  have hhead : ("`".toList ++ rest).head? ≠ some '/' := by simp
  rw [continues_append_of_not_mem (by decide), continues_append hhead,
    continues_append_of_not_mem (by decide)]

theorem continues_commaList (names : List String) :
    Continues (commaList (names.map fun n => "`" ++ n ++ "`")).toList ↔
      ∀ n ∈ names, Continues n.toList := by
  induction names with
  | nil => exact iff_of_true trivial (by simp)
  | cons n names ih =>
    rw [List.forall_mem_cons, ← ih]
    cases names with
    | nil =>
      have hone := continues_backquoted n.toList []
      simpa [commaList, String.toList_append] using hone
    | cons m names =>
      have hmore := continues_backquoted n.toList
        (", ".toList ++ (commaList ((m :: names).map fun n => "`" ++ n ++ "`")).toList)
      rw [continues_append_of_not_mem (s := ", ".toList) (by decide)] at hmore
      rw [← hmore, commaList, commaList]
      simp only [List.map_cons, String.intercalate_cons_cons, String.toList_append,
        List.append_assoc]

end Text

namespace Catalog

/-- The native names of the classes that a subject covers. -/
def nativesOf (c : Catalog) (s : Subject) : List String :=
  ((c.planned.covered s).filterMap c.graph.layoutType?).map (·.nativeName)

/-- The comment above the declaration of a subject, under whatever name. -/
def comment (c : Catalog) (s : Subject) : String :=
  ((c.struct? true "" s).map Struct.docText).getD ""

/-- What is written about one type continues a comment if its native name does. -/
theorem continues_concrete (name : String) (size : Nat) :
    Text.Continues (" " ++ ("Native type `" ++ name ++ "` (" ++ toString size
      ++ " bytes).")).toList ↔ Text.Continues name.toList := by
  have hsize : '\n' ∉ (toString size).toList := fun hmem =>
    absurd (Text.isDigit_of_mem_toString hmem) (by decide)
  have hbehind : '\n' ∉ (" (" ++ toString size ++ " bytes).").toList := by
    simpa [String.toList_append] using hsize
  have hsplit : (" " ++ ("Native type `" ++ name ++ "` (" ++ toString size ++ " bytes).")).toList =
      " Native type ".toList ++ ("`".toList ++ (name.toList ++
        ("`".toList ++ (" (" ++ toString size ++ " bytes).").toList))) := by
    simp [String.toList_append]
  rw [hsplit, Text.continues_append_of_not_mem (by decide), Text.continues_backquoted,
    and_iff_left (Text.continues_of_not_mem hbehind)]

/-- The name of a template continues a comment if the names it is taken from do. -/
theorem continues_templateName {natives : List String}
    (h : ∀ n ∈ natives, Text.Continues n.toList) :
    Text.Continues (templateName natives).toList := by
  cases natives with
  | nil => exact trivial
  | cons first natives =>
    obtain ⟨rest, heq, hhead⟩ := Name.exists_template_append first.toList
    have hfirst := h first List.mem_cons_self
    rw [heq, Text.continues_append hhead] at hfirst
    rw [templateName, String.toList_ofList]
    exact hfirst.1

/-- What is written about a template continues a comment if all native names do. -/
theorem continues_generic (natives : List String) :
    Text.Continues (" " ++ ("Native template `" ++ templateName natives ++ "`, covering "
        ++ commaList (natives.map fun n => "`" ++ n ++ "`") ++ ".")).toList ↔
      ∀ n ∈ natives, Text.Continues n.toList := by
  have hsplit : (" " ++ ("Native template `" ++ templateName natives ++ "`, covering "
      ++ commaList (natives.map fun n => "`" ++ n ++ "`") ++ ".")).toList =
      " Native template ".toList ++ ("`".toList ++ ((templateName natives).toList ++
        ("`".toList ++ (", covering ".toList ++
          ((commaList (natives.map fun n => "`" ++ n ++ "`")).toList ++ ".".toList))))) := by
    simp [String.toList_append]
  rw [hsplit, Text.continues_append_of_not_mem (by decide), Text.continues_backquoted,
    Text.continues_append_of_not_mem (by decide), Text.continues_append (by decide),
    and_iff_left (Text.continues_of_not_mem (by decide)), Text.continues_commaList]
  exact and_iff_right_of_imp continues_templateName

theorem nativesOf_single {c : Catalog} {s : Subject} {x : NodeId} {u : UserType}
    (hs : c.planned.covered s = [x]) (hu : c.graph.layoutType? x = some u) :
    c.nativesOf s = [u.nativeName] := by
  rw [nativesOf, hs, List.filterMap_cons_some hu]
  rfl

/-- The comment of a subject starts with three slashes and ends with a line break, and lines come
between as they come with the native names of what the subject covers. -/
def OneComment (c : Catalog) (s : Subject) : Prop :=
  ∃ d, c.comment s = "///" ++ d ++ "\n" ∧
    (Text.Continues d.toList ↔ ∀ n ∈ c.nativesOf s, Text.Continues n.toList)

/-- A comment is made of comment lines if the native names that it shows continue it. -/
theorem OneComment.commentLines_iff {c : Catalog} {s : Subject} (h : c.OneComment s) :
    Text.CommentLines (c.comment s).toList ↔
      ∀ n ∈ c.nativesOf s, Text.Continues n.toList := by
  obtain ⟨d, hd, hlines⟩ := h
  rw [hd, String.toList_append, String.toList_append, ← hlines]
  exact Text.commentLines_iff d.toList

theorem oneComment_of_doc {c : Catalog} {s : Subject} {t : Struct} {d : String}
    (hcomment : c.comment s = t.docText) (hdoc : t.doc = some d)
    (hd : Text.Continues (" " ++ d).toList ↔ ∀ n ∈ c.nativesOf s, Text.Continues n.toList) :
    c.OneComment s := by
  refine ⟨" " ++ d, ?_, hd⟩
  rw [hcomment, Struct.docText, hdoc, ← String.append_assoc]
  rfl

/-- With documentation, a subject has the same struct with its comment above. -/
theorem exists_struct?_documented {c : Catalog} {s : Subject} {ident : String} {t : Struct}
    (h : c.struct? false ident s = some t) :
    ∃ t', c.struct? true ident s = some t' ∧ t'.paramList = t.paramList ∧
      t'.text = c.comment s ++ t.text ∧ c.OneComment s := by
  have htext (t : Struct) : t.text = t.docText ++ ({ t with doc := none } : Struct).text := by
    have hnone : ({ t with doc := none } : Struct).docText = "" := rfl
    rw [Struct.text, Struct.text, hnone]
    simp only [String.append_assoc, String.empty_append]
    rfl
  cases s with
  | user x =>
    obtain ⟨u, hu, rfl⟩ := Option.map_eq_some_iff.1 h
    have hlayout := TypeGraph.layoutType?_user (g := c.graph) (Arena.node?_user hu)
    have hcomment : c.comment (.user x) = (c.concreteStruct true ident false u).docText := by
      rw [comment, struct?, hu]
      rfl
    refine ⟨_, congrArg (Option.map _) hu, rfl, hcomment ▸ htext _,
      oneComment_of_doc hcomment rfl ?_⟩
    rw [nativesOf_single rfl hlayout, List.forall_mem_singleton]
    exact continues_concrete _ _
  | specialized x =>
    obtain ⟨u, hu, rfl⟩ := Option.map_eq_some_iff.1 h
    have hcomment : c.comment (.specialized x) = (c.concreteStruct true ident true u).docText := by
      rw [comment, struct?, hu]
      rfl
    refine ⟨_, congrArg (Option.map _) hu, rfl, hcomment ▸ htext _,
      oneComment_of_doc hcomment rfl ?_⟩
    rw [nativesOf_single rfl hu, List.forall_mem_singleton]
    exact continues_concrete _ _
  | generic f =>
    obtain ⟨l, hl, rfl⟩ := Option.map_eq_some_iff.1 h
    have hcomment : c.comment (.generic f) = (c.genericStruct true ident f l).docText := by
      rw [comment, struct?, hl]
      rfl
    exact ⟨_, congrArg (Option.map _) hl, rfl, hcomment ▸ htext _,
      oneComment_of_doc hcomment rfl (continues_generic (c.coveredNames f))⟩

/-- The same declarations with something above each. -/
def above (texts : List String) (ds : List Declaration) : List Declaration :=
  List.zipWith (fun text d => { d with text := text ++ d.text }) texts ds

theorem map_text_above (texts : List String) (ds : List Declaration) :
    (above texts ds).map (·.text) = List.zipWith (· ++ ·) texts (ds.map (·.text)) := by
  rw [above, List.map_zipWith, List.zipWith_map_right]

/-- A documented declaration is the plain one with its comment above. -/
theorem exists_comment_of_writtenAt {c : Catalog} {n : Nat} {d d' : Declaration}
    (h : c.WrittenAt false n d) (h' : c.WrittenAt true n d') :
    ∃ s, c.subjects[n]? = some s ∧ c.OneComment s ∧
      d' = { d with text := c.comment s ++ d.text } := by
  obtain ⟨s, name, t, hs, hname, ht, rfl⟩ := h
  obtain ⟨s', name', t', hs', hname', ht', rfl⟩ := h'
  obtain rfl := Option.some.inj (hs.symm.trans hs')
  obtain rfl := Option.some.inj (hname.symm.trans hname')
  obtain ⟨_, ht'', hparams, htext, hcomment⟩ := exists_struct?_documented ht
  obtain rfl := Option.some.inj (ht'.symm.trans ht'')
  exact ⟨s, hs, hcomment, by rw [hparams, htext]⟩

/-- In one order the same is written under all numbers, but for the comments of the subjects. -/
theorem comments_of_writtenAt {c : Catalog} {ns : List Nat} {ds ds' : List Declaration}
    (h : List.Forall₂ (c.WrittenAt false) ns ds) (h' : List.Forall₂ (c.WrittenAt true) ns ds') :
    ds' = above ((ns.filterMap (c.subjects[·]?)).map c.comment) ds ∧
      (ns.filterMap (c.subjects[·]?)).length = ds.length ∧
        ∀ s ∈ ns.filterMap (c.subjects[·]?), c.OneComment s := by
  induction h generalizing ds' with
  | nil =>
    cases h'
    exact ⟨rfl, rfl, by simp⟩
  | @cons n d ns ds hd _ ih =>
    cases h' with
    | cons hd' h' =>
      obtain ⟨rfl, hlength, hall⟩ := ih h'
      obtain ⟨s, hs, hcomment, rfl⟩ := exists_comment_of_writtenAt hd hd'
      rw [List.filterMap_cons_some hs]
      exact ⟨rfl, congrArg (· + 1) hlength, List.forall_mem_cons.2 ⟨hcomment, hall⟩⟩

end Catalog

/-! ## Runs -/

/-- What holds of the native names of all kept classes holds of the names of all records of
classes that come first. -/
theorem TypeGraph.forall_layouts_iff {options : Options} {records : List SymbolRecord}
    {g : TypeGraph} {w : Diagnostics} (h : ofRecords options records = .ok (g, w))
    (P : String → Prop) :
    (∀ x ∈ g.classes, ∀ u, g.layoutType? x = some u → P u.nativeName) ↔
      ∀ r ∈ records, r.kind.isClass = true → r.ComesFirst records → P r.name := by
  obtain ⟨d, hd, hspell, hs, hf⟩ := exists_finishes h
  constructor
  · intro hall r hr hk hfirst
    obtain ⟨x, hx, hslot⟩ := hs.exists_class hr hk
    have hstand := (standFor_eq_self_iff_of_settled hd hspell hr hk).2 hfirst
    have hkept := hf.mem_classes.2 ⟨hx, (hs.standFor_eq_iff hr hk hslot).1 hstand⟩
    obtain ⟨l, u, -, hl, hu, hlays⟩ := hf.exists_laysOut hs hr hk hslot hkept
    have hlayout : g.layoutType? x = some u := by
      rw [layoutType?, Arena.layoutType?, hl]
      exact hu
    exact hlays.nativeName ▸ hall x hkept u hlayout
  · intro hall x hx u hu
    obtain ⟨hmem, hfirst⟩ := hf.mem_classes.1 hx
    obtain ⟨r, hr, hk, hslot⟩ := hs.mem_classes_iff.1 hmem
    obtain ⟨l, v, -, hl, hv, hlays⟩ := hf.exists_laysOut hs hr hk hslot hx
    obtain rfl : u = v := by
      rw [layoutType?, Arena.layoutType?, hl] at hu
      exact Option.some.inj (hu.symm.trans hv)
    have hstand := (hs.standFor_eq_iff hr hk hslot).2 hfirst
    rw [hlays.nativeName]
    exact hall r hr hk ((standFor_eq_self_iff_of_settled hd hspell hr hk).1 hstand)

/-- The native names that declarations cover are those of the classes that come first under their
name. -/
theorem Catalog.forall_natives_iff {options : Options} {records : List SymbolRecord}
    {g : TypeGraph} {w : Diagnostics} (h : TypeGraph.ofRecords options records = .ok (g, w))
    (P : String → Prop) :
    (∀ s ∈ (g.catalog options).subjects, ∀ n ∈ (g.catalog options).nativesOf s, P n) ↔
      ∀ r ∈ records, r.kind.isClass = true → r.ComesFirst records → P r.name := by
  have hcovered := (PlannedGraph.partitions_of_suits (p := g.planned options) h
    (Plan.suits_ofGraph options (TypeGraph.nodup_classes h))).covered
  rw [← TypeGraph.forall_layouts_iff h]
  simp only [nativesOf, List.forall_mem_map, List.mem_filterMap]
  constructor
  · intro hall x hx u hu
    obtain ⟨s, hs, hxs⟩ := List.mem_flatMap.1 (hcovered.mem_iff.2 hx)
    exact hall s hs u ⟨x, hxs, hu⟩
  · rintro hall s hs u ⟨x, hxs, hu⟩
    exact hall x (hcovered.mem_iff.1 (List.mem_flatMap.2 ⟨s, hs, hxs⟩)) u hu

theorem exists_intercalate_append (sep : String) {e : String} {texts : List String}
    (hne : texts ≠ []) (h : ∀ text ∈ texts, ∃ s, text = s ++ e) :
    ∃ s, sep.intercalate texts = s ++ e := by
  induction texts with
  | nil => exact absurd rfl hne
  | cons text texts ih =>
    obtain ⟨htext, htexts⟩ := List.forall_mem_cons.1 h
    cases texts with
    | nil => rwa [String.intercalate_singleton]
    | cons next texts =>
      obtain ⟨s, hs⟩ := ih (List.cons_ne_nil _ _) htexts
      exact ⟨text ++ sep ++ s, by rw [String.intercalate_cons_cons, hs, ← String.append_assoc]⟩

/-- A declaration ends with a brace on its last line. -/
theorem Struct.exists_text_append (t : Struct) : ∃ s, t.text = s ++ "\x7d\n" := by
  have hbody : ∃ s, t.body = s ++ "\x7d\n" := by
    unfold body
    split
    · exact ⟨"pub struct " ++ t.ident ++ t.paramList ++ " \x7b", by simp [String.append_assoc]⟩
    · exact ⟨_, rfl⟩
  obtain ⟨s, hs⟩ := hbody
  exact ⟨_, by rw [text, hs, ← String.append_assoc]⟩

/-- Every declaration ends with a closing brace and a line break. -/
theorem Catalog.exists_text_append_of_writtenAt {c : Catalog} {documented : Bool} {ns : List Nat}
    {ds : List Declaration} (h : List.Forall₂ (c.WrittenAt documented) ns ds) :
    ∀ text ∈ ds.map (·.text), ∃ s, text = s ++ "\x7d\n" := by
  induction h with
  | nil => simp
  | cons hd _ ih =>
    obtain ⟨-, -, t, -, -, -, rfl⟩ := hd
    exact List.forall_mem_cons.2 ⟨t.exists_text_append, ih⟩

namespace Bindings

/-- The text of bindings is that of their declarations, with a blank line between two. Of the last
one only the line break is trimmed, which is then written again. -/
theorem text_eq_intercalate {b : Bindings}
    (h : ∀ text ∈ b.declarations.map (·.text), ∃ s, text = s ++ "\x7d\n") :
    b.text = "\n".intercalate (b.declarations.map (·.text)) := by
  unfold text
  cases hds : b.declarations with
  | nil => rfl
  | cons d ds =>
    obtain ⟨s, hs⟩ := exists_intercalate_append "\n" (by simp [hds]) h
    have htrim : Text.trimEnd (s ++ "\x7d\n").toList = (s ++ "\x7d").toList := by
      have hblank : Text.isBlank '\n' = true := by decide
      have hbrace : Text.isBlank '\x7d' = false := by decide
      simp [Text.trimEnd, Text.trimStart, String.toList_append, hblank, hbrace]
    rw [← hds, hs, if_neg (by simp [hds])]
    change String.ofList (Text.trimEnd (s ++ "\x7d\n").toList) ++ "\n" = _
    rw [htrim, String.ofList_toList, String.append_assoc]
    rfl

/-- The outcomes of two runs of which the second documents its declarations. -/
inductive Documents (records : List SymbolRecord) :
    Except Failure Bindings → Except Failure Bindings → Prop
  /-- Both fail for one reason. -/
  | failed (f : Failure) : Documents records (.error f) (.error f)
  /-- Both write the same declarations and report the same. Above each declaration the second one
  has a comment, which starts with three slashes and ends with a line break. All of it is lines of
  comment if and only if the names of the classes go on with three slashes. -/
  | written {b b' : Bindings} {comments : List String}
    (hlength : comments.length = b.declarations.length)
    (hdeclarations : b'.declarations = Catalog.above comments b.declarations)
    (hdiagnostics : b'.diagnostics = b.diagnostics)
    (htext : b.text = "\n".intercalate (b.declarations.map (·.text)))
    (htext' : b'.text =
      "\n".intercalate (List.zipWith (· ++ ·) comments (b.declarations.map (·.text))))
    (hcomments : ∀ comment ∈ comments, ∃ s, comment = "///" ++ s ++ "\n")
    (hlines : (∀ comment ∈ comments, Text.CommentLines comment.toList) ↔
      ∀ r ∈ records, r.kind.isClass = true → r.ComesFirst records →
        Text.Continues r.name.toList) :
    Documents records (.ok b) (.ok b')

/-- Whether declarations are documented makes no difference but to the comments above them. -/
theorem documents_ofRecords (options : Options) (records : List SymbolRecord) :
    Documents records (ofRecords { options with documented := false } records)
      (ofRecords { options with documented := true } records) := by
  have hplain : TypeGraph.ofRecords { options with documented := false } records =
      TypeGraph.ofRecords options records := rfl
  have hdocumented : TypeGraph.ofRecords { options with documented := true } records =
      TypeGraph.ofRecords options records := rfl
  cases hgraph : TypeGraph.ofRecords options records with
  | error f =>
    rw [ofRecords_eq_error (hplain.trans hgraph), ofRecords_eq_error (hdocumented.trans hgraph)]
    exact .failed f
  | ok x =>
    obtain ⟨g, w⟩ := x
    have hrun := ofRecords_eq_map (hplain.trans hgraph)
    have hrun' := ofRecords_eq_map (hdocumented.trans hgraph)
    have hg := TypeGraph.tidy_of_ofRecords hgraph
    rcases Catalog.order_cases (g.catalog options) with ⟨ns, horder⟩ | ⟨names, horder⟩
    · obtain ⟨ds, hds, hall⟩ : ∃ ds, (g.catalog options).declarations false = .ok ds ∧
          List.Forall₂ ((g.catalog options).WrittenAt false) ns ds :=
        Catalog.declarations_of_order hg false horder
      obtain ⟨ds', hds', hall'⟩ : ∃ ds, (g.catalog options).declarations true = .ok ds ∧
          List.Forall₂ ((g.catalog options).WrittenAt true) ns ds :=
        Catalog.declarations_of_order hg true horder
      obtain ⟨rfl, hlength, hcomments⟩ := Catalog.comments_of_writtenAt hall hall'
      have hsubjects : (ns.filterMap ((g.catalog options).subjects[·]?)).Perm _ :=
        ((Catalog.order_perm horder).filterMap _).trans (.of_eq (filterMap_getElem?_range _))
      rw [hrun.trans (congrArg (Except.map _) hds), hrun'.trans (congrArg (Except.map _) hds')]
      refine .written (by rw [List.length_map, hlength]) rfl rfl
        (text_eq_intercalate (Catalog.exists_text_append_of_writtenAt hall)) ?_ ?_ ?_
      · refine (text_eq_intercalate (Catalog.exists_text_append_of_writtenAt hall')).trans ?_
        rw [Catalog.map_text_above]
      · refine List.forall_mem_map.2 fun s hs => ?_
        obtain ⟨d, hd, -⟩ := hcomments s hs
        exact ⟨d, hd⟩
      · rw [List.forall_mem_map,
          ← Catalog.forall_natives_iff hgraph fun n => Text.Continues n.toList]
        simp only [← hsubjects.mem_iff]
        exact forall₂_congr fun s hs => (hcomments s hs).commentLines_iff
    · rw [(ofRecords_eq_error_iff (hplain.trans hgraph)).2 horder,
        (ofRecords_eq_error_iff (hdocumented.trans hgraph)).2 horder]
      exact .failed _

/-- A class whose name holds a line break. -/
def brokenName : List SymbolRecord :=
  [.ofUserType ⟨1⟩ "A\nB" 8]

/-- What stands above the declaration of this class is no comment: its second line has no
slashes. -/
theorem brokenName_not_comment : ∃ b b',
    ofRecords { documented := false } brokenName = .ok b ∧ ofRecords {} brokenName = .ok b' ∧
      ∃ d d', b.declarations = [d] ∧ b'.declarations = [d'] ∧
        ¬∃ comment, d'.text = comment ++ d.text ∧ Text.CommentLines comment.toList := by
  obtain ⟨b, hb, hd⟩ : ∃ b, ofRecords { documented := false } brokenName = .ok b ∧
      b.declarations = [⟨"A_B", none,
        "#[native_type(name = \"A\\nB\", size = 8)]\npub struct A_B \x7b\x7d\n"⟩] :=
    exists_eq_ok_and (by decide +kernel)
  obtain ⟨b', hb', hd'⟩ : ∃ b, ofRecords {} brokenName = .ok b ∧
      b.declarations = [⟨"A_B", none, "/// Native type `A\nB` (8 bytes).\n" ++
        "#[native_type(name = \"A\\nB\", size = 8)]\npub struct A_B \x7b\x7d\n"⟩] :=
    exists_eq_ok_and (by decide +kernel)
  refine ⟨b, b', hb, hb', _, _, hd, hd', ?_⟩
  rintro ⟨comment, htext, hlines⟩
  obtain rfl := (String.append_left_inj _).1 htext
  have hcontinues := (Text.commentLines_iff " Native type `A\nB` (8 bytes).".toList).1 hlines
  exact absurd hcontinues (by decide)

end Bindings

end NativeBindings
