import NativeBindings.Proofs.Graph.RecordedNames

/-!
# Arenas that match

Two arenas may hold the same types at different positions. A relation between the positions says
so if the nodes at related positions are alike: of one form and with the same names, and with
links to related positions (`Arena.Matches`). The relation may go round in circles.

Names are read off the form and the names of nodes alone (`Reading.Natural`), so related nodes
are called and written alike (`Arena.Matches.native_eq`, `Arena.Matches.render_eq`).
-/

namespace NativeBindings

/-! ## Nodes that are alike -/

/-- Nodes of one form with the same names, whose links correspond. The bases and fields of user
types are not looked at. -/
inductive Node.Alike (R : NodeId → NodeId → Prop) : Node → Node → Prop
  | primitive (name : String) : Alike R (.primitive name) (.primitive name)
  | pointer {t t' : NodeId} (ht : R t t') : Alike R (.pointer t) (.pointer t')
  | array {t t' : NodeId} (ht : R t t') : Alike R (.array t) (.array t')
  | enumeration {e e' : EnumType} (hnative : e.nativeName = e'.nativeName)
    (ht : R e.underlying e'.underlying) : Alike R (.enumeration e) (.enumeration e')
  | user {u u' : UserType} (hname : u.name = u'.name) (hscope : u.scope = u'.scope)
    (hnative : u.nativeName = u'.nativeName) : Alike R (.user u) (.user u')
  | template {l l' : NodeId} {args args' : List NodeId} (hl : R l l')
    (hargs : List.Forall₂ R args args') : Alike R (.template l args) (.template l' args')

namespace Reading

variable {α : Type}

/-- A reading that makes no difference between nodes that are alike. -/
def Natural (r : Reading α) : Prop :=
  ∀ {R : NodeId → NodeId → Prop} {id id' : NodeId} {n n' : Node} {known known' : NodeId → Option α},
    n.Alike R n' → (∀ x y, R x y → known x = known' y) → r id n known = r id' n' known'

/-- Nodes that are known alike one by one are known alike together. -/
theorem mapM_congr_of_forall₂ {R : NodeId → NodeId → Prop} {known known' : NodeId → Option α}
    (h : ∀ x y, R x y → known x = known' y) {xs ys : List NodeId} (hxs : List.Forall₂ R xs ys) :
    xs.mapM known = ys.mapM known' := by
  induction hxs with
  | nil => rfl
  | cons hxy _ ih => rw [List.mapM_cons, List.mapM_cons, h _ _ hxy, ih]

/-- The native name of a node only depends on what it is made of. -/
theorem native_natural : native.Natural := by
  intro R id id' n n' known known' halike hknown
  cases halike with
  | primitive => rfl
  | pointer ht | array ht => simp only [native, hknown _ _ ht]
  | enumeration hnative => exact congrArg some hnative
  | user _ _ hnative => exact congrArg some hnative
  | template hl => exact hknown _ _ hl

/-- So does its name in the bindings. -/
theorem rendered_natural (short : Bool) : (rendered short).Natural := by
  intro R id id' n n' known known' halike hknown
  cases halike with
  | primitive => rfl
  | pointer ht | array ht => simp only [rendered, hknown _ _ ht]
  | enumeration _ ht => exact hknown _ _ ht
  | user hname hscope => simp only [rendered, UserType.path, hname, hscope]
  | template hl hargs => simp only [rendered, hknown _ _ hl, mapM_congr_of_forall₂ hknown hargs]

end Reading

namespace Arena

/-! ## Matching arenas -/

/-- The nodes at related positions are alike. -/
def Matches (a b : Arena) (R : NodeId → NodeId → Prop) : Prop :=
  ∀ x y, R x y → ∃ n n', a.node? x = some n ∧ b.node? y = some n' ∧ n.Alike R n'

namespace Matches

variable {a b : Arena} {R : NodeId → NodeId → Prop} (h : a.Matches b R)

include h

/-- Nodes that match are read alike, link by link. -/
theorem readWithin_eq {α : Type} {r : Reading α} (hr : r.Natural) (k : Nat) {x y : NodeId}
    (hxy : R x y) : a.readWithin r k x = b.readWithin r k y := by
  induction k generalizing x y with
  | zero => rfl
  | succ k ih =>
    obtain ⟨n, n', hn, hn', halike⟩ := h x y hxy
    rw [readWithin_succ, readWithin_succ, hn, hn']
    exact hr halike fun _ _ hxy => ih hxy

/-- Readings agree, although the arenas may differ in size. -/
theorem read?_eq {α : Type} {r : Reading α} (hr : r.Natural) (hs : r.Stable) {x y : NodeId}
    (hxy : R x y) : a.read? r x = b.read? r y := by
  refine Option.ext fun t => ?_
  simp only [read?_eq_some_iff hs, h.readWithin_eq hr _ hxy]

theorem native_eq {x y : NodeId} (hxy : R x y) : a.native x = b.native y :=
  congrArg (·.getD "") (h.read?_eq Reading.native_natural Reading.native_stable hxy)

theorem render_eq (short : Bool) {x y : NodeId} (hxy : R x y) :
    a.render short x = b.render short y :=
  congrArg (·.getD "")
    (h.read?_eq (Reading.rendered_natural short) (Reading.rendered_stable short) hxy)

end Matches

end Arena

end NativeBindings
