import NativeBindings.Proofs.Declaration.Covering

/-!
# What is written

The declarations of a catalog are written in an order of their numbers, which leaves none out
and repeats none (`Catalog.order_perm`). So every subject is declared once, under its own name
(`Catalog.declarations_perm`), and bindings hold the declarations of the graph that the records
describe and no others (`Bindings.ofRecords_eq_ok`).
-/

namespace NativeBindings

/-- The positions of a list lead to its entries. -/
theorem filterMap_getElem?_range {α : Type} (xs : List α) :
    (List.range xs.length).filterMap (xs[·]?) = xs := by
  induction xs with
  | nil => rfl
  | cons x xs ih =>
    simpa [List.range_succ_eq_map, List.filterMap_map, Function.comp_def] using ih

namespace Catalog

/-- The subjects of a catalog with their names. -/
def entries (c : Catalog) : List (Subject × DeclaredName) :=
  c.subjects.zip c.names

theorem order_perm {c : Catalog} {ns : List Nat} (h : c.order = .ok ns) :
    ns.Perm (List.range c.subjects.length) := by
  unfold order at h
  split at h
  · next hsort =>
    obtain rfl := Except.ok.inj h
    exact LeastOrder.sort_perm (fun _ _ _ => lt_of_mem_dependencies) hsort
  · cases h

theorem length_entries (g : TypeGraph) (options : Options) :
    (g.catalog options).entries.length = (g.catalog options).subjects.length := by
  rw [entries, List.length_zip, length_names, Nat.min_self]

/-- Every name is the name of an entry. -/
theorem map_snd_entries (g : TypeGraph) (options : Options) :
    (g.catalog options).entries.map Prod.snd = (g.catalog options).names :=
  List.map_snd_zip (Nat.le_of_eq (length_names g options))

/-- A numbered subject is declared under a name. -/
theorem exists_mem_entries {g : TypeGraph} {options : Options} {n : Nat} {s : Subject}
    (hs : (g.catalog options).subjects[n]? = some s) :
    ∃ name, (s, name) ∈ (g.catalog options).entries := by
  obtain ⟨name, hname, -⟩ := exists_name hs
  exact ⟨name, List.mem_of_getElem? (List.getElem?_zip_eq_some.2 ⟨hs, hname⟩)⟩

/-- Every entry is written as one declaration. -/
theorem declarations_perm {g : TypeGraph} {options : Options} {ds : List Declaration}
    (h : (g.catalog options).declarations options.documented = .ok ds) :
    ds.Perm ((g.catalog options).entries.map fun x =>
      (g.catalog options).declaration options.documented x.1 x.2) := by
  obtain ⟨ns, horder, rfl⟩ := map_eq_ok_iff.1 h
  have hentry (n : Nat) : (do
      let s ← (g.catalog options).subjects[n]?
      let name ← (g.catalog options).names[n]?
      return (g.catalog options).declaration options.documented s name) =
        ((g.catalog options).entries.map fun x =>
          (g.catalog options).declaration options.documented x.1 x.2)[n]? := by
    rw [entries, List.getElem?_map, List.zip, List.getElem?_zipWith]
    cases (g.catalog options).subjects[n]? <;> cases (g.catalog options).names[n]? <;> rfl
  simp only [hentry]
  have hperm := (order_perm horder).filterMap
    (((g.catalog options).entries.map fun x =>
      (g.catalog options).declaration options.documented x.1 x.2)[·]?)
  rwa [← length_entries, ← List.length_map, filterMap_getElem?_range] at hperm

end Catalog

namespace Bindings

/-- Bindings hold what is written of the catalog of a graph, and the reports of all three steps. -/
theorem ofRecords_eq_ok {options : Options} {records : List SymbolRecord} {b : Bindings}
    (h : ofRecords options records = .ok b) :
    ∃ g w, TypeGraph.ofRecords options records = .ok (g, w) ∧
      (g.catalog options).declarations options.documented = .ok b.declarations ∧
      b.diagnostics = w ++ (Plan.ofGraph options g).2 ++
        (Catalog.ofPlanned (g.planned options) options.omitNamespaces).2 := by
  obtain ⟨⟨g, w⟩, hgraph, -⟩ := bind_eq_ok_iff.1 (show _ >>= _ = _ from h)
  rw [ofRecords_eq_map hgraph, map_eq_ok_iff] at h
  obtain ⟨ds, hds, rfl⟩ := h
  exact ⟨g, w, hgraph, hds, rfl⟩

theorem exists_of_ofRecords {options : Options} {records : List SymbolRecord} {b : Bindings}
    (h : ofRecords options records = .ok b) :
    ∃ g w, TypeGraph.ofRecords options records = .ok (g, w) ∧
      (g.catalog options).declarations options.documented = .ok b.declarations := by
  obtain ⟨g, w, hgraph, hwritten, -⟩ := ofRecords_eq_ok h
  exact ⟨g, w, hgraph, hwritten⟩

end Bindings

end NativeBindings
