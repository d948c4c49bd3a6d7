import NativeBindings.Bindings
import NativeBindings.Record.Fault
import NativeBindings.NamedArena
import NativeBindings.Proofs.Arena.Growth
import NativeBindings.Proofs.Graph.Drawing
import NativeBindings.Proofs.Graph.Filling
import NativeBindings.Proofs.Graph.StandIn
import NativeBindings.Proofs.Graph.Finished
import NativeBindings.Proofs.Graph.Representation
import NativeBindings.Proofs.Graph.SpelledRing
import NativeBindings.Proofs.Graph.Distinctness
import NativeBindings.Proofs.Graph.Duplicates
import NativeBindings.Proofs.Graph.Acceptance
import NativeBindings.Proofs.Graph.MissingRecords
import NativeBindings.Proofs.Graph.MissingArguments
import NativeBindings.Proofs.Graph.FirstMention
import NativeBindings.Proofs.Graph.Culprits
import NativeBindings.Proofs.Graph.Twins
import NativeBindings.Proofs.Graph.Depiction
import NativeBindings.Proofs.Graph.RecordOrder
import NativeBindings.Proofs.Arena.Relabeled
import NativeBindings.Proofs.Graph.RelabeledDraft
import NativeBindings.Proofs.Graph.Relabeled
import NativeBindings.Proofs.Template.Relabeled
import NativeBindings.Proofs.Record.RoundTrip
import NativeBindings.Proofs.Record.Loading
import NativeBindings.Proofs.Declaration.LeastOrder
import NativeBindings.Proofs.Declaration.Needs
import NativeBindings.Proofs.Declaration.Circles
import NativeBindings.Proofs.Declaration.InnerRings
import NativeBindings.Proofs.Template.Pattern
import NativeBindings.Proofs.Template.Fitting
import NativeBindings.Proofs.Template.SharedLayout
import NativeBindings.Proofs.Template.Families
import NativeBindings.Proofs.Template.NativeTemplates
import NativeBindings.Proofs.Template.Plan
import NativeBindings.Proofs.Template.Demotion
import NativeBindings.Proofs.Template.Meets
import NativeBindings.Proofs.Template.InstantiationOrder
import NativeBindings.Proofs.Declaration.Covering
import NativeBindings.Proofs.Declaration.StructText
import NativeBindings.Proofs.Declaration.References
import NativeBindings.Proofs.Declaration.Written
import NativeBindings.Proofs.Declaration.WholeTexts
import NativeBindings.Proofs.Declaration.Instantiated
import NativeBindings.Proofs.Declaration.Partition
import NativeBindings.Proofs.Declaration.Ordered
import NativeBindings.Proofs.Declaration.CircleWalk
import NativeBindings.Proofs.Declaration.FieldLines
import NativeBindings.Proofs.Declaration.UniqueNames
import NativeBindings.Proofs.Declaration.Preferred
import NativeBindings.Proofs.Declaration.WordNames
import NativeBindings.Proofs.Declaration.LegalNames
import NativeBindings.Proofs.Declaration.RawNames
import NativeBindings.Proofs.Declaration.MemberNames
import NativeBindings.Proofs.Declaration.ClearNames
import NativeBindings.Proofs.Declaration.Relabeled
import NativeBindings.Proofs.Record.Cut
import NativeBindings.Proofs.Declaration.AnchoredParameters
import NativeBindings.Proofs.Declaration.PlainNames
import NativeBindings.Proofs.Declaration.ShortNames
import NativeBindings.Proofs.Text.Literals
import NativeBindings.Proofs.Name.Balanced
import NativeBindings.Proofs.Name.Applied
import NativeBindings.Proofs.Declaration.Documentation
import NativeBindings.Proofs.Name.Spaced
import NativeBindings.Proofs.Declaration.Enumerations
import NativeBindings.Proofs.Name.Segments
import NativeBindings.Proofs.Name.Identifier
import NativeBindings.Proofs.Arena.Operations
import NativeBindings.Proofs.Name.Mentioned
