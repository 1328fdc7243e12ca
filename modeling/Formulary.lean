import Formulary.Main
import Formulary.Proofs.Random.Choice
import Formulary.Proofs.Formula.Grammar
import Formulary.Proofs.Formula.Branching
import Formulary.Proofs.Net.Mapping
import Formulary.Proofs.Run.Selection
import Formulary.Proofs.Formula.Language
import Formulary.Proofs.Formula.Binding
import Formulary.Proofs.Net.Unfolding
import Formulary.Proofs.Run.Record
import Formulary.Proofs.Run.Category
import Formulary.Proofs.Run.Course
import Formulary.Proofs.Run.Provenance
import Formulary.Proofs.Formula.Meaning
import Formulary.Proofs.Net.Meaning
import Formulary.Proofs.Pool.Schedule
import Formulary.Proofs.Text.Reading
import Formulary.Proofs.Property.Id
import Formulary.Proofs.Filter.Verdict
import Formulary.Proofs.Filter.Remark
import Formulary.Proofs.Run.Totals
import Formulary.Proofs.Formula.Failure
import Formulary.Proofs.Run.Unfiltered
import Formulary.Proofs.Property.Element
import Formulary.Proofs.Property.Xml
import Formulary.Proofs.Net.Arena
import Formulary.Proofs.Net.Discovery
import Formulary.Proofs.Net.Markup
import Formulary.Proofs.Net.Pnml
import Formulary.Proofs.Files.Disk
import Formulary.Proofs.Files.Writing
import Formulary.Proofs.Net.Rediscovery
import Formulary.Proofs.Run.Agreement
import Formulary.Proofs.CommandLine.Separation
import Formulary.Proofs.CommandLine.Beginning
import Formulary.Proofs.CommandLine.Interleaving
import Formulary.Proofs.CommandLine.Isolation
import Formulary.Proofs.Net.Lifecycle
import Formulary.Proofs.Random.Fault
import Formulary.Proofs.Formula.Placeholder
import Formulary.Proofs.Run.Failure
import Formulary.Proofs.Run.Safety
import Formulary.Proofs.Formula.Normalization
import Formulary.Proofs.Formula.Value
import Formulary.Proofs.Formula.Commutation
import Formulary.Proofs.Net.Coverage
import Formulary.Proofs.Net.Restriction
import Formulary.Proofs.Filter.Round
import Formulary.Proofs.Formula.Position
import Formulary.Proofs.Formula.Filling
import Formulary.Proofs.Net.Nesting
import Formulary.Proofs.Net.Marking
import Formulary.Proofs.Formula.Anatomy
import Formulary.Proofs.Property.Decoding
import Formulary.Proofs.Property.Readable
import Formulary.Proofs.Settings.Excerpt
import Formulary.Proofs.Random.Sample
