import Formulary.Action
import Formulary.Calculation
import Formulary.Engine.Failure
import Formulary.Engine.History
import Formulary.Engine.Operations
import Formulary.Engine.Refresh
import Formulary.Engine.Scratch
import Formulary.Engine.Script
import Formulary.Formula.Bracket
import Formulary.Formula.Canonical
import Formulary.Formula.Error
import Formulary.Formula.Evaluation
import Formulary.Formula.Grammar
import Formulary.Formula.Marker
import Formulary.Formula.Meaning
import Formulary.Formula.Shape
import Formulary.Formula.Substitution
import Formulary.IdSet
import Formulary.Json.Numeral
import Formulary.Json.Quoted
import Formulary.Json.Records
import Formulary.Json.Token
import Formulary.Json.Value
import Formulary.Links.Basic
import Formulary.Links.Path
import Formulary.Links.Traversal
import Formulary.Number.Binary64
import Formulary.Number.Decimal
import Formulary.Number.Layout
import Formulary.Number.Reader
import Formulary.Number.Shortest
import Formulary.Settings
import Formulary.Store.Basic
import Formulary.Store.Faulty
import Formulary.Store.Memory
import Formulary.Store.Relational
import Formulary.Table
import Formulary.Text.Character
import Formulary.Text.Offset
import Formulary.Text.Pattern
import Formulary.Proofs.Action
import Formulary.Proofs.Links.Relink
import Formulary.Proofs.Links.Walk
import Formulary.Proofs.Store.Memory
import Formulary.Proofs.Engine.Renewal
import Formulary.Proofs.Links.Marks
import Formulary.Proofs.Links.OnePass
import Formulary.Proofs.Links.Distance
import Formulary.Proofs.Engine.Change
import Formulary.Proofs.Engine.FailedWrite
import Formulary.Proofs.Engine.Consistency
import Formulary.Proofs.Engine.Recalculation
import Formulary.Proofs.Engine.Scratch
import Formulary.Proofs.Store.Simulation
import Formulary.Proofs.Store.Faultless
import Formulary.Proofs.Engine.Transparency
import Formulary.Proofs.Number.Decimal
import Formulary.Proofs.Number.Word
import Formulary.Proofs.Number.Plain
import Formulary.Proofs.Text.Position
import Formulary.Proofs.Formula.Enclosure
import Formulary.Proofs.Formula.Balance
import Formulary.Proofs.Formula.Pairing
import Formulary.Proofs.Formula.Outside
import Formulary.Proofs.Formula.Value
import Formulary.Proofs.Formula.Marking
import Formulary.Proofs.Formula.Filling
import Formulary.Proofs.Formula.Denotation
import Formulary.Proofs.Engine.Simulation
import Formulary.Proofs.Store.Relational
import Formulary.Proofs.Engine.Interchange
import Formulary.Proofs.Formula.Parse
import Formulary.Proofs.Formula.Run
import Formulary.Proofs.Formula.Slices
import Formulary.Proofs.Formula.Spelling
import Formulary.Proofs.Formula.Acceptance
import Formulary.Proofs.Formula.Reading
import Formulary.Proofs.Formula.Evaluability
import Formulary.Proofs.Engine.Evaluability
import Formulary.Proofs.Formula.Derivable
import Formulary.Proofs.Formula.Exactness
import Formulary.Proofs.Engine.Failures
import Formulary.Proofs.Engine.Exposure
import Formulary.Proofs.Engine.Interference
import Formulary.Proofs.Engine.Deletion
import Formulary.Proofs.Store.Lookup
import Formulary.Proofs.Formula.Nesting
import Formulary.Proofs.Formula.Curly
import Formulary.Proofs.Formula.Resolution
import Formulary.Proofs.Links.Cascade
import Formulary.Proofs.Links.Circle
import Formulary.Proofs.Engine.Agreement
import Formulary.Proofs.Engine.InTurn
import Formulary.Proofs.Engine.Rewriting
import Formulary.Proofs.Engine.Lifetime
import Formulary.Proofs.Json.Numeral
import Formulary.Proofs.Json.Token
import Formulary.Proofs.Json.Value
import Formulary.Proofs.Json.Records
