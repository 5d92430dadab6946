import FactFold.Accumulator.Persisted
import FactFold.Json.Reader
import FactFold.Json.Writer
import FactFold.Main
import FactFold.Proofs.Accumulator.FailedCalls
import FactFold.Proofs.Accumulator.Maintenance
import FactFold.Proofs.Scenario.Reversal
import FactFold.Proofs.Scenario.Snapshots
import FactFold.Proofs.Scenario.Typing
import FactFold.Proofs.Scenario.Updates
import FactFold.Proofs.Script.Grammar.Completeness
import FactFold.Proofs.Script.Stack.Discipline
import FactFold.Proofs.StrictNames
import FactFold.Proofs.Strictness
import FactFold.Scenario.Loading
import FactFold.Script.Compile
import FactFold.Script.Machine
import FactFold.Script.Persisted
import FactFold.Text.Blank
import FactFold.Unit
import FactFold.Value.Agreement
import FactFold.Value.Json
import FactFold.Value.Type
import FactFold.Proofs.Script.Nesting
import FactFold.Proofs.Script.Pieces
import FactFold.Proofs.Script.Tiling
import FactFold.Proofs.Script.Comments
import FactFold.Proofs.Json.Scalars
import FactFold.Proofs.Json.Trees
import FactFold.Proofs.Accumulator.Persistence
import FactFold.Proofs.Decimal.NotNaN
import FactFold.Proofs.Json.Values
import FactFold.Proofs.Script.FloatLiterals
import FactFold.Proofs.Script.Persistence
import FactFold.Proofs.Script.Interning
import FactFold.Proofs.Script.Rendering
import FactFold.Proofs.Script.Grammar.NamePairs
import FactFold.Proofs.Script.Lockstep
import FactFold.Proofs.Script.Semicolons
import FactFold.Proofs.Script.Coverage
import FactFold.Proofs.Script.Places
import FactFold.Proofs.Script.Stack.Overflow
import FactFold.Proofs.Validation
import FactFold.Proofs.ClausePlans
import FactFold.Proofs.Accumulator.Upkeep
import FactFold.Proofs.Assignment
import FactFold.Proofs.Store
import FactFold.Proofs.Integers
import FactFold.Proofs.QualifiedNames
import FactFold.Proofs.ErrorPlaces
import FactFold.Proofs.Agreement
import FactFold.Proofs.Script.Folding
