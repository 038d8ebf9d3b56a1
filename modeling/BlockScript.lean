import BlockScript.Frame.Columns
import BlockScript.Heap.Protection
import BlockScript.Main
import BlockScript.SymbolTable
import BlockScript.SymbolTable.Indexed
import BlockScript.Proofs.Constructs
import BlockScript.Proofs.Balance
import BlockScript.Proofs.Settings
import BlockScript.Proofs.Forwarding
import BlockScript.Proofs.Bisimulation
import BlockScript.Proofs.EqualityLaws
import BlockScript.Proofs.Numbers
import BlockScript.Proofs.Reading
import BlockScript.Proofs.Blame
import BlockScript.Proofs.Loading
import BlockScript.Proofs.RoundTrip
import BlockScript.Proofs.Composition
import BlockScript.Proofs.Growth
import BlockScript.Proofs.Reachability
import BlockScript.Proofs.Marking
import BlockScript.Proofs.Rendering
import BlockScript.Proofs.OpenContainers
import BlockScript.Proofs.SymbolNumbers
import BlockScript.Proofs.Copying
import BlockScript.Proofs.Guarding
import BlockScript.Proofs.DecimalOrder
import BlockScript.Proofs.Effects
import BlockScript.Proofs.Refusal
import BlockScript.Proofs.Protection
import BlockScript.Proofs.Hiding
import BlockScript.Proofs.Lockstep
import BlockScript.Proofs.Invisibility
import BlockScript.Proofs.Catching
import BlockScript.Proofs.Rounds
import BlockScript.Proofs.Boundaries
import BlockScript.Proofs.CallLimit
import BlockScript.Proofs.ExitMode
import BlockScript.Proofs.Lexemes
import BlockScript.Proofs.Nesting
import BlockScript.Proofs.Sites
import BlockScript.Proofs.Gathering
import BlockScript.Proofs.Chains
import BlockScript.Proofs.Positions
import BlockScript.Proofs.Progress
import BlockScript.Proofs.Footprint
import BlockScript.Proofs.Independence
import BlockScript.Proofs.Selection
import BlockScript.Proofs.Bindings
import BlockScript.Proofs.Storage
import BlockScript.Proofs.ValueFlow
import BlockScript.Proofs.Sweeping
import BlockScript.Proofs.CallNames
import BlockScript.Proofs.Calling
import BlockScript.Proofs.Pairs
import BlockScript.Proofs.ShortCircuit
import BlockScript.Proofs.RenamedRuns
import BlockScript.Proofs.PlainWords
import BlockScript.Proofs.SeriesOperations
import BlockScript.Proofs.Asking
import BlockScript.Proofs.Backtraces
import BlockScript.Proofs.Shielding
import BlockScript.Proofs.NumericEquality
import BlockScript.Proofs.IntegerExactness
import BlockScript.Proofs.Trapping
import BlockScript.Proofs.FlowSteps
import BlockScript.Proofs.FlowConstructs
import BlockScript.Proofs.FieldNames
import BlockScript.Datum.Cursor
import BlockScript.Datum.Loader
import BlockScript.Proofs.CursorLoading
