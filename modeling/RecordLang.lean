import RecordLang.Main
import RecordLang.Program.Outline
import RecordLang.Proofs.Balance.Labelling
import RecordLang.Proofs.Machine.Transition
import RecordLang.Proofs.Balance.Coverage
import RecordLang.Proofs.Balance.Heights
import RecordLang.Proofs.Assembly.Linking
import RecordLang.Proofs.Evaluation.Program
import RecordLang.Proofs.Scopes
import RecordLang.Proofs.Simulation.Instructions
import RecordLang.Proofs.Simulation.Expressions
import RecordLang.Proofs.Compile.Slots
import RecordLang.Proofs.Simulation.Statements
import RecordLang.Proofs.Typing.Declarations
import RecordLang.Proofs.Simulation.Programs
import RecordLang.Proofs.Typing.Evaluation
import RecordLang.Proofs.Typing.Expressions
import RecordLang.Proofs.Typing.Statements
import RecordLang.Proofs.Typing.Soundness
import RecordLang.Proofs.Machine.Limits
import RecordLang.Proofs.Simulation.Behaviour
import RecordLang.Proofs.Assembly.Labels
import RecordLang.Proofs.Typing.Acyclic
import RecordLang.Proofs.Balance.Depths
import RecordLang.Proofs.Compile.Expressions
import RecordLang.Proofs.Compile.Statements
import RecordLang.Proofs.Compile.Programs
import RecordLang.Proofs.Balance.Registry
import RecordLang.Proofs.Bytecode.RoundTrip
import RecordLang.Proofs.Machine.Parallel
import RecordLang.Proofs.Machine.Sessions
import RecordLang.Proofs.Grammar.Completeness
import RecordLang.Proofs.Balance.Routes
import RecordLang.Proofs.Machine.Endings
import RecordLang.Proofs.Machine.StepLimit
import RecordLang.Proofs.Machine.Isolation
import RecordLang.Proofs.Machine.Traversal
import RecordLang.Proofs.Compile.Enclosure
import RecordLang.Proofs.Compile.Counting
import RecordLang.Proofs.Balance.Wrapping
import RecordLang.Proofs.Token.Written
import RecordLang.Proofs.Heap.History
import RecordLang.Proofs.Token.Tiling
import RecordLang.Proofs.Compile.Totality
import RecordLang.Proofs.Typing.Agreement
import RecordLang.Proofs.Compile.Order
import RecordLang.Proofs.Grammar.Locality
import RecordLang.Proofs.Typing.Cycles
import RecordLang.Proofs.Compile.DeadCode
import RecordLang.Proofs.Compile.Landing
import RecordLang.Proofs.Assembly.Attempts
import RecordLang.Proofs.Typing.Faithfulness
import RecordLang.Proofs.Machine.DepthLimit
import RecordLang.Proofs.Value.Conversion
import RecordLang.Proofs.Compile.Allocation
