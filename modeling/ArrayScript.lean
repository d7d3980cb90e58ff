import ArrayScript.Bytes
import ArrayScript.Code.Binary
import ArrayScript.Code.CodeModule
import ArrayScript.Code.Instruction
import ArrayScript.Code.Validation
import ArrayScript.Compilation
import ArrayScript.Compilation.Texts
import ArrayScript.CompileError
import ArrayScript.Decimal
import ArrayScript.Decimal.Shortest
import ArrayScript.Double
import ArrayScript.Host.Call
import ArrayScript.Host.Image
import ArrayScript.Host.Layout
import ArrayScript.Host.Value
import ArrayScript.Json
import ArrayScript.Json.Decoding
import ArrayScript.Json.Encoding
import ArrayScript.Json.Names
import ArrayScript.Json.Number
import ArrayScript.Json.Reader
import ArrayScript.Json.Record
import ArrayScript.Loading
import ArrayScript.Lowering
import ArrayScript.Lowering.Selection
import ArrayScript.Machine.Instance
import ArrayScript.Machine.Memory
import ArrayScript.Machine.Run
import ArrayScript.Machine.Word
import ArrayScript.Parser.Binding
import ArrayScript.Parser.Expression
import ArrayScript.Parser.Statement
import ArrayScript.Parser.Take
import ArrayScript.Phase
import ArrayScript.Proofs.Code.Decoding
import ArrayScript.Proofs.Code.Operands
import ArrayScript.Proofs.Code.Reading
import ArrayScript.Proofs.Code.RoundTrip
import ArrayScript.Proofs.Code.Validation
import ArrayScript.Proofs.Compilation.Derived
import ArrayScript.Proofs.Compilation.Origin
import ArrayScript.Proofs.Compilation.Truth
import ArrayScript.Proofs.Compilation.WellTyped
import ArrayScript.Proofs.Computation
import ArrayScript.Proofs.Double.Hardware
import ArrayScript.Proofs.Double.Value
import ArrayScript.Proofs.Double.Wrapping
import ArrayScript.Proofs.Flat.Agreement
import ArrayScript.Proofs.Flat.Discipline
import ArrayScript.Proofs.Host.Addressing
import ArrayScript.Proofs.Host.Calls
import ArrayScript.Proofs.Host.Image
import ArrayScript.Proofs.Host.Independence
import ArrayScript.Proofs.Host.Layout
import ArrayScript.Proofs.Host.Overlaps
import ArrayScript.Proofs.Host.Phases
import ArrayScript.Proofs.Host.Preparation
import ArrayScript.Proofs.Host.ReadBack
import ArrayScript.Proofs.Host.Stores
import ArrayScript.Proofs.Host.Subscripts
import ArrayScript.Proofs.Host.Truth
import ArrayScript.Proofs.Json.Loading
import ArrayScript.Proofs.Json.Restoring
import ArrayScript.Proofs.Json.Stored
import ArrayScript.Proofs.Lowering.Agreement
import ArrayScript.Proofs.Lowering.Construction
import ArrayScript.Proofs.Lowering.Derivation
import ArrayScript.Proofs.Lowering.Emission
import ArrayScript.Proofs.Lowering.Operations
import ArrayScript.Proofs.Lowering.Plan
import ArrayScript.Proofs.Lowering.Scratch
import ArrayScript.Proofs.Lowering.Truth
import ArrayScript.Proofs.Lowering.WellTyped
import ArrayScript.Proofs.Machine.Execution
import ArrayScript.Proofs.Machine.Fuel
import ArrayScript.Proofs.Machine.Independence
import ArrayScript.Proofs.Machine.Points
import ArrayScript.Proofs.Machine.Soundness
import ArrayScript.Proofs.Machine.Truth
import ArrayScript.Proofs.Parser.Blame
import ArrayScript.Proofs.Parser.Expressions
import ArrayScript.Proofs.Parser.Progress
import ArrayScript.Proofs.Parser.Readers
import ArrayScript.Proofs.Parser.RoundTrip
import ArrayScript.Proofs.Parser.Statements
import ArrayScript.Proofs.Renaming.Analyses
import ArrayScript.Proofs.Renaming.Lowering
import ArrayScript.Proofs.Semantics.Evaluation
import ArrayScript.Proofs.Semantics.Expressions
import ArrayScript.Proofs.Semantics.Preservation
import ArrayScript.Proofs.Semantics.Simulation
import ArrayScript.Proofs.Semantics.Statements
import ArrayScript.Proofs.Slots.Allocation
import ArrayScript.Proofs.Slots.Mapping
import ArrayScript.Proofs.Syntax.Erasure
import ArrayScript.Proofs.Syntax.Ids
import ArrayScript.Proofs.Syntax.Numbering
import ArrayScript.Proofs.Syntax.Occurrence
import ArrayScript.Proofs.Syntax.Printing
import ArrayScript.Proofs.Table
import ArrayScript.Proofs.Token.Spacing
import ArrayScript.Proofs.Token.Spelling
import ArrayScript.Proofs.Typing.Bindings
import ArrayScript.Proofs.Typing.Completeness
import ArrayScript.Proofs.Typing.Judgement
import ArrayScript.Proofs.Typing.Reports
import ArrayScript.Proofs.Typing.Roots
import ArrayScript.Read
import ArrayScript.Signature
import ArrayScript.Signature.Derived
import ArrayScript.Slots
import ArrayScript.Syntax.Expr
import ArrayScript.Syntax.Operator
import ArrayScript.Syntax.Statement
import ArrayScript.Syntax.Visit
import ArrayScript.Table
import ArrayScript.Text.Properties
import ArrayScript.Text.Quoted
import ArrayScript.Token
import ArrayScript.Token.Lexer
import ArrayScript.Token.ParseError
import ArrayScript.Typing
import ArrayScript.ValueType
