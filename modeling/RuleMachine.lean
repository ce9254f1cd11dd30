import RuleMachine.Code.Assembly
import RuleMachine.Code.Buffer
import RuleMachine.Code.Compact
import RuleMachine.Code.CompileError
import RuleMachine.Code.Instruction
import RuleMachine.Code.Label
import RuleMachine.Code.Listing
import RuleMachine.Code.Opcode
import RuleMachine.Code.Operand
import RuleMachine.Code.Operator
import RuleMachine.Code.Program
import RuleMachine.Command.Arguments
import RuleMachine.Command.Outcome
import RuleMachine.Command.Perform
import RuleMachine.Files.Access
import RuleMachine.Files.Path
import RuleMachine.Files.Tree
import RuleMachine.Files.Volume
import RuleMachine.Machine.Host
import RuleMachine.Machine.Run
import RuleMachine.Machine.RuntimeError
import RuleMachine.Machine.Session
import RuleMachine.Machine.Step
import RuleMachine.Main
import RuleMachine.NameTable
import RuleMachine.Number.BinaryFormat
import RuleMachine.Number.Literal
import RuleMachine.Number.Shortest
import RuleMachine.Number.Single
import RuleMachine.Number.Written
import RuleMachine.Ruleset.Basic
import RuleMachine.Ruleset.Check
import RuleMachine.Ruleset.Compiler
import RuleMachine.Ruleset.Draft
import RuleMachine.Ruleset.Lowering
import RuleMachine.Ruleset.Validate
import RuleMachine.Scalar
import RuleMachine.Settings
import RuleMachine.Source.Configuration
import RuleMachine.Source.Dialect
import RuleMachine.Source.Error
import RuleMachine.Source.Format
import RuleMachine.Source.Json.Decode
import RuleMachine.Source.Json.Literal
import RuleMachine.Source.Json.Number
import RuleMachine.Source.Json.Tree
import RuleMachine.Source.Json.Written
import RuleMachine.Source.Load
import RuleMachine.Source.Read
import RuleMachine.Source.Toml.Decode
import RuleMachine.Source.Toml.Text
import RuleMachine.Source.Toml.Tree
import RuleMachine.Source.Yaml.Decode
import RuleMachine.Source.Yaml.Text
import RuleMachine.Source.Yaml.Token
import RuleMachine.Source.Yaml.Tree
import RuleMachine.Text.Blank
import RuleMachine.Text.Infix
import RuleMachine.Text.Quoted
import RuleMachine.Text.Shown
import RuleMachine.Proofs.Text.Decimal
import RuleMachine.Proofs.Text.Lines
import RuleMachine.Proofs.Codec.Contents
import RuleMachine.Proofs.Codec.Emitted
import RuleMachine.Proofs.Codec.Encoding
import RuleMachine.Proofs.Codec.FileForm
import RuleMachine.Proofs.Codec.Listing
import RuleMachine.Proofs.Codec.Parts
import RuleMachine.Proofs.Codec.Reading
import RuleMachine.Proofs.Codec.Sequences
import RuleMachine.Proofs.Machine.Advance
import RuleMachine.Proofs.Machine.Causes
import RuleMachine.Proofs.Machine.Decoding
import RuleMachine.Proofs.Machine.DryRun
import RuleMachine.Proofs.Machine.Ends
import RuleMachine.Proofs.Machine.Events
import RuleMachine.Proofs.Machine.Intent
import RuleMachine.Proofs.Machine.Limit
import RuleMachine.Proofs.Machine.Log
import RuleMachine.Proofs.Machine.Lookups
import RuleMachine.Proofs.Machine.Policy
import RuleMachine.Proofs.Machine.Recording
import RuleMachine.Proofs.Compact.Append
import RuleMachine.Proofs.Compact.Exact
import RuleMachine.Proofs.Compact.Places
import RuleMachine.Proofs.Compact.Runs
import RuleMachine.Proofs.Compact.Simulation
import RuleMachine.Proofs.Compiler.Acceptance
import RuleMachine.Proofs.Compiler.Alike
import RuleMachine.Proofs.Compiler.Allocation
import RuleMachine.Proofs.Compiler.Checked
import RuleMachine.Proofs.Compiler.Concat
import RuleMachine.Proofs.Compiler.Correctness
import RuleMachine.Proofs.Compiler.Evaluation
import RuleMachine.Proofs.Compiler.Existence
import RuleMachine.Proofs.Compiler.Forward
import RuleMachine.Proofs.Compiler.Intents
import RuleMachine.Proofs.Compiler.LabelUse
import RuleMachine.Proofs.Compiler.Lowered
import RuleMachine.Proofs.Compiler.Performs
import RuleMachine.Proofs.Compiler.Placed
import RuleMachine.Proofs.Compiler.Pool
import RuleMachine.Proofs.Compiler.Reports
import RuleMachine.Proofs.Compiler.Resolution
import RuleMachine.Proofs.Compiler.Resolves
import RuleMachine.Proofs.Compiler.Rewriting
import RuleMachine.Proofs.Compiler.Safety
import RuleMachine.Proofs.Compiler.Shape
import RuleMachine.Proofs.Compiler.Stored
import RuleMachine.Proofs.Compiler.Violations
import RuleMachine.Proofs.Ruleset.Complete
import RuleMachine.Proofs.Ruleset.Exact
import RuleMachine.Proofs.Ruleset.Listed
import RuleMachine.Proofs.Ruleset.Paths
import RuleMachine.Proofs.Ruleset.Walk
import RuleMachine.Proofs.Ruleset.WellFormed
import RuleMachine.Proofs.Files.Replacement
import RuleMachine.Proofs.Files.Temporary
import RuleMachine.Proofs.Command.Compile
import RuleMachine.Proofs.Command.Loading
import RuleMachine.Proofs.Command.ReadOnly
import RuleMachine.Proofs.Number.Pattern
import RuleMachine.Proofs.Number.Nearest
import RuleMachine.Proofs.Number.Single
import RuleMachine.Proofs.Number.Integers
import RuleMachine.Proofs.Number.Digits
import RuleMachine.Proofs.Number.Literal
import RuleMachine.Proofs.Number.Shortest
import RuleMachine.Proofs.Number.Written
import RuleMachine.Proofs.Number.Doubles
import RuleMachine.Proofs.Number.Fewest
import RuleMachine.Proofs.Json.Library
import RuleMachine.Proofs.Json.Numbers
import RuleMachine.Proofs.Json.Literals
import RuleMachine.Proofs.Json.NearMisses
import RuleMachine.Proofs.Json.ReadBack
import RuleMachine.Proofs.Json.Strings
import RuleMachine.Proofs.Json.Scalars
