import PenScript.Main
import PenScript.Proofs.Blocks
import PenScript.Proofs.Limits
import PenScript.Proofs.Repetition
import PenScript.Proofs.Course
import PenScript.Proofs.Memory
import PenScript.Proofs.Termination
import PenScript.Proofs.ClosedNames
import PenScript.Proofs.Lines
import PenScript.Proofs.PartialPrograms
import PenScript.Proofs.History
import PenScript.Proofs.Leniency
import PenScript.Proofs.Rollback
import PenScript.Proofs.Returns
import PenScript.Proofs.Inlining
import PenScript.Proofs.Nesting
import PenScript.Proofs.LineNumbers
import PenScript.Proofs.Relocation
import PenScript.Proofs.Formatting
import PenScript.Proofs.FailureContext
import PenScript.Proofs.Reports
import PenScript.Proofs.FailedEvaluation
import PenScript.Proofs.PositionalReading
import PenScript.Proofs.Loops
import PenScript.Proofs.Atomicity
import PenScript.Proofs.Unwinding
import PenScript.Proofs.Tokens
import PenScript.Proofs.Grammar
import PenScript.Proofs.Literals
import PenScript.Proofs.Frame
import PenScript.Proofs.DeclaredNames
import PenScript.Proofs.Independence
import PenScript.Proofs.Kinds
import PenScript.Proofs.RefusedLines
import PenScript.Proofs.Integers
import PenScript.Proofs.ColorCodec
import PenScript.Proofs.IntegerLiterals
import PenScript.Proofs.Truncation
import PenScript.Proofs.Climbing
import PenScript.Proofs.Strokes
import PenScript.Proofs.Counters
