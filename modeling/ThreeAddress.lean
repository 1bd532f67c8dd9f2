import ThreeAddress.Main
import ThreeAddress.Trace
import ThreeAddress.Proofs.Effect
import ThreeAddress.Proofs.Frames
import ThreeAddress.Proofs.Step
import ThreeAddress.Proofs.Except
import ThreeAddress.Proofs.Loading
import ThreeAddress.Proofs.OperandTypes
import ThreeAddress.Proofs.Labels
import ThreeAddress.Proofs.Operands
import ThreeAddress.Proofs.Faults
import ThreeAddress.Proofs.Keeps
import ThreeAddress.Proofs.Session
import ThreeAddress.Proofs.StaticFaults
import ThreeAddress.Proofs.ErrorPriority
import ThreeAddress.Proofs.StackForms
import ThreeAddress.Proofs.Binary64.Digits
import ThreeAddress.Proofs.Binary64.Notation
import ThreeAddress.Proofs.Binary64.HexNumeral
import ThreeAddress.Proofs.FailedStep
import ThreeAddress.Proofs.Reframing
import ThreeAddress.Proofs.Variables
import ThreeAddress.Proofs.Binary64.Written
import ThreeAddress.Proofs.Text.Escaped
import ThreeAddress.Proofs.Text.Lines
import ThreeAddress.Proofs.ReadBack
import ThreeAddress.Proofs.Changes
import ThreeAddress.Proofs.Stretch
import ThreeAddress.Proofs.Nesting
import ThreeAddress.Proofs.Rejection
import ThreeAddress.Proofs.Format
import ThreeAddress.Proofs.DocumentOrder
import ThreeAddress.Proofs.Markup.Comments
import ThreeAddress.Proofs.Markup.Written
import ThreeAddress.Proofs.Spelling
import ThreeAddress.Proofs.Footprint
import ThreeAddress.Proofs.Positions
import ThreeAddress.Proofs.Sink
import ThreeAddress.Proofs.Repetition
import ThreeAddress.Proofs.Renaming
import ThreeAddress.Proofs.Lockstep
import ThreeAddress.Proofs.RenamedPrograms
import ThreeAddress.Proofs.DiagnosticStreams
import ThreeAddress.Proofs.BoundedOutput
import ThreeAddress.Proofs.Described
import ThreeAddress.Proofs.Report
import ThreeAddress.Proofs.LinesRead
import ThreeAddress.Proofs.PrintedLines
import ThreeAddress.Proofs.Resolution
import ThreeAddress.Proofs.Signatures
import ThreeAddress.Proofs.Markup.Tree
import ThreeAddress.Proofs.ExitCodes
import ThreeAddress.Proofs.IntegerArithmetic
import ThreeAddress.Proofs.StringLiterals
import ThreeAddress.Proofs.Text.Segments
import ThreeAddress.Proofs.FloatLiterals
import ThreeAddress.Proofs.IntegerLiterals
import ThreeAddress.Proofs.StringOperations
import ThreeAddress.Proofs.Text.Order
import ThreeAddress.Proofs.Comparison
