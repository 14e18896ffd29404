import RegAsm.Assembly
import RegAsm.Command.Argument
import RegAsm.Command.Piece
import RegAsm.Command.Report
import RegAsm.Command.Request
import RegAsm.Command.Stage
import RegAsm.Diagnostic
import RegAsm.Error
import RegAsm.Instruction
import RegAsm.LabelTable
import RegAsm.Log.Level
import RegAsm.Log.Message
import RegAsm.Machine.Basic
import RegAsm.Machine.Load
import RegAsm.Machine.Run
import RegAsm.Main
import RegAsm.Opcode
import RegAsm.Program
import RegAsm.Proofs.CommandLine
import RegAsm.Proofs.Concatenation
import RegAsm.Proofs.Degradations
import RegAsm.Proofs.Dependence
import RegAsm.Proofs.DuplicateLabel
import RegAsm.Proofs.Effect
import RegAsm.Proofs.ExactArithmetic
import RegAsm.Proofs.Excerpt
import RegAsm.Proofs.ForwardBranches
import RegAsm.Proofs.Guarantees
import RegAsm.Proofs.History
import RegAsm.Proofs.IndexedLabels
import RegAsm.Proofs.LastWrites
import RegAsm.Proofs.Layout
import RegAsm.Proofs.LineWalk
import RegAsm.Proofs.Listing
import RegAsm.Proofs.Logging
import RegAsm.Proofs.NumeralGrammar
import RegAsm.Proofs.Numerals
import RegAsm.Proofs.OperandCount
import RegAsm.Proofs.Pass
import RegAsm.Proofs.Printing
import RegAsm.Proofs.ProgramCounter
import RegAsm.Proofs.Reading
import RegAsm.Proofs.Reassembly
import RegAsm.Proofs.RenamedProgram
import RegAsm.Proofs.Renaming
import RegAsm.Proofs.Rewriting
import RegAsm.Proofs.Scanning
import RegAsm.Proofs.SourceText
import RegAsm.Proofs.Spelling
import RegAsm.Proofs.StepRelation
import RegAsm.Proofs.Text
import RegAsm.Registers
import RegAsm.Source.Cursor
import RegAsm.Source.Degradation
import RegAsm.Source.Line
import RegAsm.Text.Blank
import RegAsm.Text.CaseMap
import RegAsm.Text.Decimal
import RegAsm.Text.Lines
import RegAsm.Text.Words
import RegAsm.Workbench
