import SecdMachine.Assembler
import SecdMachine.Console
import SecdMachine.Command
import SecdMachine.Value
import SecdMachine.Fault
import SecdMachine.FileTree
import SecdMachine.Instruction
import SecdMachine.LineSource
import SecdMachine.Listing
import SecdMachine.Numeral
import SecdMachine.Machine
import SecdMachine.Main
import SecdMachine.Opcode
import SecdMachine.Options
import SecdMachine.PathName
import SecdMachine.Piece
import SecdMachine.Pipeline
import SecdMachine.Printer
import SecdMachine.Progress
import SecdMachine.Reader
import SecdMachine.Scanner
import SecdMachine.Settings
import SecdMachine.SettingsDecoder
import SecdMachine.SettingsFile
import SecdMachine.Sink
import SecdMachine.Store
import SecdMachine.Text.Characters
import SecdMachine.Text.Utf8
import SecdMachine.Token
import SecdMachine.Toml.Document
import SecdMachine.Toml.Scalar
import SecdMachine.Toml.Statement
import SecdMachine.Workbench
import SecdMachine.Writer
import SecdMachine.Proofs.Cells
import SecdMachine.Proofs.Execution
import SecdMachine.Proofs.InPlace
import SecdMachine.Proofs.Dump
import SecdMachine.Proofs.Separation
import SecdMachine.Proofs.CallReturn
import SecdMachine.Proofs.Printing
import SecdMachine.Proofs.Numerals
import SecdMachine.Proofs.Encoding
import SecdMachine.Proofs.Reading
import SecdMachine.Proofs.Wrapping
import SecdMachine.Proofs.RoundTrip
import SecdMachine.Proofs.Environments
import SecdMachine.Proofs.StructuredCode
import SecdMachine.Proofs.ControlSafety
import SecdMachine.Proofs.Reachability
import SecdMachine.Proofs.Lasting
import SecdMachine.Proofs.Spines
import SecdMachine.Proofs.Interruption
import SecdMachine.Proofs.Contracts
import SecdMachine.Proofs.Deposits
import SecdMachine.Proofs.Factorial
import SecdMachine.Proofs.Correspondence
import SecdMachine.Proofs.Independence
import SecdMachine.Proofs.Grammar
import SecdMachine.Proofs.Nesting
import SecdMachine.Proofs.Attribution
import SecdMachine.Proofs.ReturnFrames
import SecdMachine.Proofs.ProgramPreservation
import SecdMachine.Proofs.Answers
import SecdMachine.Proofs.LineBreaks
import SecdMachine.Proofs.Closing
import SecdMachine.Proofs.Stages
import SecdMachine.Proofs.SharedSource
import SecdMachine.Proofs.Phases
import SecdMachine.Proofs.Building
import SecdMachine.Proofs.Presence
import SecdMachine.Proofs.Assembly
import SecdMachine.Proofs.Tracing
import SecdMachine.Proofs.Letrec
import SecdMachine.Proofs.CycleMarks
import SecdMachine.Proofs.PrintPath
import SecdMachine.Proofs.FailingSinks
import SecdMachine.Proofs.LineFilling
import SecdMachine.Proofs.ReadBack
import SecdMachine.Proofs.FinalErrors
import SecdMachine.Proofs.InstructionLayout
import SecdMachine.Proofs.Listings
import SecdMachine.Proofs.Documents
import SecdMachine.Proofs.SettingsInEffect
import SecdMachine.Proofs.Operators
import SecdMachine.Proofs.Equality
import SecdMachine.Proofs.Blanking
import SecdMachine.Proofs.Descent
import SecdMachine.Proofs.Addressing
import SecdMachine.Proofs.NearestSettings
import SecdMachine.Proofs.Decoding
import SecdMachine.Proofs.Lexemes
import SecdMachine.Proofs.CharacterScan
