import WordMachine.AddressMap
import WordMachine.Assembler.Build
import WordMachine.Assembler.Diagnostic
import WordMachine.Assembler.Journal
import WordMachine.Assembler.Problem
import WordMachine.Image.Basic
import WordMachine.Image.Compilation
import WordMachine.Image.Disassembly
import WordMachine.Image.Dump
import WordMachine.Image.Layout
import WordMachine.Image.Relocation
import WordMachine.Instruction.Basic
import WordMachine.Instruction.Decoding
import WordMachine.Instruction.Opcode
import WordMachine.Instruction.Register
import WordMachine.Labels
import WordMachine.LogRecord
import WordMachine.Machine.Arithmetic
import WordMachine.Machine.Basic
import WordMachine.Machine.Device
import WordMachine.Machine.Execution
import WordMachine.Machine.Memory
import WordMachine.Machine.Run
import WordMachine.Machine.Step
import WordMachine.Main
import WordMachine.Ports.Bridge
import WordMachine.Program.Line
import WordMachine.Program.Listing
import WordMachine.Program.Node
import WordMachine.Program.Parsing
import WordMachine.Program.SyntaxError
import WordMachine.Proofs.AddressMaps
import WordMachine.Proofs.BuiltTables
import WordMachine.Proofs.ClientNumbers
import WordMachine.Proofs.Compilation
import WordMachine.Proofs.Cursors
import WordMachine.Proofs.CutTables
import WordMachine.Proofs.Diagnostics
import WordMachine.Proofs.Disassembly
import WordMachine.Proofs.Encoding
import WordMachine.Proofs.ErrorPlaces
import WordMachine.Proofs.Escapes
import WordMachine.Proofs.ExactArithmetic
import WordMachine.Proofs.FailingSteps
import WordMachine.Proofs.Failures
import WordMachine.Proofs.Fetching
import WordMachine.Proofs.Fixups
import WordMachine.Proofs.Grammar
import WordMachine.Proofs.Interrupts
import WordMachine.Proofs.Items
import WordMachine.Proofs.KeptLines
import WordMachine.Proofs.LabelMaps
import WordMachine.Proofs.LabelOrder
import WordMachine.Proofs.LabelResolution
import WordMachine.Proofs.Lexemes
import WordMachine.Proofs.Lines
import WordMachine.Proofs.Literals
import WordMachine.Proofs.Loading
import WordMachine.Proofs.Moving
import WordMachine.Proofs.Nesting
import WordMachine.Proofs.NumberTokens
import WordMachine.Proofs.Outcomes
import WordMachine.Proofs.ParsedPrograms
import WordMachine.Proofs.Parsing
import WordMachine.Proofs.Payloads
import WordMachine.Proofs.PortAllocation
import WordMachine.Proofs.PortHistories
import WordMachine.Proofs.PortRouting
import WordMachine.Proofs.Positions
import WordMachine.Proofs.Reading
import WordMachine.Proofs.Recognition
import WordMachine.Proofs.Relocation
import WordMachine.Proofs.Rendering
import WordMachine.Proofs.Reparsing
import WordMachine.Proofs.Runs
import WordMachine.Proofs.SiteOverflow
import WordMachine.Proofs.SourceLines
import WordMachine.Proofs.SourceMaps
import WordMachine.Proofs.Spelling
import WordMachine.Proofs.StackWords
import WordMachine.Proofs.StepCases
import WordMachine.Proofs.StepEffects
import WordMachine.Proofs.Steps
import WordMachine.Proofs.SymbolTables
import WordMachine.Proofs.TableLimits
import WordMachine.Proofs.Verdicts
import WordMachine.Proofs.Words
import WordMachine.Source.Cursor
import WordMachine.Source.Directive
import WordMachine.Source.Fragment
import WordMachine.Source.Lexeme
import WordMachine.Source.Literal
import WordMachine.Source.Location
import WordMachine.Source.Punctuation
import WordMachine.Source.Reading
import WordMachine.Source.Splitting
import WordMachine.Source.Token
import WordMachine.SymbolTable.Basic
import WordMachine.SymbolTable.Decoding
import WordMachine.SymbolTable.Encoding
import WordMachine.Text.Basic
import WordMachine.Text.Invisible
import WordMachine.Text.Numeral
import WordMachine.Text.Quoted
import WordMachine.Text.Upper
import WordMachine.Tool.BuildCommand
import WordMachine.Tool.Folder
import WordMachine.Tool.Plan
import WordMachine.Tool.RunCommand
import WordMachine.Word
