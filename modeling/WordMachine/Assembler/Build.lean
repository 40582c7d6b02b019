-- Building: from source text to an image and its symbol table.
import WordMachine.Assembler.Diagnostic
import WordMachine.Assembler.Problem
import WordMachine.LogRecord
import WordMachine.Program.Listing
import WordMachine.Program.Parsing
import WordMachine.Source.Reading
import WordMachine.Source.Splitting
import WordMachine.SymbolTable.Basic

namespace WordMachine

/-! ## Programs -/

/-- The program of a source text. -/
def Program.ofSource (source : String) : Except Problem Program := do
  let fragments ← (Fragment.split source).mapError .fragment
  let tokens ← (Token.ofFragments fragments).mapError .token
  (Program.parse tokens).mapError .program

/-- The image of a source text. -/
def Image.ofSource (source : String) : Except Problem Image := do
  let program ← Program.ofSource source
  program.compile.mapError .compile

/-! ## Builds -/

/-- All that a build makes. -/
structure Build where
  fragments : List Fragment
  program : Program
  image : Image
  symbolTable : SymbolTable

/-- A build that failed. The diagnostic shows the place in the source text; it
needs the fragments of the text. -/
structure BuildError where
  problem : Problem
  diagnostic : Option String
  deriving DecidableEq, Repr

namespace BuildError

/-- The error for a problem in a text that was cut into fragments. -/
def inFragments (fs : List Fragment) (p : Problem) : BuildError :=
  ⟨p, p.location?.map fun place => Fragment.diagnostic fs place p.message⟩

/-- The text of the error. -/
def message (e : BuildError) : String := e.diagnostic.getD e.problem.message

end BuildError

/-- The mode of the symbol table of a build. -/
def SymbolMode.ofDebug (debug : Bool) : SymbolMode := if debug then .debug else .release

namespace Build

/-- Builds a source text, with the names of the labels in the symbol table if
`debug` is set. -/
def ofSource (debug : Bool) (source : String) : Except BuildError Build := do
  let fragments ← (Fragment.split source).mapError fun e => ⟨.fragment e, none⟩
  let failed := BuildError.inFragments fragments
  let tokens ← (Token.ofFragments fragments).mapError fun e => failed (.token e)
  let program ← (Program.parse tokens).mapError fun e => failed (.program e)
  let image ← program.compile.mapError fun e => failed (.compile e)
  return { fragments, program, image, symbolTable := image.symbolTable (.ofDebug debug) }

/-- The name of the document. -/
def name (b : Build) : Option String := b.program.name

/-- The encoded symbol table. -/
def symbolBytes (b : Build) : Except FormatError Bytes := b.symbolTable.encode

end Build

end WordMachine
