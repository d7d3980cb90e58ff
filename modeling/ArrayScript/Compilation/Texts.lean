import ArrayScript.Host.Call
import ArrayScript.Loading
import ArrayScript.Parser.Statement

/-!
From texts to modules that can be called.

A program comes from source text or from a stored tree, its signatures from a
stored table or from the program itself. Compiling proper is a phase of its own,
which is announced whether it succeeds or not; texts that cannot be read never get
so far.
-/

namespace ArrayScript

/-- Why a text does not become a module. -/
inductive UnitError where
  | parse (file : String) (e : ParseError)
  | load (e : LoadError)
  | compile (e : CompileError)
  deriving Repr

/-- The text of an error. -/
def UnitError.message : UnitError → String
  | parse file e => e.message file
  | load e => e.message
  | compile e => e.message

/-- How compiling went: the module or the error, and the events on the way. -/
structure CompileReport where
  result : Except UnitError CompiledUnit
  events : List PhaseEvent

/-- The name of source text that does not come from a file. -/
def unnamedSource : String := "<source>"

/-- Compiles a program with its table of signatures. -/
def Program.compileUnit (p : Program) (table : SignatureTable) : CompileReport where
  result :=
    match p.compile table with
    | .ok code => .ok ⟨code, table⟩
    | .error e => .error (.compile e)
  events := PhaseEvent.around .compilation

/-- Goes on with what was read, or reports why it was not. -/
def CompileReport.after {α : Type} (read : Except UnitError α) (next : α → CompileReport) :
    CompileReport :=
  match read with
  | .ok a => next a
  | .error e => ⟨.error e, []⟩

/-- The program of a source text. -/
def parseUnit (file source : String) : Except UnitError Program :=
  (parse source).mapError (.parse file)

/-- Compiles source text by the signatures it suggests. -/
def compileSource (source : String) : CompileReport :=
  .after (parseUnit unnamedSource source) fun p => p.compileUnit p.derivedSignatures

/-- Compiles source text by a table of signatures. -/
def compileSourceWith (source : String) (table : SignatureTable) : CompileReport :=
  .after (parseUnit unnamedSource source) fun p => p.compileUnit table

/-- Compiles a stored program by a stored table of signatures that covers it. -/
def compileStored (program signatures : String) : CompileReport :=
  .after ((loadUnit program signatures).mapError .load) fun (p, table) => p.compileUnit table

end ArrayScript
