import ArrayScript.Json.Decoding
import ArrayScript.Json.Reader

/-!
Programs and signature tables from JSON texts.

A loaded program is renumbered, so stored ids do not matter. `loadUnit` also asks
that every named function of the program has a signature.
-/

namespace ArrayScript

/-- Why stored data is refused. -/
inductive LoadError where
  /-- the text is not JSON, or its tree is not what is asked for -/
  | malformed
  /-- a named function has no entry in the signature table -/
  | missingSignature (name : String)
  deriving DecidableEq, Repr

/-- The text of an error. -/
def LoadError.message : LoadError → String
  | malformed => "JSON Parse Error"
  | missingSignature name => "Signature table has no entry for function `" ++ name ++ "`"

/-- The tree of a text, read as a value. -/
def loadAs {α : Type} (read : (depth : Nat) → Json → Option α) (text : String) :
    Except LoadError α :=
  match (Json.read? text).bind (read Decoding.maxDepth) with
  | some a => .ok a
  | none => .error .malformed

/-- The program of a text. -/
def loadProgram (text : String) : Except LoadError Program := do
  let p ← loadAs Decoding.program text
  return p.renumber

/-- The signature table of a text. -/
def loadSignatures (text : String) : Except LoadError SignatureTable :=
  loadAs Decoding.signatureTable text

/-- Asks that every named function has a signature; the first without one is named. -/
def checkCoverage (p : Program) (table : SignatureTable) : Except LoadError Unit :=
  match (p.functions.filterMap (·.name)).find? (!table.contains ·) with
  | some name => .error (.missingSignature name)
  | none => .ok ()

/-- A program and a signature table that covers it. -/
def loadUnit (program signatures : String) : Except LoadError (Program × SignatureTable) := do
  let p ← loadProgram program
  let table ← loadSignatures signatures
  checkCoverage p table
  return (p, table)

end ArrayScript
