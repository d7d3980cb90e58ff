import ArrayScript.Code.Instruction

/-!
Functions in machine code, and modules of them.
-/

namespace ArrayScript

/-- A function in machine code. Its variables are numbered parameters first. -/
structure CompiledFunction where
  name : String
  params : List WordType
  result : WordType
  /-- the types of the variables that are not parameters -/
  locals : List WordType
  /-- the names of all variables, parameters included -/
  localNames : List String
  body : Code
  deriving Inhabited, Repr

/-- The types of all variables of a function. -/
def CompiledFunction.slotTypes (f : CompiledFunction) : List WordType :=
  f.params ++ f.locals

/-- Functions that can call each other by index, with or without a memory. -/
structure CodeModule where
  functions : List CompiledFunction
  importsMemory : Bool
  deriving Inhabited, Repr

/-- The name under which a module imports its memory, and the name of the importer. -/
def CodeModule.memoryImport : String × String := ("transpilerImports", "memory")

/-- The name under which a module passes its memory on. -/
def CodeModule.memoryExport : String := "memory"

/-- The names a module makes visible: its functions in order, then its memory. -/
def CodeModule.exports (m : CodeModule) : List String :=
  m.functions.map (·.name) ++ (if m.importsMemory then [memoryExport] else [])

end ArrayScript
