import ArrayScript.Lowering
import ArrayScript.Signature.Derived

/-!
From a program to a module.

A program must consist of named functions. All of them are looked up in the table
of signatures before the first is lowered, since one that touches memory gives
memory to the whole module. The finished module is put before the machine's
validation, which has its own limits for the sizes of modules.
-/

namespace ArrayScript

/-- A function with its name. -/
structure NamedFunction where
  name : String
  declaration : FunctionDeclaration

/-- The function a statement of a program declares; the position of the statement is
given. -/
def Statement.namedFunction (position : Nat) (s : Statement) :
    Except CompileError NamedFunction :=
  match s.function? with
  | none => .error (.notAFunction position)
  | some f =>
    match f.name with
    | some name => .ok ⟨name, f⟩
    | none => .error .unnamedFunction

/-- The functions of a program, which must hold nothing else. -/
def Program.namedFunctions (p : Program) : Except CompileError (List NamedFunction) :=
  p.body.zipIdx.mapM fun (s, position) => s.namedFunction position

/-- Functions are called by their positions; of a repeated name the last one counts. -/
def functionIndices (names : List String) : Table String Nat :=
  Table.ofList names.zipIdx

/-- Whether a function touches memory, by its signature in the table. -/
def NamedFunction.touchesMemory (table : SignatureTable) (f : NamedFunction) :
    Except CompileError Bool := do
  return f.declaration.touchesMemory (← table.require f.name)

/-- The machine code of a function: its variables get slots, then types, and then its
body is lowered. -/
def NamedFunction.compile (table : SignatureTable) (indices : Table String Nat)
    (f : NamedFunction) : Except CompileError CompiledFunction := do
  let signature ← table.require f.name
  let slots ← Slots.resolve f.declaration
  let typing ← Typing.ofFunction f.declaration signature table
  LoweringContext.lower {
    function := f.declaration
    signature := signature
    table := table
    mapping := slots.merged
    firstSlot_eq := slots.merged_firstSlot
    typing := typing
    indices := indices }

/-- A module that passed the machine's validation. -/
def CodeModule.validated (limits : SizeLimits) (m : CodeModule) : Except CompileError CodeModule :=
  match m.validate limits with
  | .ok _ => .ok m
  | .error reason => .error (.invalidModule reason)

/-- The module of a program, where validation has the given limits. -/
def Program.compileWithin (limits : SizeLimits) (p : Program) (table : SignatureTable) :
    Except CompileError CodeModule := do
  let functions ← p.namedFunctions
  let touching ← functions.mapM (NamedFunction.touchesMemory table)
  let indices := functionIndices (functions.map (·.name))
  let compiled ← functions.mapM (NamedFunction.compile table indices)
  CodeModule.validated limits ⟨compiled, touching.any id⟩

/-- The module of a program. -/
def Program.compile (p : Program) (table : SignatureTable) : Except CompileError CodeModule :=
  p.compileWithin .standard table

end ArrayScript
