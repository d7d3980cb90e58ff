import ArrayScript.Code.Binary

/-!
What makes a module acceptable to the machine.

Code is checked by following the types of the operands on the stack. After an
instruction that never falls through, the stack may hold anything: operands that
are not there count as of the type that is asked for.

`CodeModule.validate` also refuses to export a name twice, and it bounds several
sizes. The bounds belong to the validator and not to the machine, so they are a
parameter.
-/

namespace ArrayScript

/-! ### Sizes -/

/-- The sizes of a module that are bounded. -/
inductive ModuleSize where
  /-- the number of functions, each of which has a type of its own -/
  | functions
  /-- the number of parameters of a function -/
  | parameters
  /-- the number of exports -/
  | exports
  /-- the number of bytes in the name of an export -/
  | exportName
  /-- the sizes of the types of all imports and exports, taken together -/
  | types
  /-- the number of bytes that the variables and the code of a function take -/
  | body
  /-- the number of variables of a function, parameters included -/
  | slots
  deriving DecidableEq, Inhabited, Repr

/-- The greatest sizes that are accepted. -/
abbrev SizeLimits := ModuleSize → Nat

/-- The usual limits. -/
def SizeLimits.standard : SizeLimits
  | .functions | .exports => 1000000
  | .parameters => 1000
  | .exportName => 100000
  | .types => 999999
  | .body => 7654321
  | .slots => 50000

/-- The size of the type of a function: parameters and result add one each. -/
def CompiledFunction.typeSize (f : CompiledFunction) : Nat :=
  1 + f.params.length + 1

/-- The size of the type of a memory. -/
def memoryTypeSize : Nat := 1

/-- The sizes of the types of what a module imports, taken together. -/
def CodeModule.importedTypes (m : CodeModule) : Nat :=
  if m.importsMemory then memoryTypeSize else 0

/-- The exports of a module with the sizes of their types. -/
def CodeModule.sizedExports (m : CodeModule) : List (String × Nat) :=
  m.functions.map (fun f => (f.name, f.typeSize)) ++
    (if m.importsMemory then [(memoryExport, memoryTypeSize)] else [])

/-! ### Errors -/

/-- Why a module is refused. -/
inductive ValidationError where
  /-- a size is beyond its limit -/
  | tooLarge (size : ModuleSize) (limit : Nat)
  /-- two exports have the same name -/
  | duplicateExport (name : String)
  /-- the code of a function does not respect the types of operands -/
  | illTyped (function : String)
  deriving DecidableEq, Inhabited, Repr

/-- The text of the error for a size that is beyond the given limit. -/
def ModuleSize.message (limit : Nat) : ModuleSize → String
  | functions => "types count exceeds limit of " ++ toString limit
  | parameters => "function params size is out of bounds"
  | exports => "exports count exceeds limit of " ++ toString limit
  | exportName => "string size out of bounds"
  | types => "effective type size exceeds the limit of " ++ toString (limit + 1)
  | body => "function body size is out of bounds"
  | slots => "too many locals: locals exceed maximum"

/-- The text of an error. -/
def ValidationError.message : ValidationError → String
  | tooLarge size limit => size.message limit
  | duplicateExport name => "duplicate export name `" ++ name ++ "` already defined"
  | illTyped function => "type mismatch in function `" ++ function ++ "`"

/-! ### Code -/

namespace Validation

/-- The types of the operands on the stack, the top first, as far as they are known:
`none` is an operand of any type, and if `open'` is set there may be any number of
further ones below. -/
structure Operands where
  known : List (Option WordType)
  open' : Bool
  deriving DecidableEq, Repr

/-- A stack without operands. -/
def Operands.empty : Operands := ⟨[], false⟩

/-- The stack after an instruction that never falls through. -/
def Operands.unreachable : Operands := ⟨[], true⟩

/-- A stack with one operand more. -/
def Operands.push (s : Operands) (t : WordType) : Operands :=
  { s with known := some t :: s.known }

/-- Takes the top operand, whatever its type. -/
def Operands.popAny? (s : Operands) : Option (Option WordType × Operands) :=
  match s.known with
  | t :: rest => some (t, { s with known := rest })
  | [] => if s.open' then some (none, s) else none

/-- Takes the top operand, which must be of the given type. -/
def Operands.pop? (s : Operands) (t : WordType) : Option Operands := do
  let (found, rest) ← s.popAny?
  if found = none ∨ found = some t then return rest else none

/-- Takes operands of the given types, the last one from the top. -/
def Operands.popAll? (s : Operands) (types : List WordType) : Option Operands :=
  types.reverse.foldlM Operands.pop? s

/-- What is known about the place of some code. -/
structure Context where
  /-- the types of the variables -/
  slotTypes : List WordType
  /-- the parameter and result types of the functions that can be called -/
  functions : List (List WordType × WordType)
  hasMemory : Bool
  /-- the result type of the function -/
  result : WordType
  /-- the operands that the labels of the enclosing blocks take, the innermost first -/
  labels : List (List WordType)

/-- The type that two operands of equal type share. -/
def unify? : Option WordType → Option WordType → Option (Option WordType)
  | none, t => some t
  | t, none => some t
  | some a, some b => if a = b then some (some a) else none

/-- The operands after a plain operation. -/
def op? (cx : Context) (s : Operands) : Op → Option Operands
  | .i32Const _ => some (s.push .i32)
  | .f64Const _ => some (s.push .f64)
  | .int _ => do return (← s.popAll? [.i32, .i32]).push .i32
  | .float o => do return (← s.popAll? [.f64, .f64]).push o.result
  | .i32Eqz => do return (← s.pop? .i32).push .i32
  | .f64Neg => do return (← s.pop? .f64).push .f64
  | .f64ConvertI32 => do return (← s.pop? .i32).push .f64
  | .i32TruncSatF64 => do return (← s.pop? .f64).push .i32
  | .localGet slot => do return s.push (← cx.slotTypes[slot]?)
  | .localSet slot => do s.pop? (← cx.slotTypes[slot]?)
  | .localTee slot => do
    let t ← cx.slotTypes[slot]?
    return (← s.pop? t).push t
  | .load t => do
    guard cx.hasMemory
    return (← s.pop? .i32).push t
  | .store t => do
    guard cx.hasMemory
    s.popAll? [.i32, t]
  | .call index => do
    let (params, result) ← cx.functions[index]?
    return (← s.popAll? params).push result
  | .select => do
    let s ← s.pop? .i32
    let (b, s) ← s.popAny?
    let (a, s) ← s.popAny?
    return { s with known := (← unify? a b) :: s.known }
  | .drop => do return (← s.popAny?).2
  | .ret => do
    let _ ← s.pop? cx.result
    return .unreachable
  | .br depth => do
    let _ ← s.popAll? (← cx.labels[depth]?)
    return .unreachable
  | .brIf depth => do
    let types ← cx.labels[depth]?
    let s ← s.pop? .i32
    return types.foldl Operands.push (← s.popAll? types)

/-- A place inside one block more, whose label takes no operands. -/
def Context.enter (cx : Context) : Context :=
  { cx with labels := [] :: cx.labels }

/-- Whether a stack holds exactly the given operands. -/
def Operands.endsWith (s : Operands) (types : List WordType) : Bool :=
  match s.popAll? types with
  | some rest => rest.known.isEmpty
  | none => false

mutual

/-- The operands after an instruction. -/
def instr? (cx : Context) (s : Operands) : Instr → Option Operands
  | .plain o => op? cx s o
  | .block body | .loop body => do
    let inner ← code? cx.enter .empty body
    if inner.endsWith [] then return s else none
  | .choice consequent alternate => do
    let s ← s.pop? .i32
    let inner ← code? cx.enter .empty consequent
    let other ← alternate? cx.enter alternate
    if inner.endsWith [] ∧ other.endsWith [] then return s else none

/-- The operands after the second body of a choice. -/
def alternate? (cx : Context) : Option (List Instr) → Option Operands
  | none => some .empty
  | some body => code? cx .empty body

/-- The operands after a sequence of instructions. -/
def code? (cx : Context) (s : Operands) : List Instr → Option Operands
  | [] => some s
  | i :: rest => do
    let s ← instr? cx s i
    code? cx s rest

end

/-- The place of a function's body in a module. -/
def context (m : CodeModule) (f : CompiledFunction) : Context where
  slotTypes := f.slotTypes
  functions := m.functions.map fun g => (g.params, g.result)
  hasMemory := m.importsMemory
  result := f.result
  labels := [[f.result]]

/-- Whether the body of a function respects the types of operands. -/
def isWellTyped (m : CodeModule) (f : CompiledFunction) : Bool :=
  match code? (context m f) .empty f.body with
  | some s => s.endsWith [f.result]
  | none => false

end Validation

/-! ### Modules -/

/-- Refuses a size that is beyond its limit. -/
def SizeLimits.check (limits : SizeLimits) (size : ModuleSize) (n : Nat) :
    Except ValidationError Unit :=
  if n ≤ limits size then .ok () else .error (.tooLarge size (limits size))

namespace Validation

/-- Goes through exports with the sizes of their types. The names before them are given,
and the size of all types so far. -/
def checkExports (limits : SizeLimits) :
    (seen : List String) → (types : Nat) → List (String × Nat) → Except ValidationError Unit
  | _, _, [] => .ok ()
  | seen, types, (name, size) :: rest => do
    limits.check .exportName name.utf8ByteSize
    limits.check .types (types + size)
    if name ∈ seen then throw (.duplicateExport name)
    else checkExports limits (name :: seen) (types + size) rest

/-- Checks the variables and the code of a function of a module. -/
def checkFunction (limits : SizeLimits) (m : CodeModule) (f : CompiledFunction) :
    Except ValidationError Unit := do
  limits.check .slots f.slotTypes.length
  unless isWellTyped m f do throw (.illTyped f.name)

end Validation

open Validation in
/-- Accepts a module or says why it is refused. The parts of a module are checked in the
order in which they are stored: types, imports, exports, and the code of each function,
first for its length and then for what it does. -/
def CodeModule.validate (limits : SizeLimits) (m : CodeModule) : Except ValidationError Unit := do
  limits.check .functions m.functions.length
  m.functions.forM fun f => limits.check .parameters f.params.length
  limits.check .types m.importedTypes
  limits.check .exports m.exports.length
  checkExports limits [] m.importedTypes m.sizedExports
  m.functions.forM fun f => limits.check .body (Binary.body f).length
  m.functions.forM (checkFunction limits m)

end ArrayScript
