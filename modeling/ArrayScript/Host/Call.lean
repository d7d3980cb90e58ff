import ArrayScript.Code.Binary
import ArrayScript.Compilation
import ArrayScript.Host.Layout
import ArrayScript.Machine.Instance
import ArrayScript.Phase
import ArrayScript.Text.Quoted

/-!
Calls with values from outside.

A call looks up the function, checks its arguments and output indices, lays the
arrays out in the memory of a fresh instance, runs the function, and reads the
output arrays back. Scalars are converted to the types of the signature where that
makes sense. A call that fails leaves all arguments as they were, except that a
result which is no truth value is noticed only after the outputs were read back.
-/

namespace ArrayScript

/-- Why a call fails. -/
inductive CallError where
  /-- no function was chosen -/
  | missingName
  /-- the function is not in the module or has no signature -/
  | unknownFunction (name : String)
  /-- too few or too many arguments -/
  | argumentCount (function : String) (expected found : Nat)
  /-- an argument that cannot be converted to the type of the parameter -/
  | argumentType (position : Nat) (expected found : ValueType)
  /-- an output index beyond the arguments -/
  | outputNotFound (position : Nat)
  /-- an output argument that is not an array -/
  | outputNotArray (position : Nat)
  /-- output indices for a call without arrays -/
  | outputWithoutArrays
  /-- a result that is no truth value -/
  | booleanConversion (found : Int32)
  /-- the instance could not be prepared -/
  | instantiation (reason : RunError)
  /-- the function could not be run to its end -/
  | execution (reason : RunError)
  /-- the arrays do not fit into memory -/
  | layoutOverflow
  deriving DecidableEq, Inhabited, Repr

/-- The text of an error. -/
def CallError.message : CallError → String
  | missingName => "no function name set"
  | unknownFunction name => "module has no function " ++ quoted name
  | argumentCount function expected found =>
    "function " ++ quoted function ++ " takes " ++ toString expected ++ " arguments but " ++
      toString found ++ " were given"
  | argumentType position expected found =>
    "argument " ++ toString position ++ " should be " ++ expected.display ++ " but was " ++
      found.display
  | outputNotFound position => "output argument " ++ toString position ++ " does not exist"
  | outputNotArray position => "output argument " ++ toString position ++ " is not an array"
  | outputWithoutArrays => "output arguments requested but the call has no array arguments"
  | booleanConversion found => "cannot convert " ++ toString found.toInt ++ " to boolean"
  | instantiation reason => "instantiation failed: " ++ reason.message
  | execution reason => "execution failed: " ++ reason.message
  | layoutOverflow => "array arguments do not fit in a 32-bit address space"

/-- A module with the signatures that its callers go by. -/
structure CompiledUnit where
  code : CodeModule
  signatures : SignatureTable
  deriving Inhabited

namespace CompiledUnit

/-- The names of the functions in order. -/
def functionNames (u : CompiledUnit) : List String :=
  u.code.functions.map (·.name)

/-- The signature of a function of the module. -/
def signature? (u : CompiledUnit) (name : String) : Option Signature :=
  if name ∈ u.functionNames then u.signatures.find? name else none

/-- A summary of the module: its size, whether it has a memory, its functions. -/
def display (u : CompiledUnit) : String :=
  "CompiledModule \x7b bytes: " ++ toString u.code.encode.length ++
    ", imports_memory: " ++ toString u.code.importsMemory ++
    ", exports: [" ++ String.intercalate ", " (u.functionNames.map Text.quote) ++ "] \x7d"

end CompiledUnit

/-- What is to be called, and which arguments are outputs. -/
structure Caller where
  function : Option String := none
  outputs : List Nat := []
  deriving DecidableEq, Inhabited, Repr

/-- How a call went: its result, the arguments afterwards and the events on the way. -/
structure CallReport where
  result : Except CallError Value
  arguments : List Value
  events : List PhaseEvent

namespace HostCall

/-! ### Arguments -/

/-- The word an argument is passed as, if it can be converted to the type of the
parameter. Arrays are passed as zero until they have an address. -/
def word? : ValueType → Value → Option Word
  | .int32, .int32 n => some (.i32 n)
  | .int32, .float64 x => some (.i32 x.toInt32Wrapping)
  | .float64, .int32 n => some (.f64 (Double.ofInt32 n))
  | .float64, .float64 x => some (.f64 x)
  | .boolean, .boolean b => some (.ofBool b)
  | .int32Array, .int32Array _ | .float64Array, .float64Array _ => some (.i32 0)
  | _, _ => none

/-- The words of arguments, the position of the first being given. -/
def words : (position : Nat) → List ValueType → List Value → Except CallError (List Word)
  | position, type :: types, v :: rest =>
    match word? type v with
    | none => .error (.argumentType position type v.type)
    | some w => do return w :: (← words (position + 1) types rest)
  | _, _, _ => .ok []

/-- The words of as many arguments as there are parameters. -/
def checkArguments (name : String) (s : Signature) (arguments : List Value) :
    Except CallError (List Word) :=
  if arguments.length ≠ s.arity then
    .error (.argumentCount name s.arity arguments.length)
  else words 0 s.parameters arguments

/-- An output index must be that of an array. -/
def checkOutput (arguments : List Value) (position : Nat) : Except CallError Unit :=
  match arguments[position]? with
  | none => .error (.outputNotFound position)
  | some v => if v.isArray then .ok () else .error (.outputNotArray position)

/-- Output indices make sense only if there is an array. -/
def checkOutputs (outputs : List Nat) (arguments : List Value) : Except CallError Unit :=
  if outputs = [] then .ok ()
  else if !arguments.any Value.isArray then .error .outputWithoutArrays
  else outputs.forM (checkOutput arguments)

/-! ### Into memory and back -/

/-- An instance that is ready for a call, the words to pass and the payloads. -/
structure Prepared where
  target : Instance
  words : List Word
  payloads : List (Option Nat)

/-- A word, or in its place the address of an array. -/
def withPayload (w : Word) : Option Nat → Word
  | none => w
  | some offset => .i32 (UInt32.ofNat offset).toInt32

/-- Lays the arrays out and writes them to the memory of a fresh instance, if it has
any. -/
def prepare (m : CodeModule) (arguments : List Value) (words : List Word) :
    Except CallError Prepared :=
  if !arguments.any Value.isArray then
    .ok ⟨m.instantiate 0, words, arguments.map fun _ => none⟩
  else
    match Layout.ofArguments? arguments with
    | none => .error .layoutOverflow
    | some layout =>
      let words := words.zipWith withPayload layout.payloads
      let target := m.instantiate layout.image.pages
      if target.hasMemory then
        match target.write 0 layout.image.bytes with
        | .error reason => .error (.instantiation reason)
        | .ok target => .ok ⟨target, words, layout.payloads⟩
      else .ok ⟨target, words, layout.payloads⟩

/-- What is prepared for a call, if there is room for its memory. -/
def prepareWithin (limits : Limits) (m : CodeModule) (arguments : List Value)
    (words : List Word) : Except CallError Prepared := do
  let p ← prepare m arguments words
  let pages := p.target.memorySize / pageSize
  if limits.pages < pages then throw (.instantiation (.allocation pages))
  return p

/-- The integers that bytes spell, four bytes each. -/
def integers : (count : Nat) → Bytes → List Int32
  | 0, _ => []
  | count + 1, bytes =>
    (UInt32.ofNat (Bytes.toNat (bytes.take 4))).toInt32 :: integers count (bytes.drop 4)

/-- The doubles that bytes spell, eight bytes each. -/
def doubles : (count : Nat) → Bytes → List Double
  | 0, _ => []
  | count + 1, bytes => ⟨UInt64.ofNat (Bytes.toNat (bytes.take 8))⟩ :: doubles count (bytes.drop 8)

/-- An array with the elements that are now at its payload. -/
def readBack (i : Instance) (payload : Nat) : Value → Except RunError Value
  | .int32Array items => do
    return .int32Array (integers items.length (← i.read payload (items.length * 4)))
  | .float64Array items => do
    return .float64Array (doubles items.length (← i.read payload (items.length * 8)))
  | v => .ok v

/-- The arguments after one output was read back. -/
def readOutput (i : Instance) (payloads : List (Option Nat)) (arguments : List Value)
    (position : Nat) : Except RunError (List Value) :=
  match payloads[position]?.join, arguments[position]? with
  | some payload, some v => do return arguments.set position (← readBack i payload v)
  | _, _ => .ok arguments

/-- Reads outputs back one after another. The first that cannot be read ends this; those
before it have been read back by then. -/
def readEach (i : Instance) (payloads : List (Option Nat)) :
    (outputs : List Nat) → (arguments : List Value) → Except RunError Unit × List Value
  | [], arguments => (.ok (), arguments)
  | position :: rest, arguments =>
    match readOutput i payloads arguments position with
    | .error reason => (.error reason, arguments)
    | .ok arguments => readEach i payloads rest arguments

/-- Reads outputs back if there is a memory. -/
def readOutputs (i : Instance) (payloads : List (Option Nat)) (outputs : List Nat)
    (arguments : List Value) : Except RunError Unit × List Value :=
  if i.hasMemory then readEach i payloads outputs arguments else (.ok (), arguments)

/-- The value of a result, by the declared type. -/
def result (type : ValueType) (w : Word) : Except CallError Value :=
  match type, w with
  | .boolean, .i32 n =>
    if n = 0 then .ok (.boolean false)
    else if n = 1 then .ok (.boolean true)
    else .error (.booleanConversion n)
  | .float64, .f64 x => .ok (.float64 x)
  | _, .i32 n => .ok (.int32 n)
  | type, w => .error (.execution (.unexpectedResult type w))

/-! ### Calls -/

/-- The function of a call, its signature and the words of its arguments. -/
def check (u : CompiledUnit) (c : Caller) (arguments : List Value) :
    Except CallError (String × Signature × List Word) := do
  let some name := c.function | throw .missingName
  let some signature := u.signature? name | throw (.unknownFunction name)
  let words ← checkArguments name signature arguments
  checkOutputs c.outputs arguments
  return (name, signature, words)

/-- The last phase of a call, after the function gave a word. -/
def conclude (c : Caller) (signature : Signature) (arguments : List Value) (p : Prepared)
    (i : Instance) (w : Word) : Except CallError Value × List Value :=
  match readOutputs i p.payloads c.outputs arguments with
  | (.error reason, arguments) => (.error (.execution reason), arguments)
  | (.ok (), arguments) => (result signature.returnType w, arguments)

end HostCall

open HostCall in
/-- Calls a function of a module. -/
def CompiledUnit.call (limits : Limits) (u : CompiledUnit) (c : Caller) (arguments : List Value) :
    CallReport :=
  match check u c arguments with
  | .error e => ⟨.error e, arguments, []⟩
  | .ok (name, signature, words) =>
    let imported := PhaseEvent.around .importing
    match prepareWithin limits u.code arguments words with
    | .error e => ⟨.error e, arguments, imported⟩
    | .ok p =>
      let executed := imported ++ PhaseEvent.around .execution
      match p.target.call limits name p.words with
      | (.error reason, _) => ⟨.error (.execution reason), arguments, executed⟩
      | (.ok w, i) =>
        let (result, arguments) := conclude c signature arguments p i w
        ⟨result, arguments, executed ++ PhaseEvent.around .exporting⟩

end ArrayScript
