import ArrayScript.Machine.Run

/-!
Modules at work.

An instance is a module together with a memory of its own, if the module has one.
Its memory can be read and written from outside, and its functions can be called
by name. A call checks its arguments against the machine types of the function. A
trap leaves the memory as it was when the trap occurred.
-/

namespace ArrayScript

/-- The ways to get at memory from outside. -/
inductive MemoryAccess where
  | reading
  | writing
  deriving DecidableEq, Inhabited, Repr

/-- An access in the text of errors. -/
def MemoryAccess.noun : MemoryAccess → String
  | reading => "Read"
  | writing => "Write"

/-- Where an error of an access arises. -/
def MemoryAccess.context : MemoryAccess → String
  | reading => "read"
  | writing => "write"

/-- The ways the use of an instance can fail. -/
inductive RunError where
  /-- there is no room for so many pages of memory -/
  | allocation (pages : Nat)
  /-- the module has no memory -/
  | noMemory (access : MemoryAccess)
  /-- the bytes do not lie in the memory -/
  | outOfRange (access : MemoryAccess) (count offset : Nat)
  /-- no function is exported under the name -/
  | unknownExport (name : String)
  /-- the arguments do not have the machine types of the parameters -/
  | refused (function : String)
  /-- the function trapped -/
  | trapped (function : String) (trap : Trap)
  /-- the function met an instruction that does not apply -/
  | stuck (function : String)
  /-- the function needed more rounds and calls than it was allowed -/
  | unfinished (function : String)
  /-- the result does not have the machine type of the declared one -/
  | unexpectedResult (expected : ValueType) (found : Word)
  deriving DecidableEq, Inhabited, Repr

/-- A word in the text of errors; a double is shown by its bits. -/
def Word.display : Word → String
  | i32 n => withArgument "I32" (toString n.toInt)
  | f64 x => withArgument "F64" (toString x.bits.toNat)

namespace RunError

/-- Where an error arises. -/
def context : RunError → String
  | allocation _ => "instantiate::memory"
  | noMemory access | outOfRange access _ _ => access.context
  | unknownExport _ => "call::get_func"
  | refused _ | trapped _ _ | stuck _ | unfinished _ => "call"
  | unexpectedResult _ _ => "call::results"

/-- The trap behind an error. -/
def trap? : RunError → Option Trap
  | trapped _ trap => some trap
  | _ => none

/-- What is wrong with a call. -/
def callFailure (function reason : String) : String :=
  "Call to '" ++ function ++ "' trapped: " ++ reason

/-- What is wrong. -/
def text : RunError → String
  | allocation pages => "Failed to allocate " ++ toString pages ++ " pages"
  | noMemory _ => "Module has no linear memory"
  | outOfRange access count offset =>
    access.noun ++ " of " ++ toString count ++ " bytes at " ++ toString offset ++
      " is out of bounds"
  | unknownExport name => "Export '" ++ name ++ "' not found"
  | refused function => callFailure function "argument mismatch"
  | trapped function trap => callFailure function trap.message
  | stuck function => callFailure function "invalid code"
  | unfinished function => callFailure function "no result"
  | unexpectedResult expected found =>
    "expected a " ++ expected.display ++ " result, got " ++ found.display

/-- The text of an error. -/
def message (e : RunError) : String :=
  "[" ++ e.context ++ "] " ++ e.text

end RunError

/-- How far a run may go: the calls that may be nested, the rounds of loops and calls
along one path, and the pages of memory that can be had. -/
structure Limits where
  depth : Nat
  fuel : Nat
  pages : Nat
  deriving DecidableEq, Inhabited, Repr

/-- A stack for a thousand calls, time enough for every run that ends, and memory for
every address. -/
def Limits.standard : Limits := ⟨1000, 4611686018427387904, 65536⟩

/-- A module with its memory. -/
structure Instance where
  code : CodeModule
  memory : Option Memory
  deriving Inhabited, Repr

/-- A fresh instance of a module, with that many pages of memory if it takes any. -/
def CodeModule.instantiate (m : CodeModule) (pages : Nat) : Instance :=
  ⟨m, if m.importsMemory then some (Memory.zeros pages) else none⟩

namespace Instance

/-- Whether the instance has a memory. -/
def hasMemory (i : Instance) : Bool :=
  i.memory.isSome

/-- The number of bytes of memory. -/
def memorySize (i : Instance) : Nat :=
  (i.memory.map Memory.size).getD 0

/-- The instance with bytes written to its memory. -/
def write (i : Instance) (offset : Nat) (bytes : Bytes) : Except RunError Instance :=
  match i with
  | ⟨_, none⟩ => .error (.noMemory .writing)
  | ⟨code, some memory⟩ =>
    if memory.holds offset bytes.length then .ok ⟨code, some (memory.write offset bytes)⟩
    else .error (.outOfRange .writing bytes.length offset)

/-- Bytes of the memory. -/
def read (i : Instance) (offset count : Nat) : Except RunError Bytes :=
  match i.memory with
  | none => .error (.noMemory .reading)
  | some memory =>
    match memory.read? offset count with
    | some bytes => .ok bytes
    | none => .error (.outOfRange .reading count offset)

/-- The instance with another memory, if it has any. -/
def withMemory (i : Instance) (memory : Memory) : Instance :=
  ⟨i.code, i.memory.map fun _ => memory⟩

/-- Calls a function by name: its result or the error, and the instance afterwards. -/
def call (limits : Limits) (i : Instance) (name : String) (arguments : List Word) :
    Except RunError Word × Instance :=
  match i.code.functions.find? (·.name = name) with
  | none => (.error (.unknownExport name), i)
  | some f =>
    if arguments.map Word.type ≠ f.params then (.error (.refused name), i)
    else
      let memory := i.memory.getD (Memory.zeros 0)
      match Machine.invoke i.code limits.fuel limits.depth f arguments memory with
      | .value w memory => (.ok w, i.withMemory memory)
      | .trapped trap memory => (.error (.trapped name trap), i.withMemory memory)
      | .stuck => (.error (.stuck name), i)
      | .outOfFuel => (.error (.unfinished name), i)

end Instance

end ArrayScript
