import Mathlib.Tactic
import ArrayScript.Code.CodeModule
import ArrayScript.Bytes

/-!
Reading modules by the grammar of their stored form.

A decoder takes bytes from the front of its input. `decode` reads a header and then
sections to the end of the input, checks that the sections stand in order and that there
is a body for each function, and gives back what the sections hold. It knows nothing of
how modules are written: numbers may have more digits than they need, and types, exports
and names may come in any number.

What modules here never have is not read: tables, globals, data and the instructions for
which there is no operation.
-/

namespace ArrayScript

/-- Computations that take bytes from the front of their input, or fail. -/
abbrev Decoder := StateT Bytes Option

/-- What a module imports: a function of a type, or a memory of at least and at most so
many pages. -/
inductive ImportItem where
  | function (type : Nat)
  | memory (least : Nat) (most : Option Nat)
  deriving DecidableEq, Inhabited, Repr

/-- What a module can make visible. -/
inductive ExportKind where
  | function
  | table
  | memory
  | global
  deriving DecidableEq, Inhabited, Repr

/-- The names a module gives to its parts. -/
inductive NameEntry where
  /-- to functions, by index -/
  | functions (names : List (Nat × String))
  /-- to the variables of functions, by the indices of both -/
  | locals (names : List (Nat × List (Nat × String)))
  deriving DecidableEq, Inhabited, Repr

/-- The sections of a module. -/
inductive Section where
  /-- function types: parameters and results -/
  | types (items : List (List WordType × List WordType))
  /-- imports: the module and the name they come from, and what they are -/
  | imports (items : List (String × String × ImportItem))
  /-- the types of functions, by index -/
  | functions (types : List Nat)
  /-- exports: a name, and what it stands for, by index -/
  | exports (items : List (String × ExportKind × Nat))
  /-- the local variables and the code of functions -/
  | code (bodies : List (List WordType × Code))
  /-- the names of parts -/
  | names (entries : List NameEntry)
  deriving Inhabited, Repr

namespace Decoder

variable {α : Type}

/-! ### Parts of the input -/

/-- One byte. -/
def byte : Decoder UInt8
  | [] => none
  | b :: rest => some (b, rest)

/-- The next bytes, as many as are asked for. -/
def bytes (count : Nat) : Decoder Bytes := fun input =>
  if count ≤ input.length then some (input.take count, input.drop count) else none

/-- Bytes that must be as given. -/
def expect (expected : Bytes) : Decoder Unit := do
  guard ((← bytes expected.length) = expected)

/-- The items to the end of the input. -/
def untilEnd (item : Decoder α) : Decoder (List α) := fun input => go input.length input
where
  go : Nat → Bytes → Option (List α × Bytes)
    | _, [] => some ([], [])
    | 0, _ :: _ => none
    | fuel + 1, input => do
      let (a, input) ← item input
      let (rest, input) ← go fuel input
      some (a :: rest, input)

/-- All of the input. -/
def remaining : Decoder Bytes := fun input => some (input, [])

/-! ### Numbers and names -/

/-- A number in base 128, low digits first, that has at most so many bits; all digits but
the last carry `128`. -/
def unsigned : (bits : Nat) → Bytes → Option (Nat × Bytes)
  | _, [] => none
  | bits, b :: rest =>
    if b.toNat < 128 then
      if b.toNat < 2 ^ bits then some (b.toNat, rest) else none
    else if 7 < bits then do
      let (high, rest) ← unsigned (bits - 7) rest
      some (128 * high + (b.toNat - 128), rest)
    else none

/-- An integer in base 128, low digits first, that has at most so many bits, one of them
for the sign; all digits but the last carry `128`, and the last is negative from `64` on. -/
def signed : (bits : Nat) → Bytes → Option (Int × Bytes)
  | _, [] => none
  | bits, b :: rest =>
    if b.toNat < 64 then
      if b.toNat < 2 ^ (bits - 1) then some (b.toNat, rest) else none
    else if b.toNat < 128 then
      if 128 ≤ b.toNat + 2 ^ (bits - 1) then some ((b.toNat : Int) - 128, rest) else none
    else if 7 < bits then do
      let (high, rest) ← signed (bits - 7) rest
      some (128 * high + ((b.toNat : Int) - 128), rest)
    else none

/-- An index, a count or a length. -/
def u32 : Decoder Nat := unsigned 32

/-- So many items. -/
def times (item : Decoder α) : Nat → Decoder (List α)
  | 0 => return []
  | count + 1 => do
    let a ← item
    return a :: (← times item count)

/-- Items preceded by their number. -/
def vector (item : Decoder α) : Decoder (List α) := do
  times item (← u32)

/-- Content preceded by its length, all of which must be read. -/
def sized (content : Decoder α) : Decoder α := do
  match content (← bytes (← u32)) with
  | some (a, []) => return a
  | _ => failure

/-- A text preceded by its length in bytes. -/
def name : Decoder String :=
  sized do
    match String.fromUTF8? ⟨(← remaining).toArray⟩ with
    | some s => return s
    | none => failure

/-! ### Instructions -/

/-- The type of a variable. -/
def wordType : Decoder WordType := do
  match ← byte with
  | 0x7f => return .i32
  | 0x7c => return .f64
  | _ => failure

/-- A load or store at an address itself, with the alignment of the type. -/
def access (t : WordType) (o : Op) : Decoder Op := do
  guard ((← u32) = t.alignment)
  guard ((← u32) = 0)
  return o

/-- A plain operation, the first byte of which is given. -/
def op : UInt8 → Decoder Op
  | 0x0c => return .br (← u32)
  | 0x0d => return .brIf (← u32)
  | 0x0f => return .ret
  | 0x10 => return .call (← u32)
  | 0x1a => return .drop
  | 0x1b => return .select
  | 0x20 => return .localGet (← u32)
  | 0x21 => return .localSet (← u32)
  | 0x22 => return .localTee (← u32)
  | 0x28 => access .i32 (.load .i32)
  | 0x2b => access .f64 (.load .f64)
  | 0x36 => access .i32 (.store .i32)
  | 0x39 => access .f64 (.store .f64)
  | 0x41 => return .i32Const (Int32.ofInt (← signed 32))
  | 0x44 => return .f64Const ⟨UInt64.ofNat (← bytes 8).toNat⟩
  | 0x45 => return .i32Eqz
  | 0x46 => return .int .eq
  | 0x47 => return .int .ne
  | 0x48 => return .int .lt
  | 0x4a => return .int .gt
  | 0x4c => return .int .le
  | 0x4e => return .int .ge
  | 0x61 => return .float .eq
  | 0x62 => return .float .ne
  | 0x63 => return .float .lt
  | 0x64 => return .float .gt
  | 0x65 => return .float .le
  | 0x66 => return .float .ge
  | 0x6a => return .int .add
  | 0x6b => return .int .sub
  | 0x6c => return .int .mul
  | 0x6d => return .int .div
  | 0x6f => return .int .rem
  | 0x9a => return .f64Neg
  | 0xa0 => return .float .add
  | 0xa1 => return .float .sub
  | 0xa2 => return .float .mul
  | 0xa3 => return .float .div
  | 0xb7 => return .f64ConvertI32
  | 0xfc => do
    guard ((← u32) = 2)
    return .i32TruncSatF64
  | _ => failure

/-- An instruction of a flat listing. Blocks have neither operands nor results. -/
def mark : Decoder Mark := do
  match ← byte with
  | 0x02 => expect [0x40]; return .block
  | 0x03 => expect [0x40]; return .loop
  | 0x04 => expect [0x40]; return .ifMark
  | 0x05 => return .elseMark
  | 0x0b => return .endMark
  | b => return .op (← op b)

/-- A block that was begun and has not ended, with the code before it. -/
inductive Frame where
  | block (before : Code)
  | loop (before : Code)
  | consequent (before : Code)
  | alternate (before consequent : Code)

/-- The code of a flat listing, of which a part was read already: it lies in some blocks,
the innermost first, and was preceded by other code there. -/
def nest : List Frame → Code → List Mark → Option Code
  | frames, done, .op o :: rest => nest frames (done ++ [.plain o]) rest
  | frames, done, .block :: rest => nest (.block done :: frames) [] rest
  | frames, done, .loop :: rest => nest (.loop done :: frames) [] rest
  | frames, done, .ifMark :: rest => nest (.consequent done :: frames) [] rest
  | .consequent before :: frames, done, .elseMark :: rest =>
    nest (.alternate before done :: frames) [] rest
  | .block before :: frames, done, .endMark :: rest => nest frames (before ++ [.block done]) rest
  | .loop before :: frames, done, .endMark :: rest => nest frames (before ++ [.loop done]) rest
  | .consequent before :: frames, done, .endMark :: rest =>
    nest frames (before ++ [.choice done none]) rest
  | .alternate before consequent :: frames, done, .endMark :: rest =>
    nest frames (before ++ [.choice consequent (some done)]) rest
  | [], done, [.endMark] => some done
  | _, _, _ => none

/-! ### Functions -/

/-- The types of local variables, which are given in groups. -/
def localTypes : Decoder (List WordType) := do
  let groups ← vector do return (← u32, ← wordType)
  guard ((groups.map Prod.fst).sum < 2 ^ 32)
  return groups.flatMap fun (n, t) => List.replicate n t

/-- The local variables and the code of a function. -/
def body : Decoder (List WordType × Code) := do
  let locals ← localTypes
  match nest [] [] (← untilEnd mark) with
  | some code => return (locals, code)
  | none => failure

/-- The parameter and result types of a function. -/
def functionType : Decoder (List WordType × List WordType) := do
  expect [0x60]
  return (← vector wordType, ← vector wordType)

/-! ### Modules -/

/-- What is imported. -/
def importItem : Decoder ImportItem := do
  match ← byte with
  | 0x00 => return .function (← u32)
  | 0x02 =>
    match ← byte with
    | 0x00 => return .memory (← u32) none
    | 0x01 => return .memory (← u32) (some (← u32))
    | _ => failure
  | _ => failure

/-- The kind of what is exported. -/
def exportKind : Decoder ExportKind := do
  match ← byte with
  | 0x00 => return .function
  | 0x01 => return .table
  | 0x02 => return .memory
  | 0x03 => return .global
  | _ => failure

/-- Items by index, with rising indices. -/
def indexed (item : Decoder α) : Decoder (List (Nat × α)) := do
  let items ← vector do return (← u32, ← item)
  guard ((items.map Prod.fst).Pairwise (· < ·))
  return items

/-- Names of the parts of a module. -/
def nameEntry : Decoder NameEntry := do
  match ← byte with
  | 1 => return .functions (← sized (indexed name))
  | 2 => return .locals (← sized (indexed (indexed name)))
  | _ => failure

/-- A section. -/
def moduleSection : Decoder Section := do
  match ← byte with
  | 0 => return .names (← sized do guard ((← name) = "name"); untilEnd nameEntry)
  | 1 => return .types (← sized (vector functionType))
  | 2 => return .imports (← sized (vector do return (← name, ← name, ← importItem)))
  | 3 => return .functions (← sized (vector u32))
  | 7 => return .exports (← sized (vector do return (← name, ← exportKind, ← u32)))
  | 10 => return .code (← sized (vector (sized body)))
  | _ => failure

/-- The place of a section among the others; names may stand anywhere. -/
def place? : Section → Option Nat
  | .types _ => some 1
  | .imports _ => some 2
  | .functions _ => some 3
  | .exports _ => some 7
  | .code _ => some 10
  | .names _ => none

/-- How many functions have a type. -/
def typedFunctions : Section → Nat
  | .functions types => types.length
  | _ => 0

/-- How many functions have a body. -/
def writtenFunctions : Section → Nat
  | .code bodies => bodies.length
  | _ => 0

/-- The sections of a stored module. -/
def sections : Decoder (List Section) := do
  expect [0x00, 0x61, 0x73, 0x6d]
  expect [0x01, 0x00, 0x00, 0x00]
  let sections ← untilEnd moduleSection
  guard ((sections.filterMap place?).Pairwise (· < ·))
  guard ((sections.map typedFunctions).sum = (sections.map writtenFunctions).sum)
  return sections

end Decoder

/-- What a stored module holds, if it is one. -/
def decode (stored : Bytes) : Option (List Section) :=
  (Decoder.sections.run stored).map Prod.fst

end ArrayScript
