import ArrayScript.Bytes
import ArrayScript.Code.CodeModule

/-!
The stored form of modules.

A module is a header followed by sections. A section is a kind, the length of its
content, and the content; lengths, counts and indices are written in base 128,
low digits first. `CodeModule.encode` writes the sections for types, imports,
functions, exports, code and names in this order.

Numbers are written by well-founded recursion. It is left open to evaluation, since
the length of stored code decides whether a module is accepted.
-/

namespace ArrayScript

namespace Binary

/-! ### Numbers and names -/

/-- A natural number in base 128, low digits first; all but the last carry `128`. -/
@[semireducible]
def unsigned (n : Nat) : Bytes :=
  if n < 128 then [UInt8.ofNat n]
  else UInt8.ofNat (n % 128 + 128) :: unsigned (n / 128)

/-- An integer in base 128, low digits first. The last digit is the first from which
the sign can be told: it is below `64` for numbers that are not negative. -/
@[semireducible]
def signed (n : Int) : Bytes :=
  let low := (n % 128).toNat
  if (n / 128 = 0 ∧ low < 64) ∨ (n / 128 = -1 ∧ 64 ≤ low) then [UInt8.ofNat low]
  else UInt8.ofNat (low + 128) :: signed (n / 128)
termination_by n.natAbs
decreasing_by omega

/-- Content preceded by its length. -/
def sized (content : Bytes) : Bytes :=
  unsigned content.length ++ content

/-- Items preceded by their number. -/
def vector (items : List Bytes) : Bytes :=
  unsigned items.length ++ items.flatten

/-- A text preceded by its length in bytes. -/
def name (s : String) : Bytes :=
  sized s.toUTF8.toList

/-- Content of the given kind, such as a section. -/
def tagged (kind : UInt8) (content : Bytes) : Bytes :=
  kind :: sized content

/-- Items with their positions, from zero on. -/
def numbered (items : List Bytes) : List Bytes :=
  items.zipIdx.map fun (item, k) => unsigned k ++ item

/-! ### Instructions -/

/-- The byte of a type. -/
def wordType : WordType → UInt8
  | .i32 => 0x7f
  | .f64 => 0x7c

/-- The byte of an operation on integers. -/
def intOp : IntOp → UInt8
  | .eq => 0x46
  | .ne => 0x47
  | .lt => 0x48
  | .gt => 0x4a
  | .le => 0x4c
  | .ge => 0x4e
  | .add => 0x6a
  | .sub => 0x6b
  | .mul => 0x6c
  | .div => 0x6d
  | .rem => 0x6f

/-- The byte of an operation on doubles. -/
def floatOp : FloatOp → UInt8
  | .eq => 0x61
  | .ne => 0x62
  | .lt => 0x63
  | .gt => 0x64
  | .le => 0x65
  | .ge => 0x66
  | .add => 0xa0
  | .sub => 0xa1
  | .mul => 0xa2
  | .div => 0xa3

/-- The alignment and offset of a load or store. -/
def memoryArgument (t : WordType) : Bytes :=
  unsigned t.alignment ++ unsigned 0

/-- The bytes of a plain operation. -/
def op : Op → Bytes
  | .i32Const n => 0x41 :: signed n.toInt
  | .f64Const x => 0x44 :: Bytes.littleEndian 8 x.bits.toNat
  | .int o => [intOp o]
  | .float o => [floatOp o]
  | .i32Eqz => [0x45]
  | .f64Neg => [0x9a]
  | .f64ConvertI32 => [0xb7]
  | .i32TruncSatF64 => [0xfc, 0x02]
  | .localGet slot => 0x20 :: unsigned slot
  | .localSet slot => 0x21 :: unsigned slot
  | .localTee slot => 0x22 :: unsigned slot
  | .load .i32 => 0x28 :: memoryArgument .i32
  | .load .f64 => 0x2b :: memoryArgument .f64
  | .store .i32 => 0x36 :: memoryArgument .i32
  | .store .f64 => 0x39 :: memoryArgument .f64
  | .call index => 0x10 :: unsigned index
  | .select => [0x1b]
  | .drop => [0x1a]
  | .ret => [0x0f]
  | .br depth => 0x0c :: unsigned depth
  | .brIf depth => 0x0d :: unsigned depth

/-- The bytes of an instruction of a flat listing. Blocks have neither operands nor
results. -/
def mark : Mark → Bytes
  | .op o => op o
  | .block => [0x02, 0x40]
  | .loop => [0x03, 0x40]
  | .ifMark => [0x04, 0x40]
  | .elseMark => [0x05]
  | .endMark => [0x0b]

/-! ### Functions -/

/-- Runs of equal consecutive items with their lengths. -/
def runs : List WordType → List (Nat × WordType)
  | [] => []
  | t :: rest =>
    match runs rest with
    | (n, t') :: groups => if t = t' then (n + 1, t) :: groups else (1, t) :: (n, t') :: groups
    | [] => [(1, t)]

/-- The types of local variables, in runs. -/
def localTypes (types : List WordType) : Bytes :=
  vector ((runs types).map fun (n, t) => unsigned n ++ [wordType t])

/-- The local variables and the code of a function. -/
def body (f : CompiledFunction) : Bytes :=
  localTypes f.locals ++ f.body.listing.flatMap mark

/-- The parameter and result types of a function. -/
def functionType (f : CompiledFunction) : Bytes :=
  0x60 :: (vector (f.params.map fun t => [wordType t]) ++ vector [[wordType f.result]])

/-! ### Modules -/

/-- A memory import without a least size. -/
def memoryEntry : Bytes :=
  name CodeModule.memoryImport.1 ++ name CodeModule.memoryImport.2 ++ [0x02, 0x00, 0x00]

/-- The exports: functions by index, then the memory. -/
def exportEntries (m : CodeModule) : List Bytes :=
  m.functions.zipIdx.map (fun (f, k) => name f.name ++ 0x00 :: unsigned k) ++
    (if m.importsMemory then [name CodeModule.memoryExport ++ [0x02, 0x00]] else [])

/-- The names of functions and of their variables. -/
def names (m : CodeModule) : Bytes :=
  name "name" ++
    tagged 1 (vector (numbered (m.functions.map fun f => name f.name))) ++
    tagged 2 (vector (numbered (m.functions.map fun f =>
      vector (numbered (f.localNames.map name)))))

/-- The eight bytes every module starts with. -/
def header : Bytes := [0x00, 0x61, 0x73, 0x6d, 0x01, 0x00, 0x00, 0x00]

end Binary

open Binary in
/-- The stored form of a module. -/
def CodeModule.encode (m : CodeModule) : Bytes :=
  header ++
    tagged 1 (vector (m.functions.map functionType)) ++
    (if m.importsMemory then tagged 2 (vector [memoryEntry]) else []) ++
    tagged 3 (vector ((List.range m.functions.length).map unsigned)) ++
    tagged 7 (vector (exportEntries m)) ++
    tagged 10 (vector (m.functions.map fun f => sized (body f))) ++
    tagged 0 (names m)

end ArrayScript
