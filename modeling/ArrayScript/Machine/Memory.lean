import ArrayScript.Machine.Word

/-!
Linear memory: bytes from address zero on, in whole pages.
-/

namespace ArrayScript

/-- The number of bytes in a page. -/
def pageSize : Nat := 65536

/-- The bytes of a memory. -/
structure Memory where
  bytes : Array UInt8
  deriving DecidableEq, Inhabited, Repr

namespace Memory

/-- A memory of zeros. -/
def zeros (pages : Nat) : Memory :=
  ⟨Array.replicate (pages * pageSize) 0⟩

/-- The number of bytes. -/
def size (m : Memory) : Nat :=
  m.bytes.size

/-- Whether so many bytes from an address on lie in the memory. -/
def holds (m : Memory) (address count : Nat) : Bool :=
  address + count ≤ m.size

/-- Puts bytes at an address and after it; those past the end are lost. -/
def put (bytes : Array UInt8) (address : Nat) : Bytes → Array UInt8
  | [] => bytes
  | b :: rest => put (bytes.setIfInBounds address b) (address + 1) rest

/-- The bytes from an address on, if there are as many. -/
def read? (m : Memory) (address count : Nat) : Option Bytes :=
  if m.holds address count then some (m.bytes.extract address (address + count)).toList
  else none

/-- The memory with bytes put at an address. -/
def write (m : Memory) (address : Nat) (bytes : Bytes) : Memory :=
  ⟨put m.bytes address bytes⟩

@[simp] theorem size_put (bytes : Array UInt8) (address : Nat) (content : Bytes) :
    (put bytes address content).size = bytes.size := by
  induction content generalizing bytes address with
  | nil => rfl
  | cons b rest ih => rw [put, ih, Array.size_setIfInBounds]

/-- Writing does not change how many bytes there are. -/
@[simp] theorem size_write (m : Memory) (address : Nat) (bytes : Bytes) :
    (m.write address bytes).size = m.size :=
  size_put m.bytes address bytes

/-- The word of a type at an address. -/
def load? (m : Memory) (t : WordType) (address : Nat) : Option Word :=
  (m.read? address t.width).map (Word.ofBytes t)

/-- What is loaded is of the type that is asked for. -/
theorem load?_type {m : Memory} {t : WordType} {address : Nat} {w : Word}
    (h : m.load? t address = some w) : w.type = t := by
  obtain ⟨bytes, _, rfl⟩ := Option.map_eq_some_iff.mp h
  exact Word.type_ofBytes t bytes

/-- The memory with a word put at an address. -/
def store (m : Memory) (address : Nat) (w : Word) : Memory :=
  m.write address w.toBytes

@[simp] theorem size_store (m : Memory) (address : Nat) (w : Word) :
    (m.store address w).size = m.size :=
  size_write m address w.toBytes

end Memory

end ArrayScript
