import ArrayScript.Bytes
import ArrayScript.Double
import ArrayScript.ValueType

/-!
The values the machine works on.
-/

namespace ArrayScript

/-- A 32-bit integer or a double. -/
inductive Word where
  | i32 (n : Int32)
  | f64 (x : Double)
  deriving DecidableEq, Inhabited, Repr

/-- The width of a type in bytes. -/
def WordType.width : WordType → Nat
  | i32 => 4
  | f64 => 8

namespace Word

/-- The type of a word. -/
def type : Word → WordType
  | i32 _ => .i32
  | f64 _ => .f64

/-- The zero of a type. -/
def zero : WordType → Word
  | .i32 => .i32 0
  | .f64 => .f64 Double.zero

/-- A truth value as a word. -/
def ofBool (b : Bool) : Word :=
  .i32 (if b then 1 else 0)

/-- The bytes of a word, low ones first. -/
def toBytes : Word → Bytes
  | i32 n => Bytes.littleEndian 4 n.toUInt32.toNat
  | f64 x => Bytes.littleEndian 8 x.bits.toNat

/-- The word of a type that bytes spell. -/
def ofBytes (t : WordType) (bytes : Bytes) : Word :=
  match t with
  | .i32 => .i32 (UInt32.ofNat bytes.toNat).toInt32
  | .f64 => .f64 ⟨UInt64.ofNat bytes.toNat⟩

theorem type_ofBytes (t : WordType) (bytes : Bytes) : (ofBytes t bytes).type = t := by
  cases t <;> rfl

@[simp] theorem length_toBytes (w : Word) : w.toBytes.length = w.type.width := by
  cases w <;> simp [toBytes, type, WordType.width]

/-- A word is spelt by its bytes. -/
theorem ofBytes_toBytes (w : Word) : ofBytes w.type w.toBytes = w := by
  cases w with
  | i32 n =>
      simp only [ofBytes, toBytes, type, Bytes.toNat_littleEndian]
      rw [Nat.mod_eq_of_lt (by exact n.toUInt32.toNat_lt)]
      simp
  | f64 x =>
      simp only [ofBytes, toBytes, type, Bytes.toNat_littleEndian]
      rw [Nat.mod_eq_of_lt (by exact x.bits.toNat_lt)]
      simp

end Word

end ArrayScript
