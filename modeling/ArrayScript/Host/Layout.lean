import ArrayScript.Host.Image
import ArrayScript.Host.Value

/-!
Where array arguments lie in memory.

Arrays are packed one after another. Each begins at a multiple of the width of its
elements with a cell of that width for its length, followed by its elements. What
the function gets is the address of the first element, the payload.
-/

namespace ArrayScript

/-- The least multiple of `width` that is not below `offset`. -/
def alignUp (offset width : Nat) : Nat :=
  (offset + (width - 1)) / width * width

/-- The greatest offset at which an array may end. -/
def maxAddress : Nat := 4294967295

/-- The cells of an array, its length first, and their common width. -/
def Value.arrayCells? : Value → Option (Nat × List Cell)
  | int32Array items => some (4, .i32 (Int32.ofNat items.length) :: items.map .i32)
  | float64Array items => some (8, .i64 (Int64.ofNat items.length) :: items.map .f64)
  | int32 _ | float64 _ | boolean _ => none

/-- The memory image of the arguments of a call, and for each of them the offset of
its first element if it is an array. -/
structure Layout where
  image : Image
  payloads : List (Option Nat)
  deriving Inhabited

namespace Layout

/-- Places arguments after `offset` in addition to what is placed already. There is no
layout if an array would end too late. -/
def place (image : Image) (offset : Nat) : List Value → Option Layout
  | [] => some ⟨image, []⟩
  | v :: rest =>
    match v.arrayCells? with
    | none => do
      let layout ← place image offset rest
      return { layout with payloads := none :: layout.payloads }
    | some (width, cells) => do
      let header := alignUp offset width
      let final := header + width * cells.length
      guard (final ≤ maxAddress)
      let layout ← place (image.insertRun width header cells) final rest
      return { layout with payloads := some (header + width) :: layout.payloads }

/-- The layout of arguments. -/
def ofArguments? (arguments : List Value) : Option Layout :=
  place .empty 0 arguments

end Layout

end ArrayScript
