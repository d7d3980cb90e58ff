import ArrayScript.Machine.Memory

/-!
Images of memory built cell by cell.

An image holds at most one cell at each offset. Cells may overlap: in the bytes of
the image the one with the greater offset lies on top, and bytes that no cell
covers are zero. The image ends with its last cell, so an eight-byte cell that
starts shortly before a last cell of four bytes sticks out; such an image has no
bytes.
-/

namespace ArrayScript

/-- What can be put at an offset. -/
inductive Cell where
  | i32 (n : Int32)
  | i64 (n : Int64)
  | f64 (x : Double)
  deriving DecidableEq, Inhabited, Repr

namespace Cell

/-- The width of a cell in bytes. -/
def width : Cell → Nat
  | i32 _ => 4
  | i64 _ | f64 _ => 8

/-- The bytes of a cell, low ones first. -/
def toBytes : Cell → Bytes
  | i32 n => Bytes.littleEndian 4 n.toUInt32.toNat
  | i64 n => Bytes.littleEndian 8 n.toUInt64.toNat
  | f64 x => Bytes.littleEndian 8 x.bits.toNat

@[simp] theorem length_toBytes (c : Cell) : c.toBytes.length = c.width := by
  cases c <;> simp [toBytes, width]

end Cell

namespace Image

/-- Cells by offset, the greatest offset first. -/
abbrev Cells := List (Nat × Cell)

/-- Each offset is greater than the next one. -/
def Descending (cells : Cells) : Prop :=
  cells.Pairwise fun a b => b.1 < a.1

/-- Puts a cell among others, in place of one at the same offset. -/
def put (offset : Nat) (cell : Cell) : Cells → Cells
  | [] => [(offset, cell)]
  | (o, c) :: rest =>
    if o < offset then (offset, cell) :: (o, c) :: rest
    else if o = offset then (offset, cell) :: rest
    else (o, c) :: put offset cell rest

theorem mem_put {offset : Nat} {cell : Cell} {cells : Cells} {p : Nat × Cell}
    (h : p ∈ put offset cell cells) : p = (offset, cell) ∨ p ∈ cells := by
  induction cells with
  | nil => simpa [put] using h
  | cons q rest ih =>
      obtain ⟨o, c⟩ := q
      simp only [put] at h
      split at h
      · simpa using h
      · split at h
        · rcases List.mem_cons.mp h with h | h
          · exact .inl h
          · exact .inr (List.mem_cons_of_mem _ h)
        · rcases List.mem_cons.mp h with h | h
          · exact .inr (h ▸ List.mem_cons_self)
          · exact (ih h).imp_right (List.mem_cons_of_mem _)

theorem descending_put (offset : Nat) (cell : Cell) {cells : Cells} (h : Descending cells) :
    Descending (put offset cell cells) := by
  induction cells with
  | nil => simp [put, Descending]
  | cons q rest ih =>
      obtain ⟨o, c⟩ := q
      obtain ⟨hq, hrest⟩ := List.pairwise_cons.mp h
      simp only [put]
      split
      · refine List.pairwise_cons.mpr ⟨fun p hp => ?_, h⟩
        rcases List.mem_cons.mp hp with rfl | hp
        · assumption
        · exact Nat.lt_trans (hq p hp) (by assumption)
      · split
        · subst o
          exact List.pairwise_cons.mpr ⟨hq, hrest⟩
        · refine List.pairwise_cons.mpr ⟨fun p hp => ?_, ih hrest⟩
          rcases mem_put hp with rfl | hp
          · show offset < o
            omega
          · exact hq p hp

end Image

/-- Cells at distinct offsets. -/
structure Image where
  /-- the cells, the greatest offset first -/
  cells : Image.Cells
  descending : Image.Descending cells

namespace Image

/-- The image without cells. -/
def empty : Image := ⟨[], List.Pairwise.nil⟩

instance : Inhabited Image := ⟨empty⟩

/-- The image with a cell at an offset, in place of any earlier one there. -/
def insert (i : Image) (offset : Nat) (cell : Cell) : Image :=
  ⟨put offset cell i.cells, descending_put offset cell i.descending⟩

/-- Inserts cells one after another, `width` bytes apart. -/
def insertRun (width : Nat) : (i : Image) → (offset : Nat) → List Cell → Image
  | i, _, [] => i
  | i, offset, cell :: rest => insertRun width (i.insert offset cell) (offset + width) rest

/-- The cell at an offset among others. -/
def lookup (offset : Nat) : Cells → Option Cell
  | [] => none
  | (o, c) :: rest => if o = offset then some c else lookup offset rest

/-- The cell at an offset. -/
def find? (i : Image) (offset : Nat) : Option Cell :=
  lookup offset i.cells

theorem lookup_put (offset o : Nat) (cell : Cell) (cells : Cells) :
    lookup o (put offset cell cells) = if offset = o then some cell else lookup o cells := by
  induction cells with
  | nil => simp [put, lookup]
  | cons q rest ih =>
      obtain ⟨p, c⟩ := q
      simp only [put]
      split
      · simp only [lookup]
      · split
        · subst p
          by_cases h : offset = o <;> simp [lookup, h]
        · by_cases h : p = o
          · subst h
            simp [lookup, Ne.symm (by assumption : ¬p = offset)]
          · simp [lookup, h, ih]

/-- After an insertion the cell is at its offset and all others are where they were. -/
theorem find?_insert (i : Image) (offset o : Nat) (cell : Cell) :
    (i.insert offset cell).find? o = if offset = o then some cell else i.find? o :=
  lookup_put offset o cell i.cells

/-- The number of cells. -/
def size (i : Image) : Nat :=
  i.cells.length

/-- The cells from the least offset on. -/
def ascending (i : Image) : Cells :=
  i.cells.reverse

/-- The offset after the last cell. -/
def extent (i : Image) : Nat :=
  match i.cells with
  | [] => 0
  | (offset, cell) :: _ => offset + cell.width

/-- The number of pages that hold the image. -/
def pages (i : Image) : Nat :=
  (i.extent + (pageSize - 1)) / pageSize

/-- The bytes from offset zero to the end of the image; what sticks out is lost. -/
def bytes (i : Image) : Bytes :=
  (i.ascending.foldl (fun bytes p => Memory.put bytes p.1 p.2.toBytes)
    (Array.replicate i.extent 0)).toList

/-- Whether no cell sticks out. -/
def isClosed (i : Image) : Bool :=
  i.cells.all fun p => p.1 + p.2.width ≤ i.extent

/-- The bytes of an image of which no cell sticks out. -/
def toBytes? (i : Image) : Option Bytes :=
  if i.isClosed then some i.bytes else none

end Image

end ArrayScript
