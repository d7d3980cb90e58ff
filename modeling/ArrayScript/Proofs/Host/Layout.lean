import ArrayScript.Host.Layout
import ArrayScript.Proofs.Host.Image

/-!
Where arrays are placed.

* `Placement`: an array argument with the offset of its length, a multiple of the width
  of its elements.
* `placements`: where the arguments of a call are placed, each array after all arrays
  before it (`placements_pairwise`).
* `place_spec`: the image of a layout is separate, holds exactly the cells of the
  placements, and the payloads are theirs.
-/

namespace ArrayScript

/-! ### Alignment -/

lemma dvd_alignUp (offset width : Nat) : width ∣ alignUp offset width :=
  Nat.dvd_mul_left _ _

lemma le_alignUp {offset width : Nat} (h : 0 < width) : offset ≤ alignUp offset width := by
  rw [alignUp]
  have hlt := Nat.lt_div_mul_add h (a := offset + (width - 1))
  omega

/-! ### Arrays as cells -/

namespace Value

/-- The elements of an array as words. -/
def elements : Value → List Word
  | int32Array items => items.map .i32
  | float64Array items => items.map .f64
  | int32 _ | float64 _ | boolean _ => []

/-- The cell for the length of an array. -/
def lengthCell (v : Value) : Cell :=
  if v.type.elementSize = 4 then .i32 (Int32.ofNat v.length) else .i64 (Int64.ofNat v.length)

end Value

/-- The cell of a word. -/
def Word.cell : Word → Cell
  | i32 n => .i32 n
  | f64 x => .f64 x

/-- The cells of an array, its length first. -/
def Value.cells (v : Value) : List Cell :=
  v.lengthCell :: v.elements.map Word.cell

lemma Value.arrayCells?_eq (v : Value) :
    v.arrayCells? = if v.isArray then some (v.type.elementSize, v.cells) else none := by
  cases v <;> simp [arrayCells?, isArray, type, ValueType.isArray, ValueType.elementSize, cells,
    lengthCell, elements, length, Word.cell, Function.comp_def]

lemma Value.length_elements (v : Value) : v.elements.length = v.length := by
  cases v <;> simp [elements, length]

lemma Value.length_cells (v : Value) : v.cells.length = v.length + 1 := by
  rw [cells, List.length_cons, List.length_map, length_elements]

lemma Value.elementSize_pos (v : Value) : 0 < v.type.elementSize := by
  cases v <;> simp [type, ValueType.elementSize]

lemma Value.width_cells {v : Value} {c : Cell} (h : c ∈ v.cells) :
    c.width = v.type.elementSize := by
  cases v <;> simp [cells, lengthCell, elements, type, ValueType.elementSize] at h ⊢
  all_goals
    rcases h with rfl | ⟨_, _, rfl⟩
    all_goals rfl

/-! ### Placements -/

/-- An array argument at its place in memory. -/
structure Placement where
  value : Value
  is_array : value.isArray = true
  /-- the offset of its length -/
  header : Nat
  aligned : value.type.elementSize ∣ header

namespace Placement

/-- The width of its cells. -/
def width (q : Placement) : Nat :=
  q.value.type.elementSize

/-- The offset of its first element. -/
def payload (q : Placement) : Nat :=
  q.header + q.width

/-- The offset after its last element. -/
def stop (q : Placement) : Nat :=
  q.header + q.width * q.value.cells.length

/-- A cell is one of the array at its offset. -/
def Holds (q : Placement) (p : Nat × Cell) : Prop :=
  ∃ j, q.value.cells[j]? = some p.2 ∧ p.1 = q.header + q.width * j

/-- An array placed after an offset. -/
def after (offset : Nat) (v : Value) (h : v.isArray = true) : Placement :=
  ⟨v, h, alignUp offset v.type.elementSize, dvd_alignUp _ _⟩

lemma le_header_after (offset : Nat) (v : Value) (h : v.isArray = true) :
    offset ≤ (after offset v h).header :=
  le_alignUp v.elementSize_pos

lemma header_le_stop (q : Placement) : q.header ≤ q.stop :=
  Nat.le_add_right _ _

end Placement

/-- Where arguments are placed after an offset. -/
def placements (offset : Nat) : List Value → List (Option Placement)
  | [] => []
  | v :: rest =>
    if h : v.isArray = true then
      some (.after offset v h) :: placements (Placement.after offset v h).stop rest
    else none :: placements offset rest

section

variable {offset : Nat} {arguments : List Value} {q : Placement}

lemma placements_value {k : Nat} (h : (placements offset arguments)[k]? = some (some q)) :
    arguments[k]? = some q.value := by
  induction arguments generalizing offset k with
  | nil => cases h
  | cons v rest ih =>
      rw [placements] at h
      split at h
      · cases k with
        | zero =>
            obtain rfl := Option.some.inj (Option.some.inj h)
            rfl
        | succ k => exact ih h
      · cases k with
        | zero => cases h
        | succ k => exact ih h

lemma placements_isArray {k : Nat} {v : Value} (h : arguments[k]? = some v)
    (hv : v.isArray = true) :
    ∃ q, (placements offset arguments)[k]? = some (some q) ∧ q.value = v := by
  induction arguments generalizing offset k with
  | nil => cases h
  | cons u rest ih =>
      rw [placements]
      cases k with
      | zero =>
          obtain rfl := Option.some.inj h
          rw [dif_pos hv]
          exact ⟨_, rfl, rfl⟩
      | succ k =>
          split
          · exact ih h
          · exact ih h

/-- Arrays are placed after the given offset. -/
lemma le_header_of_mem (h : some q ∈ placements offset arguments) : offset ≤ q.header := by
  induction arguments generalizing offset with
  | nil => cases h
  | cons v rest ih =>
      rw [placements] at h
      split at h
      · rename_i hv
        have hle := Placement.le_header_after offset v hv
        rcases List.mem_cons.mp h with h | h
        · obtain rfl := Option.some.inj h
          exact hle
        · calc offset ≤ (Placement.after offset v hv).header := hle
            _ ≤ (Placement.after offset v hv).stop := Placement.header_le_stop _
            _ ≤ q.header := ih h
      · rcases List.mem_cons.mp h with h | h
        · cases h
        · exact ih h

/-- Arrays are placed one after another. -/
theorem placements_pairwise (offset : Nat) (arguments : List Value) :
    (placements offset arguments).Pairwise fun a b =>
      ∀ q ∈ a, ∀ r ∈ b, q.stop ≤ r.header := by
  induction arguments generalizing offset with
  | nil => exact .nil
  | cons v rest ih =>
      rw [placements]
      split
      · refine List.pairwise_cons.mpr ⟨?_, ih _⟩
        rintro b hb q hq r rfl
        obtain rfl := Option.some.inj hq
        exact le_header_of_mem hb
      · refine List.pairwise_cons.mpr ⟨?_, ih _⟩
        rintro b hb q hq
        cases hq

end

/-! ### Layouts -/

/-- What placing arguments in addition to an image gives. -/
structure Places (image : Image) (placed : List (Option Placement)) (layout : Layout) : Prop where
  payloads : layout.payloads = placed.map (Option.map Placement.payload)
  separate : layout.image.Separate
  mem_cells : ∀ p, p ∈ layout.image.cells ↔ p ∈ image.cells ∨ ∃ q, some q ∈ placed ∧ q.Holds p
  stop_le : ∀ q, some q ∈ placed → q.stop ≤ maxAddress

section

variable {image : Image} {offset : Nat} {v : Value} {rest : List Value} {layout : Layout}

lemma place_array (hv : v.isArray = true)
    (h : Layout.place image offset (v :: rest) = some layout) :
    (Placement.after offset v hv).stop ≤ maxAddress ∧ ∃ layout',
      Layout.place (image.insertRun v.type.elementSize (Placement.after offset v hv).header v.cells)
        (Placement.after offset v hv).stop rest = some layout' ∧
      layout = ⟨layout'.image, some (Placement.after offset v hv).payload :: layout'.payloads⟩ := by
  rw [Layout.place, v.arrayCells?_eq, if_pos hv] at h
  obtain ⟨_, hguard, h⟩ := Option.bind_eq_some_iff.mp h
  obtain ⟨layout', hplace, h⟩ := Option.bind_eq_some_iff.mp h
  rw [guard] at hguard
  split at hguard
  · rename_i hle
    exact ⟨hle, layout', hplace, (Option.some.inj h).symm⟩
  · cases hguard

lemma place_scalar (hv : v.isArray ≠ true)
    (h : Layout.place image offset (v :: rest) = some layout) :
    ∃ layout', Layout.place image offset rest = some layout' ∧
      layout = ⟨layout'.image, none :: layout'.payloads⟩ := by
  rw [Layout.place, v.arrayCells?_eq, if_neg hv] at h
  obtain ⟨layout', hplace, h⟩ := Option.bind_eq_some_iff.mp h
  exact ⟨layout', hplace, (Option.some.inj h).symm⟩

end

/-- A layout after an array was put past the end of an image. -/
lemma Places.array {image : Image} {q : Placement} {placed : List (Option Placement)}
    {layout : Layout} (hend : image.EndsBy q.header) (hstop : q.stop ≤ maxAddress)
    (h : Places (image.insertRun q.width q.header q.value.cells) placed layout) :
    Places image (some q :: placed) ⟨layout.image, some q.payload :: layout.payloads⟩ := by
  have hwidth : ∀ c ∈ q.value.cells, c.width = q.width := fun c hc => Value.width_cells hc
  refine ⟨?_, h.separate, fun p => ?_, fun r hr => ?_⟩
  · rw [List.map_cons, ← h.payloads]
    rfl
  · rw [h.mem_cells, Image.mem_insertRun hend hwidth]
    constructor
    · rintro ((hholds | hmem) | ⟨r, hr, hholds⟩)
      · exact .inr ⟨q, List.mem_cons_self, hholds⟩
      · exact .inl hmem
      · exact .inr ⟨r, List.mem_cons_of_mem _ hr, hholds⟩
    · rintro (hmem | ⟨r, hr, hholds⟩)
      · exact .inl (.inr hmem)
      · rcases List.mem_cons.mp hr with hr | hr
        · obtain rfl := Option.some.inj hr
          exact .inl (.inl hholds)
        · exact .inr ⟨r, hr, hholds⟩
  · rcases List.mem_cons.mp hr with hr | hr
    · obtain rfl := Option.some.inj hr
      exact hstop
    · exact h.stop_le r hr

/-- A layout after an argument that is not an array. -/
lemma Places.scalar {image : Image} {placed : List (Option Placement)} {layout : Layout}
    (h : Places image placed layout) :
    Places image (none :: placed) ⟨layout.image, none :: layout.payloads⟩ := by
  refine ⟨?_, h.separate, fun p => ?_, fun q hq => ?_⟩
  · rw [List.map_cons, ← h.payloads]
    rfl
  · rw [h.mem_cells]
    simp
  · exact h.stop_le q (by simpa using hq)

/-- Arguments are placed past the end of an image, by recursion over them. -/
theorem place_spec {image : Image} {offset : Nat} {arguments : List Value} {layout : Layout}
    (hseparate : image.Separate) (hend : image.EndsBy offset)
    (h : Layout.place image offset arguments = some layout) :
    Places image (placements offset arguments) layout := by
  induction arguments generalizing image offset layout with
  | nil =>
      obtain rfl := Option.some.inj h
      exact ⟨rfl, hseparate, by simp [placements], by simp [placements]⟩
  | cons v rest ih =>
      rw [placements]
      by_cases hv : v.isArray = true
      · obtain ⟨hstop, layout', hplace, rfl⟩ := place_array hv h
        rw [dif_pos hv]
        have hend' : image.EndsBy (Placement.after offset v hv).header := fun p hp =>
          (hend p hp).trans (Placement.le_header_after offset v hv)
        obtain ⟨hseparate', hend''⟩ := Image.insertRun_separate hseparate hend' fun c hc =>
          Value.width_cells hc
        exact Places.array hend' hstop (ih hseparate' hend'' hplace)
      · obtain ⟨layout', hplace, rfl⟩ := place_scalar hv h
        rw [dif_neg hv]
        exact Places.scalar (ih hseparate hend hplace)

end ArrayScript
