import Mathlib.Tactic
import ArrayScript.Host.Image

/-!
Images whose cells do not overlap.

* `Separate`: each cell ends where the next one begins, or before.
* `insertRun_separate`, `mem_insertRun`: cells that are put one after another past the
  end of an image leave it separate and hold what was put there.
* `Image.memory`: a fresh memory of as many pages as needed, with the bytes of an image.
* `memory_covered`, `memory_uncovered`: a byte of this memory belongs to the cell that
  covers it, and where there is none it is zero.
-/

namespace ArrayScript

/-! ### Bytes that are put somewhere -/

namespace Memory

variable {bytes : Array UInt8} {content : Bytes} {address k : Nat}

lemma getElem?_put_of_outside (h : k < address ∨ address + content.length ≤ k) :
    (put bytes address content)[k]? = bytes[k]? := by
  induction content generalizing bytes address with
  | nil => rfl
  | cons b rest ih =>
      rw [List.length_cons] at h
      rw [put, ih (by omega), Array.getElem?_setIfInBounds_ne (by omega)]

lemma getElem?_put_of_inside (hle : address ≤ k) (hlt : k < address + content.length)
    (hsize : k < bytes.size) : (put bytes address content)[k]? = content[k - address]? := by
  induction content generalizing bytes address with
  | nil =>
      rw [List.length_nil] at hlt
      omega
  | cons b rest ih =>
      rw [List.length_cons] at hlt
      rw [put]
      rcases Nat.eq_or_lt_of_le hle with rfl | hlt'
      · rw [getElem?_put_of_outside (by omega), Array.getElem?_setIfInBounds_self_of_lt hsize,
          Nat.sub_self, List.getElem?_cons_zero]
      · rw [ih (by omega) (by omega) (by rwa [Array.size_setIfInBounds]),
          show k - address = k - (address + 1) + 1 by omega, List.getElem?_cons_succ]

/-- Bytes that lie in a memory one after another are read together. -/
lemma read?_eq_some {m : Memory} (hholds : address + content.length ≤ m.size)
    (h : ∀ j < content.length, m.bytes[address + j]? = content[j]?) :
    m.read? address content.length = some content := by
  rw [read?, holds, if_pos (by simpa using hholds), Option.some.injEq]
  refine List.ext_getElem? fun j => ?_
  rw [Array.getElem?_toList, Array.getElem?_extract]
  have hsize : address + content.length ≤ m.bytes.size := hholds
  by_cases hj : j < content.length
  · rw [if_pos (by omega), h j hj]
  · rw [if_neg (by omega), List.getElem?_eq_none (by omega)]

end Memory

/-! ### Separate cells -/

namespace Image

/-- A cell covers a byte. -/
def Covers (p : Nat × Cell) (k : Nat) : Prop :=
  p.1 ≤ k ∧ k < p.1 + p.2.width

/-- Of two cells, the one further down ends before the other begins. -/
def Separate (i : Image) : Prop :=
  i.cells.Pairwise fun a b => b.1 + b.2.width ≤ a.1

/-- All cells end before an offset. -/
def EndsBy (i : Image) (limit : Nat) : Prop :=
  ∀ p ∈ i.cells, p.1 + p.2.width ≤ limit

variable {i : Image} {offset width : Nat} {cells : List Cell}

lemma width_pos (c : Cell) : 0 < c.width := by
  cases c <;> simp [Cell.width]

/-- A cell past the end of an image comes first. -/
lemma insert_cells (h : i.EndsBy offset) (cell : Cell) :
    (i.insert offset cell).cells = (offset, cell) :: i.cells := by
  obtain ⟨l, hl⟩ := i
  cases l with
  | nil => rfl
  | cons p rest =>
      have hend := h p List.mem_cons_self
      have hpos := width_pos p.2
      show put offset cell (p :: rest) = _
      rw [put, if_pos (by omega)]

lemma insert_separate (hs : i.Separate) (h : i.EndsBy offset) (cell : Cell) :
    (i.insert offset cell).Separate := by
  rw [Separate]
  rw [insert_cells h, List.pairwise_cons]
  exact ⟨h, hs⟩

lemma insert_endsBy (h : i.EndsBy offset) (cell : Cell) :
    (i.insert offset cell).EndsBy (offset + cell.width) := by
  rw [EndsBy]
  rw [insert_cells h, List.forall_mem_cons]
  exact ⟨le_rfl, fun p hp => (h p hp).trans (Nat.le_add_right _ _)⟩

/-- Cells of one width that are put one after another past the end of an image. -/
lemma insertRun_separate (hs : i.Separate) (h : i.EndsBy offset)
    (hwidth : ∀ c ∈ cells, c.width = width) :
    (i.insertRun width offset cells).Separate ∧
      (i.insertRun width offset cells).EndsBy (offset + width * cells.length) := by
  induction cells generalizing i offset with
  | nil => exact ⟨hs, h⟩
  | cons c rest ih =>
      obtain ⟨hc, hrest⟩ := List.forall_mem_cons.mp hwidth
      have hend := hc ▸ insert_endsBy h c
      obtain ⟨hseparate, hends⟩ := ih (insert_separate hs h c) hend hrest
      refine ⟨hseparate, ?_⟩
      rw [List.length_cons, Nat.mul_succ, Nat.add_comm _ width, ← Nat.add_assoc]
      exact hends

/-- What is in an image after cells were put one after another past its end. -/
lemma mem_insertRun (h : i.EndsBy offset) (hwidth : ∀ c ∈ cells, c.width = width)
    {p : Nat × Cell} :
    p ∈ (i.insertRun width offset cells).cells ↔
      (∃ j, cells[j]? = some p.2 ∧ p.1 = offset + width * j) ∨ p ∈ i.cells := by
  induction cells generalizing i offset with
  | nil => simp [insertRun]
  | cons c rest ih =>
      obtain ⟨hc, hrest⟩ := List.forall_mem_cons.mp hwidth
      have hend := hc ▸ insert_endsBy h c
      rw [insertRun, ih hend hrest, insert_cells h, List.mem_cons]
      constructor
      · rintro (⟨j, hj, hp⟩ | rfl | hmem)
        · exact .inl ⟨j + 1, hj, by rw [hp]; ring⟩
        · exact .inl ⟨0, rfl, rfl⟩
        · exact .inr hmem
      · rintro (⟨j, hj, hp⟩ | hmem)
        · cases j with
          | zero => exact .inr (.inl (Prod.ext hp (Option.some.inj hj).symm))
          | succ j => exact .inl ⟨j, hj, by rw [hp]; ring⟩
        · exact .inr (.inr hmem)

/-- A cell of an image is found at its offset. -/
lemma find?_of_mem {p : Nat × Cell} (h : p ∈ i.cells) : i.find? p.1 = some p.2 := by
  obtain ⟨l, hl⟩ := i
  show lookup p.1 l = some p.2
  induction l with
  | nil => cases h
  | cons q rest ih =>
      obtain ⟨hq, hrest⟩ := List.pairwise_cons.mp hl
      rcases List.mem_cons.mp h with rfl | h
      · rw [lookup, if_pos rfl]
      · rw [lookup, if_neg (hq p h).ne', ih hrest h]

/-! ### The bytes of an image -/

section

variable {bytes : Array UInt8} {l : Cells} {p : Nat × Cell} {k : Nat}

lemma foldl_put_of_uncovered (h : ∀ p ∈ l, ¬ Covers p k) :
    (l.foldl (fun bytes p => Memory.put bytes p.1 p.2.toBytes) bytes)[k]? = bytes[k]? := by
  induction l generalizing bytes with
  | nil => rfl
  | cons q rest ih =>
      obtain ⟨hq, hrest⟩ := List.forall_mem_cons.mp h
      rw [Covers, not_and_or] at hq
      rw [List.foldl_cons, ih hrest,
        Memory.getElem?_put_of_outside (by rw [Cell.length_toBytes]; omega)]

lemma size_foldl_put :
    (l.foldl (fun bytes p => Memory.put bytes p.1 p.2.toBytes) bytes).size = bytes.size := by
  induction l generalizing bytes with
  | nil => rfl
  | cons q rest ih => rw [List.foldl_cons, ih, Memory.size_put]

/-- A cell is not overwritten by later ones that lie elsewhere. -/
lemma foldl_put_of_last {before after : Cells} (hafter : ∀ q ∈ after, ¬ Covers q k)
    (hk : Covers p k) (hsize : k < bytes.size) :
    ((before ++ p :: after).foldl (fun bytes p => Memory.put bytes p.1 p.2.toBytes) bytes)[k]? =
      p.2.toBytes[k - p.1]? := by
  obtain ⟨hle, hlt⟩ := hk
  rw [List.foldl_append, List.foldl_cons, foldl_put_of_uncovered hafter,
    Memory.getElem?_put_of_inside hle (by rwa [Cell.length_toBytes]) (by rwa [size_foldl_put])]

/-- A cell is not overwritten by later ones that begin after it. -/
lemma foldl_put_of_covered (hs : l.Pairwise fun a b => a.1 + a.2.width ≤ b.1) (hp : p ∈ l)
    (hk : Covers p k) (hsize : k < bytes.size) :
    (l.foldl (fun bytes p => Memory.put bytes p.1 p.2.toBytes) bytes)[k]? =
      p.2.toBytes[k - p.1]? := by
  obtain ⟨before, after, rfl⟩ := List.append_of_mem hp
  have hafter := (List.pairwise_cons.mp (List.pairwise_append.mp hs).2.1).1
  refine foldl_put_of_last (fun q hq hcovers => ?_) hk hsize
  have hbegin := hafter q hq
  have hend := hk.2
  have hcover := hcovers.1
  omega

end

variable {p : Nat × Cell} {k : Nat}

/-- Separate cells end before the image does. -/
lemma Separate.le_extent (hs : i.Separate) (hp : p ∈ i.cells) : p.1 + p.2.width ≤ i.extent := by
  obtain ⟨l, hl⟩ := i
  cases l with
  | nil => cases hp
  | cons q rest =>
      show _ ≤ q.1 + q.2.width
      rcases List.mem_cons.mp hp with rfl | hp
      · exact le_rfl
      · exact ((List.pairwise_cons.mp hs).1 p hp).trans (Nat.le_add_right _ _)

lemma length_bytes (i : Image) : i.bytes.length = i.extent := by
  rw [bytes, Array.length_toList, size_foldl_put, Array.size_replicate]

lemma extent_le_pages (i : Image) : i.extent ≤ i.pages * pageSize := by
  rw [pages, pageSize]
  omega

/-- A fresh memory with the bytes of an image. -/
def memory (i : Image) : Memory :=
  (Memory.zeros i.pages).write 0 i.bytes

lemma size_memory (i : Image) : i.memory.size = i.pages * pageSize := by
  rw [memory, Memory.size_write, Memory.zeros, Memory.size, Array.size_replicate]

/-- The bytes of a cell are where it was put. -/
theorem memory_covered (hs : i.Separate) (hp : p ∈ i.cells) {j : Nat} (hj : j < p.2.width) :
    i.memory.bytes[p.1 + j]? = p.2.toBytes[j]? := by
  have hextent := hs.le_extent hp
  have hsize := i.extent_le_pages
  have hbyte : i.bytes[p.1 + j]? = p.2.toBytes[j]? := by
    rw [bytes, Array.getElem?_toList, foldl_put_of_covered (p := p), Nat.add_sub_cancel_left]
    · exact List.pairwise_reverse.mpr hs
    · exact List.mem_reverse.mpr hp
    · exact ⟨by omega, by omega⟩
    · rw [Array.size_replicate]
      omega
  show (Memory.put _ 0 i.bytes)[p.1 + j]? = _
  rw [Memory.getElem?_put_of_inside (Nat.zero_le _), Nat.sub_zero, hbyte]
  · rw [length_bytes]
    omega
  · rw [Memory.zeros, Array.size_replicate]
    omega

/-- A byte that no cell covers is zero. -/
theorem memory_uncovered (h : ∀ p ∈ i.cells, ¬ Covers p k) (hk : k < i.memory.size) :
    i.memory.bytes[k]? = some 0 := by
  rw [size_memory] at hk
  show (Memory.put _ 0 i.bytes)[k]? = _
  by_cases hextent : k < i.extent
  · rw [Memory.getElem?_put_of_inside (Nat.zero_le _) (by rw [length_bytes]; omega)
      (by rw [Memory.zeros, Array.size_replicate]; exact hk), Nat.sub_zero, bytes,
      Array.getElem?_toList, foldl_put_of_uncovered, Array.getElem?_replicate, if_pos hextent]
    exact fun p hp => h p (List.mem_reverse.mp hp)
  · rw [Memory.getElem?_put_of_outside (by rw [length_bytes]; omega), Memory.zeros,
      Array.getElem?_replicate, if_pos hk]

/-- A word whose bytes a cell begins with is loaded from its offset. -/
lemma load?_memory (hs : i.Separate) (hp : p ∈ i.cells) {t : WordType} {content : Bytes}
    (hlength : content.length = t.width) (hcontent : content <+: p.2.toBytes) :
    i.memory.load? t p.1 = some (Word.ofBytes t content) := by
  have hle : content.length ≤ p.2.width := by
    simpa using hcontent.length_le
  have hextent := hs.le_extent hp
  have hsize := i.extent_le_pages
  have hread : i.memory.read? p.1 content.length = some content := by
    refine Memory.read?_eq_some (by rw [size_memory]; omega) fun j hj => ?_
    obtain ⟨rest, hrest⟩ := hcontent
    rw [memory_covered hs hp (by omega), ← hrest, List.getElem?_append_left hj]
  rw [Memory.load?, ← hlength, hread, Option.map_some]

end Image

end ArrayScript
