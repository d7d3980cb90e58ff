import ArrayScript.Proofs.Host.Image

/-!
Images made by any insertions, whose cells may overlap.

An image is determined by what was inserted last at each offset, so everything is said
in terms of `lastInserted`.

* `writeEach`: cells are written one after another, and this fails at the first one that
  does not fit. `toBytes?_eq_writeEach` says that the bytes of an image come about so.
* `toBytes?_eq_none_iff`: only a last cell of four bytes can be passed, and only by an
  eight-byte cell that starts less than four bytes before it.
* `getElem?_bytes`: a byte belongs to the cell with the greatest offset among those that
  cover it, and where there is none it is zero.
* `assembled_ofInsertions`: all of this for any sequence of insertions.
-/

namespace ArrayScript

/-- The bits of a cell, as a number. -/
def Cell.pattern : Cell → Nat
  | i32 n => n.toUInt32.toNat
  | i64 n => n.toUInt64.toNat
  | f64 x => x.bits.toNat

namespace Bytes

lemma getElem?_littleEndian {width j : Nat} (n : Nat) (h : j < width) :
    (littleEndian width n)[j]? = some (UInt8.ofNat (n / 256 ^ j)) := by
  induction width generalizing n j with
  | zero => omega
  | succ width ih =>
      cases j with
      | zero => simp [littleEndian]
      | succ j =>
          rw [littleEndian, List.getElem?_cons_succ, ih _ (by omega), Nat.div_div_eq_div_mul,
            ← Nat.pow_succ']

end Bytes

/-- The bytes of a cell are those of its bits, low ones first. -/
lemma Cell.getElem?_toBytes {c : Cell} {j : Nat} (h : j < c.width) :
    c.toBytes[j]? = some (UInt8.ofNat (c.pattern / 256 ^ j)) := by
  cases c <;> exact Bytes.getElem?_littleEndian _ h

namespace Image

/-! ### What was inserted last -/

/-- The image after cells were inserted one after another. -/
def ofInsertions (l : List (Nat × Cell)) : Image :=
  l.foldl (fun i p => i.insert p.1 p.2) empty

/-- The cell that was inserted last at an offset. -/
def lastInserted (l : List (Nat × Cell)) (offset : Nat) : Option Cell :=
  (l.reverse.find? (·.1 = offset)).map (·.2)

variable {l l' : List (Nat × Cell)} {i : Image} {p q : Nat × Cell} {k : Nat}

lemma lastInserted_append_singleton (l : List (Nat × Cell)) (p : Nat × Cell) (offset : Nat) :
    lastInserted (l ++ [p]) offset =
      if p.1 = offset then some p.2 else lastInserted l offset := by
  by_cases h : p.1 = offset <;> simp [lastInserted, h]

lemma find?_ofInsertions (l : List (Nat × Cell)) (offset : Nat) :
    (ofInsertions l).find? offset = lastInserted l offset := by
  induction l using List.reverseRecOn with
  | nil => rfl
  | append_singleton l p ih =>
      rw [lastInserted_append_singleton, ← ih, ofInsertions, List.foldl_append, List.foldl_cons,
        List.foldl_nil, find?_insert]
      rfl

/-- The cells of an image are what is found at their offsets. -/
lemma mem_cells_iff : p ∈ i.cells ↔ i.find? p.1 = some p.2 := by
  refine ⟨find?_of_mem, fun h => ?_⟩
  obtain ⟨l, hl⟩ := i
  change lookup p.1 l = some p.2 at h
  show p ∈ l
  induction l with
  | nil => cases h
  | cons q rest ih =>
      rw [lookup] at h
      split at h
      · rename_i hq
        exact List.mem_cons.mpr (.inl (Prod.ext hq.symm (Option.some.inj h).symm))
      · exact List.mem_cons_of_mem _ (ih (List.pairwise_cons.mp hl).2 h)

lemma mem_ofInsertions : p ∈ (ofInsertions l).cells ↔ lastInserted l p.1 = some p.2 := by
  rw [mem_cells_iff, find?_ofInsertions]

/-- An image is determined by the cells that are found in it. -/
lemma ext_find? {i j : Image} (h : ∀ offset, i.find? offset = j.find? offset) : i = j := by
  have hmem : ∀ p, p ∈ i.cells ↔ p ∈ j.cells := fun p => by
    rw [mem_cells_iff, mem_cells_iff, h]
  have hnodup : ∀ i : Image, i.cells.Nodup := fun i =>
    i.descending.imp fun hlt heq => by
      subst heq
      exact absurd hlt (lt_irrefl _)
  have hperm := (List.perm_ext_iff_of_nodup (hnodup i) (hnodup j)).mpr hmem
  have hcells : i.cells = j.cells :=
    hperm.eq_of_pairwise (fun a b _ _ hab hba => by omega) i.descending j.descending
  cases i
  cases j
  simp_all

/-- Only the last cell inserted at each offset matters, and not in which order different
offsets were filled. -/
lemma ofInsertions_congr (h : ∀ offset, lastInserted l offset = lastInserted l' offset) :
    ofInsertions l = ofInsertions l' :=
  ext_find? fun offset => by rw [find?_ofInsertions, find?_ofInsertions, h]

/-! ### Where an image ends -/

/-- A cell that was inserted last at its offset, beyond which there is no other. -/
structure IsHighest (l : List (Nat × Cell)) (p : Nat × Cell) : Prop where
  inserted : lastInserted l p.1 = some p.2
  highest : ∀ q : Nat × Cell, lastInserted l q.1 = some q.2 → q.1 ≤ p.1

lemma isHighest_of_cells {rest : Cells} (h : (ofInsertions l).cells = p :: rest) :
    IsHighest l p := by
  have hsorted := (ofInsertions l).descending
  rw [Descending] at hsorted
  rw [h] at hsorted
  refine ⟨mem_ofInsertions.mp (h ▸ List.mem_cons_self), fun q hq => ?_⟩
  have hmem := mem_ofInsertions.mpr hq
  rw [h] at hmem
  rcases List.mem_cons.mp hmem with rfl | hmem
  · exact le_rfl
  · exact ((List.pairwise_cons.mp hsorted).1 q hmem).le

lemma IsHighest.unique (hp : IsHighest l p) (hq : IsHighest l q) : p = q := by
  have hoffset : p.1 = q.1 := (hq.highest p hp.inserted).antisymm (hp.highest q hq.inserted)
  refine Prod.ext hoffset (Option.some.inj ?_)
  rw [← hp.inserted, ← hq.inserted, hoffset]

/-- If anything was inserted, there is a highest cell. -/
lemma eq_nil_or_isHighest (l : List (Nat × Cell)) : l = [] ∨ ∃ p, IsHighest l p := by
  cases hcells : (ofInsertions l).cells with
  | cons p rest => exact .inr ⟨p, isHighest_of_cells hcells⟩
  | nil =>
      refine .inl ?_
      induction l using List.reverseRecOn with
      | nil => rfl
      | append_singleton l p _ =>
          have hmem : p ∈ (ofInsertions (l ++ [p])).cells := by
            rw [mem_ofInsertions, lastInserted_append_singleton, if_pos rfl]
          rw [hcells] at hmem
          cases hmem

lemma extent_of_isHighest (h : IsHighest l p) : (ofInsertions l).extent = p.1 + p.2.width := by
  have hmem := mem_ofInsertions.mpr h.inserted
  cases hcells : (ofInsertions l).cells with
  | nil =>
      rw [hcells] at hmem
      cases hmem
  | cons q rest =>
      obtain rfl := (isHighest_of_cells hcells).unique h
      rw [extent, hcells]

lemma pages_lt_extent (i : Image) : i.pages * pageSize < i.extent + pageSize := by
  rw [pages, pageSize]
  omega

/-! ### When a cell sticks out -/

/-- The array with cells written one after another. A cell that does not fit ends this. -/
def writeEach : Array UInt8 → Cells → Option (Array UInt8)
  | bytes, [] => some bytes
  | bytes, p :: rest =>
    if p.1 + p.2.width ≤ bytes.size then writeEach (Memory.put bytes p.1 p.2.toBytes) rest
    else none

lemma writeEach_eq (bytes : Array UInt8) (cells : Cells) :
    writeEach bytes cells =
      if cells.all fun p => p.1 + p.2.width ≤ bytes.size then
        some (cells.foldl (fun bytes p => Memory.put bytes p.1 p.2.toBytes) bytes)
      else none := by
  induction cells generalizing bytes with
  | nil => rfl
  | cons p rest ih =>
      rw [writeEach, ih, Memory.size_put, List.all_cons]
      by_cases h : p.1 + p.2.width ≤ bytes.size
      · rw [if_pos h, decide_eq_true h, Bool.true_and]
        rfl
      · rw [if_neg h, decide_eq_false h, Bool.false_and]
        rfl

/-- The bytes of an image are written cell by cell from the least offset on, and there are
none if a cell does not fit. -/
lemma toBytes?_eq_writeEach (i : Image) :
    i.toBytes? =
      (writeEach (Array.replicate i.extent 0) i.ascending).map (·.toList) := by
  rw [writeEach_eq, toBytes?, isClosed, ascending, List.all_reverse, Array.size_replicate]
  split <;> rfl

/-- Cells are four or eight bytes wide, and only the integers of 32 bits are four. -/
lemma width_eq_four_iff {c : Cell} : c.width = 4 ↔ ∃ n, c = .i32 n := by
  cases c <;> simp [Cell.width]

lemma width_cases (c : Cell) : c.width = 4 ∨ c.width = 8 := by
  cases c <;> simp [Cell.width]

/-- An image has no bytes exactly if its last cell is an integer of 32 bits and some cell
of eight bytes starts one, two or three bytes before it. -/
lemma toBytes?_eq_none_iff :
    (ofInsertions l).toBytes? = none ↔ ∃ offset n, IsHighest l (offset, .i32 n) ∧
      ∃ q : Nat × Cell, lastInserted l q.1 = some q.2 ∧ q.2.width = 8 ∧
        q.1 < offset ∧ offset ≤ q.1 + 3 := by
  have hnone : (ofInsertions l).toBytes? = none ↔
      ∃ q : Nat × Cell, lastInserted l q.1 = some q.2 ∧
        (ofInsertions l).extent < q.1 + q.2.width := by
    rw [toBytes?, ite_eq_right_iff]
    simp only [reduceCtorEq, imp_false, isClosed, List.all_eq_true, decide_eq_true_eq,
      not_forall, not_le, mem_ofInsertions, exists_prop]
  rw [hnone]
  constructor
  · rintro ⟨q, hq, hout⟩
    cases hcells : (ofInsertions l).cells with
    | nil =>
        have hmem := mem_ofInsertions.mpr hq
        rw [hcells] at hmem
        cases hmem
    | cons p rest =>
        have hp := isHighest_of_cells hcells
        rw [extent_of_isHighest hp] at hout
        have hle := hp.highest q hq
        -- the last cell itself does not stick out
        have hne : q.1 ≠ p.1 := fun heq => by
          have hsame : q.2 = p.2 := Option.some.inj (by rw [← hq, heq, hp.inserted])
          rw [heq, hsame] at hout
          exact absurd hout (lt_irrefl _)
        have hpw := width_cases p.2
        have hqw := width_cases q.2
        have hfour : p.2.width = 4 := by omega
        obtain ⟨n, hn⟩ := width_eq_four_iff.mp hfour
        exact ⟨p.1, n, hn ▸ hp, q, hq, by omega, by omega, by omega⟩
  · rintro ⟨offset, n, hp, q, hq, hwidth, hlt, hle⟩
    refine ⟨q, hq, ?_⟩
    rw [extent_of_isHighest hp, hwidth, Cell.width]
    omega

/-! ### Which cell a byte belongs to -/

/-- The cell on top at a byte: of those that cover it, the one with the greatest offset. -/
structure IsOnTop (l : List (Nat × Cell)) (k : Nat) (p : Nat × Cell) : Prop where
  inserted : lastInserted l p.1 = some p.2
  covers : Covers p k
  greatest : ∀ q : Nat × Cell, lastInserted l q.1 = some q.2 → Covers q k → q.1 ≤ p.1

/-- A byte that a cell covers comes from the cell on top. -/
lemma getElem?_bytes_of_isOnTop (hp : IsOnTop l k p) (hk : k < (ofInsertions l).extent) :
    (ofInsertions l).bytes[k]? = some (UInt8.ofNat (p.2.pattern / 256 ^ (k - p.1))) := by
  obtain ⟨hle, hlt⟩ := hp.covers
  obtain ⟨before, after, hsplit⟩ := List.append_of_mem
    (List.mem_reverse.mpr (mem_ofInsertions.mpr hp.inserted))
  have hsorted := List.pairwise_reverse.mpr (ofInsertions l).descending
  rw [hsplit] at hsorted
  have hafter := (List.pairwise_cons.mp (List.pairwise_append.mp hsorted).2.1).1
  have huncovered : ∀ q ∈ after, ¬ Covers q k := fun q hq hcovers => by
    have hmem : q ∈ (ofInsertions l).cells.reverse := by
      rw [hsplit]
      exact List.mem_append_right _ (List.mem_cons_of_mem _ hq)
    have hgreatest := hp.greatest q (mem_ofInsertions.mp (List.mem_reverse.mp hmem)) hcovers
    have hlater := hafter q hq
    omega
  rw [bytes, Array.getElem?_toList, ascending, hsplit,
    foldl_put_of_last huncovered hp.covers (by rwa [Array.size_replicate]),
    Cell.getElem?_toBytes (by omega)]

/-- A byte that no cell covers is zero. -/
lemma getElem?_bytes_of_uncovered
    (h : ∀ p : Nat × Cell, lastInserted l p.1 = some p.2 → ¬ Covers p k)
    (hk : k < (ofInsertions l).extent) : (ofInsertions l).bytes[k]? = some 0 := by
  rw [bytes, Array.getElem?_toList, foldl_put_of_uncovered, Array.getElem?_replicate, if_pos hk]
  exact fun p hp => h p (mem_ofInsertions.mp (List.mem_reverse.mp hp))

/-! ### Any insertions -/

/-- The bytes that insertions leave: as many as the image is long, each from the cell on
top, or zero if there is none. -/
structure Shows (l : List (Nat × Cell)) (bytes : Bytes) : Prop where
  length_eq : bytes.length = (ofInsertions l).extent
  onTop : ∀ k p, k < bytes.length → IsOnTop l k p →
    bytes[k]? = some (UInt8.ofNat (p.2.pattern / 256 ^ (k - p.1)))
  uncovered : ∀ k, k < bytes.length →
    (∀ p : Nat × Cell, lastInserted l p.1 = some p.2 → ¬ Covers p k) → bytes[k]? = some 0

lemma shows_of_toBytes? {bytes : Bytes} (h : (ofInsertions l).toBytes? = some bytes) :
    Shows l bytes := by
  rw [toBytes?, Option.ite_none_right_eq_some, Option.some.injEq] at h
  obtain ⟨-, rfl⟩ := h
  have hlength := length_bytes (ofInsertions l)
  exact ⟨hlength, fun k p hk hp => getElem?_bytes_of_isOnTop hp (hlength ▸ hk),
    fun k hk hp => getElem?_bytes_of_uncovered hp (hlength ▸ hk)⟩

/-- Whatever is inserted, in whatever order and with whatever overlaps: the image ends with
the cell at the highest offset; it has no bytes exactly if a cell of eight bytes passes a
last cell of four, which is when writing cell after cell runs out of room; otherwise the
bytes show the cell on top at each place; only the last cell inserted at each offset
matters; and the pages hold the image with less than a page to spare. -/
theorem assembled_ofInsertions (l : List (Nat × Cell)) :
    (l = [] ∧ (ofInsertions l).extent = 0 ∨
      ∃ p, IsHighest l p ∧ (ofInsertions l).extent = p.1 + p.2.width) ∧
    ((ofInsertions l).toBytes? =
      (writeEach (Array.replicate (ofInsertions l).extent 0) (ofInsertions l).ascending).map
        (·.toList)) ∧
    ((ofInsertions l).toBytes? = none ↔ ∃ offset n, IsHighest l (offset, .i32 n) ∧
      ∃ q : Nat × Cell, lastInserted l q.1 = some q.2 ∧ q.2.width = 8 ∧
        q.1 < offset ∧ offset ≤ q.1 + 3) ∧
    (∀ bytes, (ofInsertions l).toBytes? = some bytes → Shows l bytes) ∧
    (∀ l', (∀ offset, lastInserted l' offset = lastInserted l offset) →
      ofInsertions l' = ofInsertions l) ∧
    (ofInsertions l).extent ≤ (ofInsertions l).pages * pageSize ∧
    (ofInsertions l).pages * pageSize < (ofInsertions l).extent + pageSize := by
  refine ⟨?_, toBytes?_eq_writeEach _, toBytes?_eq_none_iff, fun _ => shows_of_toBytes?,
    fun l' => ofInsertions_congr, extent_le_pages _, pages_lt_extent _⟩
  rcases eq_nil_or_isHighest l with rfl | ⟨p, hp⟩
  · exact .inl ⟨rfl, rfl⟩
  · exact .inr ⟨p, hp, extent_of_isHighest hp⟩

theorem assembled_overlapping :
    Shows [(4, .i32 7), (0, .i64 (-1)), (6, .i32 5), (4, .i32 0x01020304)]
        [255, 255, 255, 255, 4, 3, 5, 0, 0, 0] ∧
      (ofInsertions [(5, .i64 0), (7, .i32 1)]).toBytes? = none := by
  refine ⟨(assembled_ofInsertions _).2.2.2.1 _ (by decide),
    (assembled_ofInsertions _).2.2.1.mpr ⟨7, 1, ⟨by decide, fun q hq => ?_⟩,
      (5, .i64 0), by decide, by decide, by decide, by decide⟩⟩
  have hmem : q ∈ [(7, Cell.i32 1), (5, .i64 0)] := mem_ofInsertions.mpr hq
  simp only [List.mem_cons, List.not_mem_nil, or_false] at hmem
  rcases hmem with rfl | rfl <;> decide

end Image

end ArrayScript
