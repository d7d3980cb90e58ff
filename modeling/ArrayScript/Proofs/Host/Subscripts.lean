import ArrayScript.Proofs.Host.Preparation
import ArrayScript.Proofs.Host.Stores

/-!
Where subscripts lead.

In a call with one array the memory begins with the cells of that array: its length, then
its elements. Addresses wrap at `2 ^ 32`, so there are `cellCount v` cells to be told apart,
and every index, in the array or not, leads to one of them, `cellOf v i`.

* `addressOf_cell`: the address of an index is that of its cell.
* `Subscript fresh v i`: what a read and a write with the index `i` do.
* `subscript_leads`: so it is for every index and every call with one array. An index out of
  range does no harm as long as it does not wrap onto a cell of the array, and then it
  reaches that cell.
* `subscript_wraps`: such indices exist.
-/

namespace ArrayScript

open Machine Lowering

/-! ### Cells -/

/-- The number of cells that the addresses tell apart, as wide as the elements of an array. -/
def cellCount (v : Value) : Nat :=
  4294967296 / v.type.elementSize

/-- The cell, counted from the start of memory, to which an index leads. -/
def cellOf (v : Value) (i : Int32) : Nat :=
  ((i.toInt + 1) % cellCount v).toNat

/-- The offset of the cell to which an index leads. -/
def cellOffset (v : Value) (i : Int32) : Nat :=
  cellOf v i * v.type.elementSize

lemma elementSize_cases (v : Value) : v.type.elementSize = 4 ∨ v.type.elementSize = 8 := by
  cases v <;> simp [Value.type, ValueType.elementSize]

lemma bmod_emod_address (n : Int) : n.bmod (2 ^ 32) % 4294967296 = n % 4294967296 :=
  Int.bmod_emod

/-- The address an integer stands for is the integer up to multiples of `2 ^ 32`. -/
lemma addressOf_eq_emod (a : Int32) : (addressOf a : Int) = a.toInt % 4294967296 := by
  have hbmod : a.toInt = (addressOf a : Int).bmod (2 ^ 32) :=
    BitVec.toInt_eq_toNat_bmod a.toBitVec
  have hlt : addressOf a < 4294967296 := a.toUInt32.toNat_lt
  rw [hbmod, bmod_emod_address]
  omega

/-- Behind a payload right after the first cell, an index leads to its cell. -/
lemma addressOf_cell (v : Value) (i : Int32) :
    addressOf (Int32.ofNat v.type.elementSize + i * Int32.ofNat v.type.elementSize) =
      cellOffset v i := by
  have hcast := addressOf_eq_emod
    (Int32.ofNat v.type.elementSize + i * Int32.ofNat v.type.elementSize)
  rw [Int32.toInt_add, Int32.toInt_mul, bmod_emod_address, Int.add_emod, bmod_emod_address,
    ← Int.add_emod] at hcast
  rw [cellOffset, cellOf, cellCount]
  rcases elementSize_cases v with hw | hw
  · rw [hw, show (Int32.ofNat 4).toInt = 4 by decide] at hcast
    rw [hw]
    omega
  · rw [hw, show (Int32.ofNat 8).toInt = 8 by decide] at hcast
    rw [hw]
    omega

/-- An index out of range that is not too far from the array leads past it. -/
lemma length_lt_cellOf {v : Value} {i : Int32}
    (h : (i.toInt < -1 ∧ (v.length : Int) < i.toInt + 1 + cellCount v) ∨
      ((v.length : Int) ≤ i.toInt ∧ i.toInt + 1 < cellCount v)) :
    v.length < cellOf v i := by
  rw [cellOf]
  rcases h with ⟨hnegative, hnear⟩ | ⟨hpast, hnear⟩
  · have hmod : (i.toInt + 1) % cellCount v = i.toInt + 1 + cellCount v := by
      rw [← Int.add_emod_right, Int.emod_eq_of_lt (by omega) (by omega)]
    omega
  · have hmod : (i.toInt + 1) % cellCount v = i.toInt + 1 :=
      Int.emod_eq_of_lt (by omega) hnear
    omega

/-! ### Reads and writes -/

/-- Code leaves a word on the operands, whatever else it does to variables and memory. -/
def LeavesWord (m : CodeModule) (fuel depth : Nat) (code : Code) (slots : Array Word)
    (memory : Memory) (w : Word) (slots' : Array Word) (memory' : Memory) : Prop :=
  ∀ stack, exec m fuel depth code ⟨stack, slots, memory⟩ = .next ⟨w :: stack, slots', memory'⟩

section

variable {m : CodeModule} {fuel depth : Nat} {slots slots₁ slots₂ slots₃ : Array Word}
  {memory memory₁ memory₂ memory₃ : Memory} {x y z : Operand} {v : Value} {i : Int32}

/-- The word that stands for an array which begins at the start of memory. -/
def firstPayload (v : Value) : Word :=
  .i32 (UInt32.ofNat v.type.elementSize).toInt32

/-- The address of an index is that of its cell. -/
lemma leaves_address (htype : x.type = v.type)
    (hx : LeavesWord m fuel depth x.code slots memory (firstPayload v) slots₁ memory₁)
    (hy : LeavesWord m fuel depth (y.as .int32) slots₁ memory₁ (.i32 i) slots₂ memory₂) :
    ∃ a, addressOf a = cellOffset v i ∧
      LeavesWord m fuel depth (address x y).code slots memory (.i32 a) slots₂ memory₂ := by
  refine ⟨_, addressOf_cell v i, fun stack => ?_⟩
  rw [address, exec_append, exec_append, hx, Outcome.andThen_next, hy, Outcome.andThen_next, htype]
  exact exec_plain rfl

/-- A read loads the cell of its index, or traps. -/
lemma exec_read (htype : x.type = v.type)
    (hx : LeavesWord m fuel depth x.code slots memory (firstPayload v) slots₁ memory₁)
    (hy : LeavesWord m fuel depth (y.as .int32) slots₁ memory₁ (.i32 i) slots₂ memory₂)
    (stack : List Word) :
    exec m fuel depth ((address x y).code ++ Lowering.plain [.load (address x y).type.wordType])
        ⟨stack, slots, memory⟩ =
      match memory₂.load? v.type.elementType.wordType (cellOffset v i) with
      | some u => .next ⟨u :: stack, slots₂, memory₂⟩
      | none => .trapped .outOfBounds memory₂ := by
  obtain ⟨a, ha, haddress⟩ := leaves_address htype hx hy
  rw [exec_append, haddress, Outcome.andThen_next, exec_op rfl,
    show (address x y).type = v.type.elementType by rw [← htype]; rfl, ← ha]
  cases hload : memory₂.load? v.type.elementType.wordType (addressOf a) with
  | some u => exact plain_load hload
  | none => exact plain_load_outOfBounds hload

/-- A write stores to the cell of its index, or traps. -/
lemma exec_write {u : Word} (htype : x.type = v.type) (harray : v.isArray = true)
    (hx : LeavesWord m fuel depth x.code slots memory (firstPayload v) slots₁ memory₁)
    (hy : LeavesWord m fuel depth (y.as .int32) slots₁ memory₁ (.i32 i) slots₂ memory₂)
    (hz : LeavesWord m fuel depth (z.as (address x y).type) slots₂ memory₂ u slots₃ memory₃)
    (hu : u.type = v.type.elementType.wordType) (stack : List Word) :
    exec m fuel depth ((address x y).code ++ z.as (address x y).type ++
        Lowering.plain [.store (address x y).type.wordType]) ⟨stack, slots, memory⟩ =
      if memory₃.holds (cellOffset v i) v.type.elementSize then
        .next ⟨stack, slots₃, memory₃.store (cellOffset v i) u⟩
      else .trapped .outOfBounds memory₃ := by
  obtain ⟨a, ha, haddress⟩ := leaves_address htype hx hy
  have hstore : plain (.store u.type) ⟨u :: .i32 a :: stack, slots₃, memory₃⟩ = _ :=
    plain_store u a
  rw [exec_append, exec_append, haddress, Outcome.andThen_next, hz, Outcome.andThen_next,
    exec_op rfl, show (address x y).type = v.type.elementType by rw [← htype]; rfl, ← hu, hstore,
    ha, hu, Value.width_element harray]

end

/-! ### The memory of a call with one array -/

/-- Bytes that are all zero are loaded as zero. -/
lemma load?_zeros {memory : Memory} {t : WordType} {a : Nat} (hsize : a + t.width ≤ memory.size)
    (hzero : ∀ j < t.width, memory.bytes[a + j]? = some 0) :
    memory.load? t a = some (Word.zero t) := by
  have hread : memory.read? a (List.replicate t.width (0 : UInt8)).length =
      some (List.replicate t.width 0) := by
    refine Memory.read?_eq_some (by simpa using hsize) fun j hj => ?_
    rw [List.length_replicate] at hj
    rw [hzero j hj, List.getElem?_replicate, if_pos hj]
  rw [List.length_replicate] at hread
  rw [Memory.load?, hread, Option.map_some]
  cases t <;> rfl

/-- The argument at a position is the only array. -/
structure OnlyArray (arguments : List Value) (k : Nat) (v : Value) : Prop where
  argument : arguments[k]? = some v
  isArray : v.isArray = true
  only : ∀ {j u}, arguments[j]? = some u → u.isArray = true → j = k

/-- The only array begins at the start of memory. -/
lemma OnlyArray.placement {arguments : List Value} {k : Nat} {v : Value}
    (h : OnlyArray arguments k v) :
    ∃ q, (placements 0 arguments)[k]? = some (some q) ∧ q.value = v ∧ q.header = 0 := by
  obtain ⟨hv, harray, honly⟩ := h
  induction arguments generalizing k with
  | nil => cases hv
  | cons u rest ih =>
      rw [placements]
      cases k with
      | zero =>
          obtain rfl := Option.some.inj hv
          rw [dif_pos harray]
          refine ⟨_, rfl, rfl, ?_⟩
          rcases elementSize_cases u with hw | hw <;> simp [Placement.after, alignUp, hw]
      | succ k =>
          have hscalar : ¬ u.isArray = true := fun hu => by
            have := honly (j := 0) rfl hu
            omega
          rw [dif_neg hscalar]
          refine ih hv fun {j u'} hu' harray' => ?_
          have := honly (j := j + 1) hu' harray'
          omega

/-- What a subscript with the index `i` does in a call whose only array is `v`, where `fresh`
is the memory the function is called with. -/
structure Subscript (fresh : Memory) (v : Value) (i : Int32) : Prop where
  /-- a read loads the cell of the index or traps, whatever the operands do -/
  read : ∀ {m fuel depth slots slots₁ slots₂ memory memory₁ memory₂ stack} {x y : Operand},
    x.type = v.type →
    LeavesWord m fuel depth x.code slots memory (firstPayload v) slots₁ memory₁ →
    LeavesWord m fuel depth (y.as .int32) slots₁ memory₁ (.i32 i) slots₂ memory₂ →
    exec m fuel depth ((address x y).code ++ Lowering.plain [.load (address x y).type.wordType])
        ⟨stack, slots, memory⟩ =
      match memory₂.load? v.type.elementType.wordType (cellOffset v i) with
      | some u => .next ⟨u :: stack, slots₂, memory₂⟩
      | none => .trapped .outOfBounds memory₂
  /-- a write stores to the cell of the index or traps, whatever the operands do -/
  write : ∀ {m fuel depth slots slots₁ slots₂ slots₃ memory memory₁ memory₂ memory₃ stack}
    {x y z : Operand} {u : Word}, x.type = v.type → u.type = v.type.elementType.wordType →
    LeavesWord m fuel depth x.code slots memory (firstPayload v) slots₁ memory₁ →
    LeavesWord m fuel depth (y.as .int32) slots₁ memory₁ (.i32 i) slots₂ memory₂ →
    LeavesWord m fuel depth (z.as (address x y).type) slots₂ memory₂ u slots₃ memory₃ →
    exec m fuel depth ((address x y).code ++ z.as (address x y).type ++
        Lowering.plain [.store (address x y).type.wordType]) ⟨stack, slots, memory⟩ =
      if memory₃.holds (cellOffset v i) v.type.elementSize then
        .next ⟨stack, slots₃, memory₃.store (cellOffset v i) u⟩
      else .trapped .outOfBounds memory₃
  /-- a cell past the array holds zero or lies outside the memory -/
  past : v.length < cellOf v i → fresh.load? v.type.elementType.wordType (cellOffset v i) =
    if cellOffset v i + v.type.elementSize ≤ fresh.size then
      some (Word.zero v.type.elementType.wordType)
    else none
  /-- a store to a cell past the array changes neither the length nor an element -/
  keeps : v.length < cellOf v i → ∀ (memory : Memory) u, ∀ a < (v.length + 1) * v.type.elementSize,
    (memory.store (cellOffset v i) u).bytes[a]? = memory.bytes[a]?
  /-- the first cell holds the length -/
  header : cellOf v i = 0 → fresh.load? v.type.elementType.wordType (cellOffset v i) =
    some (.ofBytes v.type.elementType.wordType v.lengthCell.toBytes)
  /-- the cells after it hold the elements -/
  element : ∀ j < v.length, cellOf v i = j + 1 →
    fresh.load? v.type.elementType.wordType (cellOffset v i) = v.elements[j]?
  /-- a store to a cell of the array replaces what is there -/
  replaces : cellOf v i ≤ v.length → ∀ memory : Memory, memory.size = fresh.size →
    ∀ u : Word, u.type = v.type.elementType.wordType →
      (memory.store (cellOffset v i) u).load? u.type (cellOffset v i) = some u
  /-- an index out of range leads past the array unless it is so far from it that it wraps -/
  near : (i.toInt < -1 ∧ (v.length : Int) < i.toInt + 1 + cellCount v) ∨
      ((v.length : Int) ≤ i.toInt ∧ i.toInt + 1 < cellCount v) → v.length < cellOf v i

section

variable {arguments : List Value} {layout : Layout} {k : Nat} {v : Value} {i : Int32}

/-- A byte after the array is zero. -/
lemma OnlyArray.byte_past (h : OnlyArray arguments k v)
    (hlayout : Layout.ofArguments? arguments = some layout) {a : Nat}
    (ha : (v.length + 1) * v.type.elementSize ≤ a) (hsize : a < layout.image.memory.size) :
    layout.image.memory.bytes[a]? = some 0 := by
  have hplaces := ofArguments?_places hlayout
  refine memory_outside hplaces hsize fun j u p hat hmem => ?_
  obtain ⟨q, hq, rfl, rfl⟩ := hat.placement hplaces
  obtain ⟨q', hq', rfl, hheader⟩ := h.placement
  obtain rfl := h.only (placements_value hq) q.is_array
  obtain rfl : q = q' := Option.some.inj (Option.some.inj (hq.symm.trans hq'))
  rw [arrayRange_payload] at hmem
  have hstop := hmem.2
  rw [Placement.stop, hheader, Value.length_cells, Nat.zero_add, Nat.mul_comm] at hstop
  exact absurd hstop (not_lt_of_ge ha)

/-- What comes before a cell past the array ends before it begins. -/
lemma array_le_cellOffset (hpast : v.length < cellOf v i) :
    (v.length + 1) * v.type.elementSize ≤ cellOffset v i :=
  Nat.mul_le_mul_right _ hpast

/-- A cell past the array holds zero or lies outside the memory. -/
lemma OnlyArray.load_past (h : OnlyArray arguments k v)
    (hlayout : Layout.ofArguments? arguments = some layout) (hpast : v.length < cellOf v i) :
    layout.image.memory.load? v.type.elementType.wordType (cellOffset v i) =
      if cellOffset v i + v.type.elementSize ≤ layout.image.memory.size then
        some (Word.zero v.type.elementType.wordType)
      else none := by
  have hwidth := Value.width_element h.isArray
  have hle := array_le_cellOffset hpast
  split
  · rename_i hinside
    refine load?_zeros (by rwa [hwidth]) fun j hj => h.byte_past hlayout (by omega) (by omega)
  · rename_i houtside
    have hholds : layout.image.memory.holds (cellOffset v i)
        v.type.elementType.wordType.width = false := by
      simpa [Memory.holds, hwidth] using houtside
    rw [Memory.load?, Memory.read?, hholds]
    rfl

/-- The cells of the array are in memory one after another. -/
lemma OnlyArray.load_cell (h : OnlyArray arguments k v)
    (hlayout : Layout.ofArguments? arguments = some layout) {cell : Cell}
    (hcell : v.cells[cellOf v i]? = some cell) :
    layout.image.memory.load? v.type.elementType.wordType (cellOffset v i) =
      some (.ofBytes v.type.elementType.wordType cell.toBytes) := by
  have hplaces := ofArguments?_places hlayout
  obtain ⟨q, hq, rfl, hheader⟩ := h.placement
  have hoffset := hplaces.mem_of_cell (List.mem_of_getElem? hq) hcell
  rw [hheader, Nat.zero_add, Nat.mul_comm] at hoffset
  have hlength : cell.toBytes.length = q.value.type.elementType.wordType.width := by
    rw [Cell.length_toBytes, Value.width_cells (List.mem_of_getElem? hcell),
      Value.width_element h.isArray]
  exact Image.load?_memory hplaces.separate hoffset hlength List.prefix_rfl

/-- An element is in the cell after those of the elements before it. -/
lemma OnlyArray.load_element (h : OnlyArray arguments k v)
    (hlayout : Layout.ofArguments? arguments = some layout) {j : Nat} (hj : j < v.length)
    (hcell : cellOf v i = j + 1) :
    layout.image.memory.load? v.type.elementType.wordType (cellOffset v i) = v.elements[j]? := by
  obtain ⟨w, hw⟩ : ∃ w, v.elements[j]? = some w := by
    rw [← Value.length_elements] at hj
    exact ⟨_, List.getElem?_eq_getElem hj⟩
  have hword : v.cells[cellOf v i]? = some w.cell := by
    rw [hcell, Value.cells, List.getElem?_cons_succ, List.getElem?_map, hw, Option.map_some]
  rw [h.load_cell hlayout hword, hw, ← Value.type_elements (List.mem_of_getElem? hw),
    w.toBytes_cell, w.ofBytes_toBytes]

/-- A cell of the array lies inside the memory. -/
lemma OnlyArray.cell_le_size (h : OnlyArray arguments k v)
    (hlayout : Layout.ofArguments? arguments = some layout) (hle : cellOf v i ≤ v.length) :
    cellOffset v i + v.type.elementSize ≤ layout.image.memory.size := by
  have hplaces := ofArguments?_places hlayout
  obtain ⟨q, hq, rfl, hheader⟩ := h.placement
  have hstop := hplaces.stop_le_size (List.mem_of_getElem? hq)
  rw [Placement.stop, hheader, Value.length_cells, Nat.zero_add] at hstop
  calc cellOffset q.value i + q.value.type.elementSize
      = (cellOf q.value i + 1) * q.value.type.elementSize := by rw [cellOffset]; ring
    _ ≤ (q.value.length + 1) * q.value.type.elementSize := Nat.mul_le_mul_right _ (by omega)
    _ = q.width * (q.value.length + 1) := Nat.mul_comm _ _
    _ ≤ layout.image.memory.size := hstop

/-- In a call with one array every index leads to a cell. An index out of range reads zero,
or traps, and writes nothing of the array, unless it wraps onto a cell of the array; then it
reads and writes that cell. -/
theorem subscript_leads (hlayout : Layout.ofArguments? arguments = some layout)
    (h : OnlyArray arguments k v) (i : Int32) :
    layout.payloads[k]? = some (some v.type.elementSize) ∧
      Subscript layout.image.memory v i := by
  constructor
  · obtain ⟨q, hq, rfl, hheader⟩ := h.placement
    rw [(ofArguments?_places hlayout).payloads, List.getElem?_map, hq]
    show some (some (q.header + q.width)) = _
    rw [hheader, Nat.zero_add]
    rfl
  · exact {
      read := fun htype hx hy => exec_read htype hx hy _
      write := fun htype hu hx hy hz => exec_write htype h.isArray hx hy hz hu _
      past := h.load_past hlayout
      keeps := fun hpast memory u a ha =>
        Memory.getElem?_put_of_outside (.inl (ha.trans_le (array_le_cellOffset hpast)))
      header := fun hzero => h.load_cell hlayout (by rw [hzero]; rfl)
      element := fun j hj hcell => h.load_element hlayout hj hcell
      replaces := fun hle memory hsize u hu => by
        refine Memory.load?_store_self ?_
        rw [hu, Value.width_element h.isArray, hsize]
        exact h.cell_le_size hlayout hle
      near := length_lt_cellOf }

end

lemma onlyArray_pair {v : Value} (hv : v.isArray = true) (n : Int32) :
    OnlyArray [v, .int32 n] 0 v := by
  refine ⟨rfl, hv, fun {j u} hu harray => ?_⟩
  rcases j with _ | _ | j
  · rfl
  · obtain rfl := Option.some.inj hu
    cases harray
  · cases hu

theorem subscript_leads_five :
    ∃ layout, Layout.ofArguments? [.int32Array [7, 8], .int32 5] = some layout ∧
      layout.payloads[0]? = some (some 4) ∧
      layout.image.memory.load? .i32 24 = some (.i32 0) := by
  obtain ⟨layout, hlayout, hpages⟩ : ∃ layout,
      Layout.ofArguments? [.int32Array [7, 8], .int32 5] = some layout ∧
      layout.image.pages = 1 := ⟨_, rfl, rfl⟩
  obtain ⟨hpayload, hsubscript⟩ := subscript_leads hlayout (onlyArray_pair rfl 5) 5
  refine ⟨layout, hlayout, hpayload, (hsubscript.past (by decide)).trans (if_pos ?_)⟩
  rw [Image.size_memory, hpages]
  decide

/-! ### An index that wraps -/

/-- A function that gives back an element. -/
def elementAt : Program :=
  ⟨[.function (some "at") [⟨.identifier "arr", none⟩, ⟨.identifier "i", none⟩] none
    [.ret (some (.index 0 (.identifier 1 "arr") (.identifier 2 "i")))]]⟩

open HostCall in
/-- The index lies far before the array, and yet the call does not trap: it gives back the
first element. -/
theorem subscript_wraps :
    ∃ u, (elementAt.compileUnit
        (Table.ofList [("at", ⟨[.int32Array, .int32], .int32⟩)])).result = .ok u ∧
      (u.call .standard ⟨some "at", []⟩ [.int32Array [7, 8], .int32 (-1073741824)]).result =
        .ok (.int32 7) := by
  obtain ⟨u, f, hu, hf, hparams, hlocals, hbody, hm, hcheck⟩ : ∃ u f, (elementAt.compileUnit
        (Table.ofList [("at", ⟨[.int32Array, .int32], .int32⟩)])).result = .ok u ∧
      u.code.functions.find? (·.name = "at") = some f ∧ f.params = [.i32, .i32] ∧ f.locals = [] ∧
      f.body = Lowering.plain [.localGet 0, .localGet 1, .i32Const 4, .int .mul, .int .add,
        .load .i32, .ret, .i32Const 0] ∧ u.code.importsMemory = true ∧
      check u ⟨some "at", []⟩ [.int32Array [7, 8], .int32 (-1073741824)] =
        .ok ("at", ⟨[.int32Array, .int32], .int32⟩, [.i32 0, .i32 (-1073741824)]) :=
    ⟨_, _, rfl, rfl, rfl, rfl, rfl, rfl, rfl⟩
  obtain ⟨layout, hlayout, hpages, hpayloads⟩ : ∃ layout, Layout.ofArguments?
      [.int32Array [7, 8], .int32 (-1073741824)] = some layout ∧ layout.image.pages = 1 ∧
      layout.payloads = [some 4, none] := ⟨_, rfl, rfl, rfl⟩
  -- the index times four is zero, so the address is that of the payload
  have hload : layout.image.memory.load? .i32 (addressOf (4 + -1073741824 * 4)) =
      some (.i32 7) :=
    (onlyArray_pair rfl _).load_element (i := -1073741824) (j := 0) hlayout (by decide) (by decide)
  have hprepare : prepareWithin .standard u.code [.int32Array [7, 8], .int32 (-1073741824)]
      [.i32 0, .i32 (-1073741824)] = .ok ⟨⟨u.code, some layout.image.memory⟩,
        [.i32 4, .i32 (-1073741824)], [some 4, none]⟩ := by
    have hroom : ¬ Limits.standard.pages <
        Instance.memorySize ⟨u.code, some layout.image.memory⟩ / pageSize := by
      show ¬ 65536 < layout.image.memory.size / pageSize
      rw [Image.size_memory, hpages]
      decide
    rw [prepareWithin, prepare_eq hlayout rfl hm, hpayloads]
    exact if_neg hroom
  have hinvoke : invoke u.code Limits.standard.fuel Limits.standard.depth f
      [.i32 4, .i32 (-1073741824)] layout.image.memory =
        .value (.i32 7) layout.image.memory := by
    show invoke u.code Limits.standard.fuel (999 + 1) f _ _ = _
    have hentry : entryVariables f [.i32 4, .i32 (-1073741824)] =
        #[.i32 4, .i32 (-1073741824)] := by rw [entryVariables, hlocals]; rfl
    rw [invoke, hbody, exec_plain rfl, hentry]
    have hread : plain (.load .i32) ⟨[.i32 (4 + -1073741824 * 4)],
        #[.i32 4, .i32 (-1073741824)], layout.image.memory⟩ =
          .next ⟨[.i32 7], #[.i32 4, .i32 (-1073741824)], layout.image.memory⟩ := plain_load hload
    show finish ((plain (.load .i32) ⟨[.i32 (4 + -1073741824 * 4)],
      #[.i32 4, .i32 (-1073741824)], layout.image.memory⟩).andThen _) = _
    rw [hread]
    rfl
  refine ⟨u, hu, ?_⟩
  have hcall : Instance.call .standard ⟨u.code, some layout.image.memory⟩ "at"
      [.i32 4, .i32 (-1073741824)] = (.ok (.i32 7), ⟨u.code, some layout.image.memory⟩) := by
    rw [Instance.call, hf]
    dsimp only
    rw [hparams, if_neg (by decide), Option.getD_some, hinvoke]
    rfl
  rw [CompiledUnit.call, hcheck]
  dsimp only
  rw [hprepare]
  dsimp only
  rw [hcall]
  rfl

end ArrayScript
