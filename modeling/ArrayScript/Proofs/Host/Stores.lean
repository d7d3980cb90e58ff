import ArrayScript.Proofs.Host.ReadBack

/-!
Stores into the elements of arrays.

* `ElementStore`: a word that replaces an element, in the arguments (`applyTo`) and, as an
  operation of the machine at the address of the element, in memory (`ops`).
* `Arranged.store_element`: such a store keeps all other elements.
* `Arranged.exec_stores`: the machine runs stores one after another.
* `arrays_readBack`: reading back undoes laying out, and after stores into elements it
  gives the arrays with these elements replaced.
-/

namespace ArrayScript

open Machine HostCall

/-! ### Loads after stores -/

namespace Memory

variable {m : Memory} {address a : Nat} {w : Word} {t : WordType}

lemma load?_store_self (h : address + w.type.width ≤ m.size) :
    (m.store address w).load? w.type address = some w := by
  have hread : (m.store address w).read? address w.toBytes.length = some w.toBytes := by
    refine read?_eq_some ?_ fun j hj => ?_
    · rw [size_store, w.length_toBytes]
      exact h
    · have hlt : address + j < m.bytes.size := by
        rw [w.length_toBytes] at hj
        rw [size] at h
        omega
      show (put m.bytes address w.toBytes)[address + j]? = _
      rw [getElem?_put_of_inside (by omega) (by omega) hlt, Nat.add_sub_cancel_left]
  rw [w.length_toBytes] at hread
  rw [load?, hread, Option.map_some, w.ofBytes_toBytes]

lemma load?_store_of_disjoint (h : a + t.width ≤ address ∨ address + w.type.width ≤ a) :
    (m.store address w).load? t a = m.load? t a := by
  have hread : (m.store address w).read? a t.width = m.read? a t.width := by
    rw [read?, read?, holds, holds, store, size_write]
    split
    · refine congrArg some (List.ext_getElem? fun j => ?_)
      rw [Array.getElem?_toList, Array.getElem?_toList, Array.getElem?_extract,
        Array.getElem?_extract, show (m.write address w.toBytes).bytes.size = m.bytes.size from
          size_write m address w.toBytes]
      split
      · exact getElem?_put_of_outside (by rw [w.length_toBytes]; omega)
      · rfl
    · rfl
  rw [load?, load?, hread]

end Memory

/-! ### Stores into elements -/

/-- A value with one of its elements replaced, if the word is of the type of the
elements. -/
def Value.setElement (v : Value) (i : Nat) (w : Word) : Value :=
  match v, w with
  | int32Array items, .i32 n => int32Array (items.set i n)
  | float64Array items, .f64 x => float64Array (items.set i x)
  | v, _ => v

lemma Value.shape_setElement (v : Value) (i : Nat) (w : Word) :
    (v.setElement i w).shape = v.shape := by
  cases v <;> cases w <;> simp [setElement, shape, type, length]

lemma Value.elements_setElement {v : Value} {w : Word} (hv : v.isArray = true)
    (hw : w.type = v.type.elementType.wordType) (i : Nat) :
    (v.setElement i w).elements = v.elements.set i w := by
  cases v <;> cases w <;> simp_all [setElement, elements, isArray, type, ValueType.isArray,
    ValueType.elementType, ValueType.wordType, Word.type, List.map_set]

lemma Value.width_element {v : Value} (hv : v.isArray = true) :
    v.type.elementType.wordType.width = v.type.elementSize := by
  cases v <;> simp_all [isArray, type, ValueType.isArray, ValueType.elementType,
    ValueType.wordType, ValueType.elementSize, WordType.width]

/-- A word that is to replace an element of an array argument. -/
structure ElementStore where
  /-- the position of the argument -/
  position : Nat
  /-- the position of the element in it -/
  index : Nat
  word : Word

namespace ElementStore

/-- There is such an element, and the word has its type. -/
def Fits (s : ElementStore) (arguments : List Value) : Prop :=
  ∃ v, arguments[s.position]? = some v ∧ v.isArray = true ∧ s.index < v.length ∧
    s.word.type = v.type.elementType.wordType

/-- The arguments with the element replaced. -/
def applyTo (s : ElementStore) (arguments : List Value) : List Value :=
  arguments.modify s.position fun v => v.setElement s.index s.word

/-- The address of the element. -/
def address (payloads : List (Option Nat)) (s : ElementStore) : Nat :=
  payloads[s.position]?.join.getD 0 + s.index * s.word.type.width

/-- The operations that store the word at the address of the element. -/
def ops (payloads : List (Option Nat)) (s : ElementStore) : List Op :=
  [.i32Const (UInt32.ofNat (s.address payloads)).toInt32,
    match s.word with
    | .i32 n => .i32Const n
    | .f64 x => .f64Const x,
    .store s.word.type]

/-- The code of stores one after another. -/
def code (payloads : List (Option Nat)) (stores : List ElementStore) : Code :=
  Lowering.plain (stores.flatMap (ops payloads))

lemma shapes_applyTo (s : ElementStore) (arguments : List Value) :
    (s.applyTo arguments).map Value.shape = arguments.map Value.shape := by
  refine List.ext_getElem? fun k => ?_
  rw [applyTo, List.getElem?_map, List.getElem?_modify, List.getElem?_map]
  cases arguments[k]? with
  | none => rfl
  | some v =>
      by_cases hk : s.position = k
      · simp [hk, Value.shape_setElement]
      · simp [hk]

end ElementStore

/-- An element ends before its array does. -/
lemma element_le_arrayEnd {v : Value} {i : Nat} (hi : i < v.length) (p : Nat) :
    p + i * v.type.elementSize + v.type.elementSize ≤ arrayEnd v p := by
  have hle := Nat.mul_le_mul_right v.type.elementSize hi
  rw [Nat.succ_mul] at hle
  rw [arrayEnd]
  omega

/-- Different elements of an array are apart. -/
lemma elements_apart {i j : Nat} (h : i ≠ j) (p width : Nat) :
    p + i * width + width ≤ p + j * width ∨ p + j * width + width ≤ p + i * width := by
  rcases Nat.lt_or_gt_of_ne h with hlt | hgt
  · have hle := Nat.mul_le_mul_right width hlt
    rw [Nat.succ_mul] at hle
    omega
  · have hle := Nat.mul_le_mul_right width hgt
    rw [Nat.succ_mul] at hle
    omega

section

variable {payloads : List (Option Nat)} {memory : Memory} {arguments : List Value}
  {s : ElementStore}

/-- The address of an element that is to be replaced lies in its array. -/
lemma Arranged.address_eq {size : Nat} (h : Arranged payloads size arguments)
    (hs : s.Fits arguments) : ∃ v p, PlacedAt payloads arguments s.position v p ∧
      s.index < v.length ∧ s.word.type = v.type.elementType.wordType ∧
      s.word.type.width = v.type.elementSize ∧
      s.address payloads = p + s.index * v.type.elementSize := by
  obtain ⟨v, hv, harray, hindex, hword⟩ := hs
  obtain ⟨p, hplaced⟩ := h.located hv harray
  have hwidth : s.word.type.width = v.type.elementSize := by
    rw [hword, Value.width_element harray]
  refine ⟨v, p, hplaced, hindex, hword, hwidth, ?_⟩
  rw [ElementStore.address, hplaced.2, hwidth]
  rfl

/-- A store into an element leaves the other elements as they were. -/
theorem Arranged.store_element (h : Arranged payloads memory.size arguments)
    (hheld : memory.HoldsAll payloads arguments) (hs : s.Fits arguments) :
    (memory.store (s.address payloads) s.word).HoldsAll payloads (s.applyTo arguments) := by
  obtain ⟨v, p, hplaced, hindex, hword, hwidth, haddress⟩ := h.address_eq hs
  have hstop := element_le_arrayEnd hindex p
  rw [haddress]
  rintro k u q ⟨hu, hq⟩
  rw [ElementStore.applyTo, List.getElem?_modify] at hu
  obtain ⟨u₀, hu₀, hu⟩ := Option.map_eq_some_iff.mp hu
  have hplaced₀ : PlacedAt payloads arguments k u₀ q := ⟨hu₀, hq⟩
  by_cases hk : s.position = k
  · -- the array itself: the element that was stored, or one beside it
    subst hk
    obtain rfl : u₀ = v := Option.some.inj (hu₀.symm.trans hplaced.1)
    obtain rfl : q = p := by simpa [hq] using hplaced.2
    rw [if_pos rfl] at hu
    subst hu
    intro i w hw
    have htype : (u₀.setElement s.index s.word).type = u₀.type :=
      (Prod.mk.inj (u₀.shape_setElement s.index s.word)).1
    rw [Value.elements_setElement (h.array hplaced) hword, List.getElem?_set] at hw
    rw [htype]
    split at hw
    · rename_i hi
      subst hi
      split at hw
      · obtain rfl := Option.some.inj hw
        rw [← hword]
        refine Memory.load?_store_self ?_
        rw [hwidth]
        exact hstop.trans (h.inside hplaced)
      · cases hw
    · rename_i hi
      rw [Memory.load?_store_of_disjoint, hheld hplaced i w hw]
      rw [← hword, hwidth]
      exact elements_apart (Ne.symm hi) q _
  · -- another array
    obtain rfl : u₀ = u := by simpa [hk] using hu
    intro i w hw
    have hi : i < u₀.length := by
      rw [← Value.length_elements]
      exact (List.getElem?_eq_some_iff.mp hw).1
    have hend := element_le_arrayEnd hi q
    rw [Memory.load?_store_of_disjoint, hheld hplaced₀ i w hw]
    rw [hwidth, Value.width_element (h.array hplaced₀)]
    rcases h.apart hk hplaced hplaced₀ with hle | hle
    · right
      omega
    · left
      omega

/-- The machine runs a store into an element. -/
lemma Arranged.plainAll_ops (h : Arranged payloads memory.size arguments)
    (hs : s.Fits arguments) (stack : List Word) (slots : Array Word) :
    plainAll (s.ops payloads) ⟨stack, slots, memory⟩ =
      .next ⟨stack, slots, memory.store (s.address payloads) s.word⟩ := by
  obtain ⟨v, p, hplaced, hindex, hword, hwidth, haddress⟩ := h.address_eq hs
  have hstop := element_le_arrayEnd hindex p
  have hlt : s.address payloads < 4294967296 := by
    have hlast := h.addressable hplaced
    have hmax : maxAddress < 4294967296 := by decide
    omega
  have haddressOf : addressOf (UInt32.ofNat (s.address payloads)).toInt32 = s.address payloads := by
    rw [addressOf, UInt32.toUInt32_toInt32, UInt32.toNat_ofNat_of_lt' hlt]
  have hholds : memory.holds (s.address payloads) s.word.type.width = true := by
    rw [Memory.holds, decide_eq_true_eq, hwidth, haddress]
    exact hstop.trans (h.inside hplaced)
  have hstore : plain (.store s.word.type)
      ⟨s.word :: .i32 (UInt32.ofNat (s.address payloads)).toInt32 :: stack, slots, memory⟩ = _ :=
    plain_store s.word _
  rw [haddressOf, if_pos hholds] at hstore
  rw [ElementStore.ops, plainAll, plain_i32Const, Outcome.andThen_next, plainAll]
  cases hw : s.word with
  | i32 n =>
      rw [hw] at hstore
      dsimp only
      rw [plain_i32Const, Outcome.andThen_next, plainAll, hstore]
      rfl
  | f64 x =>
      rw [hw] at hstore
      show ((Outcome.next ⟨.f64 x :: _ :: stack, slots, memory⟩).andThen _) = _
      rw [Outcome.andThen_next, plainAll, hstore]
      rfl

/-- What fits arguments fits all of the same shapes. -/
lemma ElementStore.Fits.of_shapes {arguments' : List Value} (hs : s.Fits arguments)
    (hshapes : arguments'.map Value.shape = arguments.map Value.shape) : s.Fits arguments' := by
  obtain ⟨v, hv, harray, hindex, hword⟩ := hs
  have hk := congrArg (fun l => l[s.position]?) hshapes
  simp only [List.getElem?_map, hv, Option.map_some] at hk
  obtain ⟨v', hv', hshape⟩ := Option.map_eq_some_iff.mp hk
  obtain ⟨htype, hlength⟩ := Prod.mk.inj hshape
  refine ⟨v', hv', ?_, ?_, ?_⟩
  · rw [Value.isArray_of_shape hshape, harray]
  · rw [hlength]
    exact hindex
  · rw [htype, hword]

/-- The machine runs stores one after another, and memory then holds the arrays with all
these elements replaced. -/
theorem Arranged.exec_stores (h : Arranged payloads memory.size arguments)
    (hheld : memory.HoldsAll payloads arguments) {stores : List ElementStore}
    (hfits : ∀ s ∈ stores, s.Fits arguments) :
    ∃ memory', memory'.size = memory.size ∧
      (∀ m fuel depth stack slots, exec m fuel depth (ElementStore.code payloads stores)
        ⟨stack, slots, memory⟩ = .next ⟨stack, slots, memory'⟩) ∧
      memory'.HoldsAll payloads (stores.foldl (fun l s => s.applyTo l) arguments) := by
  induction stores generalizing memory arguments with
  | nil => exact ⟨memory, rfl, fun _ _ _ _ _ => exec_nil, hheld⟩
  | cons s rest ih =>
      obtain ⟨hs, hrest⟩ := List.forall_mem_cons.mp hfits
      have hshapes := s.shapes_applyTo arguments
      have hsize := memory.size_store (s.address payloads) s.word
      obtain ⟨last, hlast, hexec, hall⟩ := ih (hsize ▸ h.of_shapes hshapes)
        (h.store_element hheld hs) fun r hr => (hrest r hr).of_shapes hshapes
      refine ⟨last, hlast.trans hsize, fun m fuel depth stack slots => ?_, hall⟩
      have hcode : ElementStore.code payloads (s :: rest) =
          Lowering.plain (s.ops payloads) ++ ElementStore.code payloads rest := by
        simp [ElementStore.code, Lowering.plain]
      rw [hcode, exec_append, exec_plain, h.plainAll_ops hs, Outcome.andThen_next, hexec]
      cases hw : s.word <;> simp [ElementStore.ops, hw, isCall]

end

/-! ### Reading back after stores -/

section

variable {arguments : List Value}

/-- An argument that is not an array is not touched by stores. -/
lemma foldl_applyTo_scalar {stores : List ElementStore} (hfits : ∀ s ∈ stores, s.Fits arguments)
    {k : Nat} (hk : ∀ v, arguments[k]? = some v → v.isArray = false) :
    (stores.foldl (fun l s => s.applyTo l) arguments)[k]? = arguments[k]? := by
  induction stores generalizing arguments with
  | nil => rfl
  | cons s rest ih =>
      obtain ⟨hs, hrest⟩ := List.forall_mem_cons.mp hfits
      have hshapes := s.shapes_applyTo arguments
      have hne : s.position ≠ k := by
        rintro rfl
        obtain ⟨v, hv, harray, _⟩ := hs
        rw [hk v hv] at harray
        cases harray
      have hsame : (s.applyTo arguments)[k]? = arguments[k]? := by
        rw [ElementStore.applyTo, List.getElem?_modify_ne _ _ hne]
      rw [List.foldl_cons, ih (fun r hr => (hrest r hr).of_shapes hshapes), hsame]
      rw [hsame]
      exact hk

lemma shapes_foldl_applyTo (stores : List ElementStore) (arguments : List Value) :
    (stores.foldl (fun l s => s.applyTo l) arguments).map Value.shape =
      arguments.map Value.shape := by
  induction stores generalizing arguments with
  | nil => rfl
  | cons s rest ih => rw [List.foldl_cons, ih, s.shapes_applyTo]

end

/-- Reading back undoes laying out: the bytes of a layout fit the memory that is made for
them; any outputs are read back from it as they were; and after any stores into elements,
which the machine runs without a trap, reading all arrays back gives the arguments with
these elements replaced one after another and all else as it was. -/
theorem arrays_readBack {arguments : List Value} {layout : Layout}
    (h : Layout.ofArguments? arguments = some layout) (m : CodeModule) :
    (layout.image.toBytes? = some layout.image.bytes ∧
      Instance.write ⟨m, some (.zeros layout.image.pages)⟩ 0 layout.image.bytes =
        .ok ⟨m, some layout.image.memory⟩) ∧
    (∀ outputs, readOutputs ⟨m, some layout.image.memory⟩ layout.payloads outputs arguments =
      (.ok (), arguments)) ∧
    ∀ stores : List ElementStore, (∀ s ∈ stores, s.Fits arguments) → ∃ memory,
      (∀ fuel depth stack slots, exec m fuel depth (ElementStore.code layout.payloads stores)
        ⟨stack, slots, layout.image.memory⟩ = .next ⟨stack, slots, memory⟩) ∧
      ∀ outputs : List Nat, (∀ k, k ∈ outputs ↔ ∃ v, arguments[k]? = some v ∧ v.isArray = true) →
        readOutputs ⟨m, some memory⟩ layout.payloads outputs arguments =
          (.ok (), stores.foldl (fun l s => s.applyTo l) arguments) := by
  have harranged := ofArguments?_arranged h
  have hheld := ofArguments?_holdsAll h
  refine ⟨⟨ofArguments?_toBytes? h, ?_⟩, fun outputs =>
    readOutputs_eq_of_restored harranged (restored_unchanged h outputs), fun stores hfits => ?_⟩
  · have hholds : (Memory.zeros layout.image.pages).holds 0 layout.image.bytes.length = true := by
      have hextent := layout.image.extent_le_pages
      simpa [Memory.holds, Memory.zeros, Memory.size, Image.length_bytes] using hextent
    rw [Instance.write, if_pos hholds]
    rfl
  · obtain ⟨memory, hsize, hexec, hall⟩ := harranged.exec_stores hheld hfits
    refine ⟨memory, hexec m, fun outputs houtputs => ?_⟩
    rw [← hsize] at harranged
    refine readOutputs_eq_of_restored harranged ⟨shapes_foldl_applyTo _ _, fun {k} hk => ?_,
      fun {k} hk => ?_, fun _ hk => hall hk⟩
    · -- what is not an output is not an array
      refine foldl_applyTo_scalar hfits fun v hv => ?_
      by_contra harray
      exact hk ((houtputs k).mpr ⟨v, hv, by simpa using harray⟩)
    · -- what has no payload is not an array
      refine foldl_applyTo_scalar hfits fun v hv => ?_
      by_contra harray
      obtain ⟨p, _, hp⟩ := harranged.located hv (by simpa using harray)
      rw [hp] at hk
      cases hk

theorem arrays_readBack_mixed :
    ∃ layout memory, Layout.ofArguments? [.int32Array [7, 8], .boolean true,
        .float64Array [Double.one]] = some layout ∧
      readOutputs ⟨⟨[], true⟩, some memory⟩ layout.payloads [2, 0, 2]
          [.int32Array [7, 8], .boolean true, .float64Array [Double.one]] =
        (.ok (), [.int32Array [7, -1], .boolean true, .float64Array [Double.zero]]) := by
  obtain ⟨layout, hlayout⟩ : ∃ layout, Layout.ofArguments? [.int32Array [7, 8], .boolean true,
      .float64Array [Double.one]] = some layout := ⟨_, rfl⟩
  obtain ⟨_, _, hstores⟩ := arrays_readBack hlayout ⟨[], true⟩
  obtain ⟨memory, _, hread⟩ := hstores [⟨0, 1, .i32 9⟩, ⟨2, 0, .f64 Double.zero⟩, ⟨0, 1, .i32 (-1)⟩]
    (by simp [ElementStore.Fits, Value.isArray, Value.type, ValueType.isArray, Value.length,
      Word.type, ValueType.elementType, ValueType.wordType])
  refine ⟨layout, memory, hlayout, (hread [2, 0, 2] fun k => ?_).trans rfl⟩
  rcases k with _ | _ | _ | k
  all_goals simp [Value.isArray, Value.type, ValueType.isArray]

end ArrayScript
