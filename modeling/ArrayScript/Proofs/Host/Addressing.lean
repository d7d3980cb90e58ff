import ArrayScript.Host.Call
import ArrayScript.Proofs.Host.Layout
import ArrayScript.Proofs.Machine.Execution

/-!
Generated code finds arrays where the host puts them.

* `Puts`: code puts a word on the operands and changes nothing else.
* `puts_address`, `puts_load`, `puts_length`: what the code of addresses, elements and
  lengths puts there.
* `Addressed layout v p`: an array is reached from its payload, element by element, and
  so is its length.
* `layout_addressed`: all arrays of a layout are, their bytes are disjoint, and all other
  bytes of the memory are zero.
-/

namespace ArrayScript

open Machine Lowering

/-! ### Addresses -/

/-- The address of an element does not wrap. -/
lemma addressOf_element {p i w : Nat} (h : p + i * w ≤ maxAddress) :
    addressOf ((UInt32.ofNat p).toInt32 + Int32.ofNat i * Int32.ofNat w) = p + i * w := by
  have hlt : p + i * w < 4294967296 := Nat.lt_succ_of_le h
  simpa [addressOf] using hlt

/-- The address of a length does not wrap. -/
lemma addressOf_length {p w : Nat} (hw : w ≤ p) (h : p ≤ maxAddress) :
    addressOf ((UInt32.ofNat p).toInt32 - Int32.ofNat w) = p - w := by
  have hlt : p < 4294967296 := Nat.lt_succ_of_le h
  have hp : (UInt32.ofNat p).toNat = p := UInt32.toNat_ofNat_of_lt' hlt
  have hw' : (UInt32.ofNat w).toNat = w := UInt32.toNat_ofNat_of_lt' (hw.trans_lt hlt)
  rw [addressOf, Int32.toUInt32_sub, UInt32.toUInt32_toInt32, Int32.toUInt32_ofNat',
    UInt32.toNat_sub_of_le _ _ (by rw [UInt32.le_iff_toNat_le, hp, hw']; exact hw), hp, hw']

/-- The low bytes of a small number spell it as an integer. -/
lemma ofBytes_littleEndian {n : Nat} (h : n ≤ maxAddress) :
    Word.ofBytes .i32 (Bytes.littleEndian 4 n) = .i32 (Int32.ofNat n) := by
  have hlt : n < 4294967296 := Nat.lt_succ_of_le h
  have hmod : n % Nat.pow 256 4 = n := Nat.mod_eq_of_lt hlt
  rw [Word.ofBytes, Bytes.toNat_littleEndian, hmod]
  rfl

lemma littleEndian_begins {width width' : Nat} (h : width ≤ width') (n : Nat) :
    Bytes.littleEndian width n <+: Bytes.littleEndian width' n := by
  induction width generalizing width' n with
  | zero => exact List.nil_prefix
  | succ width ih =>
      cases width' with
      | zero => omega
      | succ width' =>
          rw [Bytes.littleEndian, Bytes.littleEndian, List.cons_prefix_cons]
          exact ⟨rfl, ih (by omega) _⟩

/-! ### Code -/

section

variable {m : CodeModule} {fuel depth : Nat} {slots : Array Word} {memory : Memory}
  {x y : Operand} {base position : Int32}

/-- Code puts a word on the operands and changes nothing else. -/
def Puts (m : CodeModule) (fuel depth : Nat) (slots : Array Word) (memory : Memory) (code : Code)
    (w : Word) : Prop :=
  ∀ stack, exec m fuel depth code ⟨stack, slots, memory⟩ = .next ⟨w :: stack, slots, memory⟩

lemma puts_address (hx : Puts m fuel depth slots memory x.code (.i32 base))
    (hy : Puts m fuel depth slots memory (y.as .int32) (.i32 position)) :
    Puts m fuel depth slots memory (address x y).code
      (.i32 (base + position * Int32.ofNat x.type.elementSize)) := by
  intro stack
  rw [address, exec_append, exec_append, hx, Outcome.andThen_next, hy, Outcome.andThen_next]
  exact exec_plain rfl

lemma puts_load {code : Code} {a : Int32} {t : WordType} {w : Word}
    (h : Puts m fuel depth slots memory code (.i32 a))
    (hload : memory.load? t (addressOf a) = some w) :
    Puts m fuel depth slots memory (code ++ Lowering.plain [.load t]) w := by
  intro stack
  rw [exec_append, h, Outcome.andThen_next, exec_op rfl, plain_load hload]

lemma puts_length {w : Word} (hx : Puts m fuel depth slots memory x.code (.i32 base))
    (hload : memory.load? .i32 (addressOf (base - Int32.ofNat x.type.elementSize)) = some w) :
    Puts m fuel depth slots memory (length x).code w := by
  intro stack
  rw [length, exec_append, hx, Outcome.andThen_next, exec_plain rfl]
  simp [plainAll, plain_i32Const, plain_int, plain_load hload, intOp]

end

/-! ### Arrays -/

/-- The bytes of an array with the given payload, its length included. -/
def arrayRange (v : Value) (p : Nat) : Set Nat :=
  Set.Ico (p - v.type.elementSize) (p + v.length * v.type.elementSize)

/-- An array is reached from its payload by generated code. -/
structure Addressed (layout : Layout) (v : Value) (p : Nat) : Prop where
  aligned : v.type.elementSize ∣ p
  header_le : v.type.elementSize ≤ p
  /-- every element: its cell is at a multiple of the width after the payload and inside
  the pages, the code of its address gives that offset, and the code of the element gives
  the element -/
  element : ∀ i < v.length, ∃ w, v.elements[i]? = some w ∧
    layout.image.find? (p + i * v.type.elementSize) = some w.cell ∧
    p + i * v.type.elementSize + v.type.elementSize ≤ layout.image.pages * pageSize ∧
    ∀ {m fuel depth slots x y}, x.type = v.type →
      Puts m fuel depth slots layout.image.memory x.code (.i32 (UInt32.ofNat p).toInt32) →
      Puts m fuel depth slots layout.image.memory (y.as .int32) (.i32 (Int32.ofNat i)) →
      ∃ a, Puts m fuel depth slots layout.image.memory (address x y).code (.i32 a) ∧
        addressOf a = p + i * v.type.elementSize ∧
        Puts m fuel depth slots layout.image.memory
          ((address x y).code ++ Lowering.plain [.load (address x y).type.wordType]) w
  /-- the length: it fits an integer, and its code gives it -/
  length : (Int32.ofNat v.length).toInt = v.length ∧
    ∀ {m fuel depth slots x}, x.type = v.type →
      Puts m fuel depth slots layout.image.memory x.code (.i32 (UInt32.ofNat p).toInt32) →
      Puts m fuel depth slots layout.image.memory (length x).code (.i32 (Int32.ofNat v.length))

lemma Word.toBytes_cell (w : Word) : w.cell.toBytes = w.toBytes := by
  cases w <;> rfl

lemma Value.type_elements {v : Value} {w : Word} (h : w ∈ v.elements) :
    w.type = v.type.elementType.wordType := by
  cases v <;> simp [elements, type, ValueType.elementType, ValueType.wordType] at h ⊢
  all_goals
    obtain ⟨_, _, rfl⟩ := h
    rfl

/-- The cell for the length of an array begins with the low bytes of the length. -/
lemma Value.lengthCell_begins {v : Value} (h : v.length ≤ maxAddress) :
    Bytes.littleEndian 4 v.length <+: v.lengthCell.toBytes := by
  have hlt : v.length < 4294967296 := Nat.lt_succ_of_le h
  rw [lengthCell]
  split
  · have hn : (Int32.ofNat v.length).toUInt32.toNat = v.length := by
      rw [Int32.toUInt32_ofNat', UInt32.toNat_ofNat_of_lt' hlt]
    rw [Cell.toBytes, hn]
  · have hn : (Int64.ofNat v.length).toUInt64.toNat = v.length := by
      rw [Int64.toUInt64_ofNat', UInt64.toNat_ofNat_of_lt' (hlt.trans (by decide))]
    rw [Cell.toBytes, hn]
    exact littleEndian_begins (by decide) _

section

variable {layout : Layout} {placed : List (Option Placement)} {q : Placement}

lemma Places.mem_of_cell (h : Places .empty placed layout) (hq : some q ∈ placed) {j : Nat}
    {c : Cell} (hc : q.value.cells[j]? = some c) :
    (q.header + q.width * j, c) ∈ layout.image.cells :=
  (h.mem_cells _).mpr (.inr ⟨q, hq, j, hc, rfl⟩)

lemma Placement.stop_eq (q : Placement) : q.stop = q.payload + q.value.length * q.width := by
  rw [stop, payload, Value.length_cells]
  ring

/-- A placed element is in its cell, which is loaded as the element. -/
lemma Places.load_element (h : Places .empty placed layout) (hq : some q ∈ placed) {i : Nat}
    {w : Word} (hw : q.value.elements[i]? = some w) :
    layout.image.find? (q.payload + i * q.width) = some w.cell ∧
      q.payload + i * q.width + q.width ≤ layout.image.pages * pageSize ∧
      layout.image.memory.load? q.value.type.elementType.wordType (q.payload + i * q.width) =
        some w := by
  have hcell : q.value.cells[i + 1]? = some w.cell := by
    rw [Value.cells, List.getElem?_cons_succ, List.getElem?_map, hw, Option.map_some]
  have hmem := h.mem_of_cell hq hcell
  have hoffset : q.header + q.width * (i + 1) = q.payload + i * q.width := by
    rw [Placement.payload]
    ring
  rw [hoffset] at hmem
  have hend := h.separate.le_extent hmem
  rw [show w.cell.width = q.width from Value.width_cells (List.mem_of_getElem? hcell)] at hend
  have htype := Value.type_elements (List.mem_of_getElem? hw)
  refine ⟨Image.find?_of_mem hmem, hend.trans layout.image.extent_le_pages, ?_⟩
  rw [← htype, Image.load?_memory h.separate hmem w.length_toBytes (by rw [w.toBytes_cell]),
    w.ofBytes_toBytes]

/-- The length of a placed array is loaded from before its payload. -/
lemma Places.load_length (h : Places .empty placed layout) (hq : some q ∈ placed)
    (hlength : q.value.length ≤ maxAddress) :
    layout.image.memory.load? .i32 q.header = some (.i32 (Int32.ofNat q.value.length)) := by
  have hmem : (q.header + q.width * 0, q.value.lengthCell) ∈ layout.image.cells :=
    h.mem_of_cell hq rfl
  rw [Nat.mul_zero, Nat.add_zero] at hmem
  rw [Image.load?_memory h.separate hmem (Bytes.length_littleEndian 4 _)
    (Value.lengthCell_begins hlength), ofBytes_littleEndian hlength]

/-- Placed arrays are reached from their payloads. -/
theorem Places.addressed (h : Places .empty placed layout) (hq : some q ∈ placed) :
    Addressed layout q.value q.payload := by
  have hstop := h.stop_le q hq
  rw [q.stop_eq] at hstop
  have hwidth : 4 ≤ q.width := by
    rw [Placement.width]
    cases q.value.type <;> decide
  -- the whole array lies below the end of addresses, so no product or sum wraps
  have hlength : q.value.length * 4 ≤ 4294967295 :=
    calc q.value.length * 4 ≤ q.value.length * q.width := Nat.mul_le_mul_left _ hwidth
      _ ≤ q.payload + q.value.length * q.width := Nat.le_add_left _ _
      _ ≤ maxAddress := hstop
  refine ⟨(Nat.dvd_add_left (dvd_refl _)).mpr q.aligned, Nat.le_add_left _ _, fun i hi => ?_, ?_,
    ?_⟩
  · obtain ⟨w, hw⟩ : ∃ w, q.value.elements[i]? = some w := by
      rw [← Value.length_elements] at hi
      exact ⟨_, List.getElem?_eq_getElem hi⟩
    obtain ⟨hfind, hpages, hload⟩ := h.load_element hq hw
    refine ⟨w, hw, hfind, hpages, fun {m fuel depth slots x y} htype hx hy => ?_⟩
    have haddress : addressOf ((UInt32.ofNat q.payload).toInt32 +
        Int32.ofNat i * Int32.ofNat x.type.elementSize) = q.payload + i * q.width := by
      rw [htype]
      refine addressOf_element ?_
      calc q.payload + i * q.width ≤ q.payload + q.value.length * q.width :=
            Nat.add_le_add_left (Nat.mul_le_mul_right _ hi.le) _
        _ ≤ maxAddress := hstop
    refine ⟨_, puts_address hx hy, haddress, puts_load (puts_address hx hy) ?_⟩
    rw [haddress, ← hload, ← htype]
    rfl
  · rw [Int32.toInt_ofNat_of_lt (by omega)]
  -- the length is in the header, one element before the payload
  · intro m fuel depth slots x htype hx
    have haddress : addressOf ((UInt32.ofNat q.payload).toInt32 -
        Int32.ofNat x.type.elementSize) = q.header := by
      have hle : q.value.type.elementSize ≤ q.payload := Nat.le_add_left _ _
      rw [htype, addressOf_length hle ((Nat.le_add_right _ _).trans hstop)]
      exact Nat.add_sub_cancel _ _
    refine puts_length hx ?_
    have hsmall : q.value.length ≤ maxAddress :=
      calc q.value.length ≤ q.value.length * 4 := by omega
        _ ≤ maxAddress := hlength
    rw [haddress, h.load_length hq hsmall]

end

/-! ### Layouts -/

/-- The argument at a position and the payload it has. -/
def PlacedAt (payloads : List (Option Nat)) (arguments : List Value) (k : Nat) (v : Value)
    (p : Nat) : Prop :=
  arguments[k]? = some v ∧ payloads[k]? = some (some p)

section

variable {arguments : List Value} {layout : Layout} {k : Nat} {v : Value} {p : Nat}

lemma ofArguments?_places (h : Layout.ofArguments? arguments = some layout) :
    Places .empty (placements 0 arguments) layout :=
  place_spec List.Pairwise.nil (fun _ hp => by cases hp) h

/-- An array in a layout is a placed one. -/
lemma PlacedAt.placement (hk : PlacedAt layout.payloads arguments k v p)
    (h : Places .empty (placements 0 arguments) layout) :
    ∃ q, (placements 0 arguments)[k]? = some (some q) ∧ q.value = v ∧ q.payload = p := by
  obtain ⟨hv, hp⟩ := hk
  rw [h.payloads, List.getElem?_map, Option.map_eq_some_iff] at hp
  obtain ⟨placed, hplaced, hp⟩ := hp
  obtain ⟨q, rfl, hpayload⟩ := Option.map_eq_some_iff.mp hp
  exact ⟨q, hplaced, Option.some.inj ((placements_value hplaced).symm.trans hv), hpayload⟩

lemma arrayRange_payload (q : Placement) :
    arrayRange q.value q.payload = Set.Ico q.header q.stop := by
  rw [arrayRange, q.stop_eq]
  show Set.Ico (q.header + q.width - q.width) _ = _
  rw [Nat.add_sub_cancel]
  rfl

/-- The bytes of different arrays are disjoint. -/
lemma PlacedAt.disjoint {k' : Nat} {v' : Value} {p' : Nat}
    (h : Places .empty (placements 0 arguments) layout) (hlt : k < k')
    (hk : PlacedAt layout.payloads arguments k v p)
    (hk' : PlacedAt layout.payloads arguments k' v' p') :
    ∀ a ∈ arrayRange v p, a ∉ arrayRange v' p' := by
  obtain ⟨q, hq, rfl, rfl⟩ := hk.placement h
  obtain ⟨r, hr, rfl, rfl⟩ := hk'.placement h
  obtain ⟨hlen, hq⟩ := List.getElem?_eq_some_iff.mp hq
  obtain ⟨hlen', hr⟩ := List.getElem?_eq_some_iff.mp hr
  have hpairwise := List.pairwise_iff_getElem.mp (placements_pairwise 0 arguments)
  have hle : q.stop ≤ r.header := hpairwise k k' hlen hlen' hlt q hq r hr
  rw [arrayRange_payload, arrayRange_payload]
  intro a ha ha'
  exact absurd (ha.2.trans_le hle) (not_lt_of_ge ha'.1)

/-- A byte that belongs to no array is zero. -/
lemma memory_outside (h : Places .empty (placements 0 arguments) layout) {a : Nat}
    (ha : a < layout.image.memory.size)
    (hout : ∀ k v p, PlacedAt layout.payloads arguments k v p → a ∉ arrayRange v p) :
    layout.image.memory.bytes[a]? = some 0 := by
  refine Image.memory_uncovered (fun cell hcell hcovers => ?_) ha
  rcases (h.mem_cells cell).mp hcell with hempty | ⟨q, hq, j, hj, hoffset⟩
  · cases hempty
  · obtain ⟨k, hk⟩ := List.mem_iff_getElem?.mp hq
    have hat : PlacedAt layout.payloads arguments k q.value q.payload := by
      refine ⟨placements_value hk, ?_⟩
      rw [h.payloads, List.getElem?_map, hk]
      rfl
    refine hout k _ _ hat ?_
    rw [arrayRange_payload]
    obtain ⟨hle, hlt⟩ := hcovers
    have hlen := (List.getElem?_eq_some_iff.mp hj).1
    have hwidth : cell.2.width = q.width := Value.width_cells (List.mem_of_getElem? hj)
    have hstop : q.width * (j + 1) ≤ q.width * q.value.cells.length := Nat.mul_le_mul_left _ hlen
    rw [Nat.mul_succ] at hstop
    rw [hoffset, hwidth] at hlt
    exact ⟨by omega, by rw [Placement.stop]; omega⟩

/-- What is prepared for a call has the memory of the layout. -/
lemma prepare_eq (h : Layout.ofArguments? arguments = some layout)
    (harray : arguments.any Value.isArray = true) {m : CodeModule} (hm : m.importsMemory = true)
    (words : List Word) :
    HostCall.prepare m arguments words = .ok ⟨⟨m, some layout.image.memory⟩,
      words.zipWith HostCall.withPayload layout.payloads, layout.payloads⟩ := by
  have hholds : (Memory.zeros layout.image.pages).holds 0 layout.image.bytes.length = true := by
    have hextent := layout.image.extent_le_pages
    simpa [Memory.holds, Memory.zeros, Memory.size, Image.length_bytes] using hextent
  simp [HostCall.prepare, harray, h, CodeModule.instantiate, hm, Instance.hasMemory, Instance.write,
    hholds, Image.memory]

end

/-- All arrays of a layout are reached by generated code, their bytes are disjoint, all
other bytes of the memory are zero, and this memory is what the function is called
with. -/
theorem layout_addressed {arguments : List Value} {layout : Layout}
    (h : Layout.ofArguments? arguments = some layout) :
    (∀ (k : Nat) v, arguments[k]? = some v → v.isArray = true →
      ∃ p, layout.payloads[k]? = some (some p) ∧ Addressed layout v p) ∧
    (∀ k k' v v' p p', k ≠ k' → PlacedAt layout.payloads arguments k v p →
      PlacedAt layout.payloads arguments k' v' p' → ∀ a ∈ arrayRange v p, a ∉ arrayRange v' p') ∧
    (∀ a < layout.image.memory.size,
      (∀ k v p, PlacedAt layout.payloads arguments k v p → a ∉ arrayRange v p) →
      layout.image.memory.bytes[a]? = some 0) ∧
    (∀ m words, m.importsMemory = true → arguments.any Value.isArray = true →
      HostCall.prepare m arguments words = .ok ⟨⟨m, some layout.image.memory⟩,
        words.zipWith HostCall.withPayload layout.payloads, layout.payloads⟩) := by
  have hplaces := ofArguments?_places h
  refine ⟨fun k v hv harray => ?_, fun k k' v v' p p' hne hk hk' => ?_,
    fun a ha hout => memory_outside hplaces ha hout,
    fun m words hm harray => prepare_eq h harray hm words⟩
  · obtain ⟨q, hq, rfl⟩ : ∃ q, (placements 0 arguments)[k]? = some (some q) ∧ q.value = v :=
      placements_isArray hv harray
    refine ⟨q.payload, ?_, hplaces.addressed (List.mem_of_getElem? hq)⟩
    rw [hplaces.payloads, List.getElem?_map, hq]
    rfl
  · rcases Nat.lt_or_gt_of_ne hne with hlt | hgt
    · exact hk.disjoint hplaces hlt hk'
    · exact fun a ha ha' => hk'.disjoint hplaces hgt hk a ha' ha

theorem layout_addressed_mixed :
    ∃ layout, Layout.ofArguments? [.int32 7, .int32Array [1],
        .float64Array [Double.one, Double.zero]] = some layout ∧
      layout.payloads = [none, some 4, some 16] ∧
      Addressed layout (.float64Array [Double.one, Double.zero]) 16 ∧
      ∀ a ∈ arrayRange (.int32Array [1]) 4,
        a ∉ arrayRange (.float64Array [Double.one, Double.zero]) 16 := by
  obtain ⟨layout, hlayout, hpayloads⟩ : ∃ layout, Layout.ofArguments? [.int32 7, .int32Array [1],
      .float64Array [Double.one, Double.zero]] = some layout ∧
      layout.payloads = [none, some 4, some 16] := ⟨_, rfl, rfl⟩
  obtain ⟨haddressed, hdisjoint, _⟩ := layout_addressed hlayout
  obtain ⟨p, hp, hfloats⟩ := haddressed 2 _ rfl rfl
  obtain rfl : 16 = p := by simpa [hpayloads] using hp
  exact ⟨layout, hlayout, hpayloads, hfloats,
    hdisjoint 1 2 _ _ 4 16 (by decide) ⟨rfl, by rw [hpayloads]; rfl⟩ ⟨rfl, by rw [hpayloads]; rfl⟩⟩

end ArrayScript
