import ArrayScript.Proofs.Host.Addressing

/-!
Arrays are read back as they lie in memory.

* `Memory.HoldsArray`: the elements of an array lie one after another from an address on.
* `readBack_holds`: what is read back is the array of the same kind and length that
  memory holds, and there is only one (`Memory.HoldsArray.unique`).
* `Arranged`: arrays at payloads inside a memory, apart from each other, as those of a
  layout are (`ofArguments?_arranged`).
* `readEach_restored`: reading outputs back changes these arrays and nothing else, so the
  order of the outputs and repetitions among them make no difference
  (`Restored.unique`).
-/

namespace ArrayScript

open Machine HostCall

/-! ### Arrays in memory -/

lemma Memory.read?_eq {m : Memory} {a count : Nat} (h : a + count ≤ m.size) :
    m.read? a count = some (m.bytes.extract a (a + count)).toList := by
  rw [read?, holds, if_pos (by simpa using h)]

/-- The elements of an array lie one after another from an address on. -/
def Memory.HoldsArray (memory : Memory) (p : Nat) (v : Value) : Prop :=
  ∀ i w, v.elements[i]? = some w →
    memory.load? v.type.elementType.wordType (p + i * v.type.elementSize) = some w

/-- The type of a value and the number of its elements. -/
def Value.shape (v : Value) : ValueType × Nat :=
  (v.type, v.length)

lemma Value.isArray_of_shape {v v' : Value} (h : v'.shape = v.shape) :
    v'.isArray = v.isArray := by
  rw [Value.isArray, Value.isArray, (Prod.mk.inj h).1]

/-- An array is known by its type and its elements. -/
lemma Value.eq_of_elements {v v' : Value} (hv : v.isArray = true) (htype : v'.type = v.type)
    (h : v'.elements = v.elements) : v' = v := by
  cases v <;> cases v' <;> simp_all [Value.isArray, Value.type, ValueType.isArray, elements]
  · exact List.map_injective_iff.mpr (fun _ _ h => Word.i32.inj h) h
  · exact List.map_injective_iff.mpr (fun _ _ h => Word.f64.inj h) h

/-- Memory holds at most one array of a kind and length at an address. -/
theorem Memory.HoldsArray.unique {memory : Memory} {p : Nat} {v v' : Value}
    (hv : v.isArray = true) (hshape : v'.shape = v.shape) (h : memory.HoldsArray p v)
    (h' : memory.HoldsArray p v') : v' = v := by
  obtain ⟨htype, hcount⟩ := Prod.mk.inj hshape
  refine Value.eq_of_elements hv htype (List.ext_getElem? fun i => ?_)
  have hlength : v'.elements.length = v.elements.length := by
    rw [Value.length_elements, Value.length_elements, hcount]
  by_cases hi : i < v.elements.length
  · have hload := h i _ (List.getElem?_eq_getElem hi)
    have hload' := h' i _ (List.getElem?_eq_getElem (hlength ▸ hi))
    rw [htype, hload] at hload'
    rw [List.getElem?_eq_getElem hi, List.getElem?_eq_getElem (hlength ▸ hi), hload']
  · rw [List.getElem?_eq_none (by omega), List.getElem?_eq_none (by omega)]

/-- The words of a type that bytes spell one after another. -/
def chunks (t : WordType) : (count : Nat) → Bytes → List Word
  | 0, _ => []
  | count + 1, bytes => .ofBytes t (bytes.take t.width) :: chunks t count (bytes.drop t.width)

lemma map_integers (count : Nat) (bytes : Bytes) :
    (integers count bytes).map Word.i32 = chunks .i32 count bytes := by
  induction count generalizing bytes with
  | zero => rfl
  | succ count ih =>
      rw [integers, List.map_cons, ih]
      rfl

lemma map_doubles (count : Nat) (bytes : Bytes) :
    (doubles count bytes).map Word.f64 = chunks .f64 count bytes := by
  induction count generalizing bytes with
  | zero => rfl
  | succ count ih =>
      rw [doubles, List.map_cons, ih]
      rfl

lemma length_chunks (t : WordType) (count : Nat) (bytes : Bytes) :
    (chunks t count bytes).length = count := by
  induction count generalizing bytes with
  | zero => rfl
  | succ count ih => rw [chunks, List.length_cons, ih]

lemma getElem?_chunks {t : WordType} {count i : Nat} (hi : i < count) (bytes : Bytes) :
    (chunks t count bytes)[i]? =
      some (.ofBytes t ((bytes.drop (i * t.width)).take t.width)) := by
  induction count generalizing bytes i with
  | zero => omega
  | succ count ih =>
      cases i with
      | zero => rw [Nat.zero_mul, List.drop_zero, chunks, List.getElem?_cons_zero]
      | succ i =>
          rw [chunks, List.getElem?_cons_succ, ih (by omega), List.drop_drop, Nat.succ_mul,
            Nat.add_comm]

/-- Words that are spelt by consecutive bytes of a memory are loaded from there. -/
lemma load?_eq_chunk {memory : Memory} {t : WordType} {p count i : Nat} (hi : i < count)
    (h : p + count * t.width ≤ memory.size) :
    memory.load? t (p + i * t.width) =
      (chunks t count (memory.bytes.extract p (p + count * t.width)).toList)[i]? := by
  have hend : (i + 1) * t.width ≤ count * t.width := Nat.mul_le_mul_right _ hi
  rw [Nat.succ_mul] at hend
  rw [getElem?_chunks hi, Memory.load?, Memory.read?_eq (by omega), Option.map_some]
  refine congrArg (fun bytes => some (Word.ofBytes t bytes)) (List.ext_getElem? fun j => ?_)
  have hsize : p + count * t.width ≤ memory.bytes.size := h
  rw [Array.getElem?_toList, Array.getElem?_extract, List.getElem?_take, List.getElem?_drop,
    Array.getElem?_toList, Array.getElem?_extract]
  by_cases hj : j < t.width
  · rw [if_pos (by omega), if_pos hj, if_pos (by omega), Nat.add_assoc]
  · rw [if_neg (by omega), if_neg hj]

/-- So a word that is one of those spelt is loaded from its place. -/
lemma load?_of_chunks {memory : Memory} {t : WordType} {p count i : Nat} {w : Word}
    (h : p + count * t.width ≤ memory.size)
    (hw : (chunks t count (memory.bytes.extract p (p + count * t.width)).toList)[i]? = some w) :
    memory.load? t (p + i * t.width) = some w := by
  have hi := (List.getElem?_eq_some_iff.mp hw).1
  rw [length_chunks] at hi
  rw [load?_eq_chunk hi h, hw]

/-- An array of which the bytes lie in memory is read back as the one of its kind and
length that memory holds. -/
theorem readBack_holds (code : CodeModule) {memory : Memory} {p : Nat} {v : Value}
    (h : p + v.length * v.type.elementSize ≤ memory.size) :
    ∃ v', readBack ⟨code, some memory⟩ p v = .ok v' ∧ v'.shape = v.shape ∧
      memory.HoldsArray p v' := by
  cases v with
  | int32Array items =>
      refine ⟨.int32Array (integers items.length
        (memory.bytes.extract p (p + items.length * 4)).toList), ?_, Prod.ext rfl ?_, ?_⟩
      · have hread : memory.read? p (items.length * 4) = _ := Memory.read?_eq h
        rw [readBack, Instance.read]
        dsimp only
        rw [hread]
        rfl
      · rw [Value.shape, ← Value.length_elements, Value.elements, map_integers, length_chunks]
        rfl
      · intro i w hw
        rw [Value.elements, map_integers] at hw
        exact load?_of_chunks (t := .i32) h hw
  | float64Array items =>
      refine ⟨.float64Array (doubles items.length
        (memory.bytes.extract p (p + items.length * 8)).toList), ?_, Prod.ext rfl ?_, ?_⟩
      · have hread : memory.read? p (items.length * 8) = _ := Memory.read?_eq h
        rw [readBack, Instance.read]
        dsimp only
        rw [hread]
        rfl
      · rw [Value.shape, ← Value.length_elements, Value.elements, map_doubles, length_chunks]
        rfl
      · intro i w hw
        rw [Value.elements, map_doubles] at hw
        exact load?_of_chunks (t := .f64) h hw
  | int32 n => exact ⟨_, rfl, rfl, fun i w hw => by cases hw⟩
  | float64 x => exact ⟨_, rfl, rfl, fun i w hw => by cases hw⟩
  | boolean b => exact ⟨_, rfl, rfl, fun i w hw => by cases hw⟩

/-! ### Outputs -/

/-- The offset after the last element of an array. -/
def arrayEnd (v : Value) (p : Nat) : Nat :=
  p + v.length * v.type.elementSize

/-- Arrays at payloads inside a memory of the given size, apart from each other. -/
structure Arranged (payloads : List (Option Nat)) (size : Nat) (arguments : List Value) :
    Prop where
  located : ∀ {k : Nat} {v}, arguments[k]? = some v → v.isArray = true →
    ∃ p, PlacedAt payloads arguments k v p
  array : ∀ {k v p}, PlacedAt payloads arguments k v p → v.isArray = true
  inside : ∀ {k v p}, PlacedAt payloads arguments k v p → arrayEnd v p ≤ size
  addressable : ∀ {k v p}, PlacedAt payloads arguments k v p → arrayEnd v p ≤ maxAddress
  apart : ∀ {k k' v v' p p'}, k ≠ k' → PlacedAt payloads arguments k v p →
    PlacedAt payloads arguments k' v' p' → arrayEnd v p ≤ p' ∨ arrayEnd v' p' ≤ p

/-- Memory holds all arrays at their payloads. -/
def Memory.HoldsAll (memory : Memory) (payloads : List (Option Nat)) (arguments : List Value) :
    Prop :=
  ∀ ⦃k v p⦄, PlacedAt payloads arguments k v p → memory.HoldsArray p v

/-- Arguments that differ only in the outputs, which are the arrays that memory holds. -/
structure Restored (memory : Memory) (payloads : List (Option Nat)) (outputs : List Nat)
    (arguments arguments' : List Value) : Prop where
  shapes : arguments'.map Value.shape = arguments.map Value.shape
  other : ∀ {k : Nat}, k ∉ outputs → arguments'[k]? = arguments[k]?
  scalar : ∀ {k : Nat}, payloads[k]?.join = none → arguments'[k]? = arguments[k]?
  output : ∀ {k v p}, k ∈ outputs → PlacedAt payloads arguments' k v p → memory.HoldsArray p v

section

variable {memory : Memory} {payloads : List (Option Nat)} {size : Nat} {outputs rest : List Nat}
  {arguments arguments' arguments'' : List Value}

/-- Arguments of the same shapes are arranged alike. -/
lemma Arranged.of_shapes (h : Arranged payloads size arguments)
    (hshapes : arguments'.map Value.shape = arguments.map Value.shape) :
    Arranged payloads size arguments' := by
  have hback : ∀ {k : Nat} {v'}, arguments'[k]? = some v' →
      ∃ v, arguments[k]? = some v ∧ v'.shape = v.shape := fun {k v'} hv' => by
    have hk := congrArg (fun l => l[k]?) hshapes
    simp only [List.getElem?_map, hv', Option.map_some] at hk
    obtain ⟨v, hv, hshape⟩ := Option.map_eq_some_iff.mp hk.symm
    exact ⟨v, hv, hshape.symm⟩
  have hplaced : ∀ {k v' p}, PlacedAt payloads arguments' k v' p →
      ∃ v, PlacedAt payloads arguments k v p ∧ v'.shape = v.shape ∧
        arrayEnd v' p = arrayEnd v p := by
    rintro k v' p ⟨hv', hp⟩
    obtain ⟨v, hv, hshape⟩ := hback hv'
    obtain ⟨htype, hlength⟩ := Prod.mk.inj hshape
    exact ⟨v, ⟨hv, hp⟩, hshape, by rw [arrayEnd, arrayEnd, htype, hlength]⟩
  refine ⟨fun hv' harray => ?_, fun hq => ?_, fun hq => ?_, fun hq => ?_, fun hne hq hq' => ?_⟩
  · obtain ⟨v, hv, hshape⟩ := hback hv'
    obtain ⟨p, _, hp⟩ := h.located hv (Value.isArray_of_shape hshape ▸ harray)
    exact ⟨p, hv', hp⟩
  · obtain ⟨v, hv, hshape, _⟩ := hplaced hq
    rw [Value.isArray_of_shape hshape]
    exact h.array hv
  · obtain ⟨v, hv, _, hend⟩ := hplaced hq
    rw [hend]
    exact h.inside hv
  · obtain ⟨v, hv, _, hend⟩ := hplaced hq
    rw [hend]
    exact h.addressable hv
  · obtain ⟨v, hv, _, hend⟩ := hplaced hq
    obtain ⟨v', hv', _, hend'⟩ := hplaced hq'
    rw [hend, hend']
    exact h.apart hne hv hv'

lemma Restored.refl (memory : Memory) (payloads : List (Option Nat)) (arguments : List Value) :
    Restored memory payloads [] arguments arguments :=
  ⟨rfl, fun _ => rfl, fun _ => rfl, fun hk => by cases hk⟩

/-- Outputs that are read back after others. -/
lemma Restored.append (h : Restored memory payloads outputs arguments arguments')
    (h' : Restored memory payloads rest arguments' arguments'') :
    Restored memory payloads (outputs ++ rest) arguments arguments'' where
  shapes := h'.shapes.trans h.shapes
  other hk := by
    rw [List.mem_append, not_or] at hk
    rw [h'.other hk.2, h.other hk.1]
  scalar hk := by rw [h'.scalar hk, h.scalar hk]
  output := by
    rintro k v p hk ⟨hv, hp⟩
    by_cases hrest : k ∈ rest
    · exact h'.output hrest ⟨hv, hp⟩
    · refine h.output ((List.mem_append.mp hk).resolve_right hrest) ⟨?_, hp⟩
      rw [← h'.other hrest, hv]

/-- One output that is read back. -/
lemma readOutput_restored (code : CodeModule) (h : Arranged payloads memory.size arguments)
    (k : Nat) :
    ∃ arguments', readOutput ⟨code, some memory⟩ payloads arguments k = .ok arguments' ∧
      Restored memory payloads [k] arguments arguments' := by
  rw [readOutput]
  split
  · rename_i p v hp hv
    have hplaced : PlacedAt payloads arguments k v p := ⟨hv, Option.join_eq_some_iff.mp hp⟩
    obtain ⟨v', hread, hshape, hholds⟩ := readBack_holds code (h.inside hplaced)
    obtain ⟨hlt, hget⟩ := List.getElem?_eq_some_iff.mp hv
    refine ⟨arguments.set k v', by rw [hread]; rfl, ?_, fun {j} hj => ?_, fun {j} hj => ?_, ?_⟩
    · rw [List.map_set, hshape, ← hget, ← List.getElem_map Value.shape,
        List.set_getElem_self]
      simpa using hlt
    · rw [List.getElem?_set_ne (Ne.symm (by simpa using hj))]
    · rw [List.getElem?_set_ne]
      rintro rfl
      rw [hp] at hj
      cases hj
    · rintro j u q hj ⟨hu, hq⟩
      obtain rfl := List.mem_singleton.mp hj
      rw [List.getElem?_set_self hlt] at hu
      obtain rfl := Option.some.inj hu
      obtain rfl : q = p := by simpa [hq] using hp
      exact hholds
  · rename_i hnone
    refine ⟨arguments, rfl, rfl, fun _ => rfl, fun _ => rfl, ?_⟩
    rintro j v p hj ⟨hv, hp⟩
    obtain rfl := List.mem_singleton.mp hj
    exact (hnone p v (by rw [hp]; rfl) hv).elim

/-- All outputs can be read back, which changes only them. -/
theorem readEach_restored (code : CodeModule) (h : Arranged payloads memory.size arguments)
    (outputs : List Nat) :
    ∃ arguments', readEach ⟨code, some memory⟩ payloads outputs arguments = (.ok (), arguments') ∧
      Restored memory payloads outputs arguments arguments' := by
  induction outputs generalizing arguments with
  | nil => exact ⟨arguments, rfl, .refl _ _ _⟩
  | cons k rest ih =>
      obtain ⟨middle, hread, hmiddle⟩ := readOutput_restored code h k
      obtain ⟨last, hrest, hlast⟩ := ih (h.of_shapes hmiddle.shapes)
      exact ⟨last, by rw [readEach, hread, ← hrest], hmiddle.append hlast⟩

/-- What is restored depends on which the outputs are, not on their order. -/
theorem Restored.unique (harranged : Arranged payloads memory.size arguments)
    (hsame : ∀ k, k ∈ outputs ↔ k ∈ rest)
    (h : Restored memory payloads outputs arguments arguments')
    (h' : Restored memory payloads rest arguments arguments'') : arguments' = arguments'' := by
  refine List.ext_getElem? fun k => ?_
  by_cases hk : k ∈ outputs
  · cases hp : payloads[k]?.join with
    | none => rw [h.scalar hp, h'.scalar hp]
    | some p =>
        have hpayload := Option.join_eq_some_iff.mp hp
        have hshapes := congrArg (fun l => l[k]?) (h.shapes.trans h'.shapes.symm)
        simp only [List.getElem?_map] at hshapes
        cases hv : arguments''[k]? with
        | none =>
            rw [hv, Option.map_none, Option.map_eq_none_iff] at hshapes
            exact hshapes
        | some v =>
            rw [hv, Option.map_some] at hshapes
            obtain ⟨v', hv', hshape⟩ := Option.map_eq_some_iff.mp hshapes
            have harray := (harranged.of_shapes h'.shapes).array ⟨hv, hpayload⟩
            rw [hv', Memory.HoldsArray.unique harray hshape
              (h'.output ((hsame k).mp hk) ⟨hv, hpayload⟩) (h.output hk ⟨hv', hpayload⟩)]
  · rw [h.other hk, h'.other fun hk' => hk ((hsame k).mpr hk')]

end

/-- Reading back from a memory is reading the outputs one after another. -/
lemma readOutputs_eq_of_restored {code : CodeModule} {memory : Memory}
    {payloads : List (Option Nat)} {outputs : List Nat} {arguments arguments' : List Value}
    (harranged : Arranged payloads memory.size arguments)
    (h : Restored memory payloads outputs arguments arguments') :
    readOutputs ⟨code, some memory⟩ payloads outputs arguments = (.ok (), arguments') := by
  obtain ⟨result, hread, hresult⟩ := readEach_restored code harranged outputs
  rw [h.unique harranged (fun _ => Iff.rfl) hresult, ← hread]
  rfl

/-! ### Layouts -/

section

variable {arguments : List Value} {layout : Layout}

/-- A placed array ends inside the pages. -/
lemma Places.stop_le_size {placed : List (Option Placement)} {q : Placement}
    (h : Places .empty placed layout) (hq : some q ∈ placed) :
    q.stop ≤ layout.image.memory.size := by
  obtain ⟨c, hc⟩ : ∃ c, q.value.cells[q.value.length]? = some c := by
    have hlt : q.value.length < q.value.cells.length := by
      rw [Value.length_cells]
      omega
    exact ⟨_, List.getElem?_eq_getElem hlt⟩
  have hend := h.separate.le_extent (h.mem_of_cell hq hc)
  rw [show c.width = q.width from Value.width_cells (List.mem_of_getElem? hc)] at hend
  calc q.stop = q.header + q.width * q.value.length + q.width := by
        rw [Placement.stop, Value.length_cells]
        ring
    _ ≤ layout.image.extent := hend
    _ ≤ layout.image.pages * pageSize := layout.image.extent_le_pages
    _ = layout.image.memory.size := layout.image.size_memory.symm

/-- The arrays of a layout are arranged in its memory. -/
theorem ofArguments?_arranged (h : Layout.ofArguments? arguments = some layout) :
    Arranged layout.payloads layout.image.memory.size arguments := by
  have hplaces := ofArguments?_places h
  have hplacement : ∀ {k v p}, PlacedAt layout.payloads arguments k v p →
      ∃ q, (placements 0 arguments)[k]? = some (some q) ∧ q.value = v ∧ q.payload = p :=
    fun hk => hk.placement hplaces
  have hend : ∀ q : Placement, arrayEnd q.value q.payload = q.stop := fun q => q.stop_eq.symm
  refine ⟨fun {k v} hv harray => ?_, fun hk => ?_, fun hk => ?_, fun hk => ?_,
    fun {k k' v v' p p'} hne hk hk' => ?_⟩
  · obtain ⟨q, hq, rfl⟩ : ∃ q, (placements 0 arguments)[k]? = some (some q) ∧ q.value = v :=
      placements_isArray hv harray
    refine ⟨q.payload, hv, ?_⟩
    rw [hplaces.payloads, List.getElem?_map, hq]
    rfl
  · obtain ⟨q, _, rfl, _⟩ := hplacement hk
    exact q.is_array
  · obtain ⟨q, hq, rfl, rfl⟩ := hplacement hk
    rw [hend]
    exact hplaces.stop_le_size (List.mem_of_getElem? hq)
  · obtain ⟨q, hq, rfl, rfl⟩ := hplacement hk
    rw [hend]
    exact hplaces.stop_le q (List.mem_of_getElem? hq)
  · obtain ⟨q, hq, rfl, rfl⟩ := hplacement hk
    obtain ⟨r, hr, rfl, rfl⟩ := hplacement hk'
    obtain ⟨hlen, hq⟩ := List.getElem?_eq_some_iff.mp hq
    obtain ⟨hlen', hr⟩ := List.getElem?_eq_some_iff.mp hr
    have hpairwise := List.pairwise_iff_getElem.mp (placements_pairwise 0 arguments)
    have hpayload : ∀ q : Placement, q.header ≤ q.payload := fun q => Nat.le_add_right _ _
    rw [hend, hend]
    rcases Nat.lt_or_gt_of_ne hne with hlt | hgt
    · exact .inl ((hpairwise k k' hlen hlen' hlt q hq r hr).trans (hpayload r))
    · exact .inr ((hpairwise k' k hlen' hlen hgt r hr q hq).trans (hpayload q))

/-- The memory of a layout holds its arrays. -/
lemma ofArguments?_holdsAll (h : Layout.ofArguments? arguments = some layout) :
    layout.image.memory.HoldsAll layout.payloads arguments := by
  have hplaces := ofArguments?_places h
  intro k v p hk i w hw
  obtain ⟨q, hq, rfl, rfl⟩ := hk.placement hplaces
  exact (hplaces.load_element (List.mem_of_getElem? hq) hw).2.2

/-- No cell of a layout sticks out. -/
lemma ofArguments?_toBytes? (h : Layout.ofArguments? arguments = some layout) :
    layout.image.toBytes? = some layout.image.bytes := by
  have hclosed : layout.image.isClosed = true := by
    rw [Image.isClosed, List.all_eq_true]
    intro cell hcell
    exact decide_eq_true ((ofArguments?_places h).separate.le_extent hcell)
  rw [Image.toBytes?, if_pos hclosed]

/-- Reading back from the memory of a layout gives the arguments. -/
lemma restored_unchanged (h : Layout.ofArguments? arguments = some layout) (outputs : List Nat) :
    Restored layout.image.memory layout.payloads outputs arguments arguments :=
  ⟨rfl, fun _ => rfl, fun _ => rfl, fun _ hk => ofArguments?_holdsAll h hk⟩

end

end ArrayScript
