import Mathlib.Tactic
import ArrayScript.Lowering

/-!
Mappings of names to slots.

* `declare_names`: what is in a mapping after one more name was declared.
* `get?_eq`: the slot of a name is the first slot plus the position of the name.
* `ext_names`: a mapping is determined by its first slot and its names.
* `declareAll_names`: new names that are declared in order come last, in this order.
* `Slots.mem_foldl_declareLocal`: local variables are what was declared and is no parameter.
* `Slots.names_eq`: the mapping of all variables has the parameters first.
* `LoweringContext.get?_eq`: in the mapping by which code is generated, the slot of a name
  is its position.

That slots are counted up from the first one is part of the type of a mapping. So what is
said here needs no premise about how a mapping was made.
-/

namespace ArrayScript

/-- Looking up a key in a list of keys with numbers. -/
lemma Table.lookup_zipIdx {κ : Type} [DecidableEq κ] (k : κ) (l : List κ) (first : Nat) :
    Table.lookup k (l.zipIdx first) = (l.idxOf? k).map (first + ·) := by
  induction l generalizing first with
  | nil => rfl
  | cons a rest ih =>
      rw [List.zipIdx_cons, Table.lookup, List.idxOf?_cons]
      by_cases ha : a = k
      · simp [ha]
      · have hstep : ∀ i, first + 1 + i = first + (i + 1) := fun i => by omega
        simp [ha, ih, Option.map_map, Function.comp_def, hstep]

namespace VariableMapping

variable {m m' : VariableMapping} {name : String} {slot : Nat}

/-! ### Slots of names -/

/-- The slot of a name is the first slot plus the position of the name. -/
lemma get?_eq (m : VariableMapping) (name : String) :
    m.get? name = (m.names.idxOf? name).map (m.firstSlot + ·) := by
  rw [get?, Table.find?, m.entries_eq, Table.lookup_zipIdx]

/-- A mapping gives a name the slot with which the name is listed. -/
lemma get?_eq_some : m.get? name = some slot ↔ (name, slot) ∈ m.iter := by
  rw [get?_eq, iter, List.mem_zipIdx_iff_le_and_getElem?_sub, Option.map_eq_some_iff]
  constructor
  · rintro ⟨k, hk, rfl⟩
    obtain ⟨hlt, hname, _⟩ := List.idxOf?_eq_some_iff.mp hk
    refine ⟨Nat.le_add_right _ _, ?_⟩
    rw [Nat.add_sub_cancel_left]
    exact List.getElem?_eq_some_iff.mpr ⟨hlt, hname⟩
  · rintro ⟨hle, h⟩
    obtain ⟨hlt, hname⟩ := List.getElem?_eq_some_iff.mp h
    refine ⟨slot - m.firstSlot, ?_, by omega⟩
    refine List.idxOf?_eq_some_iff.mpr ⟨hlt, hname, fun j hj heq => ?_⟩
    have hsame : m.names[j] = m.names[slot - m.firstSlot] := heq.trans hname.symm
    exact hj.ne (m.nodup.getElem_inj_iff.mp hsame)

lemma get?_eq_none : m.get? name = none ↔ name ∉ m.names := by
  rw [get?_eq, Option.map_eq_none_iff, List.idxOf?_eq_none_iff]

/-- A name has a slot if the mapping gives it one. -/
lemma slot_eq_ok : m.slot name = .ok slot ↔ m.get? name = some slot := by
  rw [VariableMapping.slot]
  cases m.get? name <;> simp

/-- Mappings with the same names and the same first slot are the same. -/
lemma ext_names (hfirst : m.firstSlot = m'.firstSlot) (hnames : m.names = m'.names) : m = m' := by
  obtain ⟨first, names, ⟨entries⟩, hentries, _⟩ := m
  obtain ⟨first', names', ⟨entries'⟩, hentries', _⟩ := m'
  obtain rfl : first = first' := hfirst
  obtain rfl : names = names' := hnames
  obtain rfl : entries = entries' := hentries.trans hentries'.symm
  rfl

/-! ### Declaring names -/

/-- A name is new if it had no slot. -/
lemma declare_fst : (m.declare name).1 = true ↔ name ∉ m.names := by
  rw [declare, ← contains_iff]
  split <;> simp [*]

/-- A new name comes last. -/
lemma declare_names (m : VariableMapping) (name : String) :
    (m.declare name).2.names = if name ∈ m.names then m.names else m.names ++ [name] := by
  rw [declare]
  by_cases h : name ∈ m.names
  · rw [dif_pos (contains_iff.mpr h), if_pos h]
  · rw [dif_neg (fun hcontains => h (contains_iff.mp hcontains)), if_neg h]

/-- What is declared has a slot then, and nothing else is new. -/
lemma mem_declareAll {names : List String} :
    name ∈ (m.declareAll names).names ↔ name ∈ m.names ∨ name ∈ names := by
  induction names generalizing m with
  | nil => simp [declareAll]
  | cons n rest ih =>
      rw [declareAll, List.foldl_cons, ← declareAll, ih, declare_names]
      split <;> grind

/-- New names come last, in the order in which they are declared. -/
lemma declareAll_names {names : List String} (h : (m.names ++ names).Nodup) :
    (m.declareAll names).names = m.names ++ names := by
  induction names generalizing m with
  | nil => exact (List.append_nil _).symm
  | cons n rest ih =>
      have hnew : n ∉ m.names := fun hmem =>
        (List.nodup_append.mp h).2.2 n hmem n List.mem_cons_self rfl
      have hstep : (m.declare n).2.names = m.names ++ [n] := by rw [declare_names, if_neg hnew]
      rw [declareAll, List.foldl_cons, ← declareAll, ih (by rw [hstep]; simpa using h), hstep,
        List.append_assoc, List.singleton_append]

end VariableMapping

/-! ### Parameters and locals -/

namespace Slots

variable {s : Slots} {parameters m : VariableMapping} {name : String}

/-- A local variable is new if its name is neither a parameter nor declared before. -/
lemma declareLocal_names (parameters m : VariableMapping) (name : String) :
    (declareLocal parameters m name).names =
      if name ∈ parameters.names ∨ name ∈ m.names then m.names else m.names ++ [name] := by
  rw [declareLocal]
  by_cases hparameter : name ∈ parameters.names
  · rw [if_pos (VariableMapping.contains_iff.mpr hparameter), if_pos (.inl hparameter)]
  · rw [if_neg (fun h => hparameter (VariableMapping.contains_iff.mp h)),
      VariableMapping.declare_names]
    simp only [hparameter, false_or]

/-- What was declared and is no parameter is a local variable, and nothing else is. -/
lemma mem_foldl_declareLocal {names : List String} :
    name ∈ (names.foldl (declareLocal parameters) m).names ↔
      name ∈ m.names ∨ name ∈ names ∧ name ∉ parameters.names := by
  induction names generalizing m with
  | nil => simp
  | cons n rest ih =>
      rw [List.foldl_cons, ih, declareLocal_names]
      split <;> grind

lemma foldl_declareLocal_firstSlot (parameters m : VariableMapping) (names : List String) :
    (names.foldl (declareLocal parameters) m).firstSlot = m.firstSlot := by
  induction names generalizing m with
  | nil => rfl
  | cons n rest ih =>
      rw [List.foldl_cons, ih, declareLocal]
      split
      · rfl
      · exact m.declare_firstSlot n

/-! ### The mapping of all variables -/

lemma mem_names : name ∈ s.names ↔ name ∈ s.parameters.names ++ s.locals.names := by
  rw [names, merged, VariableMapping.mem_declareAll]
  exact or_iff_right List.not_mem_nil

/-- Parameters come first, if no other variable has the name of one. -/
lemma names_eq (h : ∀ name ∈ s.locals.names, name ∉ s.parameters.names) :
    s.names = s.parameters.names ++ s.locals.names := by
  have hdistinct : (s.parameters.names ++ s.locals.names).Nodup := by
    refine List.nodup_append.mpr ⟨s.parameters.nodup, s.locals.nodup, ?_⟩
    rintro a ha b hb rfl
    exact h a hb ha
  exact VariableMapping.declareAll_names hdistinct

end Slots

lemma LoweringContext.len_mapping (cx : LoweringContext) :
    cx.mapping.len = cx.names.length :=
  rfl

/-- Where code is generated, the slot of a name is its position. -/
lemma LoweringContext.get?_eq (cx : LoweringContext) (name : String) :
    cx.mapping.get? name = cx.names.idxOf? name := by
  have hzero : ∀ i, 0 + i = i := Nat.zero_add
  rw [cx.mapping.get?_eq, cx.firstSlot_eq, names]
  simp [hzero]

/-- A name is looked up among the variables, and the error says whether it has a type. -/
lemma Lowering.slot_eq (cx : LoweringContext) (name : String) :
    Lowering.slot cx name =
      match cx.names.idxOf? name with
      | some k => .ok k
      | none =>
        if cx.typing.variableTypes.contains name then .error (.unresolvedSlot name)
        else .error (.unknownIdentifier name) := by
  rw [Lowering.slot, VariableMapping.slot, cx.get?_eq]
  cases hk : cx.names.idxOf? name with
  | some k =>
      have hmem : name ∈ cx.names := List.isSome_idxOf?.mp (by rw [hk]; rfl)
      exact if_pos (.inl (VariableMapping.contains_iff.mpr hmem))
  | none =>
      have hmem : ¬ cx.mapping.contains name := fun h =>
        List.idxOf?_eq_none_iff.mp hk (VariableMapping.contains_iff.mp h)
      simp only [hmem, false_or, Bool.false_eq_true]

end ArrayScript
