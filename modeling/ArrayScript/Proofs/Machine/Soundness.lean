import ArrayScript.Code.Validation
import ArrayScript.Proofs.Machine.Execution

/-!
Code that passes validation does not get stuck.

Where code is run, validation knows the types of all operands, `Operands.of stack`.
`Outcome.Respects` says what validation promises of an outcome: operands of the types it
computed, at a branch the operands of the label, at a return a word of the result type,
and never `stuck`. The size of memory stays as it is.

* `plain_respects`: one operation keeps the promise.
* `exec_respects`, `instr_respects`, `invoke_respects`: so do code, instructions and calls,
  by recursion on fuel and code.
-/

namespace ArrayScript.Machine

open Validation

/-! ### Operands that are there -/

/-- The types of operands that are all known. -/
def operandsOf (stack : List Word) : Operands :=
  ⟨stack.map fun w => some w.type, false⟩

@[simp] lemma operandsOf_nil : operandsOf [] = .empty := rfl

lemma push_operandsOf (w : Word) (stack : List Word) :
    (operandsOf stack).push w.type = operandsOf (w :: stack) := rfl

lemma popAny?_operandsOf {stack : List Word} {t : Option WordType} {rest : Operands}
    (h : (operandsOf stack).popAny? = some (t, rest)) :
    ∃ w stack', stack = w :: stack' ∧ t = some w.type ∧ rest = operandsOf stack' := by
  cases stack with
  | nil => cases h
  | cons w stack' =>
      obtain ⟨rfl, rfl⟩ := Prod.mk.inj (Option.some.inj h)
      exact ⟨w, stack', rfl, rfl, rfl⟩

lemma pop?_operandsOf {stack : List Word} {t : WordType} {rest : Operands}
    (h : (operandsOf stack).pop? t = some rest) :
    ∃ w stack', stack = w :: stack' ∧ w.type = t ∧ rest = operandsOf stack' := by
  obtain ⟨⟨found, rest'⟩, hpop, h⟩ := Option.bind_eq_some_iff.mp h
  obtain ⟨w, stack', rfl, rfl, rfl⟩ := popAny?_operandsOf hpop
  dsimp only at h
  split at h
  · rename_i htype
    obtain rfl := Option.some.inj h
    exact ⟨w, stack', rfl, by simpa using htype, rfl⟩
  · cases h

/-- One operand that is taken before anything else. -/
lemma popOne_operandsOf {stack : List Word} {t : WordType} {next : Operands → Option Operands}
    {after : Operands} (h : ((operandsOf stack).pop? t >>= next) = some after) :
    ∃ w stack', stack = w :: stack' ∧ w.type = t ∧ next (operandsOf stack') = some after := by
  obtain ⟨rest, hpop, hnext⟩ := Option.bind_eq_some_iff.mp h
  obtain ⟨w, stack', rfl, hw, rfl⟩ := pop?_operandsOf hpop
  exact ⟨w, stack', rfl, hw, hnext⟩

/-- Operands that are taken together lie on top, the last one first. -/
lemma popAll?_operandsOf {stack : List Word} {types : List WordType} {rest : Operands}
    (h : (operandsOf stack).popAll? types = some rest) :
    ∃ top stack', stack = top ++ stack' ∧ top.map Word.type = types.reverse ∧
      rest = operandsOf stack' := by
  rw [Operands.popAll?] at h
  generalize types.reverse = order at h
  induction order generalizing stack with
  | nil =>
      obtain rfl := Option.some.inj h
      exact ⟨[], stack, rfl, rfl, rfl⟩
  | cons t order ih =>
      rw [List.foldlM_cons] at h
      obtain ⟨middle, hpop, h⟩ := Option.bind_eq_some_iff.mp h
      obtain ⟨w, stack', rfl, rfl, rfl⟩ := pop?_operandsOf hpop
      obtain ⟨top, stack'', rfl, htypes, rfl⟩ := ih h
      exact ⟨w :: top, stack'', rfl, by rw [List.map_cons, htypes], rfl⟩

/-- Two operands that are taken together. -/
lemma popTwo_operandsOf {stack : List Word} {t u : WordType} {rest : Operands}
    (h : (operandsOf stack).popAll? [t, u] = some rest) :
    ∃ a b stack', stack = b :: a :: stack' ∧ a.type = t ∧ b.type = u ∧
      rest = operandsOf stack' := by
  obtain ⟨top, stack', rfl, htypes, rfl⟩ := popAll?_operandsOf h
  obtain ⟨b, l, rfl, hb, hl⟩ := List.map_eq_cons_iff.mp htypes
  obtain ⟨a, rfl, ha⟩ := List.map_eq_singleton_iff.mp hl
  exact ⟨a, b, stack', rfl, ha, hb, rfl⟩

lemma eq_i32_of_type {w : Word} (h : w.type = .i32) : ∃ n, w = .i32 n := by
  cases w with
  | i32 n => exact ⟨n, rfl⟩
  | f64 x => cases h

lemma eq_f64_of_type {w : Word} (h : w.type = .f64) : ∃ x, w = .f64 x := by
  cases w with
  | i32 n => cases h
  | f64 x => exact ⟨x, rfl⟩

lemma type_floatOp (op : FloatOp) (x y : Double) : (floatOp op x y).type = op.result := by
  cases op <;> rfl

lemma foldl_push_operandsOf {top stack : List Word} {types : List WordType}
    (h : top.map Word.type = types.reverse) :
    types.foldl Operands.push (operandsOf stack) = operandsOf (top ++ stack) := by
  obtain ⟨order, rfl⟩ : ∃ order : List WordType, types = order.reverse :=
    ⟨_, types.reverse_reverse.symm⟩
  rw [List.reverse_reverse] at h
  subst h
  rw [List.foldl_reverse]
  induction top with
  | nil => rfl
  | cons w top ih => rw [List.map_cons, List.foldr_cons, ih, push_operandsOf, List.cons_append]

lemma endsWith_operandsOf {stack : List Word} {t : WordType}
    (h : (operandsOf stack).endsWith [t] = true) : ∃ w, stack = [w] ∧ w.type = t := by
  rw [Operands.endsWith] at h
  split at h
  · rename_i rest hpop
    obtain ⟨top, stack', rfl, htypes, rfl⟩ := popAll?_operandsOf hpop
    rw [operandsOf, List.isEmpty_map, List.isEmpty_iff] at h
    subst h
    obtain ⟨w, rfl, hw⟩ := List.map_eq_singleton_iff.mp htypes
    exact ⟨w, rfl, hw⟩
  · cases h

/-! ### What validation promises -/

/-- Variables of the given types, and a memory of the given size. -/
def State.Fits (types : List WordType) (size : Nat) (s : State) : Prop :=
  s.slots.toList.map Word.type = types ∧ s.memory.size = size

/-- An outcome is one that validation allows. -/
def Outcome.Respects (cx : Context) (size : Nat) (after : Operands) : Outcome → Prop
  | .next s => after = operandsOf s.stack ∧ s.Fits cx.slotTypes size
  | .branch depth s => s.Fits cx.slotTypes size ∧ ∃ types top rest, cx.labels[depth]? = some types ∧
      s.stack = top ++ rest ∧ top.map Word.type = types.reverse
  | .returned w memory => w.type = cx.result ∧ memory.size = size
  | .trapped _ memory => memory.size = size
  | .stuck => False
  | .outOfFuel => True

/-- The outcome of a call is one that validation allows. -/
def CallOutcome.Respects (result : WordType) (size : Nat) : CallOutcome → Prop
  | .value w memory => w.type = result ∧ memory.size = size
  | .trapped _ memory => memory.size = size
  | .stuck => False
  | .outOfFuel => True

section

variable {m : CodeModule} {cx : Context} {size : Nat} {after : Operands}

lemma State.Fits.slot {s : State} {types : List WordType} (h : s.Fits types size) {slot : Nat}
    {t : WordType} (ht : types[slot]? = some t) : ∃ w, s.slots[slot]? = some w ∧ w.type = t := by
  rw [← h.1, List.getElem?_map, Array.getElem?_toList] at ht
  exact Option.map_eq_some_iff.mp ht

lemma State.Fits.slot_lt {s : State} {types : List WordType} (h : s.Fits types size) {slot : Nat}
    {t : WordType} (ht : types[slot]? = some t) : slot < s.slots.size := by
  obtain ⟨w, hw, _⟩ := h.slot ht
  exact (Array.getElem?_eq_some_iff.mp hw).1

lemma State.Fits.set {stack stack' : List Word} {slots : Array Word} {memory : Memory}
    {types : List WordType} (h : State.Fits types size ⟨stack, slots, memory⟩) {slot : Nat}
    {w : Word} (ht : types[slot]? = some w.type) :
    State.Fits types size ⟨stack', slots.setIfInBounds slot w, memory⟩ := by
  refine ⟨?_, h.2⟩
  have htypes : slots.toList.map Word.type = types := h.1
  rw [← htypes] at ht ⊢
  rw [Array.toList_setIfInBounds, List.map_set]
  refine List.ext_getElem? fun k => ?_
  rw [List.getElem?_set]
  split
  · rename_i hk
    subst hk
    split
    · exact ht.symm
    · rw [List.getElem?_eq_none (by omega)]
  · rfl

/-- An operation of one operand keeps the promise if it does on every word of the type that
it takes. -/
lemma unary_respects {op : Op} {stack : List Word} {slots : Array Word} {memory : Memory}
    {t u : WordType}
    (hop : ((operandsOf stack).pop? t >>= fun rest => some (rest.push u)) = some after)
    (hword : ∀ (w : Word) (rest : List Word), w.type = t →
      (plain op ⟨w :: rest, slots, memory⟩).Respects cx size ((operandsOf rest).push u)) :
    (plain op ⟨stack, slots, memory⟩).Respects cx size after := by
  obtain ⟨w, rest, rfl, hw, hafter⟩ := popOne_operandsOf hop
  obtain rfl := Option.some.inj hafter
  exact hword w rest hw

/-- One operation keeps the promise. -/
theorem plain_respects {op : Op} {s : State} (hop : op? cx (operandsOf s.stack) op = some after)
    (hs : s.Fits cx.slotTypes size) (hcall : isCall op = false) :
    (plain op s).Respects cx size after := by
  obtain ⟨stack, slots, memory⟩ := s
  dsimp only at hop
  cases op with
  | call => cases hcall
  | i32Const n => exact ⟨(Option.some.inj hop).symm, hs⟩
  | f64Const x => exact ⟨(Option.some.inj hop).symm, hs⟩
  | int o =>
      obtain ⟨rest, hpop, hop⟩ := Option.bind_eq_some_iff.mp hop
      obtain ⟨a, b, stack', rfl, ha, hb, rfl⟩ := popTwo_operandsOf hpop
      obtain ⟨a, rfl⟩ := eq_i32_of_type ha
      obtain ⟨b, rfl⟩ := eq_i32_of_type hb
      rw [plain_int]
      cases intOp o a b with
      | ok n => exact ⟨(Option.some.inj hop).symm, hs⟩
      | error trap => exact hs.2
  | float o =>
      obtain ⟨rest, hpop, hop⟩ := Option.bind_eq_some_iff.mp hop
      obtain ⟨a, b, stack', rfl, ha, hb, rfl⟩ := popTwo_operandsOf hpop
      obtain ⟨x, rfl⟩ := eq_f64_of_type ha
      obtain ⟨y, rfl⟩ := eq_f64_of_type hb
      refine ⟨?_, hs⟩
      rw [← Option.some.inj hop, ← type_floatOp o x y]
      rfl
  | i32Eqz =>
      refine unary_respects hop fun w rest hw => ?_
      obtain ⟨n, rfl⟩ := eq_i32_of_type hw
      exact ⟨rfl, hs⟩
  | f64Neg =>
      refine unary_respects hop fun w rest hw => ?_
      obtain ⟨x, rfl⟩ := eq_f64_of_type hw
      exact ⟨rfl, hs⟩
  | f64ConvertI32 =>
      refine unary_respects hop fun w rest hw => ?_
      obtain ⟨n, rfl⟩ := eq_i32_of_type hw
      exact ⟨rfl, hs⟩
  | i32TruncSatF64 =>
      refine unary_respects hop fun w rest hw => ?_
      obtain ⟨x, rfl⟩ := eq_f64_of_type hw
      exact ⟨rfl, hs⟩
  | localGet slot =>
      obtain ⟨t, ht, hop⟩ := Option.bind_eq_some_iff.mp hop
      obtain ⟨w, hw, rfl⟩ := hs.slot ht
      rw [plain_localGet hw]
      exact ⟨(Option.some.inj hop).symm, hs⟩
  | localSet slot =>
      obtain ⟨t, ht, hpop⟩ := Option.bind_eq_some_iff.mp hop
      obtain ⟨w, stack', rfl, rfl, rfl⟩ := pop?_operandsOf hpop
      rw [plain_localSet (hs.slot_lt ht)]
      exact ⟨rfl, hs.set ht⟩
  | localTee slot =>
      obtain ⟨t, ht, hop⟩ := Option.bind_eq_some_iff.mp hop
      refine unary_respects hop fun w rest hw => ?_
      subst hw
      rw [plain_localTee (hs.slot_lt ht)]
      exact ⟨rfl, hs.set ht⟩
  | load t =>
      obtain ⟨_, _, hop⟩ := Option.bind_eq_some_iff.mp hop
      refine unary_respects hop fun w rest hw => ?_
      obtain ⟨a, rfl⟩ := eq_i32_of_type hw
      cases hload : memory.load? t (addressOf a) with
      | none =>
          rw [plain_load_outOfBounds hload]
          exact hs.2
      | some w =>
          rw [plain_load hload]
          obtain rfl := Memory.load?_type hload
          exact ⟨rfl, hs⟩
  | store t =>
      obtain ⟨_, _, hpop⟩ := Option.bind_eq_some_iff.mp hop
      obtain ⟨a, w, stack', rfl, ha, rfl, rfl⟩ := popTwo_operandsOf hpop
      obtain ⟨a, rfl⟩ := eq_i32_of_type ha
      rw [plain_store]
      split
      · exact ⟨rfl, hs.1, (Memory.size_store _ _ _).trans hs.2⟩
      · exact hs.2
  | select =>
      obtain ⟨w, stack', rfl, hw, hop⟩ := popOne_operandsOf hop
      obtain ⟨c, rfl⟩ := eq_i32_of_type hw
      obtain ⟨⟨_, _⟩, hpop, hop⟩ := Option.bind_eq_some_iff.mp hop
      obtain ⟨b, stack', rfl, rfl, rfl⟩ := popAny?_operandsOf hpop
      obtain ⟨⟨_, _⟩, hpop, hop⟩ := Option.bind_eq_some_iff.mp hop
      obtain ⟨a, stack', rfl, rfl, rfl⟩ := popAny?_operandsOf hpop
      obtain ⟨t, hunify, hop⟩ := Option.bind_eq_some_iff.mp hop
      rw [unify?] at hunify
      split at hunify
      · rename_i hab
        obtain rfl := Option.some.inj hunify
        rw [plain_select]
        refine ⟨?_, hs⟩
        rw [← Option.some.inj hop, operandsOf]
        split
        · rw [hab]
          rfl
        · rfl
      · cases hunify
  | drop =>
      obtain ⟨⟨_, _⟩, hpop, hop⟩ := Option.bind_eq_some_iff.mp hop
      obtain ⟨w, stack', rfl, rfl, rfl⟩ := popAny?_operandsOf hpop
      exact ⟨(Option.some.inj hop).symm, hs⟩
  | ret =>
      obtain ⟨w, stack', rfl, hw, _⟩ := popOne_operandsOf hop
      exact ⟨hw, hs.2⟩
  | br depth =>
      obtain ⟨types, hlabel, hop⟩ := Option.bind_eq_some_iff.mp hop
      obtain ⟨rest, hpop, _⟩ := Option.bind_eq_some_iff.mp hop
      obtain ⟨top, stack', rfl, htypes, rfl⟩ := popAll?_operandsOf hpop
      exact ⟨hs, types, top, stack', hlabel, rfl, htypes⟩
  | brIf depth =>
      obtain ⟨types, hlabel, htaken⟩ := Option.bind_eq_some_iff.mp hop
      obtain ⟨w, stack', rfl, hw, hkept⟩ := popOne_operandsOf htaken
      obtain ⟨c, rfl⟩ := eq_i32_of_type hw
      obtain ⟨rest, hpop, hafter⟩ := Option.bind_eq_some_iff.mp hkept
      obtain ⟨top, stack', rfl, htypes, rfl⟩ := popAll?_operandsOf hpop
      rw [plain_brIf]
      -- a branch that is not taken leaves the operands of the label where they were
      split
      · refine ⟨?_, hs⟩
        rw [← Option.some.inj hafter, foldl_push_operandsOf htypes]
      · exact ⟨hs, types, top, stack', hlabel, rfl, htypes⟩

/-! ### Blocks -/

/-- What a block promises holds outside of it. -/
lemma Outcome.Respects.leave {inner : Operands} {o : Outcome} {stack : List Word}
    (h : o.Respects cx.enter size inner) : (leave stack o).Respects cx size (operandsOf stack) := by
  cases o with
  | next s => exact ⟨rfl, h.2⟩
  | branch depth s =>
      cases depth with
      | zero => exact ⟨rfl, h.1⟩
      | succ depth => exact h
  | returned w memory => exact h
  | trapped trap memory => exact h
  | stuck => exact h
  | outOfFuel => trivial

/-- The result of a call is what its type says. -/
lemma CallOutcome.Respects.resume {result : WordType} {c : CallOutcome} {stack : List Word}
    {slots : Array Word} {memory : Memory}
    (hs : State.Fits cx.slotTypes size ⟨stack, slots, memory⟩) (h : c.Respects result size) :
    (resume stack slots c).Respects cx size ((operandsOf stack).push result) := by
  cases c with
  | value w memory =>
      obtain ⟨rfl, hsize⟩ := h
      exact ⟨rfl, hs.1, hsize⟩
  | trapped trap memory => exact h
  | stuck => exact h
  | outOfFuel => trivial

/-- The variables of a function that is entered with arguments of its types. -/
lemma entry_fits {f : CompiledFunction} {arguments : List Word} (memory : Memory)
    (h : arguments.map Word.type = f.params) :
    State.Fits f.slotTypes memory.size ⟨[], entryVariables f arguments, memory⟩ := by
  refine ⟨?_, rfl⟩
  have hzero : f.locals.map (fun t => (Word.zero t).type) = f.locals := by
    conv_rhs => rw [← List.map_id f.locals]
    refine List.map_congr_left fun t _ => ?_
    cases t <;> rfl
  rw [entryVariables, List.toList_toArray, List.map_append, h, List.map_map]
  exact congrArg (f.params ++ ·) hzero

/-- The body of a well-typed function ends with its result. -/
lemma Outcome.Respects.finish {f : CompiledFunction} {o : Outcome}
    (h : o.Respects (context m f) size after) (hafter : after.endsWith [f.result] = true) :
    (finish o).Respects f.result size := by
  cases o with
  | next s =>
      obtain ⟨stack, slots, memory⟩ := s
      obtain ⟨rfl, hs⟩ := h
      obtain ⟨w, hw, htype⟩ := endsWith_operandsOf hafter
      dsimp only at hw
      subst hw
      exact ⟨htype, hs.2⟩
  | branch depth s =>
      obtain ⟨stack, slots, memory⟩ := s
      obtain ⟨hs, types, top, rest, hlabel, hstack, htypes⟩ := h
      cases depth with
      | zero =>
          obtain rfl := Option.some.inj hlabel
          obtain ⟨w, rfl, hw⟩ := List.map_eq_singleton_iff.mp htypes
          dsimp only at hstack
          subst hstack
          exact ⟨hw, hs.2⟩
      | succ depth => cases hlabel
  | returned w memory => exact h
  | trapped trap memory => exact h
  | stuck => exact h
  | outOfFuel => trivial

/-! ### Runs -/

lemma isWellTyped_iff {f : CompiledFunction} : isWellTyped m f = true ↔
    ∃ final, code? (context m f) .empty f.body = some final ∧
      final.endsWith [f.result] = true := by
  rw [isWellTyped]
  cases code? (context m f) .empty f.body with
  | none => simp
  | some final => simp

/-- All functions of a module are well typed. -/
def IsSound (m : CodeModule) : Prop :=
  ∀ f ∈ m.functions, isWellTyped m f = true

/-- The functions that can be called are those of the module. -/
def Calls (m : CodeModule) (cx : Context) : Prop :=
  cx.functions = m.functions.map fun g => (g.params, g.result)

/-- What a call finds on the stack: the arguments of a function of the module, the last one
on top. -/
lemma call_operandsOf {stack : List Word} {index : Nat} (hcx : Calls m cx)
    (h : op? cx (operandsOf stack) (.call index) = some after) :
    ∃ (f : CompiledFunction) (arguments stack' : List Word), m.functions[index]? = some f ∧
      stack = arguments.reverse ++ stack' ∧ arguments.map Word.type = f.params ∧
      after = (operandsOf stack').push f.result := by
  obtain ⟨⟨params, result⟩, hfunction, htaken⟩ := Option.bind_eq_some_iff.mp h
  obtain ⟨rest, hpop, hpush⟩ := Option.bind_eq_some_iff.mp htaken
  obtain rfl := Option.some.inj hpush
  obtain ⟨top, stack', rfl, htypes, rfl⟩ := popAll?_operandsOf hpop
  rw [hcx, List.getElem?_map] at hfunction
  obtain ⟨f, hf, hsignature⟩ := Option.map_eq_some_iff.mp hfunction
  obtain ⟨rfl, rfl⟩ := Prod.mk.inj hsignature
  refine ⟨f, top.reverse, stack', hf, by rw [List.reverse_reverse], ?_, rfl⟩
  rw [List.map_reverse, htypes, List.reverse_reverse]

mutual

/-- Code that passes validation does not get stuck and leaves what validation says. -/
theorem exec_respects (hm : IsSound m) (fuel depth : Nat) (code : Code) {size : Nat} (cx : Context)
    {s : State} {after : Operands} (hcx : Calls m cx)
    (hcode : code? cx (operandsOf s.stack) code = some after)
    (hs : s.Fits cx.slotTypes size) : (exec m fuel depth code s).Respects cx size after := by
  cases code with
  | nil =>
      rw [code?] at hcode
      rw [exec_nil]
      exact ⟨(Option.some.inj hcode).symm, hs⟩
  | cons i rest =>
      rw [code?] at hcode
      obtain ⟨middle, hinstr, hrest⟩ := Option.bind_eq_some_iff.mp hcode
      have hi := instr_respects hm fuel depth i cx hcx hinstr hs
      rw [exec_cons]
      cases ho : instr m fuel depth i s with
      | next s' =>
          rw [ho] at hi
          obtain ⟨rfl, hs'⟩ := hi
          exact exec_respects hm fuel depth rest cx hcx hrest hs'
      | _ =>
          rw [ho] at hi
          exact hi
termination_by (fuel, sizeOf code)

/-- Nor does an instruction. Fuel is what the recursion runs on at a call and at a new round,
and the code at everything else. -/
theorem instr_respects (hm : IsSound m) (fuel depth : Nat) (i : Instr) {size : Nat} (cx : Context)
    {s : State} {after : Operands} (hcx : Calls m cx)
    (hi : instr? cx (operandsOf s.stack) i = some after)
    (hs : s.Fits cx.slotTypes size) : (instr m fuel depth i s).Respects cx size after := by
  obtain ⟨stack, slots, memory⟩ := s
  cases i with
  | plain op =>
      rw [instr?] at hi
      cases hop : isCall op with
      | false =>
          rw [instr_plain hop]
          exact plain_respects hi hs hop
      | true =>
          obtain ⟨index, rfl⟩ : ∃ index, op = .call index := by
            cases op <;> first | exact ⟨_, rfl⟩ | cases hop
          obtain ⟨f, arguments, stack', hf, rfl, harguments, rfl⟩ := call_operandsOf hcx hi
          rw [instr_call hf (by rw [← harguments, List.length_map])]
          cases fuel with
          | zero => trivial
          | succ fuel =>
              obtain ⟨hslots, rfl⟩ := hs
              have hfits : State.Fits cx.slotTypes memory.size ⟨stack', slots, memory⟩ :=
                ⟨hslots, rfl⟩
              exact CallOutcome.Respects.resume hfits
                (invoke_respects hm fuel depth (List.mem_of_getElem? hf) memory harguments)
  | block body =>
      rw [instr?] at hi
      obtain ⟨inner, hbody, hi⟩ := Option.bind_eq_some_iff.mp hi
      split at hi
      · obtain rfl := Option.some.inj hi
        rw [instr_block]
        exact (exec_respects hm fuel depth body cx.enter (s := ⟨[], slots, memory⟩) hcx
          hbody hs).leave
      · cases hi
  | loop body =>
      rw [instr?] at hi
      obtain ⟨inner, hbody, hend⟩ := Option.bind_eq_some_iff.mp hi
      split at hend
      · obtain rfl := Option.some.inj hend
        have hround := exec_respects hm fuel depth body cx.enter
          (s := ⟨[], slots, memory⟩) hcx hbody hs
        rw [instr_loop]
        cases ho : exec m fuel depth body ⟨[], slots, memory⟩ with
        | branch k s' =>
            rw [ho] at hround
            -- a branch to the loop itself starts another round, on the operands before it
            cases k with
            | zero =>
                cases fuel with
                | zero => trivial
                | succ fuel =>
                    exact instr_respects hm fuel depth (.loop body) cx
                      (s := ⟨stack, s'.slots, s'.memory⟩) hcx hi hround.1
            | succ k => exact hround
        | _ =>
            rw [ho] at hround
            exact hround.leave
      · cases hend
  | choice consequent alternate =>
      rw [instr?] at hi
      obtain ⟨rest, hpop, hbodies⟩ := Option.bind_eq_some_iff.mp hi
      obtain ⟨w, stack', rfl, hw, rfl⟩ := pop?_operandsOf hpop
      obtain ⟨c, rfl⟩ := eq_i32_of_type hw
      obtain ⟨inner, hconsequent, hsecond⟩ := Option.bind_eq_some_iff.mp hbodies
      obtain ⟨other, halternate, hend⟩ := Option.bind_eq_some_iff.mp hsecond
      split at hend
      · obtain rfl := Option.some.inj hend
        rw [instr_choice]
        split
        · exact (exec_respects hm fuel depth consequent cx.enter (s := ⟨[], slots, memory⟩)
            hcx hconsequent hs).leave
        · cases alternate with
          | none =>
              rw [Option.getD_none, exec_nil]
              exact ⟨rfl, hs⟩
          | some body =>
              rw [alternate?] at halternate
              exact (exec_respects hm fuel depth body cx.enter (s := ⟨[], slots, memory⟩)
                hcx halternate hs).leave
      · cases hend
termination_by (fuel, sizeOf i)

/-- A call of a well-typed function on arguments of its types does not get stuck and gives
a word of its result type. -/
theorem invoke_respects (hm : IsSound m) (fuel depth : Nat) {f : CompiledFunction}
    {arguments : List Word} (hf : f ∈ m.functions) (memory : Memory)
    (harguments : arguments.map Word.type = f.params) :
    (invoke m fuel depth f arguments memory).Respects f.result memory.size := by
  cases depth with
  | zero =>
      rw [invoke]
      rfl
  | succ depth =>
      obtain ⟨final, hcode, hfinal⟩ := isWellTyped_iff.mp (hm f hf)
      rw [invoke]
      exact (exec_respects hm fuel depth f.body (context m f)
        (s := ⟨[], entryVariables f arguments, memory⟩) rfl hcode
        (entry_fits memory harguments)).finish hfinal
termination_by (fuel, sizeOf f.body + 1)

end

end

end ArrayScript.Machine
