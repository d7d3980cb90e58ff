import ArrayScript.Proofs.Lowering.Operations
import ArrayScript.Proofs.Machine.Execution

/-!
Variables that code never reads do not matter.

Two states are alike apart from some hidden variables if they have the same operands, the
same memory and the same other variables. Code that never reads a hidden variable takes
states that are alike to outcomes that are alike.

* `plain_alike`: one operation does.
* `instr_alike`, `exec_alike`: so do instructions and code, by recursion on fuel and code.
* `invoke_eq`: a call gives the same answer on arguments that differ only where the function
  never reads.
-/

namespace ArrayScript.Machine

variable {hidden : Nat → Prop}

/-- Two states differ in hidden variables at most. -/
structure State.Alike (hidden : Nat → Prop) (s s' : State) : Prop where
  stack : s'.stack = s.stack
  memory : s'.memory = s.memory
  size : s'.slots.size = s.slots.size
  slots : ∀ k, ¬ hidden k → s'.slots[k]? = s.slots[k]?

/-- Two outcomes differ in hidden variables at most. -/
inductive Outcome.Alike (hidden : Nat → Prop) : Outcome → Outcome → Prop where
  | next {s s'} (state : s.Alike hidden s') : Alike hidden (.next s) (.next s')
  | branch {depth s s'} (state : s.Alike hidden s') :
    Alike hidden (.branch depth s) (.branch depth s')
  | returned {w memory} : Alike hidden (.returned w memory) (.returned w memory)
  | trapped {trap memory} : Alike hidden (.trapped trap memory) (.trapped trap memory)
  | stuck : Alike hidden .stuck .stuck
  | outOfFuel : Alike hidden .outOfFuel .outOfFuel

/-- Whether an operation reads none of the hidden variables. -/
def Ignores (hidden : Nat → Prop) (op : Op) : Prop :=
  ∀ k, op = .localGet k → ¬ hidden k

/-! ### States -/

namespace State.Alike

variable {stack : List Word} {slots slots' : Array Word} {memory : Memory}

/-- The operands and the memory may be exchanged for others on both sides. -/
lemma replace (h : Alike hidden ⟨stack, slots, memory⟩ ⟨stack, slots', memory⟩)
    (stack' : List Word) (memory' : Memory) :
    Alike hidden ⟨stack', slots, memory'⟩ ⟨stack', slots', memory'⟩ :=
  ⟨rfl, rfl, h.size, h.slots⟩

/-- A variable that is written has the same value on both sides. -/
lemma set (h : Alike hidden ⟨stack, slots, memory⟩ ⟨stack, slots', memory⟩) (stack' : List Word)
    (slot : Nat) (w : Word) :
    Alike hidden ⟨stack', slots.setIfInBounds slot w, memory⟩
      ⟨stack', slots'.setIfInBounds slot w, memory⟩ where
  stack := rfl
  memory := rfl
  size := by
    have hsize : slots'.size = slots.size := h.size
    simp [hsize]
  slots k hk := by
    have hsize : slots'.size = slots.size := h.size
    have hslot : slots'[k]? = slots[k]? := h.slots k hk
    simp only [Array.getElem?_setIfInBounds, hsize, hslot]

end State.Alike

/-! ### Outcomes -/

namespace Outcome.Alike

variable {o o' : Outcome}

lemma andThen {k k' : State → Outcome} (h : o.Alike hidden o')
    (hk : ∀ s s', s.Alike hidden s' → (k s).Alike hidden (k' s')) :
    (o.andThen k).Alike hidden (o'.andThen k') := by
  cases h with
  | next state => exact hk _ _ state
  | branch state => exact .branch state
  | returned => exact .returned
  | trapped => exact .trapped
  | stuck => exact .stuck
  | outOfFuel => exact .outOfFuel

lemma leave (h : o.Alike hidden o') (stack : List Word) :
    (leave stack o).Alike hidden (leave stack o') := by
  cases h with
  | next state => exact .next ⟨rfl, state.memory, state.size, state.slots⟩
  | @branch depth s s' state =>
      cases depth with
      | zero => exact .next ⟨rfl, state.memory, state.size, state.slots⟩
      | succ depth => exact .branch state
  | returned => exact .returned
  | trapped => exact .trapped
  | stuck => exact .stuck
  | outOfFuel => exact .outOfFuel

lemma afterRound {next next' : State → Outcome} (h : o.Alike hidden o') (stack : List Word)
    (hnext : ∀ s s', s.Alike hidden s' → (next s).Alike hidden (next' s')) :
    (afterRound next stack o).Alike hidden (afterRound next' stack o') := by
  cases h with
  | next state => exact leave (.next state) stack
  | @branch depth s s' state =>
      cases depth with
      | zero => exact hnext _ _ ⟨rfl, state.memory, state.size, state.slots⟩
      | succ depth => exact .branch state
  | returned => exact .returned
  | trapped => exact .trapped
  | stuck => exact .stuck
  | outOfFuel => exact .outOfFuel

/-- The caller of a function does not see its variables. -/
lemma finish (h : o.Alike hidden o') : finish o = finish o' := by
  cases h with
  | @next s s' state =>
      obtain ⟨stack, slots, memory⟩ := s
      obtain ⟨stack', slots', memory'⟩ := s'
      obtain ⟨rfl, rfl, _, _⟩ := state
      cases stack' <;> rfl
  | @branch depth s s' state =>
      obtain ⟨stack, slots, memory⟩ := s
      obtain ⟨stack', slots', memory'⟩ := s'
      obtain ⟨rfl, rfl, _, _⟩ := state
      cases depth <;> cases stack' <;> rfl
  | _ => rfl

end Outcome.Alike

/-! ### Runs -/

variable {m : CodeModule} {s s' : State}

/-- An operation that reads no hidden variable does not tell alike states apart. -/
lemma plain_alike {op : Op} (hop : Ignores hidden op) (h : s.Alike hidden s') :
    (plain op s).Alike hidden (plain op s') := by
  obtain ⟨stack, slots, memory⟩ := s
  obtain ⟨stack', slots', memory'⟩ := s'
  obtain rfl : stack' = stack := h.stack
  obtain rfl : memory' = memory := h.memory
  have hsize : slots'.size = slots.size := h.size
  cases op with
  | i32Const n => exact .next (h.replace _ _)
  | f64Const x => exact .next (h.replace _ _)
  | int op =>
      rcases stack' with _ | ⟨_ | _, _ | ⟨_ | _, rest⟩⟩ <;> try exact .stuck
      rename_i b a
      rw [plain_int, plain_int]
      cases intOp op a b with
      | ok n => exact .next (h.replace _ _)
      | error trap => exact .trapped
  | float op =>
      rcases stack' with _ | ⟨_ | _, _ | ⟨_ | _, rest⟩⟩ <;> try exact .stuck
      exact .next (h.replace _ _)
  | i32Eqz | f64Neg | f64ConvertI32 | i32TruncSatF64 =>
      rcases stack' with _ | ⟨_ | _, rest⟩
      all_goals first | exact .stuck | exact .next (h.replace _ _)
  | localGet slot =>
      have hslot : slots'[slot]? = slots[slot]? := h.slots slot (hop slot rfl)
      rw [plain.eq_def, plain.eq_def]
      dsimp only
      rw [hslot]
      cases slots[slot]? with
      | some w => exact .next (h.replace _ _)
      | none => exact .stuck
  | localSet slot | localTee slot =>
      cases stack' with
      | nil => exact .stuck
      | cons w rest =>
          rw [plain.eq_def, plain.eq_def]
          dsimp only
          rw [hsize]
          split
          · exact .next (h.set _ _ _)
          · exact .stuck
  | load t =>
      rcases stack' with _ | ⟨a | _, rest⟩ <;> try exact .stuck
      cases hload : memory'.load? t (addressOf a) with
      | some w =>
          rw [plain_load hload, plain_load hload]
          exact .next (h.replace _ _)
      | none =>
          rw [plain_load_outOfBounds hload, plain_load_outOfBounds hload]
          exact .trapped
  | store t =>
      rcases stack' with _ | ⟨w, _ | ⟨a | _, rest⟩⟩ <;> try exact .stuck
      rw [plain.eq_def, plain.eq_def]
      dsimp only
      split
      · split
        · exact .next (h.replace _ _)
        · exact .trapped
      · exact .stuck
  | select =>
      rcases stack' with _ | ⟨_ | _, _ | ⟨_, _ | ⟨_, rest⟩⟩⟩
      all_goals first | exact .stuck | exact .next (h.replace _ _)
  | drop =>
      cases stack' with
      | nil => exact .stuck
      | cons w rest => exact .next (h.replace _ _)
  | ret =>
      cases stack' with
      | nil => exact .stuck
      | cons w rest => exact .returned
  | br depth => exact .branch h
  | brIf depth =>
      rcases stack' with _ | ⟨c | _, rest⟩ <;> try exact .stuck
      rw [plain_brIf, plain_brIf]
      split
      · exact .next (h.replace _ _)
      · exact .branch (h.replace _ _)
  | call index => exact .stuck

/-- A call goes on alike, since it sees only operands and memory. -/
lemma call_alike {fuel depth index : Nat} (h : s.Alike hidden s') :
    (instr m fuel depth (.plain (.call index)) s).Alike hidden
      (instr m fuel depth (.plain (.call index)) s') := by
  obtain ⟨stack, slots, memory⟩ := s
  obtain ⟨stack', slots', memory'⟩ := s'
  obtain rfl : stack' = stack := h.stack
  obtain rfl : memory' = memory := h.memory
  cases hf : m.functions[index]? with
  | none =>
      simp only [instr, hf]
      exact .stuck
  | some f =>
      cases fuel with
      | zero =>
          simp only [instr, hf]
          exact .outOfFuel
      | succ fuel =>
          simp only [instr, hf]
          split
          · cases invoke m fuel depth f (stack'.take f.params.length).reverse memory' with
            | value w memory => exact .next (h.replace _ _)
            | trapped trap memory => exact .trapped
            | stuck => exact .stuck
            | outOfFuel => exact .outOfFuel
          · exact .stuck

mutual

/-- Code that reads no hidden variable does not tell alike states apart. -/
theorem exec_alike (fuel depth : Nat) {code : Code} (hcode : code.Every (Ignores hidden))
    {s s' : State} (h : s.Alike hidden s') :
    (exec m fuel depth code s).Alike hidden (exec m fuel depth code s') := by
  cases code with
  | nil =>
      rw [exec_nil, exec_nil]
      exact .next h
  | cons i rest =>
      obtain ⟨hi, hrest⟩ := Code.every_cons.mp hcode
      rw [exec_cons, exec_cons]
      exact (instr_alike fuel depth hi h).andThen fun _ _ => exec_alike fuel depth hrest
termination_by (fuel, sizeOf code)

/-- Neither does such an instruction. -/
theorem instr_alike (fuel depth : Nat) {i : Instr} (hi : Code.Every (Ignores hidden) [i])
    {s s' : State} (h : s.Alike hidden s') :
    (instr m fuel depth i s).Alike hidden (instr m fuel depth i s') := by
  cases i with
  | plain op =>
      cases hop : isCall op with
      | false =>
          rw [instr_plain hop, instr_plain hop]
          exact plain_alike (Code.every_op.mp hi) h
      | true =>
          obtain ⟨index, rfl⟩ : ∃ index, op = .call index := by
            cases op <;> first | exact ⟨_, rfl⟩ | cases hop
          exact call_alike h
  | block body =>
      obtain ⟨stack, slots, memory⟩ := s
      obtain ⟨stack', slots', memory'⟩ := s'
      obtain rfl : stack' = stack := h.stack
      obtain rfl : memory' = memory := h.memory
      rw [instr_block, instr_block]
      exact (exec_alike fuel depth (Code.every_block.mp hi) (h.replace _ _)).leave _
  | loop body =>
      obtain ⟨stack, slots, memory⟩ := s
      obtain ⟨stack', slots', memory'⟩ := s'
      obtain rfl : stack' = stack := h.stack
      obtain rfl : memory' = memory := h.memory
      rw [instr_loop, instr_loop]
      refine (exec_alike fuel depth (Code.every_loop.mp hi) (h.replace _ _)).afterRound _ ?_
      -- the next round has one unit of fuel less
      intro t t' ht
      cases fuel with
      | zero => exact .outOfFuel
      | succ fuel => exact instr_alike fuel depth hi ht
  | choice consequent alternate =>
      obtain ⟨stack, slots, memory⟩ := s
      obtain ⟨stack', slots', memory'⟩ := s'
      obtain rfl : stack' = stack := h.stack
      obtain rfl : memory' = memory := h.memory
      obtain ⟨hfirst, hsecond⟩ := Code.every_choice.mp hi
      rcases stack' with _ | ⟨c | _, rest⟩
      · simp only [instr]
        exact .stuck
      · rw [instr_choice, instr_choice]
        split
        · exact (exec_alike fuel depth hfirst (h.replace _ _)).leave _
        · cases alternate with
          | none => exact (exec_alike fuel depth Code.every_nil (h.replace _ _)).leave _
          | some body => exact (exec_alike fuel depth (hsecond body rfl) (h.replace _ _)).leave _
      · simp only [instr]
        exact .stuck
termination_by (fuel, sizeOf i)

end

/-- A call gives the same answer on arguments that differ only where the function never
reads. -/
theorem invoke_eq {f : CompiledFunction} {arguments arguments' : List Word}
    (hbody : f.body.Every (Ignores hidden)) (hlength : arguments'.length = arguments.length)
    (hsame : ∀ k, ¬ hidden k → arguments'[k]? = arguments[k]?) (fuel depth : Nat)
    (memory : Memory) :
    invoke m fuel depth f arguments' memory = invoke m fuel depth f arguments memory := by
  have halike : State.Alike hidden ⟨[], entryVariables f arguments, memory⟩
      ⟨[], entryVariables f arguments', memory⟩ := by
    refine ⟨rfl, rfl, by simp [entryVariables, hlength], fun k hk => ?_⟩
    simp only [entryVariables, List.getElem?_toArray, List.getElem?_append, hlength, hsame k hk]
  cases depth with
  | zero => rw [invoke, invoke]
  | succ depth =>
      rw [invoke, invoke]
      exact (exec_alike fuel depth hbody halike).finish.symm

end ArrayScript.Machine
