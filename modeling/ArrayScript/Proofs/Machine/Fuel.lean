import ArrayScript.Proofs.Machine.Execution

/-!
More fuel does not change an answer.

`exec_prolongs`, `instr_prolongs` and `invoke_prolongs` say of code, instructions and
calls that a run with one more unit of fuel ends as before, unless it ran out of fuel
before. So an answer of a call is its answer with any more fuel (`invoke_mono`).
-/

namespace ArrayScript.Machine

variable {m : CodeModule} {depth : Nat}

/-- The second outcome is the first one, unless that was for want of fuel. -/
def Outcome.Prolongs (o o' : Outcome) : Prop :=
  o = .outOfFuel ∨ o' = o

/-- The same for calls. -/
def CallOutcome.Prolongs (c c' : CallOutcome) : Prop :=
  c = .outOfFuel ∨ c' = c

/-- What is made of outcomes is prolonged with them, where the end of fuel is passed
on. -/
lemma Outcome.Prolongs.map {o o' : Outcome} (h : o.Prolongs o') (after : Outcome → Outcome)
    (hfuel : after .outOfFuel = .outOfFuel) : (after o).Prolongs (after o') := by
  rcases h with rfl | rfl
  · exact .inl hfuel
  · exact .inr rfl

/-- More fuel for both of two runs in a row. -/
lemma Outcome.Prolongs.andThen {o o' : Outcome} {k k' : State → Outcome} (h : o.Prolongs o')
    (hk : ∀ s, (k s).Prolongs (k' s)) : (o.andThen k).Prolongs (o'.andThen k') := by
  rcases h with rfl | rfl
  · exact .inl rfl
  · cases o' with
    | next s => exact hk s
    | _ => exact .inr rfl

/-- More fuel for a call, seen from the code after it. -/
lemma CallOutcome.Prolongs.resume {c c' : CallOutcome} {stack : List Word} {slots : Array Word}
    (h : c.Prolongs c') : (resume stack slots c).Prolongs (resume stack slots c') := by
  rcases h with rfl | rfl
  · exact .inl rfl
  · exact .inr rfl

/-- More fuel for the rounds that are left. -/
lemma afterRound_prolongs {o : Outcome} {next next' : State → Outcome} {stack : List Word}
    (h : ∀ s, (next s).Prolongs (next' s)) :
    (afterRound next stack o).Prolongs (afterRound next' stack o) := by
  cases o with
  | branch k s =>
      cases k with
      | zero => exact h _
      | succ => exact .inr rfl
  | _ => exact .inr rfl

mutual

/-- One more unit of fuel changes no outcome of code but the want of fuel. -/
theorem exec_prolongs (fuel depth : Nat) (code : Code) (s : State) :
    (exec m fuel depth code s).Prolongs (exec m (fuel + 1) depth code s) := by
  cases code with
  | nil => exact .inr (by rw [exec_nil, exec_nil])
  | cons i rest =>
      rw [exec_cons, exec_cons]
      exact (instr_prolongs fuel depth i s).andThen fun s' => exec_prolongs fuel depth rest s'
termination_by (fuel, sizeOf code)

/-- The same of an instruction. A round of a loop takes one unit, and so does a call. -/
theorem instr_prolongs (fuel depth : Nat) (i : Instr) (s : State) :
    (instr m fuel depth i s).Prolongs (instr m (fuel + 1) depth i s) := by
  obtain ⟨stack, slots, memory⟩ := s
  cases i with
  | plain op =>
      cases hop : isCall op with
      | false => exact .inr (by rw [instr_plain hop, instr_plain hop])
      | true =>
          obtain ⟨index, rfl⟩ : ∃ index, op = .call index := by
            cases op <;> first | exact ⟨_, rfl⟩ | cases hop
          cases hf : m.functions[index]? with
          | none => exact .inr (by simp only [instr, hf])
          | some f =>
              cases fuel with
              | zero => exact .inl (by simp only [instr, hf])
              | succ n =>
                  simp only [instr, hf]
                  split
                  · exact (invoke_prolongs n depth f _ memory).resume
                  · exact .inr rfl
  | block body =>
      rw [instr_block, instr_block]
      exact (exec_prolongs fuel depth body _).map (leave stack) rfl
  | loop body =>
      rw [instr_loop, instr_loop]
      rcases exec_prolongs fuel depth body ⟨[], slots, memory⟩ with h | h
      · rw [h]
        exact .inl rfl
      · rw [h]
        refine afterRound_prolongs fun s => ?_
        cases fuel with
        | zero => exact .inl rfl
        | succ n => exact instr_prolongs n depth (.loop body) s
  | choice consequent alternate =>
      rcases stack with _ | ⟨c | _, rest⟩
      · exact .inr (by simp only [instr])
      · rw [instr_choice, instr_choice]
        split
        · exact (exec_prolongs fuel depth consequent _).map (leave rest) rfl
        · cases alternate with
          | none => exact .inr (by rw [Option.getD_none, exec_nil, exec_nil])
          | some body => exact (exec_prolongs fuel depth body _).map (leave rest) rfl
      · exact .inr (by simp only [instr])
termination_by (fuel, sizeOf i)

/-- The same of a call. -/
theorem invoke_prolongs (fuel depth : Nat) (f : CompiledFunction) (arguments : List Word)
    (memory : Memory) :
    (invoke m fuel depth f arguments memory).Prolongs
      (invoke m (fuel + 1) depth f arguments memory) := by
  cases depth with
  | zero => exact .inr (by rw [invoke, invoke])
  | succ depth =>
      rw [invoke, invoke]
      rcases exec_prolongs fuel depth f.body ⟨[], entryVariables f arguments, memory⟩ with h | h
      · rw [h]
        exact .inl rfl
      · rw [h]
        exact .inr rfl
termination_by (fuel, sizeOf f.body + 1)

end

/-- An answer of a call is its answer with any more fuel. -/
theorem invoke_mono {fuel fuel' : Nat} {f : CompiledFunction} {arguments : List Word}
    {memory : Memory} {c : CallOutcome} (hle : fuel ≤ fuel')
    (h : invoke m fuel depth f arguments memory = c) (hc : c ≠ .outOfFuel) :
    invoke m fuel' depth f arguments memory = c := by
  induction fuel', hle using Nat.le_induction with
  | base => exact h
  | succ n _ ih =>
      rcases invoke_prolongs (m := m) n depth f arguments memory with hend | hsame
      · exact absurd (ih.symm.trans hend) hc
      · exact hsame.trans ih

end ArrayScript.Machine
