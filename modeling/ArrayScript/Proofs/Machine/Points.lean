import ArrayScript.Proofs.Machine.Execution

/-!
The points of a run.

`Reaches m fuel depth p p'` says that a run which starts at the point `p` comes to the point
`p'`: the function it is in, the code that is left there up to the end of the block, and the
state. Blocks, rounds of loops and calls are entered.

A `Contract` asks something of the variables of functions and of their results.
`Upholds … code s post` says that a run of code keeps to it: it holds at all points on the
way, and if the code falls through, then in a state as `post` says.

* `Upholds.append`: code after code.
* `upholds_op`, `upholds_block`, `upholds_choice`, `upholds_loop`, `upholds_call`: the
  instructions. For a loop it is enough that each round keeps to the contract, and for a
  call that the function does.
* `satisfies_body`: a function keeps to the contract if its body does.
-/

namespace ArrayScript.Machine

/-! ### Points -/

/-- A point of a run. -/
structure Point where
  function : CompiledFunction
  /-- what is left of the innermost block -/
  code : Code
  state : State

/-- An instruction is run by running other code: with the given fuel and depth, from the
given point on. -/
inductive Enters (m : CodeModule) :
    Nat → Nat → CompiledFunction → Instr → State → Nat → Nat → Point → Prop where
  | block {fuel depth f body stack slots memory} :
      Enters m fuel depth f (.block body) ⟨stack, slots, memory⟩
        fuel depth ⟨f, body, ⟨[], slots, memory⟩⟩
  | round {fuel depth f body stack slots memory} :
      Enters m fuel depth f (.loop body) ⟨stack, slots, memory⟩
        fuel depth ⟨f, body, ⟨[], slots, memory⟩⟩
  | laterRounds {fuel depth f body stack stack₁ slots slots₁ memory memory₁}
      (first : exec m (fuel + 1) depth body ⟨[], slots, memory⟩ =
        .branch 0 ⟨stack₁, slots₁, memory₁⟩) :
      Enters m (fuel + 1) depth f (.loop body) ⟨stack, slots, memory⟩
        fuel depth ⟨f, [.loop body], ⟨stack, slots₁, memory₁⟩⟩
  | consequent {fuel depth f body alternate stack slots memory} {c : Int32} (holds : c ≠ 0) :
      Enters m fuel depth f (.choice body alternate) ⟨.i32 c :: stack, slots, memory⟩
        fuel depth ⟨f, body, ⟨[], slots, memory⟩⟩
  | alternate {fuel depth f consequent body stack slots memory} :
      Enters m fuel depth f (.choice consequent (some body)) ⟨.i32 0 :: stack, slots, memory⟩
        fuel depth ⟨f, body, ⟨[], slots, memory⟩⟩
  | call {fuel depth f g index arguments stack slots memory}
      (callee : m.functions[index]? = some g) (arity : arguments.length = g.params.length) :
      Enters m (fuel + 1) (depth + 1) f (.plain (.call index))
        ⟨arguments.reverse ++ stack, slots, memory⟩
        fuel depth ⟨g, g.body, ⟨[], entryVariables g arguments, memory⟩⟩

/-- A run that starts at one point comes to another. -/
inductive Reaches (m : CodeModule) : Nat → Nat → Point → Point → Prop where
  | here {fuel depth p} : Reaches m fuel depth p p
  | after {fuel depth f i code s s₁ p} (first : instr m fuel depth i s = .next s₁)
      (others : Reaches m fuel depth ⟨f, code, s₁⟩ p) : Reaches m fuel depth ⟨f, i :: code, s⟩ p
  | inside {fuel depth fuel' depth' f i code s q p}
      (enters : Enters m fuel depth f i s fuel' depth' q) (others : Reaches m fuel' depth' q p) :
      Reaches m fuel depth ⟨f, i :: code, s⟩ p

section

variable {m : CodeModule} {fuel depth : Nat} {f : CompiledFunction}

/-- Where a run of code after code can be. -/
lemma reaches_append {c c' : Code} {s : State} {p : Point}
    (h : Reaches m fuel depth ⟨f, c ++ c', s⟩ p) :
    (∃ code, Reaches m fuel depth ⟨f, c, s⟩ { p with code := code }) ∨
      ∃ s₁, exec m fuel depth c s = .next s₁ ∧ Reaches m fuel depth ⟨f, c', s₁⟩ p := by
  induction c generalizing s with
  | nil => exact .inr ⟨s, exec_nil, h⟩
  | cons i rest ih =>
      rw [List.cons_append] at h
      cases h with
      | here => exact .inl ⟨_, .here⟩
      | after first others =>
          rcases ih others with ⟨code, h⟩ | ⟨s₂, hexec, h⟩
          · exact .inl ⟨code, .after first h⟩
          · refine .inr ⟨s₂, ?_, h⟩
            rw [exec_cons, first, Outcome.andThen_next, hexec]
      | inside enters others => exact .inl ⟨_, .inside enters others⟩

/-- A run comes to what is left after code that falls through. -/
lemma reaches_of_exec {c c' : Code} {s s' : State} (h : exec m fuel depth c s = .next s') :
    Reaches m fuel depth ⟨f, c ++ c', s⟩ ⟨f, c', s'⟩ := by
  induction c generalizing s with
  | nil =>
      rw [exec_nil] at h
      obtain rfl := Outcome.next.inj h
      exact .here
  | cons i rest ih =>
      rw [exec_cons] at h
      cases hi : instr m fuel depth i s with
      | next s₁ =>
          rw [hi, Outcome.andThen_next] at h
          exact .after hi (ih h)
      | _ =>
          rw [hi] at h
          cases h

end

/-! ### Contracts -/

/-- What is asked of the variables of each function, and of its result. -/
structure Contract where
  slots : CompiledFunction → Array Word → Prop
  result : CompiledFunction → Word → Prop

/-- At all points to which a run comes, the variables are as a contract asks. -/
def Safe (m : CodeModule) (k : Contract) (fuel depth : Nat) (p : Point) : Prop :=
  ∀ p', Reaches m fuel depth p p' → k.slots p'.function p'.state.slots

/-- The outcome of code in a function, inside so many blocks, keeps to a contract. -/
def Outcome.Upholds (k : Contract) (f : CompiledFunction) (labels : Nat) (post : State → Prop) :
    Outcome → Prop
  | .next s => k.slots f s.slots ∧ post s
  | .branch depth s => depth < labels ∧ k.slots f s.slots
  | .returned w _ => k.result f w
  | .trapped _ _ | .stuck | .outOfFuel => True

/-- A run of code in a function, inside so many blocks, keeps to a contract. -/
structure Upholds (m : CodeModule) (k : Contract) (fuel depth : Nat) (f : CompiledFunction)
    (labels : Nat) (code : Code) (s : State) (post : State → Prop) : Prop where
  safe : Safe m k fuel depth ⟨f, code, s⟩
  outcome : (exec m fuel depth code s).Upholds k f labels post

/-- The call of a function keeps to a contract. -/
structure Satisfies (m : CodeModule) (k : Contract) (fuel depth : Nat) (f : CompiledFunction)
    (arguments : List Word) (memory : Memory) : Prop where
  safe : ∀ inner, depth = inner + 1 →
    Safe m k fuel inner ⟨f, f.body, ⟨[], entryVariables f arguments, memory⟩⟩
  result : ∀ w memory', invoke m fuel depth f arguments memory = .value w memory' → k.result f w

section

variable {m : CodeModule} {k : Contract} {fuel depth labels : Nat} {f : CompiledFunction}
  {post post' : State → Prop}

lemma Outcome.Upholds.mono {o : Outcome} (h : o.Upholds k f labels post)
    (hpost : ∀ s, post s → post' s) : o.Upholds k f labels post' := by
  cases o with
  | next s => exact ⟨h.1, hpost s h.2⟩
  | branch depth s => exact h
  | returned w memory => exact h
  | _ => trivial

lemma Upholds.mono {code : Code} {s : State} (h : Upholds m k fuel depth f labels code s post)
    (hpost : ∀ s', post s' → post' s') : Upholds m k fuel depth f labels code s post' :=
  ⟨h.safe, h.outcome.mono hpost⟩

/-! ### Sequences -/

lemma upholds_nil {s : State} (hs : k.slots f s.slots) (hpost : post s) :
    Upholds m k fuel depth f labels [] s post where
  safe p h := by
    cases h
    exact hs
  outcome := by
    rw [exec_nil]
    exact ⟨hs, hpost⟩

/-- Code after code keeps to a contract. -/
lemma Upholds.append {c c' : Code} {s : State} (h : Upholds m k fuel depth f labels c s post)
    (h' : ∀ s', k.slots f s'.slots → post s' → Upholds m k fuel depth f labels c' s' post') :
    Upholds m k fuel depth f labels (c ++ c') s post' where
  safe p hp := by
    rcases reaches_append hp with ⟨code, hfirst⟩ | ⟨s₁, hexec, hsecond⟩
    · exact h.safe { p with code := code } hfirst
    · have hnext := h.outcome
      rw [hexec] at hnext
      exact (h' s₁ hnext.1 hnext.2).safe p hsecond
  outcome := by
    have hfirst := h.outcome
    rw [exec_append]
    cases hexec : exec m fuel depth c s with
    | next s₁ =>
        rw [hexec] at hfirst
        exact (h' s₁ hfirst.1 hfirst.2).outcome
    | _ =>
        rw [hexec] at hfirst
        exact hfirst

/-! ### Instructions -/

/-- An instruction keeps to a contract if the code by which it is run does. -/
lemma upholds_instr {i : Instr} {s : State} (hs : k.slots f s.slots)
    (houtcome : (instr m fuel depth i s).Upholds k f labels post)
    (hinside : ∀ {fuel' depth' q}, Enters m fuel depth f i s fuel' depth' q →
      Safe m k fuel' depth' q) :
    Upholds m k fuel depth f labels [i] s post where
  safe p hp := by
    cases hp with
    | here => exact hs
    | after first others =>
        rw [first] at houtcome
        cases others
        exact houtcome.1
    | inside enters others => exact hinside enters p others
  outcome := by rwa [exec_singleton]

lemma upholds_op {op : Op} {s : State} (hcall : isCall op = false) (hs : k.slots f s.slots)
    (h : (plain op s).Upholds k f labels post) :
    Upholds m k fuel depth f labels (Lowering.plain [op]) s post := by
  refine upholds_instr hs (by rwa [instr_plain hcall]) fun henters => ?_
  cases henters
  cases hcall

/-- What holds inside a block holds after it. -/
lemma Outcome.Upholds.leave {o : Outcome} {stack : List Word}
    (h : o.Upholds k f (labels + 1) post)
    (hpost : ∀ slots memory, post' ⟨stack, slots, memory⟩) :
    (leave stack o).Upholds k f labels post' := by
  cases o with
  | next s => exact ⟨h.1, hpost _ _⟩
  | branch depth s =>
      cases depth with
      | zero => exact ⟨h.2, hpost _ _⟩
      | succ depth => exact ⟨by have := h.1; omega, h.2⟩
  | returned w memory => exact h
  | _ => trivial

section

variable {stack : List Word} {slots : Array Word} {memory : Memory}

lemma upholds_block {body : Code} (hs : k.slots f slots)
    (h : Upholds m k fuel depth f (labels + 1) body ⟨[], slots, memory⟩ post)
    (hpost : ∀ slots memory, post' ⟨stack, slots, memory⟩) :
    Upholds m k fuel depth f labels [.block body] ⟨stack, slots, memory⟩ post' := by
  refine upholds_instr hs ?_ fun henters => ?_
  · rw [instr_block]
    exact h.outcome.leave hpost
  · cases henters
    exact h.safe

lemma upholds_choice {consequent : Code} {alternate : Option Code} {w : Word}
    (hs : k.slots f slots)
    (h : Upholds m k fuel depth f (labels + 1) consequent ⟨[], slots, memory⟩ post)
    (h' : ∀ body, alternate = some body →
      Upholds m k fuel depth f (labels + 1) body ⟨[], slots, memory⟩ post)
    (hpost : ∀ slots memory, post' ⟨stack, slots, memory⟩) :
    Upholds m k fuel depth f labels [.choice consequent alternate] ⟨w :: stack, slots, memory⟩
      post' := by
  refine upholds_instr hs ?_ fun henters => ?_
  · cases w with
    | f64 x =>
        rw [instr.eq_def]
        trivial
    | i32 c =>
        rw [instr_choice]
        split
        · exact h.outcome.leave hpost
        · cases alternate with
          | none =>
              rw [Option.getD_none, exec_nil]
              exact ⟨hs, hpost _ _⟩
          | some body => exact (h' body rfl).outcome.leave hpost
  · cases henters with
    | consequent => exact h.safe
    | alternate => exact (h' _ rfl).safe

/-- By induction on the fuel: a loop keeps to a contract if each of its rounds does. -/
lemma upholds_loop {body : Code} {bound : Nat}
    (h : ∀ fuel ≤ bound, ∀ slots memory, k.slots f slots →
      Upholds m k fuel depth f (labels + 1) body ⟨[], slots, memory⟩ post)
    (hfuel : fuel ≤ bound) (hs : k.slots f slots)
    (hpost : ∀ slots memory, post' ⟨stack, slots, memory⟩) :
    Upholds m k fuel depth f labels [.loop body] ⟨stack, slots, memory⟩ post' := by
  induction fuel using Nat.strong_induction_on generalizing slots memory with
  | _ fuel ih =>
      have hround := h fuel hfuel slots memory hs
      have hbody := hround.outcome
      have hlater : ∀ {n stack₁ slots₁ memory₁}, fuel = n + 1 →
          exec m fuel depth body ⟨[], slots, memory⟩ = .branch 0 ⟨stack₁, slots₁, memory₁⟩ →
          Upholds m k n depth f labels [.loop body] ⟨stack, slots₁, memory₁⟩ post' := by
        intro n stack₁ slots₁ memory₁ hn hexec
        rw [hexec] at hbody
        exact ih n (by omega) (by omega) hbody.2
      refine upholds_instr hs ?_ fun henters => ?_
      · rw [instr_loop]
        cases hexec : exec m fuel depth body ⟨[], slots, memory⟩ with
        | branch target s =>
            cases target with
            | zero =>
                cases fuel with
                | zero => trivial
                | succ n =>
                    have hnext := (hlater rfl hexec).outcome
                    rwa [exec_singleton] at hnext
            | succ target =>
                rw [hexec] at hbody
                exact hbody.leave hpost
        | _ =>
            rw [hexec] at hbody
            exact hbody.leave hpost
      · cases henters with
        | round => exact hround.safe
        | laterRounds first => exact (hlater rfl first).safe

end

/-! ### Calls -/

/-- A function keeps to a contract if its body does, with the result on top at its end. -/
lemma satisfies_body {arguments : List Word} {memory : Memory}
    (h : Upholds m k fuel depth f 0 f.body ⟨[], entryVariables f arguments, memory⟩ fun s =>
      ∀ w ∈ s.stack.head?, k.result f w) :
    Satisfies m k fuel (depth + 1) f arguments memory where
  safe inner hinner := by
    obtain rfl : depth = inner := by omega
    exact h.safe
  result w memory' hinvoke := by
    have hbody := h.outcome
    rw [invoke] at hinvoke
    cases hexec : exec m fuel depth f.body ⟨[], entryVariables f arguments, memory⟩ with
    | next s =>
        rw [hexec] at hbody hinvoke
        obtain ⟨stack, slots, memory₁⟩ := s
        cases stack with
        | nil => cases hinvoke
        | cons v rest =>
            obtain ⟨rfl, rfl⟩ := CallOutcome.value.inj hinvoke
            exact hbody.2 _ rfl
    | returned v memory₁ =>
        rw [hexec] at hbody hinvoke
        obtain ⟨rfl, rfl⟩ := CallOutcome.value.inj hinvoke
        exact hbody
    | branch target s =>
        rw [hexec] at hbody
        exact absurd hbody.1 (Nat.not_lt_zero _)
    | _ =>
        rw [hexec] at hinvoke
        cases hinvoke

/-- A call keeps to a contract if the function does. -/
lemma upholds_call {index : Nat} {g : CompiledFunction} {arguments stack : List Word}
    {slots : Array Word} {memory : Memory} (hs : k.slots f slots)
    (hg : m.functions[index]? = some g) (hlength : arguments.length = g.params.length)
    (h : ∀ fuel' < fuel, Satisfies m k fuel' depth g arguments memory)
    (hpost : ∀ w memory', k.result g w → post ⟨w :: stack, slots, memory'⟩) :
    Upholds m k fuel depth f labels (Lowering.plain [.call index])
      ⟨arguments.reverse ++ stack, slots, memory⟩ post := by
  refine upholds_instr hs ?_ fun {_ _ _} henters => ?_
  · rw [instr_call hg hlength]
    cases fuel with
    | zero => trivial
    | succ fuel =>
        dsimp only
        cases hinvoke : invoke m fuel depth g arguments memory with
        | value w memory' =>
            have hresult := (h fuel (Nat.lt_succ_self fuel)).result w memory' hinvoke
            exact ⟨hs, hpost w memory' hresult⟩
        | _ => trivial
  · generalize hstate : (⟨arguments.reverse ++ stack, slots, memory⟩ : State) = s at henters
    cases henters with
    | call callee arity =>
        obtain rfl := Option.some.inj (hg.symm.trans callee)
        obtain ⟨hstack, rfl, rfl⟩ := State.mk.inj hstate
        -- the same number of operands is taken from the same stack
        have hsame := List.append_inj_left hstack (by simp [hlength, arity])
        rw [List.reverse_inj] at hsame
        subst hsame
        exact (h _ (Nat.lt_succ_self _)).safe _ rfl

end

end ArrayScript.Machine
