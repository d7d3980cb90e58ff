import ArrayScript.Proofs.Semantics.Expressions

/-!
The code of a statement does what the statement does.

* `Acts.runs`: code that is run for what it does stores what the evaluation stores, in
  the slot of a variable or in memory, and leaves the stack as it was.
* `rounds_runs`: the rounds of a loop answer each other, by induction on the fuel that
  both sides use up together.
* `LowersStatement.follows`: the code of a statement falls through with the new values of
  the variables in their slots, or returns what the statement returns.
-/

namespace ArrayScript

open Machine Lowering Evaluation

variable {cx : LoweringContext} {size : Nat} {held : List Nat} {vars : Variables}
  {m : CodeModule} {fuel depth : Nat} {stack : List Word} {slots : Array Word} {memory : Memory}
  {call : String → List Datum → Eval Datum}

/-! ### Variables -/

lemma Datum.type_coerce (d : Datum) (t : ValueType) : (d.coerce t).type = t := by
  cases d <;> cases t <;> rfl

lemma Datum.type_zero (t : ValueType) : (Datum.zero t).type = t := by
  cases t <;> rfl

/-- Writing the slot of a variable assigns it. -/
lemma Holds.assign {name : String} {slot : Nat} {t : ValueType} (h : Holds cx size vars slots)
    (hvariable : IsVariable cx name slot t) (d : Datum) :
    Holds cx size (vars.assign name d) (slots.setIfInBounds slot (d.coerce t).word) := by
  obtain ⟨hvalue, htype⟩ := h.value hvariable
  refine ⟨by rw [Array.size_setIfInBounds, h.size_eq], ?_⟩
  intro name' slot' t' hvariable'
  rw [Variables.assign]
  by_cases hname : name' = name
  · subst hname
    obtain rfl : slot = slot' := Option.some.inj (hvariable.slot_eq.symm.trans hvariable'.slot_eq)
    obtain rfl : t = t' := Option.some.inj (hvariable.type_eq.symm.trans hvariable'.type_eq)
    rw [if_pos rfl, htype]
    refine ⟨Array.getElem?_setIfInBounds_self_of_lt ?_, d.type_coerce t⟩
    exact (Array.getElem?_eq_some_iff.mp hvalue).1
  · rw [if_neg hname, Array.getElem?_setIfInBounds_ne (hvariable.slot_ne hvariable' hname)]
    exact h.value hvariable'

/-- The machine is at the given operands, and the slots hold the variables. -/
def Stored (cx : LoweringContext) (size : Nat) (stack : List Word) (vars : Variables)
    (memory : Memory) (s : State) : Prop :=
  ∃ slots, s = ⟨stack, slots, memory⟩ ∧ Holds cx size vars slots

/-- Code that leaves a value and stores it in a variable. -/
lemma localSet_runs {name : String} {slot : Nat} {t u : ValueType} {c : Code} {x : Eval Datum}
    {word : Datum → Word} (hslots : Holds cx size vars slots)
    (hvariable : IsVariable cx name slot t) (hword : ∀ d : Datum, d.type = u →
      word d = (d.coerce t).word)
    (hx : Runs (exec m fuel depth c ⟨stack, slots, memory⟩) (x memory)
      (FallsThrough (Leaves cx held stack slots u word))) :
    Runs (exec m fuel depth (c ++ Lowering.plain [.localSet slot]) ⟨stack, slots, memory⟩)
      ((x >>= fun d => pure (vars.assign name d)) memory)
      (FallsThrough (Stored cx size stack)) := by
  rw [exec_append]
  refine hx.andThen ?_
  rintro d memory' _ ⟨htype, slots', rfl, hframe⟩
  have hslots' := hslots.frame hframe
  have hlt : slot < slots'.size := (Array.getElem?_eq_some_iff.mp (hslots'.value hvariable).1).1
  refine ⟨_, ?_, _, rfl, hslots'.assign hvariable d⟩
  rw [exec_op rfl, hword d htype, plain_localSet hlt]

/-! ### Steps by one -/

/-- A step by one of a value that is left on the stack. -/
lemma step_runs {op : UpdateOp} {step : Op} {c : Code} {t : ValueType} {x : Eval Datum}
    (h : arithmetic op.binaryOp t.isFloat = .ok step)
    (hx : Runs (exec m fuel depth c ⟨stack, slots, memory⟩) (x memory)
      (FallsThrough (Leaves cx held stack slots t Datum.word))) :
    Runs (exec m fuel depth (c ++ Lowering.plain [Lowering.one t, step]) ⟨stack, slots, memory⟩)
      ((x >>= fun old => operate op.binaryOp old (Datum.one t)) memory)
      (FallsThrough (Leaves cx held stack slots t.numeric Datum.word)) := by
  rw [exec_append]
  refine hx.andThen ?_
  rintro d memory' _ ⟨htype, slots', rfl, hframe⟩
  rw [← htype] at h ⊢
  rw [exec_plain (by cases op <;> cases d <;> cases h <;> rfl)]
  cases op <;> cases d <;> cases h <;> exact ⟨_, rfl, rfl, slots', rfl, hframe⟩

/-- A number keeps its word in a type it is the numeric one of. -/
lemma Datum.word_eq_coerce {d : Datum} {t : ValueType} (h : d.type = t.numeric) :
    d.word = (d.coerce t).word := by
  cases t <;> cases d <;> first | rfl | cases h

/-! ### Effects -/

/-- Storing the word on top at the address below it. -/
lemma storeElement_runs (hslots : Holds cx size vars slots) (d : Datum) (t : ValueType)
    (n : Int32) :
    Runs (exec m fuel depth (Lowering.plain [.store t.wordType])
        ⟨(d.coerce t).word :: .i32 n :: stack, slots, memory⟩)
      ((store (addressOf n) (d.coerce t) >>= fun _ => pure vars) memory)
      (FallsThrough (Stored cx size stack)) := by
  have hstore := @store_runs m fuel depth (d.coerce t) n stack slots memory
  rw [d.type_coerce t] at hstore
  refine Runs.map (hstore.weaken ?_)
  rintro _ memory' ⟨s, hs, rfl⟩
  exact ⟨_, hs, slots, rfl, hslots⟩

/-- A scratch variable holds what is written to it, and the others what they held. -/
lemma Holds.saved {slot : Nat} (h : Holds cx size vars slots)
    (hscratch : IsScratch cx size held slot) (w : Word) :
    Holds cx size vars (slots.setIfInBounds slot w) ∧
      (slots.setIfInBounds slot w)[slot]? = some w := by
  refine ⟨h.frame (Frame.scratch hscratch slots w), ?_⟩
  exact Array.getElem?_setIfInBounds_self_of_lt (h.size_eq ▸ hscratch.lt)

/-- Keeping an address in a scratch variable and on the stack. -/
lemma exec_localTee {slot : Nat} {n : Int32} (hscratch : IsScratch cx size held slot)
    (hslots : Holds cx size vars slots) :
    exec m fuel depth (Lowering.plain [.localTee slot]) ⟨.i32 n :: stack, slots, memory⟩ =
      .next ⟨.i32 n :: stack, slots.setIfInBounds slot (.i32 n), memory⟩ := by
  have hlt : slot < slots.size := by rw [hslots.size_eq]; exact hscratch.lt
  rw [exec_op rfl, plain_localTee hlt]

/-- Loading from the address in a scratch variable. -/
lemma loadElement_runs {slot : Nat} {n : Int32} (t : ValueType)
    (hsaved : slots[slot]? = some (.i32 n)) :
    Runs (exec m fuel depth (Lowering.plain [.localGet slot, .load t.wordType])
        ⟨stack, slots, memory⟩)
      (load t (addressOf n) memory)
      (FallsThrough (Leaves cx held stack slots t Datum.word)) := by
  have hget : exec m fuel depth (Lowering.plain [.localGet slot]) ⟨stack, slots, memory⟩ =
      .next ⟨.i32 n :: stack, slots, memory⟩ := by
    rw [exec_op rfl, plain_localGet hsaved]
  have hcode : Lowering.plain [.localGet slot, .load t.wordType] =
      Lowering.plain [.localGet slot] ++ Lowering.plain [.load t.wordType] := rfl
  rw [hcode, exec_append, hget]
  refine (load_runs t n stack slots memory).weaken ?_
  rintro d _ ⟨s, hs, htype, rfl, rfl⟩
  exact ⟨_, hs, htype, slots, rfl, Frame.refl slots⟩

/-- The code after the address of an element that is read, made into another value and
written back. -/
lemma replaceElement_runs {n : Int32} {slot : Nat} {t : ValueType} {c : Code} {x : Eval Datum}
    {word : Datum → Word} {u : ValueType} (hscratch : IsScratch cx size [] slot)
    (hslots : Holds cx size vars slots)
    (hword : ∀ d : Datum, d.type = u → word d = (d.coerce t).word)
    (hx : ∀ slots', Holds cx size vars slots' → slots'[slot]? = some (.i32 n) →
      Runs (exec m fuel depth c ⟨.i32 n :: stack, slots', memory⟩) (x memory)
        (FallsThrough (Leaves cx [slot] (.i32 n :: stack) slots' u word))) :
    Runs (exec m fuel depth (Lowering.plain [.localTee slot] ++ c ++
        Lowering.plain [.store t.wordType]) ⟨.i32 n :: stack, slots, memory⟩)
      (((x >>= fun new => store (addressOf n) (new.coerce t)) >>= fun _ => pure vars) memory)
      (FallsThrough (Stored cx size stack)) := by
  obtain ⟨hslots', hsaved⟩ := hslots.saved hscratch (.i32 n)
  rw [bind_assoc, exec_append, exec_append, exec_localTee hscratch hslots, Outcome.andThen_next]
  refine (hx _ hslots' hsaved).andThen ?_
  rintro d memory' _ ⟨htype, slots'', rfl, hframe⟩
  rw [hword d htype]
  exact storeElement_runs (hslots'.frame hframe) d t n

/-- The code of an effect stores what the effect stores. -/
theorem Lowering.Acts.runs (hcalls : CallsAgree m fuel depth cx call) {e : Expr} {code : Code}
    (h : Acts cx size e code) (stack : List Word) (slots : Array Word) (memory : Memory)
    (hslots : Holds cx size vars slots) :
    Runs (exec m fuel depth code ⟨stack, slots, memory⟩) (Evaluation.effect call vars e memory)
      (FallsThrough (Stored cx size stack)) := by
  cases h with
  | assignVariable name_variable new =>
      rw [Evaluation.effect, Evaluation.assign]
      exact localSet_runs hslots name_variable (fun d _ => rfl)
        ((new.computes hcalls stack slots memory hslots).as _)
  | combineVariable compound name_variable right new =>
      rw [Evaluation.effect, Evaluation.assign]
      simp only [compound]
      rw [← bind_assoc]
      have hnew := Combines.runs new hslots
        (variable_computes name_variable stack slots memory hslots) (right.computes hcalls)
      exact localSet_runs hslots name_variable (fun d _ => rfl) (hnew.as _)
  | assignElement parts array is_array at' new =>
      rw [Evaluation.effect, Evaluation.assign]
      simp only [AssignOp.binaryOp?]
      rw [exec_append, exec_append, Outcome.andThen_assoc]
      refine address_runs is_array (array.computes hcalls) (at'.computes hcalls) hslots ?_
      intro array position slots' memory' htype hframe
      have hslots' := hslots.frame hframe
      rw [htype]
      refine ((new.computes hcalls _ slots' memory' hslots').as _).andThen ?_
      rintro d memory'' _ ⟨_, slots'', rfl, hframe'⟩
      exact storeElement_runs (hslots'.frame hframe') d _ _
  | combineElement compound parts array is_array at' scratch right new =>
      rw [Evaluation.effect, Evaluation.assign]
      simp only [compound]
      rw [List.append_assoc, List.append_assoc, exec_append, ← List.append_assoc]
      refine address_runs is_array (array.computes hcalls) (at'.computes hcalls) hslots ?_
      intro array position slots' memory' htype hframe
      rw [htype]
      simp only [← bind_assoc]
      exact replaceElement_runs scratch (hslots.frame hframe) (fun d _ => rfl)
        fun slots'' hslots'' hsaved =>
          (Combines.runs new hslots'' (loadElement_runs _ hsaved) (right.computes hcalls)).as _
  | updateVariable name_variable chosen =>
      rw [Evaluation.effect, Evaluation.update]
      obtain ⟨_, htype⟩ := hslots.value name_variable
      have hold := @variable_computes cx size [] vars m fuel depth _ _ _ name_variable stack slots
        memory hslots
      rw [htype]
      exact localSet_runs hslots name_variable (fun _ => Datum.word_eq_coerce)
        (step_runs chosen hold)
  | updateElement parts array is_array at' scratch chosen =>
      rw [Evaluation.effect, Evaluation.update, exec_append]
      refine address_runs is_array (array.computes hcalls) (at'.computes hcalls) hslots ?_
      intro array position slots' memory' htype hframe
      have hcode (t : ValueType) (slot : Nat) (step : Op) : Lowering.plain [.localTee slot,
            .localGet slot, .load t.wordType, Lowering.one t, step, .store t.wordType] =
          Lowering.plain [.localTee slot] ++ (Lowering.plain [.localGet slot, .load t.wordType] ++
            Lowering.plain [Lowering.one t, step]) ++ Lowering.plain [.store t.wordType] := rfl
      rw [htype, hcode]
      simp only [← bind_assoc]
      refine replaceElement_runs scratch (hslots.frame hframe) (fun _ => Datum.word_eq_coerce) ?_
      intro slots'' _ hsaved
      exact step_runs chosen (loadElement_runs _ hsaved)
  | value plain_value part =>
      have heffect : Evaluation.effect call vars e = (do
          let _ ← Evaluation.expression call vars e
          return vars) := by
        cases e <;> first | rfl | cases plain_value
      rw [heffect, exec_append]
      refine (part.computes hcalls stack slots memory hslots).andThen ?_
      rintro d memory' _ ⟨_, slots', rfl, hframe⟩
      exact ⟨_, exec_plain rfl, slots', rfl, hslots.frame hframe⟩

/-- The code of declarators stores their initial values. -/
lemma Lowering.Declares.runs (hcalls : CallsAgree m fuel depth cx call) {ds : List Declarator}
    {code : Code} (h : Declares cx size ds code) (stack : List Word) (slots : Array Word)
    (memory : Memory) (hslots : Holds cx size vars slots) :
    Runs (exec m fuel depth code ⟨stack, slots, memory⟩)
      (Evaluation.declarators call vars ds memory) (FallsThrough (Stored cx size stack)) := by
  induction h generalizing vars slots memory with
  | nil =>
      rw [Evaluation.declarators]
      exact ⟨_, exec_nil, slots, rfl, hslots⟩
  | bare target_name _ ih =>
      rw [Evaluation.declarators]
      simp only [target_name]
      exact ih slots memory hslots
  | bound target_name name_variable new _ ih =>
      rw [Evaluation.declarators, exec_append]
      simp only [target_name]
      have hset := localSet_runs hslots name_variable (fun d _ => rfl)
        ((new.computes hcalls stack slots memory hslots).as _)
      have hrest := hset.andThen fun vars' memory' s hs => by
        obtain ⟨slots', rfl, hslots'⟩ := hs
        exact ih slots' memory' hslots'
      simpa only [bind_assoc, pure_bind] using hrest

/-! ### Ends of statements -/

/-- The word a function returns for what a statement returns. -/
def returnWord (t : ValueType) : Option Datum → Word
  | some d => (d.coerce t).word
  | none => (Datum.zero t).word

/-- How code ends answers how a statement ends. -/
def Ends (cx : LoweringContext) (size : Nat) (stack : List Word) (flow : Flow) (memory : Memory)
    (o : Outcome) : Prop :=
  match flow with
  | .next vars => ∃ s, o = .next s ∧ Stored cx size stack vars memory s
  | .returned d => o = .returned (returnWord cx.signature.returnType d) memory

/-- Code does what a statement does, wherever the variables are in their slots. -/
def Follows (m : CodeModule) (fuel depth : Nat) (cx : LoweringContext) (size : Nat) (code : Code)
    (s : Variables → Eval Flow) : Prop :=
  ∀ vars stack slots memory, Holds cx size vars slots →
    Runs (exec m fuel depth code ⟨stack, slots, memory⟩) (s vars memory) (Ends cx size stack)

/-- A block ends as its code does. -/
lemma Runs.leave {o : Outcome} {r : Except Halt (Flow × Memory)}
    (h : Runs o r (Ends cx size [])) : Runs (leave stack o) r (Ends cx size stack) := by
  unfold Runs at h ⊢
  split at h
  · rename_i flow memory
    cases flow with
    | next vars =>
        obtain ⟨_, rfl, slots, rfl, hslots⟩ := h
        exact ⟨_, rfl, slots, rfl, hslots⟩
    | returned d =>
        rw [h]
        exact rfl
  · rw [h]
    rfl
  · rw [h]
    rfl
  · exact h

/-- Statements one after the other. -/
lemma Runs.flow {o : Outcome} {x : Eval Flow} {s : Flow → Eval Flow} {k : State → Outcome}
    (hx : Runs o (x memory) (Ends cx size stack))
    (hnext : ∀ vars slots memory, Holds cx size vars slots →
      Runs (k ⟨stack, slots, memory⟩) (s (.next vars) memory) (Ends cx size stack))
    (hreturned : ∀ d, s (.returned d) = pure (.returned d)) :
    Runs (o.andThen k) ((x >>= s) memory) (Ends cx size stack) := by
  refine Runs.through (·.andThen k) (fun _ _ => rfl) rfl hx ?_
  rintro (vars | d) memory' hend
  · obtain ⟨_, rfl, slots, rfl, hslots⟩ := hend
    exact hnext vars slots memory' hslots
  · rw [hreturned, hend]
    exact rfl

/-! ### Loops -/

/-- The code of a loop's test falls through if the loop goes on, and else leaves the
block around it. -/
lemma Lowering.Exits.runs (hcalls : CallsAgree m fuel depth cx call) {test : Option Expr}
    {exit : Code} (h : Exits cx size test exit) (slots : Array Word) (memory : Memory)
    (hslots : Holds cx size vars slots) :
    Runs (exec m fuel depth exit ⟨[], slots, memory⟩) (goesOn call vars test memory)
      fun go memory' o => ∃ slots', Holds cx size vars slots' ∧
        o = if go then .next ⟨[], slots', memory'⟩ else .branch 0 ⟨[], slots', memory'⟩ := by
  cases h with
  | never => exact ⟨slots, hslots, exec_nil⟩
  | tested test =>
      rw [goesOn, exec_append]
      refine (test.computes hcalls [] slots memory hslots).condition.andThen ?_
      rintro d memory' _ ⟨_, slots', rfl, hframe⟩
      refine ⟨slots', hslots.frame hframe, ?_⟩
      have hcondition := d.condition_ne_zero
      rw [exec_plain rfl]
      cases htrue : d.isTrue <;>
        simp_all [plainAll, plain_i32Eqz, plain_brIf, Word.ofBool, Outcome.andThen]

lemma Lowering.Steps.runs (hcalls : CallsAgree m fuel depth cx call) {update : Option Expr}
    {code : Code} (h : Steps cx size update code) (slots : Array Word) (memory : Memory)
    (hslots : Holds cx size vars slots) :
    Runs (exec m fuel depth code ⟨[], slots, memory⟩) (Evaluation.step call vars update memory)
      (FallsThrough (Stored cx size [])) := by
  cases h with
  | none => exact ⟨_, exec_nil, slots, rfl, hslots⟩
  | some part => exact part.runs hcalls [] slots memory hslots

/-- Part of a round, inside the block and the loop around it. -/
lemma Runs.inRound {α : Type} {o : Outcome} {x : Eval α} {f : α → Eval Flow}
    {again k : State → Outcome} {post : α → Memory → Outcome → Prop}
    (hx : Runs o (x memory) post)
    (hf : ∀ a memory', post a memory' o →
      Runs (afterRound again stack (Machine.leave [] (o.andThen k))) (f a memory')
        (Ends cx size stack)) :
    Runs (afterRound again stack (Machine.leave [] (o.andThen k))) ((x >>= f) memory)
      (Ends cx size stack) :=
  Runs.through (fun o => afterRound again stack (Machine.leave [] (o.andThen k))) (fun _ _ => rfl)
    rfl hx hf

section

variable {procedure? : String → Option Procedure} {test update : Option Expr} {body : Statement}
  {exit code step : Code}

/-- One round of a loop, where further rounds are answered. -/
lemma round_runs (hexit : Exits cx size test exit) (hstep : Steps cx size update step)
    (hcalls : CallsAgree m fuel depth cx (Evaluation.call procedure? fuel))
    (hbody : Follows m fuel depth cx size code (Evaluation.statement procedure? fuel body))
    (hnext : ∀ k, fuel = k + 1 → Follows m k depth cx size (roundAndRound exit code step)
      (rounds procedure? k test update body)) :
    Follows m fuel depth cx size (roundAndRound exit code step)
      (rounds procedure? fuel test update body) := by
  intro vars stack slots memory hslots
  rw [rounds, roundAndRound, exec_singleton, instr_loop, exec_singleton, instr_block]
  simp only [exec_append, Outcome.andThen_assoc]
  generalize hagain : nextRound m fuel depth _ = again
  -- the test
  refine Runs.inRound (hexit.runs hcalls slots memory hslots) ?_
  rintro (_ | _) memory₁ ⟨slots₁, hslots₁, hout₁⟩
  · simp only [hout₁]
    exact ⟨_, rfl, slots₁, rfl, hslots₁⟩
  -- the body
  simp only [hout₁, if_true, Outcome.andThen_next]
  refine Runs.inRound (hbody vars [] slots₁ memory₁ hslots₁) ?_
  intro flow memory₂ hend
  cases flow with
  | returned d =>
      have hout₂ : exec m fuel depth code ⟨[], slots₁, memory₁⟩ = .returned _ memory₂ := hend
      simp only [hout₂]
      exact rfl
  | next vars₂ =>
      obtain ⟨_, hout₂, slots₂, rfl, hslots₂⟩ := hend
      simp only [hout₂, Outcome.andThen_next]
      -- the step
      refine Runs.inRound (hstep.runs hcalls slots₂ memory₂ hslots₂) ?_
      rintro vars₃ memory₃ ⟨_, hout₃, slots₃, rfl, hslots₃⟩
      have hbranch : exec m fuel depth (Lowering.plain [.br 1]) ⟨[], slots₃, memory₃⟩ =
          .branch 1 ⟨[], slots₃, memory₃⟩ := exec_plain rfl
      simp only [hout₃, Outcome.andThen_next, hbranch]
      show Runs (again ⟨stack, slots₃, memory₃⟩) _ _
      subst hagain
      cases fuel with
      | zero => exact rfl
      | succ k =>
          have hround := hnext k rfl vars₃ stack slots₃ memory₃ hslots₃
          rw [roundAndRound, exec_singleton] at hround
          exact hround

/-- The rounds of a loop, by induction on the fuel that both sides use up. -/
lemma rounds_runs (hexit : Exits cx size test exit) (hstep : Steps cx size update step)
    (hcalls : ∀ k ≤ fuel, CallsAgree m k depth cx (Evaluation.call procedure? k))
    (hbody : ∀ k ≤ fuel,
      Follows m k depth cx size code (Evaluation.statement procedure? k body)) :
    Follows m fuel depth cx size (roundAndRound exit code step)
      (rounds procedure? fuel test update body) := by
  induction fuel with
  | zero =>
      exact round_runs hexit hstep (hcalls 0 le_rfl) (hbody 0 le_rfl) fun k hk => by cases hk
  | succ n ih =>
      refine round_runs hexit hstep (hcalls _ le_rfl) (hbody _ le_rfl) ?_
      rintro k ⟨⟩
      exact ih (fun k hk => hcalls k (by omega)) fun k hk => hbody k (by omega)

/-! ### Statements -/

lemma exec_zero (t : ValueType) (stack : List Word) (slots : Array Word) (memory : Memory) :
    exec m fuel depth (Lowering.plain [Lowering.zero t]) ⟨stack, slots, memory⟩ =
      .next ⟨(Datum.zero t).word :: stack, slots, memory⟩ := by
  cases t <;> exact exec_plain rfl

lemma Follows.of_stored {x : Variables → Eval Variables}
    (h : ∀ vars stack slots memory, Holds cx size vars slots →
      Runs (exec m fuel depth code ⟨stack, slots, memory⟩) (x vars memory)
        (FallsThrough (Stored cx size stack))) :
    Follows m fuel depth cx size code fun vars => do
      let vars ← x vars
      return .next vars :=
  fun vars stack slots memory hslots => Runs.map (h vars stack slots memory hslots)

mutual

/-- The code that belongs to a statement does what it does. -/
theorem Lowering.LowersStatement.follows
    (hcalls : ∀ k ≤ fuel, CallsAgree m k depth cx (Evaluation.call procedure? k)) :
    ∀ {s : Statement} {code : Code}, LowersStatement cx size s code →
    ∀ k ≤ fuel, Follows m k depth cx size code (Evaluation.statement procedure? k s)
  | _, _, .declare parts => fun k hk => by
      simp only [Follows, Evaluation.statement]
      exact Follows.of_stored fun _ => parts.runs (hcalls k hk)
  | _, _, .expression part => fun k hk => by
      simp only [Follows, Evaluation.statement]
      exact Follows.of_stored fun _ => part.runs (hcalls k hk)
  | _, _, .retZero => fun k hk vars stack slots memory hslots => by
      have hcode : Lowering.plain [Lowering.zero cx.signature.returnType, .ret] =
          Lowering.plain [Lowering.zero cx.signature.returnType] ++ Lowering.plain [.ret] := rfl
      rw [Evaluation.statement, hcode, exec_append, exec_zero]
      exact exec_plain rfl
  | _, _, .ret part => fun k hk vars stack slots memory hslots => by
      rw [Evaluation.statement, exec_append]
      refine ((part.computes (hcalls k hk) stack slots memory hslots).as _).andThen ?_
      rintro d memory' _ ⟨_, slots', rfl, _⟩
      exact exec_plain rfl
  | _, _, .conditional condition first second => fun k hk vars stack slots memory hslots => by
      rw [Evaluation.statement, exec_append]
      refine (condition.computes (hcalls k hk) stack slots memory hslots).condition.andThen ?_
      rintro d memory' _ ⟨_, slots', rfl, hframe⟩
      rw [exec_singleton, instr_choice]
      have hslots' := hslots.frame hframe
      by_cases htrue : d.isTrue = true
      · rw [if_pos (d.condition_ne_zero.mpr htrue), if_pos htrue]
        exact (first.follows hcalls k hk vars [] slots' memory' hslots').leave
      · rw [if_neg (mt d.condition_ne_zero.mp htrue), if_neg htrue]
        exact (second.follows hcalls k hk vars [] slots' memory' hslots').leave
  | _, _, .whileLoop leaving round => fun k hk => by
      simp only [Follows, Evaluation.statement]
      exact rounds_runs leaving .none (fun j hj => hcalls j (by omega))
        fun j hj => round.follows hcalls j (by omega)
  | _, _, .forLoop before leaving round stepping => fun k hk vars stack slots memory hslots => by
      rw [Evaluation.statement, exec_append]
      refine (before.follows hcalls k hk vars stack slots memory hslots).flow ?_ fun _ => rfl
      intro vars' slots' memory' hslots'
      exact rounds_runs leaving stepping (fun j hj => hcalls j (by omega))
        (fun j hj => round.follows hcalls j (by omega)) vars' stack slots' memory' hslots'
  | _, _, .block parts => fun k hk => by
      simp only [Follows, Evaluation.statement]
      exact parts.follows hcalls k hk
  | _, _, .empty => fun k hk vars stack slots memory hslots => by
      rw [Evaluation.statement]
      exact ⟨_, exec_nil, slots, rfl, hslots⟩

theorem Lowering.LowersAlternative.follows
    (hcalls : ∀ k ≤ fuel, CallsAgree m k depth cx (Evaluation.call procedure? k)) :
    ∀ {s : Option Statement} {code : Option Code}, LowersAlternative cx size s code →
    ∀ k ≤ fuel, Follows m k depth cx size (code.getD []) (Evaluation.optional procedure? k s)
  | _, _, .none => fun k _ vars stack slots memory hslots => by
      rw [Evaluation.optional]
      exact ⟨_, exec_nil, slots, rfl, hslots⟩
  | _, _, .some part => fun k hk => by
      simp only [Follows, Evaluation.optional]
      exact part.follows hcalls k hk

theorem Lowering.LowersInitial.follows
    (hcalls : ∀ k ≤ fuel, CallsAgree m k depth cx (Evaluation.call procedure? k)) :
    ∀ {s : Option Statement} {code : Code}, LowersInitial cx size s code →
    ∀ k ≤ fuel, Follows m k depth cx size code (Evaluation.optional procedure? k s)
  | _, _, .none => fun k _ vars stack slots memory hslots => by
      rw [Evaluation.optional]
      exact ⟨_, exec_nil, slots, rfl, hslots⟩
  | _, _, .some part => fun k hk => by
      simp only [Follows, Evaluation.optional]
      exact part.follows hcalls k hk

/-- The code that belongs to statements does what they do, one after the other. -/
theorem Lowering.LowersStatements.follows
    (hcalls : ∀ k ≤ fuel, CallsAgree m k depth cx (Evaluation.call procedure? k)) :
    ∀ {ss : List Statement} {code : Code}, LowersStatements cx size ss code →
    ∀ k ≤ fuel, Follows m k depth cx size code (Evaluation.statements procedure? k ss)
  | _, _, .nil => fun k _ vars stack slots memory hslots => by
      rw [Evaluation.statements]
      exact ⟨_, exec_nil, slots, rfl, hslots⟩
  | _, _, .cons first others => fun k hk vars stack slots memory hslots => by
      rw [Evaluation.statements, exec_append]
      refine (first.follows hcalls k hk vars stack slots memory hslots).flow ?_ fun _ => rfl
      intro vars' slots' memory' hslots'
      exact others.follows hcalls k hk vars' stack slots' memory' hslots'

end

end

end ArrayScript
