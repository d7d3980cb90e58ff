import ArrayScript.Proofs.Computation
import ArrayScript.Proofs.Slots.Mapping
import ArrayScript.Proofs.Table

/-!
What lowering never fails with.

Lowering looks signatures up, and counts arguments against them, for calls alone. So none of
its errors is about the arity of a signature, and it misses a signature only for a name that
is not in the table. This is so for any syntax, slots and types, whether they fit or not.

* `Sparing`: a computation has no other errors, with a rule for each way in which
  computations are put together.
* `statement_sparing`, `lower_spares`: by recursion over the syntax.
-/

namespace ArrayScript

namespace Lowering

variable {cx : LoweringContext} {α β : Type}

/-- If the computation fails, its error does not blame the table of signatures. -/
def Sparing (cx : LoweringContext) (x : Lower α) : Prop :=
  ∀ s, Meets (CompileError.Spares cx.table) x s fun _ _ => True

namespace Sparing

variable {x : Lower α} {f : α → Lower β}

/-- A computation that only returns has no errors. -/
lemma pure (a : α) : Sparing cx (Pure.pure a) := fun _ => Meets.pure trivial

/-- A computation that refuses does it with the error that is given. -/
lemma throw {e : CompileError} (h : e.Spares cx.table) : Sparing cx (throw e : Lower α) :=
  fun _ => Meets.throw h

/-- Nothing comes after a refusal. -/
lemma throw_bind {e : CompileError} (h : e.Spares cx.table) :
    Sparing cx ((MonadExcept.throw e : Lower α) >>= f) :=
  fun _ => Meets.throw_bind h

/-- One computation after another: the errors are those of both. -/
lemma bind (hx : Sparing cx x) (hf : ∀ a, Sparing cx (f a)) : Sparing cx (x >>= f) :=
  fun s => (hx s).bind fun a s' _ => hf a s'

/-- A look-up has no errors but its own. -/
lemma lift {y : Except CompileError α} (h : ∀ e, y = .error e → e.Spares cx.table) :
    Sparing cx (liftM y : Lower α) :=
  fun _ => Meets.lift (fun _ _ => trivial) h

/-- There is always a scratch slot to be had: if none is free, one is added. -/
lemma acquire : Sparing cx (acquire cx) := fun s => by
  rw [Meets, Lowering.acquire]
  cases s.free <;> trivial

/-- A scratch slot is given back without errors. -/
lemma release (slot : Nat) : Sparing cx (release slot) := fun _ => Meets.modified trivial

end Sparing

/-! ### Look-ups and instructions -/

/-- A variable without a slot is an error about the variable. -/
lemma slot_spares {name : String} : Sparing cx (liftM (slot cx name) : Lower Nat) := by
  refine .lift fun e h => ?_
  rw [slot_eq] at h
  split at h
  · cases h
  · split at h <;> cases h <;> trivial

/-- An expression without a type is an error about its id. -/
lemma expressionType_spares {id : ExprId} :
    Sparing cx (liftM (cx.typing.expressionType id) : Lower ValueType) := by
  refine .lift fun e h => ?_
  rw [Typing.expressionType] at h
  split at h <;> cases h
  trivial

/-- A variable without a type is an error about the variable. -/
lemma variableType_spares {name : String} :
    Sparing cx (liftM (cx.typing.variableType name) : Lower ValueType) := by
  refine .lift fun e h => ?_
  rw [Typing.variableType] at h
  split at h <;> cases h
  trivial

/-- The one way in which arithmetic fails: an operator that there is no instruction for. -/
lemma arithmetic_eq_error {op : BinaryOp} {float : Bool} {e : CompileError}
    (h : arithmetic op float = .error e) :
    ∃ symbol onDoubles, e = .unsupportedOperator symbol onDoubles := by
  cases op <;> cases float <;> cases h <;> exact ⟨_, _, rfl⟩

/-- So arithmetic does not blame the table of signatures. -/
lemma arithmetic_spares {op : BinaryOp} {float : Bool} :
    Sparing cx (liftM (arithmetic op float) : Lower Op) := by
  refine .lift fun e h => ?_
  obtain ⟨_, _, rfl⟩ := arithmetic_eq_error h
  trivial

/-- Two operands put together: the instruction is chosen before the right one is lowered,
and there may be none. -/
lemma combine_sparing {op : BinaryOp} {left : Operand} {rightType : ValueType}
    {lowerRight : Lower Operand} (h : Sparing cx lowerRight) :
    Sparing cx (combine op left rightType lowerRight) := by
  refine .bind (.lift fun e he => ?_) fun _ => .bind h fun _ => .pure _
  rw [instruction] at he
  split at he
  · cases he
  · rcases bind_eq_error.mp he with he | ⟨_, _, he⟩
    · obtain ⟨_, _, rfl⟩ := arithmetic_eq_error he
      trivial
    · cases he

/-! ### Expressions -/

mutual

/-- Lowering an expression blames the table for no signature that is in it. The one look-up
in the table is that of a call. -/
theorem expression_sparing : ∀ e : Expr, Sparing cx (expression cx e)
  | .number _ _ => by
      rw [expression]
      exact .bind expressionType_spares fun _ => .pure _
  | .boolean _ _ => by
      rw [expression]
      exact .pure _
  | .identifier _ _ => by
      rw [expression]
      exact .bind slot_spares fun _ => .bind expressionType_spares fun _ => .pure _
  | .unary _ .not a | .unary _ .plus a => by
      rw [expression]
      exact .bind (expression_sparing a) fun _ => .pure _
  | .unary _ .minus a => by
      rw [expression]
      refine .bind expressionType_spares fun t => ?_
      split
      all_goals exact .bind (expression_sparing a) fun _ => .pure _
  | .binary _ op a b => by
      rw [expression]
      refine .bind (expression_sparing a) fun _ => .bind expressionType_spares fun _ => ?_
      exact combine_sparing (expression_sparing b)
  | .logical _ op a b => by
      rw [expression]
      refine .bind (expression_sparing a) fun _ => .bind .acquire fun slot => ?_
      exact .bind (expression_sparing b) fun _ => .bind (.release slot) fun _ => .pure _
  | .index _ object position => by
      rw [expression]
      refine .bind (expression_sparing object) fun _ => ?_
      exact .bind (expression_sparing position) fun _ => .pure _
  | .property _ object name => by
      rw [expression]
      split
      · exact .bind (expression_sparing object) fun _ => .pure _
      · exact .throw trivial
  | .call _ callee arguments => by
      rw [expression]
      split
      · exact .throw trivial
      rename_i name _
      split
      · refine .bind (.lift fun e h => ?_) fun signature => ?_
        -- the name is missing from the table
        · obtain ⟨rfl, hnone⟩ := SignatureTable.require_eq_error h
          exact hnone
        dsimp only
        split
        · exact .throw_bind trivial
        · exact .bind (callArguments_sparing arguments _) fun _ => .pure _
      · exact .throw trivial
  | .array _ _ | .assign _ _ _ _ | .update _ _ _ _ => by
      rw [expression]
      exact .throw trivial

/-- The same of the arguments of a call, with the types of its parameters. -/
theorem callArguments_sparing : ∀ (es : List Expr) (types : List ValueType),
    Sparing cx (callArguments cx es types)
  | e :: rest, _ :: types => by
      rw [callArguments]
      refine .bind (expression_sparing e) fun _ => ?_
      exact .bind (callArguments_sparing rest types) fun _ => .pure _
  | [], _ | _ :: _, [] => by
      rw [callArguments]
      · exact .pure _
      all_goals simp

end

/-- The same of an assignment, to a variable or to an element, plain or compound. -/
lemma assign_sparing (op : AssignOp) (target value : Expr) :
    Sparing cx (assign cx op target value) := by
  rw [assign.eq_def]
  split
  -- a variable
  · refine .bind slot_spares fun _ => .bind variableType_spares fun _ => ?_
    split
    · exact .bind (expression_sparing value) fun _ => .pure _
    · refine .bind expressionType_spares fun _ => ?_
      exact .bind (combine_sparing (expression_sparing value)) fun _ => .pure _
  -- an element
  · rename_i object position
    refine .bind (expression_sparing object) fun _ =>
      .bind (expression_sparing position) fun _ => ?_
    split
    · exact .bind (expression_sparing value) fun _ => .pure _
    · refine .bind .acquire fun slot => .bind expressionType_spares fun _ => ?_
      refine .bind (combine_sparing (expression_sparing value)) fun _ => ?_
      exact .bind (.release slot) fun _ => .pure _
  · exact .throw trivial

/-- The same of an increment or a decrement. -/
lemma update_sparing (op : UpdateOp) (target : Expr) : Sparing cx (update cx op target) := by
  rw [update.eq_def]
  split
  -- a variable
  · refine .bind slot_spares fun _ => .bind variableType_spares fun _ => ?_
    exact .bind arithmetic_spares fun _ => .pure _
  -- an element
  · rename_i object position
    refine .bind (expression_sparing object) fun _ =>
      .bind (expression_sparing position) fun _ => ?_
    refine .bind .acquire fun slot => .bind arithmetic_spares fun _ => ?_
    exact .bind (.release slot) fun _ => .pure _
  · exact .throw trivial

/-- The same of an expression that is lowered for its effect. -/
lemma effect_sparing (e : Expr) : Sparing cx (effect cx e) := by
  rw [effect.eq_def]
  split
  · exact assign_sparing _ _ _
  · exact update_sparing _ _
  · exact .bind (expression_sparing _) fun _ => .pure _

/-! ### Statements -/

/-- The same of the declarators of a declaration. -/
lemma declarators_sparing (ds : List Declarator) : Sparing cx (declarators cx ds) := by
  induction ds with
  | nil => exact .pure _
  | cons d rest ih =>
      rw [declarators]
      split
      · exact .throw trivial
      · exact ih
      · refine .bind slot_spares fun _ => .bind variableType_spares fun _ => ?_
        exact .bind (expression_sparing _) fun _ => .bind ih fun _ => .pure _

/-- The same of the test that ends a loop, if there is one. -/
lemma loopExit_sparing (test : Option Expr) : Sparing cx (loopExit cx test) := by
  cases test with
  | none => exact .pure _
  | some e => exact .bind (expression_sparing e) fun _ => .pure _

/-- The same of what a `for` does after each round, if anything. -/
lemma loopStep_sparing (update : Option Expr) : Sparing cx (loopStep cx update) := by
  cases update with
  | none => exact .pure _
  | some e => exact effect_sparing e

mutual

/-- Lowering a statement blames the table for no signature that is in it. -/
theorem statement_sparing : ∀ s : Statement, Sparing cx (statement cx s)
  | .function _ _ _ _ => by
      rw [statement]
      exact .throw trivial
  | .declare _ ds => by
      rw [statement]
      exact declarators_sparing ds
  | .expression e => by
      rw [statement]
      exact effect_sparing e
  | .ret none | .empty => by
      rw [statement]
      exact .pure _
  | .ret (some e) => by
      rw [statement]
      exact .bind (expression_sparing e) fun _ => .pure _
  | .conditional test consequent alternate => by
      rw [statement]
      refine .bind (expression_sparing test) fun _ => ?_
      refine .bind (statement_sparing consequent) fun _ => ?_
      exact .bind (alternative_sparing alternate) fun _ => .pure _
  | .whileLoop test body => by
      rw [statement]
      exact .bind (loopExit_sparing _) fun _ => .bind (statement_sparing body) fun _ => .pure _
  | .forLoop init test update body => by
      rw [statement]
      refine .bind (initial_sparing init) fun _ => .bind (loopExit_sparing test) fun _ => ?_
      refine .bind (statement_sparing body) fun _ => ?_
      exact .bind (loopStep_sparing update) fun _ => .pure _
  | .block body => by
      rw [statement]
      exact statements_sparing body

/-- The same of an alternate, if there is one. -/
theorem alternative_sparing : ∀ s : Option Statement, Sparing cx (alternative cx s)
  | none => .pure _
  | some s => .bind (statement_sparing s) fun _ => .pure _

/-- The same of what a `for` starts with, if anything. -/
theorem initial_sparing : ∀ s : Option Statement, Sparing cx (initial cx s)
  | none => .pure _
  | some s => statement_sparing s

/-- The same of statements one after another. -/
theorem statements_sparing : ∀ ss : List Statement, Sparing cx (statements cx ss)
  | [] => .pure _
  | s :: rest => .bind (statement_sparing s) fun _ =>
      .bind (statements_sparing rest) fun _ => .pure _

end

end Lowering

/-- Lowering a function does not fail for want of a signature that is in the table. -/
theorem LoweringContext.lower_spares {cx : LoweringContext} {e : CompileError}
    (h : cx.lower = .error e) : e.Spares cx.table := by
  -- a function is lowered from no scratch slots
  have hbody : Lowering.Sparing cx (Lowering.body cx) :=
    .bind (Lowering.statements_sparing cx.function.body) fun _ => .pure _
  rcases bind_eq_error.mp h with h | ⟨_, _, h⟩
  · exact (hbody {}).of_error h
  · cases h

end ArrayScript
