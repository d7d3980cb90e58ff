import ArrayScript.Proofs.Lowering.Construction

/-!
Lowering step by step.

A `Plan` is a computation with scratch variables that is laid out as the steps it takes, so
that it can be looked at between any two of them, also if it fails later.

* `Plan.run`: a plan as a computation of the kind that lowering consists of.
* `Plan.moments`: the moments of a run, each with the scratch variables that are held then.
* `Plan.ofExpression` … `Plan.ofBody`: the plans of lowering.
* `Planned`: a plan is that of a computation, and gives scratch variables back in the
  reverse order.
* `body_planned`: by induction over the syntax, lowering follows its plans.
* `Planned.valid`: at every moment the scratch variables are in order.
-/

namespace ArrayScript.Lowering

/-- The steps of a computation that uses scratch variables, or fails. -/
inductive Plan (α : Type) where
  | done (a : α)
  | failed (e : CompileError)
  /-- goes on with the scratch variable that it gets -/
  | taking (next : Nat → Plan α)
  | giving (slot : Nat) (next : Plan α)

namespace Plan

variable {α β : Type}

/-- One plan after another. -/
def bind : Plan α → (α → Plan β) → Plan β
  | done a, f => f a
  | failed e, _ => failed e
  | taking next, f => taking fun slot => (next slot).bind f
  | giving slot next, f => giving slot (next.bind f)

instance : Monad Plan where
  pure := done
  bind := bind

instance : MonadLift (Except CompileError) Plan where
  monadLift
    | .ok a => done a
    | .error e => failed e

/-- Takes a scratch variable. -/
def take : Plan Nat :=
  taking done

/-- Gives a scratch variable back. -/
def give (slot : Nat) : Plan Unit :=
  giving slot (done ())

/-- A plan that is carried out. -/
def run (cx : LoweringContext) : Plan α → Lower α
  | done a => pure a
  | failed e => throw e
  | taking next => acquire cx >>= fun slot => (next slot).run cx
  | giving slot next => release slot >>= fun _ => next.run cx

end Plan

/-- A moment in a run: the scratch variables that were acquired and not yet released, the last
one first, and the state. -/
structure Moment where
  held : List Nat
  scratch : Scratch

/-- The moments of a run that is started with some scratch variables held: one before each
step, and one at the end. -/
def Plan.moments {α : Type} (cx : LoweringContext) : Plan α → List Nat → Scratch → List Moment
  | done _, held, s | failed _, held, s => [⟨held, s⟩]
  | taking next, held, s => ⟨held, s⟩ ::
    match acquire cx s with
    | .ok (slot, s') => (next slot).moments cx (slot :: held) s'
    | .error _ => []
  | giving slot next, held, s => ⟨held, s⟩ ::
    match release slot s with
    | .ok (_, s') => next.moments cx (held.erase slot) s'
    | .error _ => []

/-! ### The plans of lowering -/

namespace Plan

variable (cx : LoweringContext)

/-- How an operator and its right operand are lowered. -/
def ofCombine (op : BinaryOp) (left : Operand) (rightType : ValueType) (right : Plan Operand) :
    Plan Operand := do
  let float := left.type.isFloat || rightType.isFloat
  let (instruction, result) ← instruction op float
  let right ← right
  return ⟨left.as (operandType float) ++ right.as (operandType float) ++ plain [instruction],
    result⟩

mutual

/-- How an expression is lowered. -/
def ofExpression : Expr → Plan Operand
  | .number id x => do
    let type ← cx.typing.expressionType id
    let constant : Op := if type.isFloat then .f64Const x else .i32Const x.toInt32Saturating
    return ⟨plain [constant], type⟩
  | .boolean _ b => return ⟨plain [.i32Const (if b then 1 else 0)], .boolean⟩
  | .identifier id name => do
    let slot ← slot cx name
    let type ← cx.typing.expressionType id
    return ⟨plain [.localGet slot], type⟩
  | .unary _ .not a => do
    let operand ← ofExpression a
    return ⟨operand.condition ++ plain [.i32Eqz], .boolean⟩
  | .unary _ .minus a => do
    if (← cx.typing.expressionType a.id).isFloat then
      let operand ← ofExpression a
      return ⟨operand.code ++ plain [.f64Neg], .float64⟩
    else
      let operand ← ofExpression a
      return ⟨plain [.i32Const 0] ++ operand.as .int32 ++ plain [.int .sub], .int32⟩
  | .unary _ .plus a => do
    let operand ← ofExpression a
    return ⟨operand.as operand.type.numeric, operand.type.numeric⟩
  | .binary _ op a b => do
    let left ← ofExpression a
    let rightType ← cx.typing.expressionType b.id
    ofCombine op left rightType (ofExpression b)
  | .logical _ op a b => do
    let left ← ofExpression a
    let scratch ← take
    let right ← ofExpression b
    give scratch
    return ⟨left.truth ++ plain [.localSet scratch] ++ logicalChoices op right ++
      plain [.localGet scratch, .select], .boolean⟩
  | .index _ object position => do
    let array ← ofExpression object
    let at' := address array (← ofExpression position)
    return ⟨at'.code ++ plain [.load at'.type.wordType], at'.type⟩
  | .property _ object name => do
    if name = "length" then return length (← ofExpression object)
    else failed (.unknownProperty name)
  | .call _ callee arguments => do
    match callee.identifier? with
    | none => failed (.callThrough callee.kindName)
    | some name =>
      let some index := cx.indices.find? name | failed (.unknownFunction name)
      let signature ← cx.table.require name
      if signature.arity ≠ arguments.length then
        failed (.callArity name signature.arity arguments.length)
      else
        let code ← ofArguments arguments signature.parameters
        return ⟨code ++ plain [.call index], signature.returnType⟩
  | .array _ _ => failed .arrayLiteral
  | e@(.assign _ _ _ _) | e@(.update _ _ _ _) => failed (.usedAsValue e.kindName)

/-- How arguments are lowered. -/
def ofArguments : List Expr → List ValueType → Plan Code
  | e :: rest, type :: types => do
    let argument ← ofExpression e
    return argument.as type ++ (← ofArguments rest types)
  | _, _ => return []

end

/-- How an assignment is lowered. -/
def ofAssign (op : AssignOp) (target value : Expr) : Plan Code := do
  match target with
  | .identifier _ name =>
    let slot ← slot cx name
    let type ← cx.typing.variableType name
    let new ← match op.binaryOp? with
      | none => ofExpression cx value
      | some op => do
        let rightType ← cx.typing.expressionType value.id
        ofCombine op ⟨plain [.localGet slot], type⟩ rightType (ofExpression cx value)
    return new.as type ++ plain [.localSet slot]
  | .index _ object position =>
    let array ← ofExpression cx object
    let at' := address array (← ofExpression cx position)
    let element := at'.type
    match op.binaryOp? with
    | none =>
      let new ← ofExpression cx value
      return at'.code ++ new.as element ++ plain [.store element.wordType]
    | some op =>
      let scratch ← take
      let old : Operand := ⟨plain [.localGet scratch, .load element.wordType], element⟩
      let rightType ← cx.typing.expressionType value.id
      let new ← ofCombine op old rightType (ofExpression cx value)
      give scratch
      return at'.code ++ plain [.localTee scratch] ++ new.as element ++
        plain [.store element.wordType]
  | _ => failed .invalidTarget

/-- How an update is lowered. -/
def ofUpdate (op : UpdateOp) (target : Expr) : Plan Code := do
  match target with
  | .identifier _ name =>
    let slot ← slot cx name
    let type ← cx.typing.variableType name
    let step ← arithmetic op.binaryOp type.isFloat
    return plain [.localGet slot, one type, step, .localSet slot]
  | .index _ object position =>
    let array ← ofExpression cx object
    let at' := address array (← ofExpression cx position)
    let element := at'.type
    let scratch ← take
    let step ← arithmetic op.binaryOp element.isFloat
    give scratch
    return at'.code ++ plain [.localTee scratch, .localGet scratch, .load element.wordType,
      one element, step, .store element.wordType]
  | _ => failed .invalidTarget

/-- How an expression is lowered that is run for what it does. -/
def ofEffect : Expr → Plan Code
  | .assign _ op target value => ofAssign cx op target value
  | .update _ op _ target => ofUpdate cx op target
  | e => do
    let value ← ofExpression cx e
    return value.code ++ plain [.drop]

/-- How declarators are lowered. -/
def ofDeclarators : List Declarator → Plan Code
  | [] => return []
  | d :: rest => do
    match d.target.identifier?, d.init with
    | none, _ => failed (.patternDeclarator cx.function.displayName)
    | some _, none => ofDeclarators rest
    | some name, some init =>
      let slot ← slot cx name
      let type ← cx.typing.variableType name
      let value ← ofExpression cx init
      return value.as type ++ plain [.localSet slot] ++ (← ofDeclarators rest)

/-- How the test of a loop is lowered. -/
def ofExit : Option Expr → Plan Code
  | none => return []
  | some test => do
    let value ← ofExpression cx test
    return value.condition ++ plain [.i32Eqz, .brIf 0]

/-- How the step of a loop is lowered. -/
def ofStep : Option Expr → Plan Code
  | none => return []
  | some e => ofEffect cx e

mutual

/-- How a statement is lowered. -/
def ofStatement : Statement → Plan Code
  | .function name _ _ _ => failed (.nestedFunction (displayName name))
  | .declare _ ds => ofDeclarators cx ds
  | .expression e => ofEffect cx e
  | .ret none => return plain [zero cx.signature.returnType, .ret]
  | .ret (some e) => do
    let value ← ofExpression cx e
    return value.as cx.signature.returnType ++ plain [.ret]
  | .conditional test consequent alternate => do
    let value ← ofExpression cx test
    let consequent ← ofStatement consequent
    let alternate ← ofAlternative alternate
    return value.condition ++ [.choice consequent alternate]
  | .whileLoop test body => do
    let exit ← ofExit cx (some test)
    let body ← ofStatement body
    return roundAndRound exit body []
  | .forLoop init test update body => do
    let first ← ofInitial init
    let exit ← ofExit cx test
    let body ← ofStatement body
    let step ← ofStep cx update
    return first ++ roundAndRound exit body step
  | .block body => ofStatements body
  | .empty => return []

/-- How the second branch of a conditional is lowered. -/
def ofAlternative : Option Statement → Plan (Option Code)
  | none => return none
  | some s => do return some (← ofStatement s)

/-- How the statement before a loop is lowered. -/
def ofInitial : Option Statement → Plan Code
  | none => return []
  | some s => ofStatement s

/-- How statements are lowered. -/
def ofStatements : List Statement → Plan Code
  | [] => return []
  | s :: rest => do
    let code ← ofStatement s
    return code ++ (← ofStatements rest)

end

/-- How the body of the function is lowered. -/
def ofBody : Plan Code := do
  let code ← ofStatements cx cx.function.body
  return code ++ plain [zero cx.signature.returnType]

end Plan

/-! ### Order -/

/-- Started with some scratch variables held, a plan gives back only the one it took last,
and ends, unless it fails, with others held. -/
inductive Orderly {α : Type} : List Nat → Plan α → List Nat → Prop
  | done {held a} : Orderly held (.done a) held
  | failed {held held' e} : Orderly held (.failed e) held'
  | taking {held held' next} (rest : ∀ slot, Orderly (slot :: held) (next slot) held') :
      Orderly held (.taking next) held'
  | giving {held held' slot next} (rest : Orderly held next held') :
      Orderly (slot :: held) (.giving slot next) held'

/-- A plan is that of a computation, and orderly. -/
structure Planned {α : Type} (cx : LoweringContext) (held held' : List Nat) (x : Lower α)
    (p : Plan α) : Prop where
  run_eq : p.run cx = x
  orderly : Orderly held p held'

namespace Planned

variable {α β : Type} {cx : LoweringContext} {held held' held'' : List Nat}
  {x : Lower α} {p : Plan α} {f : α → Lower β} {q : α → Plan β}

lemma pure {a : α} : Planned cx held held (Pure.pure a) (Pure.pure a) :=
  ⟨rfl, .done⟩

lemma throw {e : CompileError} : Planned cx held held' (throw e : Lower α) (.failed e) :=
  ⟨rfl, .failed⟩

lemma bind (hx : Planned cx held held' x p) (hf : ∀ a, Planned cx held' held'' (f a) (q a)) :
    Planned cx held held'' (x >>= f) (p >>= q) := by
  obtain ⟨rfl, hp⟩ := hx
  obtain rfl : (fun a => (q a).run cx) = f := funext fun a => (hf a).run_eq
  constructor
  · show (p.bind q).run cx = p.run cx >>= fun a => (q a).run cx
    clear hp hf
    induction p with
    | done a => rfl
    | failed e => rfl
    | taking next ih =>
        rw [Plan.bind, Plan.run, Plan.run, bind_assoc]
        exact bind_congr ih
    | giving slot next ih =>
        rw [Plan.bind, Plan.run, Plan.run, bind_assoc]
        exact bind_congr fun _ => ih
  · show Orderly held (p.bind q) held''
    induction hp with
    | done => exact (hf _).orderly
    | failed => exact .failed
    | taking _ ih => exact .taking fun slot => ih slot hf
    | giving _ ih => exact .giving (ih hf)

/-- A choice that does not concern scratch variables. -/
lemma lift_bind {y : Except CompileError α} (hf : ∀ a, Planned cx held held' (f a) (q a)) :
    Planned cx held held' ((liftM y : Lower α) >>= f) ((liftM y : Plan α) >>= q) := by
  cases y with
  | ok a => exact hf a
  | error e => exact ⟨rfl, .failed⟩

lemma acquire_bind {f : Nat → Lower β} {q : Nat → Plan β}
    (hf : ∀ slot, Planned cx (slot :: held) held' (f slot) (q slot)) :
    Planned cx held held' (acquire cx >>= f) (.take >>= q) :=
  ⟨bind_congr fun slot => (hf slot).run_eq, .taking fun slot => (hf slot).orderly⟩

lemma release_bind {slot : Nat} {f : Unit → Lower β} {q : Unit → Plan β}
    (hf : Planned cx held held' (f ()) (q ())) :
    Planned cx (slot :: held) held' (release slot >>= f) (.give slot >>= q) :=
  ⟨bind_congr fun _ => hf.run_eq, .giving hf.orderly⟩

end Planned

/-! ### Lowering follows its plans -/

open Plan

variable {cx : LoweringContext}

lemma combine_planned {held held' : List Nat} {op : BinaryOp} {left : Operand} {t : ValueType}
    {right : Lower Operand} {p : Plan Operand} (h : Planned cx held held' right p) :
    Planned cx held held' (combine op left t right) (ofCombine op left t p) :=
  Planned.lift_bind fun _ => h.bind fun _ => .pure

mutual

theorem expression_planned : ∀ (e : Expr) {held : List Nat},
    Planned cx held held (expression cx e) (ofExpression cx e)
  | .number id x, held => by
      rw [expression, ofExpression]
      exact .lift_bind fun _ => .pure
  | .boolean id b, held => by
      rw [expression, ofExpression]
      exact .pure
  | .identifier id name, held => by
      rw [expression, ofExpression]
      exact .lift_bind fun _ => .lift_bind fun _ => .pure
  | .array id elements, held => by
      rw [expression, ofExpression]
      exact .throw
  | .unary id .not a, held => by
      rw [expression, ofExpression]
      exact (expression_planned a).bind fun _ => .pure
  | .unary id .minus a, held => by
      rw [expression, ofExpression]
      refine .lift_bind fun t => ?_
      split
      · exact (expression_planned a).bind fun _ => .pure
      · exact (expression_planned a).bind fun _ => .pure
  | .unary id .plus a, held => by
      rw [expression, ofExpression]
      exact (expression_planned a).bind fun _ => .pure
  | .binary id op a b, held => by
      rw [expression, ofExpression]
      exact (expression_planned a).bind fun _ => .lift_bind fun _ =>
        combine_planned (expression_planned b)
  | .logical id op a b, held => by
      rw [expression, ofExpression]
      exact (expression_planned a).bind fun _ => .acquire_bind fun _ =>
        (expression_planned b).bind fun _ => .release_bind .pure
  | .index id object position, held => by
      rw [expression, ofExpression]
      exact (expression_planned object).bind fun _ =>
        (expression_planned position).bind fun _ => .pure
  | .property id object name, held => by
      rw [expression, ofExpression]
      split
      · exact (expression_planned object).bind fun _ => .pure
      · exact .throw
  | .call id callee arguments, held => by
      rw [expression, ofExpression]
      cases callee.identifier? with
      | none => exact .throw
      | some name =>
          cases hindex : cx.indices.find? name with
          | none =>
              simp only [hindex]
              exact .throw
          | some index =>
              simp only [hindex]
              refine .lift_bind fun signature => ?_
              split
              · exact .throw
              · exact (callArguments_planned arguments signature.parameters).bind fun _ => .pure
  | .assign id op target value, held => by
      rw [expression, ofExpression]
      exact .throw
  | .update id op leading a, held => by
      rw [expression, ofExpression]
      exact .throw

theorem callArguments_planned : ∀ (es : List Expr) (types : List ValueType) {held : List Nat},
    Planned cx held held (callArguments cx es types) (ofArguments cx es types)
  | e :: rest, t :: types, held => by
      rw [callArguments, ofArguments]
      exact (expression_planned e).bind fun _ => (callArguments_planned rest types).bind fun _ =>
        .pure
  | [], types, held => by
      rw [callArguments, ofArguments]
      · exact .pure
      · simp
      · simp
  | _ :: _, [], held => by
      rw [callArguments, ofArguments]
      · exact .pure
      · simp
      · simp

end

lemma assign_planned (op : AssignOp) (target value : Expr) :
    Planned cx [] [] (assign cx op target value) (ofAssign cx op target value) := by
  have hvalue : ∀ {held}, Planned cx held held (expression cx value) (ofExpression cx value) :=
    expression_planned value
  cases target with
  | identifier i name =>
      refine .lift_bind fun slot => .lift_bind fun t => ?_
      cases op.binaryOp? with
      | none => exact hvalue.bind fun _ => .pure
      | some o => exact .lift_bind fun _ => (combine_planned hvalue).bind fun _ => .pure
  | index i object position =>
      refine (expression_planned object).bind fun _ =>
        (expression_planned position).bind fun _ => ?_
      cases op.binaryOp? with
      | none => exact hvalue.bind fun _ => .pure
      | some o =>
          exact .acquire_bind fun _ => .lift_bind fun _ => (combine_planned hvalue).bind fun _ =>
            .release_bind .pure
  | _ => exact .throw

lemma update_planned (op : UpdateOp) (target : Expr) :
    Planned cx [] [] (update cx op target) (ofUpdate cx op target) := by
  cases target with
  | identifier i name =>
      exact .lift_bind fun _ => .lift_bind fun _ => .lift_bind fun _ => .pure
  | index i object position =>
      exact (expression_planned object).bind fun _ =>
        (expression_planned position).bind fun _ => .acquire_bind fun _ =>
          .lift_bind fun _ => .release_bind .pure
  | _ => exact .throw

lemma effect_planned (e : Expr) : Planned cx [] [] (effect cx e) (ofEffect cx e) := by
  cases e with
  | assign _ op target value => exact assign_planned op target value
  | update _ op _ target => exact update_planned op target
  | _ => exact (expression_planned _).bind fun _ => .pure

lemma declarators_planned (ds : List Declarator) :
    Planned cx [] [] (declarators cx ds) (ofDeclarators cx ds) := by
  induction ds with
  | nil => exact .pure
  | cons d rest ih =>
      obtain ⟨target, init⟩ := d
      rw [declarators, ofDeclarators]
      cases target.identifier? with
      | none => exact .throw
      | some name =>
          cases init with
          | none => exact ih
          | some e =>
              exact .lift_bind fun _ => .lift_bind fun _ => (expression_planned e).bind fun _ =>
                ih.bind fun _ => .pure

lemma loopExit_planned (test : Option Expr) :
    Planned cx [] [] (loopExit cx test) (ofExit cx test) := by
  cases test with
  | none => exact .pure
  | some e => exact (expression_planned e).bind fun _ => .pure

lemma loopStep_planned (step : Option Expr) :
    Planned cx [] [] (loopStep cx step) (ofStep cx step) := by
  cases step with
  | none => exact .pure
  | some e => exact effect_planned e

mutual

theorem statement_planned : ∀ st : Statement,
    Planned cx [] [] (statement cx st) (ofStatement cx st)
  | .function name _ _ _ => by
      rw [statement, ofStatement]
      exact .throw
  | .declare _ ds => by
      rw [statement, ofStatement]
      exact declarators_planned ds
  | .expression e => by
      rw [statement, ofStatement]
      exact effect_planned e
  | .ret none => by
      rw [statement, ofStatement]
      exact .pure
  | .ret (some e) => by
      rw [statement, ofStatement]
      exact (expression_planned e).bind fun _ => .pure
  | .conditional test consequent alternate => by
      rw [statement, ofStatement]
      exact (expression_planned test).bind fun _ => (statement_planned consequent).bind fun _ =>
        (alternative_planned alternate).bind fun _ => .pure
  | .whileLoop test body => by
      rw [statement, ofStatement]
      exact (loopExit_planned (some test)).bind fun _ => (statement_planned body).bind fun _ =>
        .pure
  | .forLoop init test update body => by
      rw [statement, ofStatement]
      exact (initial_planned init).bind fun _ => (loopExit_planned test).bind fun _ =>
        (statement_planned body).bind fun _ => (loopStep_planned update).bind fun _ => .pure
  | .block body => by
      rw [statement, ofStatement]
      exact statements_planned body
  | .empty => by
      rw [statement, ofStatement]
      exact .pure

theorem alternative_planned : ∀ st : Option Statement,
    Planned cx [] [] (alternative cx st) (ofAlternative cx st)
  | none => by
      rw [alternative, ofAlternative]
      exact .pure
  | some st => by
      rw [alternative, ofAlternative]
      exact (statement_planned st).bind fun _ => .pure

theorem initial_planned : ∀ st : Option Statement,
    Planned cx [] [] (initial cx st) (ofInitial cx st)
  | none => by
      rw [initial, ofInitial]
      exact .pure
  | some st => by
      rw [initial, ofInitial]
      exact statement_planned st

theorem statements_planned : ∀ sts : List Statement,
    Planned cx [] [] (statements cx sts) (ofStatements cx sts)
  | [] => by
      rw [statements, ofStatements]
      exact .pure
  | st :: rest => by
      rw [statements, ofStatements]
      exact (statement_planned st).bind fun _ => (statements_planned rest).bind fun _ => .pure

end

/-- The body of a function is lowered by its plan. -/
theorem body_planned : Planned cx [] [] (body cx) (ofBody cx) :=
  (statements_planned cx.function.body).bind fun _ => .pure

/-! ### Moments -/

/-- An orderly plan that is started with its scratch variables in order has them in order
at every moment. -/
lemma Orderly.valid {α : Type} {p : Plan α} {held held' : List Nat} {s : Scratch}
    (h : Orderly held p held') (hs : Valid cx held s) :
    ∀ m ∈ p.moments cx held s, Valid cx m.held m.scratch := by
  induction h generalizing s with
  | done | failed =>
      intro m hm
      obtain rfl := List.mem_singleton.mp hm
      exact hs
  | taking rest ih =>
      obtain ⟨slot, s', hacquire, _, hs', _⟩ := acquire_valid hs
      rw [moments, hacquire, List.forall_mem_cons]
      exact ⟨hs, ih slot hs'⟩
  | giving rest ih =>
      rw [moments, List.erase_cons_head, List.forall_mem_cons]
      exact ⟨hs, ih (release_valid hs)⟩

/-- The last moment of a run that succeeds is its end. -/
lemma Orderly.getLast?_moments {α : Type} {p : Plan α} {held held' : List Nat}
    {s s' : Scratch} {a : α} (h : Orderly held p held') (hrun : p.run cx s = .ok (a, s')) :
    (p.moments cx held s).getLast? = some ⟨held', s'⟩ := by
  induction h generalizing s with
  | done =>
      obtain ⟨_, rfl⟩ := lower_pure.mp hrun
      rfl
  | failed => exact (lower_throw hrun).elim
  | taking rest ih =>
      obtain ⟨slot, t, hacquire, hrun⟩ := lower_bind.mp hrun
      rw [moments, hacquire, List.getLast?_cons, ih slot hrun]
      rfl
  | giving rest ih =>
      obtain ⟨_, t, hrelease, hrun⟩ := lower_bind.mp hrun
      rw [moments, hrelease, List.getLast?_cons, List.erase_cons_head, ih hrun]
      rfl

end ArrayScript.Lowering
