import ArrayScript.Proofs.Computation
import ArrayScript.Proofs.Flat.Emitter
import ArrayScript.Proofs.Flat.Layout
import ArrayScript.Proofs.Table

/-!
An emitter keeps its discipline whatever it is given.

* `Emits`: from a given stack a computation emits straight code between two heights, or
  fails for a reason in the program. It is closed under the steps of an emitter.
* `expression_gives`: an expression emits code for one value.
* `Lays`: a computation leaves the stack and the open blocks as they were, and appends code
  of a given shape that leaves the height as it was.
* `loop_lays`, `choice_lays`: loops and choices, whatever is open around them.
* `statement_lays`, `emitFunction_meets`: statements and functions.

No lemma asks anything of the slots, types and indices: what they say only decides which
instructions are emitted, and whether the program is in error.
-/

namespace ArrayScript

/-! ### The functions that are called -/

namespace Expr

mutual

/-- The names that are called inside an expression, in the order in which the calls are
made. -/
def calledNames : Expr → List String
  | number _ _ | boolean _ _ | identifier _ _ => []
  | array _ elements => calledNamesList elements
  | unary _ _ a | update _ _ _ a | property _ a _ => calledNames a
  | binary _ _ a b | logical _ _ a b | assign _ _ a b | index _ a b =>
    calledNames a ++ calledNames b
  | call _ callee arguments => calledNamesList arguments ++ callee.identifier?.toList

/-- The names that are called inside expressions, one after the other. -/
def calledNamesList : List Expr → List String
  | [] => []
  | e :: rest => calledNames e ++ calledNamesList rest

end

/-- The names that are called inside an optional expression. -/
def calledNamesOption (e : Option Expr) : List String :=
  (e.map calledNames).getD []

end Expr

/-- The names that are called inside declarators. -/
def Declarator.calledNames (ds : List Declarator) : List String :=
  ds.flatMap fun d => Expr.calledNamesOption d.init

namespace Statement

mutual

/-- The names that are called inside a statement, in the order in which the calls are
written to the code: the step of a loop comes after its body. -/
def calledNames : Statement → List String
  | function _ _ _ _ => []
  | declare _ ds => Declarator.calledNames ds
  | expression e => e.calledNames
  | ret e => Expr.calledNamesOption e
  | conditional test consequent alternate =>
    test.calledNames ++ (calledNames consequent ++ calledNamesOption alternate)
  | whileLoop test body => test.calledNames ++ calledNames body
  | forLoop init test update body =>
    calledNamesOption init ++ (Expr.calledNamesOption test ++
      (calledNames body ++ Expr.calledNamesOption update))
  | block body => calledNamesList body
  | empty => []

/-- The names that are called inside an optional statement. -/
def calledNamesOption : Option Statement → List String
  | none => []
  | some s => calledNames s

/-- The names that are called inside statements, one after the other. -/
def calledNamesList : List Statement → List String
  | [] => []
  | s :: rest => calledNames s ++ calledNamesList rest

end

end Statement

namespace Flat

variable {table : SignatureTable} {cx : EmitterContext} {α β : Type}

/-! ### Straight code -/

/-- An error of the program and not a fault of the emitter. -/
def IsProgramError (e : EmitError) : Prop :=
  ∃ reason, e = .program reason

/-- Started with the types `stack` on the stack, a computation fails for a reason in the
program, or it appends straight code. The code brings the calls and the height from `c` to
`c'`, and result and stack are then as `post` says. -/
def Emits (table : SignatureTable) (stack : List ValueType) (c : List String × Nat) (x : Emit α)
    (c' : List String × Nat) (post : α → List ValueType → Prop) : Prop :=
  ∀ s : Emitter, s.stack = stack → Meets IsProgramError x s fun a s' =>
    s'.control = s.control ∧ post a s'.stack ∧ ∃ code, s'.marks = s.marks ++ code ∧
      Straight code ∧ heights table code c = some c'

namespace Emits

variable {stack : List ValueType} {c c' c'' : List String × Nat} {x : Emit α} {f : α → Emit β}
  {post mid : α → List ValueType → Prop}

lemma pure {a : α} (h : post a stack) : Emits table stack c (Pure.pure a) c post := by
  rintro s rfl
  exact Meets.pure ⟨rfl, h, [], (List.append_nil _).symm, by simp [Straight], rfl⟩

lemma bind {post : β → List ValueType → Prop} (hx : Emits table stack c x c' mid)
    (hf : ∀ a stack', mid a stack' → Emits table stack' c' (f a) c'' post) :
    Emits table stack c (x >>= f) c'' post := by
  intro s hs
  refine (hx s hs).bind fun a s₁ ⟨hcontrol, hmid, code, hmarks, hstraight, hheights⟩ => ?_
  refine (hf a _ hmid s₁ rfl).weaken fun b s₂ hb => ?_
  obtain ⟨hcontrol', hpost, code', hmarks', hstraight', hheights'⟩ := hb
  exact ⟨hcontrol'.trans hcontrol, hpost, code ++ code', by rw [hmarks', hmarks, List.append_assoc],
    hstraight.append hstraight', heights_append hheights hheights'⟩

lemma weaken (h : Emits table stack c x c' mid) (hpost : ∀ a stack, mid a stack → post a stack) :
    Emits table stack c x c' post :=
  fun s hs => (h s hs).weaken fun _ _ ⟨hcontrol, hmid, hcode⟩ => ⟨hcontrol, hpost _ _ hmid, hcode⟩

/-- What neither writes to the listing nor opens a block. -/
lemma silent (h : ∀ s : Emitter, s.stack = stack → ∃ a s', x s = .ok (a, s') ∧
    s'.marks = s.marks ∧ s'.control = s.control ∧ post a s'.stack) :
    Emits table stack c x c post := by
  intro s hs
  obtain ⟨a, s', hx, hmarks, hcontrol, hpost⟩ := h s hs
  rw [Meets, hx]
  exact ⟨hcontrol, hpost, [], by rw [hmarks, List.append_nil], by simp [Straight], rfl⟩

/-! #### Computations that begin with a single step -/

section Steps

variable {post : β → List ValueType → Prop} {t : ValueType} {m : Mark} {op : Op}

/-- A mark that opens or closes nothing is written, and the height changes with it. -/
lemma emit_bind {f : Unit → Emit β} (hstraight : IsStraight m)
    (hm : markHeight table m c = some c') (h : Emits table stack c' (f ()) c'' post) :
    Emits table stack c (emit m >>= f) c'' post := by
  intro s hs
  refine Meets.modify_bind ((h { s with marks := s.marks ++ [m] } hs).weaken fun b s' hb => ?_)
  obtain ⟨hcontrol, hpost, code, hmarks, hcode, hheights⟩ := hb
  exact ⟨hcontrol, hpost, m :: code, by rw [hmarks, List.append_assoc]; rfl,
    List.forall_mem_cons.mpr ⟨hstraight, hcode⟩, heights_cons hm hheights⟩

/-- The emitter keeps track of one more type. The listing stays. -/
lemma push_bind {f : Unit → Emit β} (h : Emits table (t :: stack) c (f ()) c' post) :
    Emits table stack c (push t >>= f) c' post := by
  have hpush : Emits table stack c (push t) c fun _ stack' => stack' = t :: stack :=
    silent fun s hs => ⟨(), _, rfl, rfl, rfl, congrArg (t :: ·) hs⟩
  exact hpush.bind fun _ _ hstack => hstack ▸ h

/-- A type is on the stack, so it can be taken off. -/
lemma pop_bind {f : ValueType → Emit β} (h : Emits table stack c (f t) c' post) :
    Emits table (t :: stack) c (pop >>= f) c' post := by
  have hpop : Emits table (t :: stack) c pop c fun u stack' => u = t ∧ stack' = stack :=
    silent fun s hs => ⟨t, { s with stack := stack }, by rw [pop, hs], rfl, rfl, rfl, rfl⟩
  exact hpop.bind fun _ _ ⟨hu, hstack⟩ => hu ▸ hstack ▸ h

lemma top_bind {f : ValueType → Emit β} (h : Emits table (t :: stack) c (f t) c' post) :
    Emits table (t :: stack) c (top >>= f) c' post := by
  have htop : Emits table (t :: stack) c top c fun u stack' => u = t ∧ stack' = t :: stack :=
    silent fun s hs => ⟨t, s, by rw [top, hs], rfl, rfl, rfl, hs⟩
  exact htop.bind fun _ _ ⟨hu, hstack⟩ => hu ▸ hstack ▸ h

/-- An analysis gives a reason in the program, or its result is used. -/
lemma attempt_bind {y : Except CompileError α}
    (h : ∀ a, y = .ok a → Emits table stack c (f a) c' post) :
    Emits table stack c (attempt y >>= f) c' post := by
  cases y with
  | ok a => exact h a rfl
  | error e => exact fun _ _ => ⟨e, rfl⟩

lemma attempt_error {e : CompileError} :
    Emits table stack c (attempt (.error e) : Emit β) c' post :=
  fun _ _ => ⟨e, rfl⟩

/-- Which scratch slot is given out does not matter to the listing. -/
lemma acquire_bind {f : Nat → Emit β} (h : ∀ slot, Emits table stack c (f slot) c' post) :
    Emits table stack c (acquire cx >>= f) c' post := by
  have hacquire : Emits table stack c (acquire cx) c fun _ stack' => stack' = stack := by
    refine silent fun s hs => ?_
    rw [acquire]
    split
    · exact ⟨_, _, rfl, rfl, rfl, hs⟩
    · exact ⟨_, _, rfl, rfl, rfl, hs⟩
  exact hacquire.bind fun slot _ hstack => hstack ▸ h slot

lemma release_bind {slot : Nat} {f : Unit → Emit β} (h : Emits table stack c (f ()) c' post) :
    Emits table stack c (release slot >>= f) c' post := by
  have hrelease : Emits table stack c (release slot) c fun _ stack' => stack' = stack :=
    silent fun s hs => ⟨(), _, rfl, rfl, rfl, hs⟩
  exact hrelease.bind fun _ _ hstack => hstack ▸ h

/-- As many types are taken off as were put on. -/
lemma popTimes_bind {f : Unit → Emit β} (taken : List ValueType)
    (h : Emits table stack c (f ()) c' post) :
    Emits table (taken ++ stack) c (popTimes taken.length >>= f) c' post := by
  induction taken with
  | nil => exact h
  | cons t rest ih =>
      rw [List.length_cons, popTimes, bind_assoc]
      exact pop_bind ih

/-- An operation replaces the types of its operands by the type of its result. -/
lemma emitOp_bind {f : Unit → Emit β} (taken : List ValueType)
    (hstraight : IsStraight (.op op)) (hm : markHeight table (.op op) c = some c')
    (h : Emits table (t :: stack) c' (f ()) c'' post) :
    Emits table (taken ++ stack) c (emitOp op taken.length t >>= f) c'' post := by
  rw [emitOp, bind_assoc]
  refine popTimes_bind taken ?_
  rw [bind_assoc]
  exact emit_bind hstraight hm (push_bind h)

end Steps

end Emits

/-! ### Parts of expressions -/

/-- A computation emits code for one value and gives back its type. -/
def Gives (table : SignatureTable) (names : List String) (value : Emit ValueType) : Prop :=
  ∀ (stack : List ValueType) (rest : List String) (h : Nat),
    Emits table stack (names ++ rest, h) value (rest, h + 1) fun t stack' => stack' = t :: stack

/-- Some value stands above what was on the stack. -/
def OneAbove (stack : List ValueType) (_ : α) (stack' : List ValueType) : Prop :=
  ∃ t, stack' = t :: stack

variable {names names' rest : List String} {h : Nat} {stack : List ValueType} {t : ValueType}
  {value object position : Emit ValueType}

/-- An operation at the end of a computation. -/
lemma emitOp_emits {op : Op} {c c' : List String × Nat} (taken : List ValueType)
    (hstraight : IsStraight (.op op)) (hm : markHeight table (.op op) c = some c') :
    Emits table (taken ++ stack) c (emitOp op taken.length t) c' (OneAbove stack) := by
  rw [← bind_pure (emitOp _ _ _)]
  exact .emitOp_bind taken hstraight hm (.pure ⟨t, rfl⟩)

/-- A conversion replaces a word by a word. -/
lemma convert_bind {f : Unit → Emit β} {post : β → List ValueType → Prop} {c : List String × Nat}
    (source target : ValueType)
    (hf : Emits table stack (rest, h + 1) (f ()) c post) :
    Emits table stack (rest, h + 1) (convert source target >>= f) c post := by
  unfold convert
  split
  · rw [bind_assoc]
    exact .emit_bind trivial rfl (.emit_bind trivial rfl hf)
  · exact hf
  · exact .emit_bind trivial rfl hf
  · exact .emit_bind trivial rfl hf
  · exact hf

/-- The value on top is brought to the type that is wanted. -/
lemma coerceTop_bind {f : Unit → Emit β} {post : β → List ValueType → Prop}
    {c : List String × Nat} (target : ValueType)
    (hf : Emits table (target :: stack) (rest, h + 1) (f ()) c post) :
    Emits table (t :: stack) (rest, h + 1) (coerceTop target >>= f) c post := by
  rw [coerceTop, bind_assoc]
  refine .pop_bind ?_
  rw [bind_assoc]
  exact convert_bind t target (.push_bind hf)

lemma compareWithZero_emits :
    Emits table (t :: stack) (rest, h + 1) compareWithZero (rest, h + 1) (OneAbove stack) := by
  rw [compareWithZero]
  refine .emit_bind trivial rfl (.push_bind ?_)
  exact emitOp_emits [.float64, t] trivial rfl

/-- A condition is one word, whatever the type of the value. -/
lemma condition_emits (hv : Gives table names value) :
    Emits table stack (names ++ rest, h) (condition value) (rest, h + 1) (OneAbove stack) := by
  refine (hv stack rest h).bind fun t _ hstack => ?_
  subst hstack
  refine .top_bind ?_
  split
  · exact compareWithZero_emits
  · exact .pure ⟨t, rfl⟩

lemma truth_emits (hv : Gives table names value) :
    Emits table stack (names ++ rest, h) (truth value) (rest, h + 1) (OneAbove stack) := by
  refine (hv stack rest h).bind fun t _ hstack => ?_
  subst hstack
  refine .top_bind ?_
  split
  · exact .pure ⟨_, rfl⟩
  · exact compareWithZero_emits
  · rw [pushWord, bind_assoc]
    refine .emit_bind trivial rfl (.push_bind ?_)
    exact emitOp_emits [.int32, _] trivial rfl

/-- The two values that a logical operator chooses from are both on the stack. -/
lemma choices_emits {op : LogicalOp} (hv : Gives table names value) :
    Emits table stack (names ++ rest, h) (choices op value) (rest, h + 2) fun _ stack' =>
      ∃ t u, stack' = t :: u :: stack := by
  cases op with
  | and =>
      refine (truth_emits hv).bind fun _ _ ⟨t, hstack⟩ => ?_
      subst hstack
      rw [pushWord, ← bind_pure (push _)]
      exact .emit_bind trivial rfl (.push_bind (.pure ⟨_, _, rfl⟩))
  | or =>
      have hright : Emits table (.int32 :: stack) (names ++ rest, h + 1) (truth value)
          (rest, h + 2) (OneAbove (.int32 :: stack)) := truth_emits hv
      rw [choices, pushWord, bind_assoc]
      refine .emit_bind trivial rfl (.push_bind ?_)
      exact hright.weaken fun _ _ ⟨t, hstack⟩ => ⟨t, _, hstack⟩

/-- An address is made of the array and then the position, and is one word. -/
lemma address_bind {f : ValueType → Emit β} {post : β → List ValueType → Prop}
    {c : List String × Nat} (hobject : Gives table names object)
    (hposition : Gives table names' position)
    (hf : ∀ element, Emits table (.int32 :: stack) (rest, h + 1) (f element) c post) :
    Emits table stack (names ++ (names' ++ rest), h) (address object position >>= f) c post := by
  rw [address, bind_assoc]
  refine (hobject stack _ h).bind fun array _ hstack => ?_
  subst hstack
  rw [bind_assoc]
  refine (hposition _ rest (h + 1)).bind fun _ _ hstack => ?_
  subst hstack
  rw [bind_assoc]
  refine coerceTop_bind .int32 ?_
  rw [bind_assoc, pushWord, bind_assoc]
  refine .emit_bind trivial rfl (.push_bind ?_)
  rw [bind_assoc]
  refine .emitOp_bind [.int32, .int32] trivial rfl ?_
  rw [bind_assoc]
  refine .emitOp_bind [.int32, array] trivial rfl ?_
  rw [pure_bind]
  exact hf _

/-- Operations between two words of one type. -/
def IsBinary (op : Op) : Prop :=
  (∃ o, op = .int o) ∨ ∃ o, op = .float o

lemma arithmetic_isBinary {op : BinaryOp} {float : Bool} {i : Op}
    (hi : Lowering.arithmetic op float = .ok i) : IsBinary i := by
  unfold Lowering.arithmetic at hi
  split at hi <;> cases hi <;> first | exact .inl ⟨_, rfl⟩ | exact .inr ⟨_, rfl⟩

lemma comparison_isBinary (op : BinaryOp) (float : Bool) :
    IsBinary (Lowering.comparison op float) := by
  unfold Lowering.comparison
  split <;> first | exact .inl ⟨_, rfl⟩ | exact .inr ⟨_, rfl⟩

/-- Whatever operator it is for, the instruction is one between two words of one type. -/
lemma instruction_isBinary {op : BinaryOp} {float : Bool} {i : Op} {result : ValueType}
    (hi : Lowering.instruction op float = .ok (i, result)) : IsBinary i := by
  rw [Lowering.instruction] at hi
  split at hi
  · cases hi
    exact comparison_isBinary op float
  · obtain ⟨j, hj, hi⟩ := bind_eq_ok.mp hi
    cases hi
    exact arithmetic_isBinary hj

/-- Such an operation takes the two words on top and puts one. -/
lemma emitBinary_bind {f : Unit → Emit β} {post : β → List ValueType → Prop} {i : Op}
    {u v : ValueType} {c : List String × Nat} (hi : IsBinary i)
    (hf : Emits table (t :: stack) (rest, h + 1) (f ()) c post) :
    Emits table (u :: v :: stack) (rest, h + 2) (emitOp i 2 t >>= f) c post := by
  rcases hi with ⟨o, rfl⟩ | ⟨o, rfl⟩ <;> exact .emitOp_bind [u, v] trivial rfl hf

/-- The left operand is on the stack already. The right one comes on top, and one value
remains. -/
lemma operator_emits {op : BinaryOp} {right : Expr} (hv : Gives table names value) :
    Emits table (t :: stack) (names ++ rest, h + 1) (operator cx op right value) (rest, h + 1)
      (OneAbove stack) := by
  rw [operator]
  refine .top_bind (.attempt_bind fun rightType _ =>
    .attempt_bind fun (instruction, result) hchosen => ?_)
  refine coerceTop_bind _ ?_
  refine (hv _ rest (h + 1)).bind fun _ _ hstack => ?_
  subst hstack
  refine coerceTop_bind _ ?_
  rw [← bind_pure (emitOp _ _ _)]
  exact emitBinary_bind (instruction_isBinary hchosen) (.pure ⟨_, rfl⟩)

/-! ### Expressions -/

/-- What every expression ends with: its type is looked up on the stack. -/
lemma top_gives : Emits table (t :: stack) (rest, h) top (rest, h) fun u stack' =>
    stack' = u :: stack := by
  rw [← bind_pure top]
  exact .top_bind (.pure rfl)

mutual

/-- An expression gives one value. -/
theorem expression_gives : ∀ e : Expr, Gives cx.table e.calledNames (expression cx e)
  | .number id x => by
      intro stack rest h
      rw [expression]
      refine .attempt_bind fun t _ => ?_
      refine .emit_bind ?_ ?_ (.push_bind top_gives)
      · split <;> trivial
      · split <;> rfl
  | .boolean id b => by
      intro stack rest h
      rw [expression]
      exact .emit_bind trivial rfl (.push_bind top_gives)
  | .identifier id name => by
      intro stack rest h
      rw [expression]
      exact .attempt_bind fun slot _ => .attempt_bind fun t _ =>
        .emit_bind trivial rfl (.push_bind top_gives)
  | .unary id .not a => by
      intro stack rest h
      rw [expression]
      refine (condition_emits (expression_gives a)).bind fun _ _ ⟨t, hstack⟩ => ?_
      subst hstack
      exact .emitOp_bind [t] trivial rfl top_gives
  | .unary id .minus a => by
      intro stack rest h
      rw [expression]
      refine .attempt_bind fun t _ => ?_
      split
      · refine (expression_gives a stack rest h).bind fun u _ hstack => ?_
        subst hstack
        exact .emitOp_bind [u] trivial rfl top_gives
      · rw [pushWord, bind_assoc]
        refine .emit_bind trivial rfl (.push_bind ?_)
        refine (expression_gives a _ rest (h + 1)).bind fun u _ hstack => ?_
        subst hstack
        exact coerceTop_bind .int32 (.emitOp_bind [.int32, .int32] trivial rfl top_gives)
  | .unary id .plus a => by
      intro stack rest h
      rw [expression]
      refine (expression_gives a stack rest h).bind fun u _ hstack => ?_
      subst hstack
      exact coerceTop_bind _ top_gives
  | .binary id op a b => by
      intro stack rest h
      rw [expression, Expr.calledNames, List.append_assoc]
      refine (expression_gives a stack _ h).bind fun t _ hstack => ?_
      subst hstack
      refine (operator_emits (expression_gives b)).bind fun _ _ ⟨t, hstack⟩ => ?_
      subst hstack
      exact top_gives
  | .logical id op a b => by
      intro stack rest h
      rw [expression, Expr.calledNames, List.append_assoc]
      refine (truth_emits (expression_gives a)).bind fun _ _ ⟨t, hstack⟩ => ?_
      subst hstack
      -- the truth of the left operand waits in the scratch variable
      refine .acquire_bind fun scratch => .emit_bind trivial rfl (.pop_bind ?_)
      refine (choices_emits (expression_gives b)).bind fun _ _ ⟨u, v, hstack⟩ => ?_
      subst hstack
      refine .emit_bind trivial rfl (.push_bind (.release_bind ?_))
      exact .emitOp_bind [.boolean, u, v] trivial rfl top_gives
  | .index id object position => by
      intro stack rest h
      rw [expression, Expr.calledNames, List.append_assoc]
      refine address_bind (expression_gives object) (expression_gives position) fun element => ?_
      exact .emitOp_bind [.int32] trivial rfl top_gives
  | .property id object name => by
      intro stack rest h
      rw [expression]
      split
      · refine (expression_gives object stack rest h).bind fun array _ hstack => ?_
        subst hstack
        rw [pushWord, bind_assoc]
        refine .emit_bind trivial rfl (.push_bind ?_)
        exact .emitOp_bind [.int32, array] trivial rfl
          (.emitOp_bind [.int32] trivial rfl top_gives)
      · exact .attempt_error
  | .call id callee arguments => by
      intro stack rest h
      rw [expression]
      cases hname : callee.identifier? with
      | none => exact .attempt_error
      | some name =>
          dsimp only
          split
          · exact .attempt_error
          refine .attempt_bind fun signature hsignature => ?_
          rename_i index _
          split
          · exact .attempt_error
          rename_i harity
          -- the operands that the call takes are those of its arguments
          have hlength : arguments.length = signature.parameters.reverse.length := by
            rw [List.length_reverse]
            exact (not_not.mp harity).symm
          rw [Expr.calledNames, hname, List.append_assoc]
          refine (callArguments_emits arguments signature.parameters stack _ h
            (not_not.mp harity).symm).bind fun _ _ hstack => ?_
          subst hstack
          rw [hlength]
          refine .emitOp_bind _ trivial ?_ top_gives
          exact markHeight_call (SignatureTable.require_eq_ok hsignature) List.length_reverse rest h
  | .array id elements => by
      intro stack rest h
      rw [expression]
      exact .attempt_error
  | .assign _ _ _ _ | .update _ _ _ _ => by
      intro stack rest h
      rw [expression]
      exact .attempt_error

/-- The arguments of a call are on the stack with the types of the parameters, the last on
top. -/
theorem callArguments_emits : ∀ (es : List Expr) (types : List ValueType)
    (stack : List ValueType) (rest : List String) (h : Nat), es.length = types.length →
    Emits cx.table stack (Expr.calledNamesList es ++ rest, h) (callArguments cx es types)
      (rest, h + es.length) fun _ stack' => stack' = types.reverse ++ stack
  | [], _, stack, rest, h, hlength => by
      obtain rfl := List.length_eq_zero_iff.mp hlength.symm
      exact .pure rfl
  | e :: es, t :: types, stack, rest, h, hlength => by
      rw [callArguments, Expr.calledNamesList, List.append_assoc]
      refine (expression_gives e stack _ h).bind fun u _ hstack => ?_
      subst hstack
      refine coerceTop_bind t ?_
      have hrest := callArguments_emits es types (t :: stack) rest (h + 1) (Nat.succ.inj hlength)
      rw [List.length_cons, List.reverse_cons, List.append_assoc, Nat.add_comm es.length,
        ← Nat.add_assoc]
      exact hrest

end

/-! ### Assignments -/

/-- What is stored to a variable is one value, with or without an operator. -/
lemma variableValue_emits {slot : Nat} {op : Option BinaryOp} {e : Expr} :
    Emits cx.table stack (e.calledNames ++ rest, h) (variableValue cx slot t op e) (rest, h + 1)
      (OneAbove stack) := by
  cases op with
  | none =>
      refine (expression_gives e stack rest h).bind fun u _ hstack => ?_
      exact .pure ⟨u, hstack⟩
  | some op =>
      rw [variableValue]
      exact .emit_bind trivial rfl (.push_bind (operator_emits (expression_gives e)))

/-- What is stored to an element is one value above its address. -/
lemma elementValue_emits {element : ValueType} {op : Option BinaryOp} {e : Expr} :
    Emits cx.table (t :: stack) (e.calledNames ++ rest, h + 1) (elementValue cx element op e)
      (rest, h + 2) (OneAbove (t :: stack)) := by
  cases op with
  | none =>
      refine (expression_gives e _ rest (h + 1)).bind fun u _ hstack => ?_
      exact .pure ⟨u, hstack⟩
  | some op =>
      rw [elementValue]
      refine .acquire_bind fun scratch => .emit_bind trivial rfl ?_
      refine .emit_bind trivial rfl (.push_bind ?_)
      refine .emitOp_bind [.int32] trivial rfl ?_
      refine (operator_emits (expression_gives e)).bind fun _ _ ⟨u, hstack⟩ => ?_
      subst hstack
      rw [← bind_pure (release _)]
      exact .release_bind (.pure ⟨u, rfl⟩)

/-- The last step of what stores to a variable. -/
lemma setVariable_emits {slot : Nat} :
    Emits table (t :: stack) (rest, h + 1)
      (do emit (.op (.localSet slot)); let _ ← pop) (rest, h) fun _ stack' => stack' = stack :=
  .emit_bind trivial rfl (.pop_bind (.pure rfl))

/-- A store takes the value and the address. -/
lemma storeElement_emits {element u : ValueType} :
    Emits table (t :: u :: stack) (rest, h + 2) (storeElement element) (rest, h) fun _ stack' =>
      stack' = stack := by
  rw [storeElement, ← bind_pure (emit _)]
  exact .pop_bind (.pop_bind (.emit_bind trivial rfl (.pure rfl)))

/-- An assignment leaves the stack as it was, whatever its target. -/
lemma assign_emits {op : AssignOp} {target e : Expr} :
    Emits cx.table stack (target.calledNames ++ e.calledNames ++ rest, h)
      (assign cx op target e) (rest, h) fun _ stack' => stack' = stack := by
  cases target with
  | identifier id name =>
      rw [assign, Expr.calledNames, List.nil_append]
      refine .attempt_bind fun slot _ => .attempt_bind fun t _ => ?_
      refine variableValue_emits.bind fun _ _ ⟨u, hstack⟩ => ?_
      subst hstack
      exact coerceTop_bind t setVariable_emits
  | index id object position =>
      rw [assign, Expr.calledNames, List.append_assoc, List.append_assoc]
      refine address_bind (expression_gives object) (expression_gives position) fun element => ?_
      refine elementValue_emits.bind fun _ _ ⟨u, hstack⟩ => ?_
      subst hstack
      exact coerceTop_bind element storeElement_emits
  | _ => exact .attempt_error

lemma pushOne_bind {f : Unit → Emit β} {post : β → List ValueType → Prop} {c : List String × Nat}
    (hf : Emits table (t :: stack) (rest, h + 1) (f ()) c post) :
    Emits table stack (rest, h) (pushOne t >>= f) c post := by
  rw [pushOne, Lowering.one, bind_assoc]
  refine .emit_bind ?_ ?_ (.push_bind hf)
  · split <;> trivial
  · split <;> rfl

/-- So does an increment or decrement. -/
lemma update_emits {op : UpdateOp} {target : Expr} :
    Emits cx.table stack (target.calledNames ++ rest, h) (update cx op target) (rest, h)
      fun _ stack' => stack' = stack := by
  cases target with
  | identifier id name =>
      rw [update]
      refine .attempt_bind fun slot _ => .attempt_bind fun t _ => ?_
      refine .emit_bind trivial rfl (.push_bind (pushOne_bind (.attempt_bind fun step hstep => ?_)))
      exact emitBinary_bind (arithmetic_isBinary hstep) setVariable_emits
  | index id object position =>
      rw [update, Expr.calledNames, List.append_assoc]
      refine address_bind (expression_gives object) (expression_gives position) fun element => ?_
      refine .acquire_bind fun scratch => .emit_bind trivial rfl ?_
      refine .emit_bind trivial rfl (.push_bind (.emitOp_bind [.int32] trivial rfl ?_))
      refine pushOne_bind (.attempt_bind fun step hstep => ?_)
      exact emitBinary_bind (arithmetic_isBinary hstep) (.release_bind storeElement_emits)
  | _ => exact .attempt_error

/-- An expression that is emitted for what it does leaves the stack as it was. -/
lemma effect_emits (e : Expr) :
    Emits cx.table stack (e.calledNames ++ rest, h) (effect cx e) (rest, h) fun _ stack' =>
      stack' = stack := by
  have hdropped : Emits cx.table stack (e.calledNames ++ rest, h)
      (do let _ ← expression cx e; emit (.op .drop); let _ ← pop) (rest, h) fun _ stack' =>
      stack' = stack := by
    refine (expression_gives e stack rest h).bind fun t _ hstack => ?_
    subst hstack
    exact .emit_bind trivial rfl (.pop_bind (.pure rfl))
  cases e with
  | assign id op target value => exact assign_emits
  | update id op leading target => exact update_emits
  | _ => exact hdropped

/-! ### Statements -/

/-- Between two states the stack is the same and so are the open blocks, and code of the
given shape was appended which leaves the height as it was. -/
def Appends (table : SignatureTable) (names : List String)
    (shape : List Mark → List Mark → Prop) (s s' : Emitter) : Prop :=
  s'.stack = s.stack ∧ s'.control = s.control ∧ ∃ code, s'.marks = s.marks ++ code ∧
    shape s.marks code ∧ ∀ rest h, heights table code (names ++ rest, h) = some (rest, h)

/-- A computation fails for a reason in the program, or appends code of the given shape. -/
def Lays (table : SignatureTable) (names : List String) (shape : List Mark → List Mark → Prop)
    (x : Emit Unit) : Prop :=
  ∀ s : Emitter, Meets IsProgramError x s fun _ s' => Appends table names shape s s'

section Lays

variable {shape shape' : List Mark → List Mark → Prop} {x y : Emit Unit} {s s' s'' : Emitter}

/-- What was appended in two steps was appended. -/
lemma Appends.trans (h : Appends table names shape s s') (h' : Appends table names' shape' s' s'') :
    Appends table (names ++ names') (Followed shape shape') s s'' := by
  obtain ⟨hstack, hcontrol, code, hmarks, hshape, hheights⟩ := h
  obtain ⟨hstack', hcontrol', code', hmarks', hshape', hheights'⟩ := h'
  refine ⟨hstack'.trans hstack, hcontrol'.trans hcontrol, code ++ code', ?_,
    ⟨code, code', rfl, hshape, hmarks ▸ hshape'⟩, fun rest h => ?_⟩
  · rw [hmarks', hmarks, List.append_assoc]
  · rw [List.append_assoc]
    exact heights_append (hheights _ h) (hheights' rest h)

/-- Code of one shape, followed by code of another. -/
lemma Lays.bind {f : Unit → Emit Unit} (hx : Lays table names shape x)
    (hy : Lays table names' shape' (f ())) :
    Lays table (names ++ names') (Followed shape shape') (x >>= f) :=
  fun s => (hx s).bind fun _ _ h => (hy _).weaken fun _ _ h' => h.trans h'

lemma Lays.done (h : ∀ before, shape before []) : Lays table [] shape (return) :=
  fun s => Meets.pure ⟨rfl, rfl, [], (List.append_nil _).symm, h s.marks, fun _ _ => rfl⟩

/-- A program that is in error has no code, of any shape. -/
lemma Lays.fails {e : CompileError} : Lays table names shape (attempt (.error e)) :=
  fun _ => ⟨e, rfl⟩

/-- Straight code that leaves the stack as it was. -/
lemma Emits.lays (h : ∀ stack, Emits table stack (names ++ [], 0) x ([], 0) fun _ stack' =>
    stack' = stack) : Lays table names (fun _ => Straight) x := by
  intro s
  refine (h s.stack s rfl).weaken
    fun _ s' ⟨hcontrol, hstack, code, hmarks, hstraight, hheights⟩ => ?_
  refine ⟨hstack, hcontrol, code, hmarks, hstraight, fun rest h => ?_⟩
  rw [List.append_nil] at hheights
  simpa using heights_above rest h hheights

/-- A statement that leaves the stack as it was passes the check that it does. -/
lemma Lays.level {kind : String} (hx : Lays table names shape x) :
    Lays table names shape (level kind x) := by
  intro s
  show Meets IsProgramError (x >>= fun _ => get >>= fun s' =>
    if s'.stack.length ≠ s.stack.length then
      throw (.internal (.uneven kind s'.stack.length s.stack.length))
    else pure ()) s _
  refine (hx s).bind fun _ s' h => ?_
  show Meets IsProgramError (if s'.stack.length ≠ s.stack.length then
    throw (.internal (.uneven kind s'.stack.length s.stack.length)) else pure ()) s' _
  rw [if_neg (not_not.mpr (congrArg List.length h.1))]
  exact Meets.pure h

end Lays

/-- So do declarators, those without an initial value too. -/
lemma declarators_emits (ds : List Declarator) :
    Emits cx.table stack (Declarator.calledNames ds ++ rest, h) (declarators cx ds) (rest, h)
      fun _ stack' => stack' = stack := by
  induction ds with
  | nil => exact .pure rfl
  | cons d ds ih =>
      obtain ⟨target, init⟩ := d
      rw [declarators]
      dsimp only
      split
      · exact .attempt_error
      · exact ih
      · rename_i name init _
        rw [Declarator.calledNames, List.flatMap_cons, List.append_assoc]
        refine .attempt_bind fun slot _ => .attempt_bind fun t _ => ?_
        refine (expression_gives init stack _ h).bind fun u _ hstack => ?_
        subst hstack
        exact coerceTop_bind t (.emit_bind trivial rfl (.pop_bind ih))

/-- What stands before a return: a value of any type. -/
lemma ret_emits : Emits table (t :: stack) (rest, h + 1) (do emit (.op .ret); let _ ← pop)
    (rest, h) fun _ stack' => stack' = stack :=
  .emit_bind trivial rfl (.pop_bind (.pure rfl))

/-- The label of an open block is found at its depth. -/
lemma depthOf_bind {s : Emitter} {label : String} {depth : Nat} {f : Nat → Emit β}
    {post : β → Emitter → Prop} (hdepth : s.control.idxOf? (some label) = some depth)
    (h : Meets IsProgramError (f depth) s post) :
    Meets IsProgramError (depthOf label >>= f) s post := by
  have hfound : Meets IsProgramError (depthOf label) s fun d s' => d = depth ∧ s' = s := by
    rw [Meets, depthOf, hdepth]
    exact ⟨rfl, rfl⟩
  refine hfound.bind fun d s' hd => ?_
  obtain ⟨rfl, rfl⟩ := hd
  exact h

lemma pop_meets {s : Emitter} {post : ValueType → Emitter → Prop} (hstack : s.stack = t :: stack)
    (h : post t { s with stack := stack }) : Meets IsProgramError pop s post := by
  rw [Meets, pop, hstack]
  exact h

/-- Started inside a block, the way out of a loop leads to that block. -/
lemma loopExit_meets {s : Emitter} {label : String} {control : List (Option String)}
    (hcontrol : s.control = some label :: control) (test : Option Expr) :
    Meets IsProgramError (loopExit cx label test) s fun _ s' =>
      Appends cx.table (Expr.calledNamesOption test) (fun before exit => ∀ block opened,
        openBlocks before = block :: opened → LaidExit block before test exit) s s' := by
  cases test with
  | none =>
      exact Meets.pure ⟨rfl, rfl, [], (List.append_nil _).symm, fun _ _ _ => rfl, fun _ _ => rfl⟩
  | some test =>
      have hcondition : Emits cx.table s.stack (test.calledNames ++ [], 0)
          (do condition (expression cx test); emitOp .i32Eqz 1 .boolean) ([], 1)
          (OneAbove s.stack) :=
        (condition_emits (expression_gives test)).bind fun _ _ ⟨t, hstack⟩ =>
          hstack ▸ emitOp_emits [t] trivial rfl
      rw [loopExit, ← bind_assoc]
      refine (hcondition s rfl).bind fun _ s' hs' => ?_
      obtain ⟨hcontrol', ⟨t, hstack⟩, code, hmarks, hstraight, hheights⟩ := hs'
      -- the block of the loop is the innermost one that is open
      have hdepth : s'.control.idxOf? (some label) = some 0 := by
        rw [hcontrol', hcontrol, List.idxOf?_cons, if_pos (beq_self_eq_true _)]
      refine depthOf_bind hdepth (Meets.modify_bind ?_)
      have hpop : Meets IsProgramError pop { s' with marks := s'.marks ++ [.op (.brIf 0)] }
          fun _ s'' => s'' = { s' with marks := s'.marks ++ [.op (.brIf 0)], stack := s.stack } :=
        pop_meets hstack rfl
      refine hpop.bind fun _ s'' hs'' => Meets.pure ?_
      subst hs''
      refine ⟨rfl, hcontrol', code ++ [.op (.brIf 0)], ?_, ?_, ?_⟩
      · rw [hmarks, List.append_assoc]
      · intro block opened hblocks
        refine ⟨code, rfl, hstraight, ?_⟩
        rw [branchTarget, openBlocks_append hstraight.nested, hblocks]
        rfl
      · intro rest h
        exact heights_append (heights_value hheights rest h) (heights_cons rfl rfl)

/-! ### Loops -/

/-- The step of a loop is straight code, or nothing. -/
lemma loopStep_lays (step : Option Expr) :
    Lays cx.table (Expr.calledNamesOption step) (LaidStep step) (loopStep cx step) := by
  cases step with
  | none => exact .done fun _ => rfl
  | some e => exact Emits.lays fun stack => effect_emits e

/-- Two labels that are given out one after the other are different. -/
lemma label_ne (n : Nat) : "label_" ++ toString n ≠ "label_" ++ toString (n + 1) := by
  intro h
  rw [String.append_right_inj, Nat.toString_eq_ofList_toDigits, Nat.toString_eq_ofList_toDigits,
    String.ofList_inj] at h
  have hvalue := congrArg (Nat.ofDigitChars 10 · 0) h
  simp only [Nat.ofDigitChars_ten_toDigits] at hvalue
  omega

/-- Inside a loop and its block, the label of the block is found first and that of the loop
behind it. -/
lemma idxOf?_labels (n : Nat) (control : List (Option String)) :
    (some ("label_" ++ toString n) :: some ("label_" ++ toString (n + 1)) :: control).idxOf?
      (some ("label_" ++ toString (n + 1))) = some 1 := by
  have hne : (some ("label_" ++ toString n) == some ("label_" ++ toString (n + 1))) = false :=
    beq_eq_false_iff_ne.mpr fun h => label_ne n (Option.some.inj h)
  rw [List.idxOf?_cons, hne, List.idxOf?_cons]
  simp

/-- Code inside a loop and its block, with the branch back behind it, is a loop. -/
lemma laidLoop_of_followed {before code : List Mark} {test : Option Expr}
    {shape : List Mark → List Mark → Prop}
    (hnested : ∀ before code, shape before code → Nested code)
    (h : Followed (fun before exit => ∀ block opened, openBlocks before = block :: opened →
      LaidExit block before test exit) shape (before ++ [.loop, .block]) code) :
    LaidLoop test shape before
      (.loop :: .block :: (code ++ [.op (.br 1), .endMark, .endMark])) := by
  obtain ⟨exit, inside, rfl, hexit, hinside⟩ := h
  have hexit' := hexit _ _ (openBlocks_loop before)
  refine ⟨exit, inside, by rw [List.append_assoc], hexit', ?_, ?_⟩
  · simpa using hinside
  · have hcode : Nested (exit ++ inside) := hexit'.nested.append (hnested _ _ hinside)
    have hopen : openBlocks (before ++ .loop :: .block :: (exit ++ inside))
        = (before.length + 1) :: before.length :: openBlocks before :=
      calc openBlocks (before ++ .loop :: .block :: (exit ++ inside))
          = openBlocks (before ++ [.loop, .block] ++ (exit ++ inside)) := by
            rw [List.append_assoc]
            rfl
        _ = openBlocks (before ++ [.loop, .block]) := openBlocks_append hcode
        _ = (before.length + 1) :: before.length :: openBlocks before := openBlocks_loop before
    rw [branchTarget, hopen]
    rfl

/-- Whatever blocks are open around it, a loop is laid out as it should be. -/
lemma loop_lays {x : Emit Unit} {shape : List Mark → List Mark → Prop}
    (hnested : ∀ before code, shape before code → Nested code)
    (hx : Lays cx.table names shape x) (test step : Option Expr) :
    Lays cx.table (Expr.calledNamesOption test ++ (names ++ Expr.calledNamesOption step))
      (LaidLoop test (Followed shape (LaidStep step)))
      (loop cx test x step) := by
  intro s
  let finish := "label_" ++ toString s.nextLabel
  let begin' := "label_" ++ toString (s.nextLabel + 1)
  show Meets IsProgramError (do
      loopExit cx finish test
      x
      loopStep cx step
      emit (.op (.br (← depthOf begin')))
      closeBlock
      closeBlock)
    { s with
      marks := s.marks ++ [.loop] ++ [.block]
      control := some finish :: some begin' :: s.control
      nextLabel := s.nextLabel + 1 + 1 } _
  refine (loopExit_meets rfl test).bind fun _ s₁ h₁ => ?_
  refine (hx s₁).bind fun _ s₂ h₂ => ?_
  refine (loopStep_lays step s₂).bind fun _ s₃ h₃ => ?_
  obtain ⟨hstack, hcontrol, code, hmarks, hshape, hheights⟩ := h₁.trans (h₂.trans h₃)
  -- inside the loop the label of the block comes first, and that of the loop second
  have hdepth : s₃.control.idxOf? (some begin') = some 1 := by
    rw [hcontrol]
    exact idxOf?_labels s.nextLabel s.control
  refine depthOf_bind hdepth ?_
  show Appends cx.table (Expr.calledNamesOption test ++ (names ++ Expr.calledNamesOption step))
    (LaidLoop test (Followed shape (LaidStep step))) s { s₃ with
    marks := s₃.marks ++ [.op (.br 1)] ++ [.endMark] ++ [.endMark]
    control := s₃.control.tail.tail }
  refine ⟨hstack, ?_, .loop :: .block :: (code ++ [.op (.br 1), .endMark, .endMark]), ?_, ?_,
    fun rest h => ?_⟩
  · rw [hcontrol]
    rfl
  · rw [hmarks]
    simp
  · refine laidLoop_of_followed (fun _ _ hround => ?_) (by simpa using hshape)
    exact hround.nested hnested fun _ _ hstep => hstep.nested
  · have hcode := hheights rest h
    exact heights_cons rfl (heights_cons rfl (heights_append hcode rfl))

/-! ### Choices -/

/-- A test, and what is chosen by it. -/
lemma choice_lays {x y : Emit Unit} {shape shape' : List Mark → List Mark → Prop} {e : Expr}
    (hx : Lays cx.table names shape x) (hy : Lays cx.table names' shape' y) :
    Lays cx.table (e.calledNames ++ (names ++ names')) (LaidChoice shape shape')
      (do
        condition (expression cx e)
        let _ ← pop
        openBlock .ifMark none
        x
        y
        closeBlock) := by
  intro s
  have hcondition : Emits cx.table s.stack (e.calledNames ++ [], 0)
      (condition (expression cx e)) ([], 1) (OneAbove s.stack) :=
    condition_emits (expression_gives e)
  refine (hcondition s rfl).bind fun _ s₁ h₁ => ?_
  obtain ⟨hcontrol₁, ⟨t, hstack₁⟩, test, hmarks₁, hstraight, hheights₁⟩ := h₁
  -- the choice takes the condition off before its branches begin
  have hpop : Meets IsProgramError pop s₁ fun _ s' => s' = { s₁ with stack := s.stack } :=
    pop_meets hstack₁ rfl
  refine hpop.bind fun _ s₂ hs₂ => ?_
  subst hs₂
  show Meets IsProgramError (do x; y; closeBlock)
    { s₁ with
      marks := s₁.marks ++ [.ifMark]
      stack := s.stack
      control := none :: s₁.control } _
  refine (hx _).bind fun _ s₃ h₃ => (hy s₃).bind fun _ s₄ h₄ => ?_
  obtain ⟨hstack, hcontrol, code, hmarks, ⟨c, d, rfl, hc, hd⟩, hheights⟩ := h₃.trans h₄
  show Appends cx.table (e.calledNames ++ (names ++ names')) (LaidChoice shape shape') s
    { s₄ with
      marks := s₄.marks ++ [.endMark]
      control := s₄.control.tail }
  refine ⟨hstack, ?_, test ++ .ifMark :: (c ++ (d ++ [.endMark])), ?_,
    ⟨test, c, d, rfl, hstraight, ?_, ?_⟩, fun rest h => ?_⟩
  · rw [hcontrol]
    exact hcontrol₁
  · rw [hmarks, hmarks₁]
    simp
  · simpa [hmarks₁] using hc
  · simpa [hmarks₁] using hd
  · have htest := heights_value hheights₁ ((names ++ names') ++ rest) h
    rw [List.append_assoc, ← List.append_assoc c]
    exact heights_append htest (heights_cons rfl (heights_append (hheights rest h) rfl))

/-- The second branch of a choice, behind its mark. -/
lemma elseMark_lays {x : Emit Unit} {shape : List Mark → List Mark → Prop}
    (hx : Lays table names shape x) :
    Lays table names (fun before code => ∃ inside, code = .elseMark :: inside ∧
      shape (before ++ [.elseMark]) inside) (do emit .elseMark; x) := by
  intro s
  refine Meets.modify_bind ((hx { s with marks := s.marks ++ [.elseMark] }).weaken fun _ s' h => ?_)
  obtain ⟨hstack, hcontrol, code, hmarks, hshape, hheights⟩ := h
  refine ⟨hstack, hcontrol, .elseMark :: code, ?_, ⟨code, rfl, hshape⟩, fun rest h => ?_⟩
  · rw [hmarks, List.append_assoc]
    rfl
  · exact heights_cons rfl (hheights rest h)

/-! ### Whole statements -/

mutual

/-- A statement is laid out as it should be, and leaves the height as it was. -/
theorem statement_lays : ∀ s : Statement, Lays cx.table s.calledNames (Laid s) (statement cx s)
  | .function _ _ _ _ => by
      rw [statement]
      exact Lays.level Lays.fails
  | .declare _ ds => by
      rw [statement, Statement.calledNames, Laid]
      exact Lays.level (Emits.lays fun stack => declarators_emits ds)
  | .expression e => by
      rw [statement, Statement.calledNames, Laid]
      exact Lays.level (Emits.lays fun stack => effect_emits e)
  | .ret none => by
      rw [statement, Statement.calledNames, Laid]
      refine Lays.level (Emits.lays fun stack => ?_)
      rw [pushZero, Lowering.zero, bind_assoc]
      refine .emit_bind (by split <;> trivial) (by split <;> rfl) (.push_bind ret_emits)
  | .ret (some e) => by
      rw [statement, Statement.calledNames, Laid]
      refine Lays.level (Emits.lays fun stack => ?_)
      refine (expression_gives e stack [] 0).bind fun t _ hstack => ?_
      subst hstack
      exact coerceTop_bind _ ret_emits
  | .conditional test consequent alternate => by
      rw [statement, Statement.calledNames, Laid]
      exact Lays.level (choice_lays (statement_lays consequent) (alternative_lays alternate))
  | .whileLoop test body => by
      rw [statement, Statement.calledNames, Laid, ← List.append_nil body.calledNames]
      exact Lays.level (loop_lays (fun _ _ h => h.nested) (statement_lays body) (some test) none)
  | .forLoop init test update body => by
      rw [statement, Statement.calledNames, Laid]
      exact Lays.level ((initial_lays init).bind
        (loop_lays (fun _ _ h => h.nested) (statement_lays body) test update))
  | .block body => by
      rw [statement, Statement.calledNames, Laid]
      exact Lays.level (statements_lays body)
  | .empty => by
      rw [statement, Statement.calledNames, Laid]
      exact Lays.level (Lays.done fun _ => rfl)

theorem alternative_lays : ∀ s : Option Statement,
    Lays cx.table (Statement.calledNamesOption s) (LaidElse s) (alternative cx s)
  | none => by
      rw [alternative, Statement.calledNamesOption, LaidElse]
      exact Lays.done fun _ => rfl
  | some s => by
      rw [alternative, Statement.calledNamesOption, LaidElse]
      exact elseMark_lays (statement_lays s)

theorem initial_lays : ∀ s : Option Statement,
    Lays cx.table (Statement.calledNamesOption s) (LaidFirst s) (initial cx s)
  | none => by
      rw [initial, Statement.calledNamesOption, LaidFirst]
      exact Lays.done fun _ => rfl
  | some s => by
      rw [initial, Statement.calledNamesOption, LaidFirst]
      exact statement_lays s

theorem statements_lays : ∀ body : List Statement,
    Lays cx.table (Statement.calledNamesList body) (LaidList body) (statements cx body)
  | [] => by
      rw [statements, Statement.calledNamesList, LaidList]
      exact Lays.done fun _ => rfl
  | s :: rest => by
      rw [statements, Statement.calledNamesList, LaidList]
      exact (statement_lays s).bind (statements_lays rest)

end

/-! ### Functions -/

/-- A function is emitted unless the program is in error; what is emitted is laid out as the
body of the function, with a value behind it and one last end. -/
lemma emitFunction_meets (cx : EmitterContext) :
    Meets IsProgramError (emitFunction cx) {} fun f _ => ∃ code,
      f.marks = code ++ [.op (Lowering.zero cx.signature.returnType), .endMark] ∧
      LaidList cx.function.body [] code ∧ ∀ names h, heights cx.table code
        (Statement.calledNamesList cx.function.body ++ names, h) = some (names, h) := by
  refine (statements_lays cx.function.body {}).bind fun _ s hs => ?_
  obtain ⟨hstack, hcontrol, code, hmarks, hlaid, hheights⟩ := hs
  show Meets IsProgramError (finish cx) { s with
    marks := s.marks ++ [.op (Lowering.zero cx.signature.returnType)] ++ [.endMark]
    stack := s.stack } _
  rw [Meets, finish, if_neg (by simp [hstack, hcontrol])]
  refine ⟨code, ?_, hlaid, hheights⟩
  rw [hmarks, List.append_assoc]
  rfl

lemma generate_eq (cx : EmitterContext) :
    generate cx = (emitFunction cx {}).map Prod.fst :=
  rfl

end Flat

end ArrayScript
