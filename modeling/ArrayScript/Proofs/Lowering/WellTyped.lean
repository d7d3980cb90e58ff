import ArrayScript.Proofs.Code.Operands
import ArrayScript.Proofs.Lowering.Derivation

/-!
Code that belongs to syntax respects the types of operands.

`Fits cx size v` says that a place `v` of validation has the variables, the scratch
variables and the functions that a lowering context `cx` speaks of. At such a place

* `Lowers.pushes`: the code of an operand puts one word of its type on the stack;
* `Acts.keeps`: code that is run for what it does leaves the stack as it was;
* `LowersStatement.passes`: so does the code of a statement, up to where it returns.
-/

namespace ArrayScript.Lowering

open Validation

variable {cx : LoweringContext} {size : Nat} {v : Context}

/-- A place of validation has what a lowering context speaks of. -/
structure Fits (cx : LoweringContext) (size : Nat) (v : Context) : Prop where
  variable_type : ∀ {name slot t}, IsVariable cx name slot t →
    v.slotTypes[slot]? = some t.wordType
  scratch_type : ∀ {held slot}, IsScratch cx size held slot → v.slotTypes[slot]? = some .i32
  function_type : ∀ {name index signature}, cx.indices.find? name = some index →
    cx.table.find? name = some signature →
    v.functions[index]? =
      some (signature.parameters.map ValueType.wordType, signature.returnType.wordType)
  memory : TakesParts cx → v.hasMemory = true
  result : v.result = cx.signature.returnType.wordType

/-- What is known of the slots is known inside a block. -/
lemma Fits.enter (h : Fits cx size v) : Fits cx size v.enter :=
  ⟨h.variable_type, h.scratch_type, h.function_type, h.memory, h.result⟩

/-! ### Conversions -/

lemma wordType_of_isFloat {t : ValueType} (h : t.isFloat = true) : t.wordType = .f64 := by
  cases t <;> simp_all [ValueType.isFloat, ValueType.wordType]

lemma wordType_of_not_isFloat {t : ValueType} (h : t.isFloat = false) : t.wordType = .i32 := by
  cases t <;> simp_all [ValueType.isFloat, ValueType.wordType]

lemma wordType_of_isArray {t : ValueType} (h : t.isArray = true) : t.wordType = .i32 := by
  cases t <;> simp_all [ValueType.isArray, ValueType.wordType]

/-- A double is replaced by an integer. -/
lemma isNonzeroDouble_code? (v : Context) (s : Operands) :
    code? v (s.push .f64) isNonzeroDouble = some (s.push .i32) := by
  rw [isNonzeroDouble, code?_plain]
  simp [op?, FloatOp.result]

/-- A conversion replaces a word of one type by a word of another. -/
lemma convert_code? (s : Operands) (t u : ValueType) :
    code? v (s.push t.wordType) (convert t u) = some (s.push u.wordType) := by
  cases t <;> cases u <;>
    simp [convert, ValueType.isFloat, ValueType.wordType, code?_nil, code?_plain, op?,
      isNonzeroDouble_code?]

/-- A converted operand pushes a word of the new type. -/
lemma pushes_as {x : Operand} (h : Pushes v x.code x.type.wordType) (t : ValueType) :
    Pushes v (x.as t) t.wordType := by
  intro s
  rw [Operand.as, code?_append, h]
  exact convert_code? s x.type t

/-- A condition is an integer. -/
lemma pushes_condition {x : Operand} (h : Pushes v x.code x.type.wordType) :
    Pushes v x.condition .i32 := by
  intro s
  rw [Operand.condition]
  split
  · rename_i hfloat
    rw [code?_append, h, wordType_of_isFloat hfloat]
    exact isNonzeroDouble_code? v s
  · rename_i hword
    rw [h, wordType_of_not_isFloat (by simpa using hword)]

/-- A truth value is an integer. -/
lemma pushes_truth {x : Operand} (h : Pushes v x.code x.type.wordType) :
    Pushes v x.truth .i32 := by
  intro s
  obtain ⟨code, t⟩ := x
  have hcode : code? v s code = some (s.push t.wordType) := h s
  cases t <;> simp only [Operand.truth, code?_append, hcode]
  · simp [code?_plain, op?, ValueType.wordType]
  · exact isNonzeroDouble_code? v s
  · rfl
  · simp [code?_plain, op?, ValueType.wordType]
  · simp [code?_plain, op?, ValueType.wordType]

/-- The zero of a type is a word of that type. -/
lemma pushes_zero (t : ValueType) : Pushes v (plain [zero t]) t.wordType := by
  intro s
  cases t <;> simp [zero, ValueType.isFloat, ValueType.wordType, code?_plain, op?]

/-- The instruction of an operator takes two words of the type of its operands. -/
lemma instruction_code? {op : BinaryOp} {float : Bool} {i : Op} {t : ValueType}
    (h : instruction op float = .ok (i, t)) (s : Operands) :
    code? v ((s.push (operandType float).wordType).push (operandType float).wordType) (plain [i])
      = some (s.push t.wordType) := by
  rw [code?_plain]
  cases op <;> cases float <;>
    simp [instruction, arithmetic, comparison, BinaryOp.isComparison, bind, Except.bind, pure,
      Except.pure] at h <;>
    obtain ⟨rfl, rfl⟩ := h <;>
    simp [op?, operandType, ValueType.wordType, FloatOp.result]

/-- Two operands put together push a word of the type of the result. -/
lemma Combines.pushes {op : BinaryOp} {x y z : Operand} (h : Combines op x y z)
    (hx : Pushes v x.code x.type.wordType) (hy : Pushes v y.code y.type.wordType) :
    Pushes v z.code z.type.wordType := by
  obtain ⟨hfloat, hchosen⟩ := h
  intro s
  dsimp only
  rw [code?_append, code?_append, pushes_as hx]
  simp only [Option.bind_eq_bind, Option.bind_some]
  rw [pushes_as hy]
  exact instruction_code? hchosen s

/-- The two values that `&&` and `||` choose between are integers. -/
lemma pushes_logicalChoices (op : LogicalOp) {y : Operand}
    (hy : Pushes v y.code y.type.wordType) (s : Operands) :
    code? v s (logicalChoices op y) = some ((s.push .i32).push .i32) := by
  have htruth := pushes_truth hy
  cases op with
  | and =>
      rw [logicalChoices, code?_append, htruth]
      simp [code?_plain, op?]
  | or =>
      rw [logicalChoices, code?_append]
      simpa [code?_plain, op?] using htruth (s.push .i32)

/-- The address of an element is a word. -/
lemma pushes_address {x y : Operand} (hx : Pushes v x.code x.type.wordType)
    (hy : Pushes v y.code y.type.wordType) (harray : x.type.isArray = true) :
    Pushes v (address x y).code .i32 := by
  intro s
  rw [address, code?_append, code?_append, hx, wordType_of_isArray harray]
  simp only [Option.bind_eq_bind, Option.bind_some]
  rw [pushes_as hy]
  simp [code?_plain, op?, ValueType.wordType]

/-! ### Expressions -/

mutual

/-- The code of an operand puts one word of its type on the stack. -/
theorem Lowers.pushes (hv : Fits cx size v) : ∀ {held : List Nat} {e : Expr} {x : Operand},
    Lowers cx size held e x → Pushes v x.code x.type.wordType
  | _, _, _, .number => fun s => by
      rename_i x
      rw [code?_plain]
      rw [literal]
      split
      · rename_i hfloat
        simp [op?, wordType_of_isFloat hfloat]
      · rename_i hword
        simp [op?, wordType_of_not_isFloat (by simpa using hword)]
  | _, _, _, .boolean => fun s => by simp [code?_plain, op?, ValueType.wordType]
  | _, _, _, .identifier name_variable => fun s => by
      simp [code?_plain, op?, hv.variable_type name_variable]
  | _, _, _, .not part => fun s => by
      rw [code?_append, pushes_condition (part.pushes hv)]
      simp [code?_plain, op?, ValueType.wordType]
  | _, _, _, .minusFloat part float => fun s => by
      rw [code?_append, part.pushes hv, wordType_of_isFloat float]
      simp [code?_plain, op?, ValueType.wordType]
  | _, _, _, .minusWord part _ => fun s => by
      rw [code?_append, code?_append, code?_plain]
      simp only [List.foldlM_cons, List.foldlM_nil, op?, Option.bind_eq_bind, Option.bind_some,
        Option.pure_def]
      rw [pushes_as (part.pushes hv)]
      simp [code?_plain, op?, ValueType.wordType]
  | _, _, _, .plus part => pushes_as (part.pushes hv) _
  | _, _, _, .binary left right result => result.pushes (left.pushes hv) (right.pushes hv)
  | _, _, _, .logical left scratch right => by
      rename_i op _ _ _ _ slot
      intro s
      have hx := pushes_truth (left.pushes hv)
      have hset : code? v (s.push .i32) (plain [.localSet slot]) = some s := by
        simp [code?_plain, op?, hv.scratch_type scratch]
      have hchoices := pushes_logicalChoices op (right.pushes hv) s
      have hselect : code? v ((s.push .i32).push .i32) (plain [.localGet slot, .select])
          = some (s.push .i32) := by
        simp [code?_plain, op?_localGet (hv.scratch_type scratch)]
      rw [code?_append, code?_append, code?_append, hx]
      simp only [Option.bind_eq_bind, Option.bind_some, hset, hchoices]
      exact hselect
  | _, _, _, .index parts array is_array at' => fun s => by
      rw [code?_append, pushes_address (array.pushes hv) (at'.pushes hv) is_array]
      simp [code?_plain, op?, hv.memory parts]
  | _, _, _, .length parts array is_array => fun s => by
      rw [length, code?_append, array.pushes hv, wordType_of_isArray is_array]
      simp [code?_plain, op?, hv.memory parts, ValueType.wordType]
  | _, _, _, .call _ callee_index callee_signature _ inputs => fun s => by
      rw [code?_append, inputs.pushes hv]
      simp [code?_plain, op?, hv.function_type callee_index callee_signature,
        Operands.popAll?_foldl_push]

/-- The code of arguments puts words of the types of the parameters on the stack. -/
theorem LowersArguments.pushes (hv : Fits cx size v) : ∀ {held : List Nat} {es : List Expr}
    {types : List ValueType} {code : Code}, LowersArguments cx size held es types code →
    ∀ s, code? v s code = some ((types.map ValueType.wordType).foldl Operands.push s)
  | _, _, _, _, .nil => fun s => code?_nil v s
  | _, _, _, _, .cons head tail => fun s => by
      rw [code?_append, pushes_as (head.pushes hv)]
      exact tail.pushes hv _

end

/-! ### Assignments and statements -/

/-- A variable pushes a word of the type of its slot. -/
lemma pushes_localGet {name : String} {slot : Nat} {t : ValueType} (hv : Fits cx size v)
    (h : IsVariable cx name slot t) : Pushes v (plain [.localGet slot]) t.wordType := by
  intro s
  simp [code?_plain, op?, hv.variable_type h]

/-- A value that is stored in a variable of its type is gone from the stack. -/
lemma keeps_localSet {name : String} {slot : Nat} {t : ValueType} {c : Code} (hv : Fits cx size v)
    (h : IsVariable cx name slot t) (hc : Pushes v c t.wordType) :
    Keeps v (c ++ plain [.localSet slot]) := by
  intro s
  rw [code?_append, hc]
  simp [code?_plain, op?, hv.variable_type h]

/-- The one of a type and a step by it, on a word of that type. -/
lemma step_code? {op : UpdateOp} {t : ValueType} {step : Op}
    (h : arithmetic op.binaryOp t.isFloat = .ok step) (s : Operands) :
    code? v (s.push t.wordType) (plain [one t, step]) = some (s.push t.wordType) := by
  cases op <;> cases t <;> cases h <;>
    simp [one, code?_plain, op?, ValueType.isFloat, ValueType.wordType, FloatOp.result]

/-- Code that is run for what it does leaves the stack as it was. -/
theorem Acts.keeps (hv : Fits cx size v) {e : Expr} {code : Code} (h : Acts cx size e code) :
    Keeps v code := by
  cases h with
  | assignVariable name_variable new =>
      exact keeps_localSet hv name_variable (pushes_as (new.pushes hv) _)
  | combineVariable _ name_variable right new =>
      have hnew := new.pushes (pushes_localGet hv name_variable) (right.pushes hv)
      exact keeps_localSet hv name_variable (pushes_as hnew _)
  | assignElement parts array is_array at' new =>
      intro s
      rw [code?_append, code?_append, pushes_address (array.pushes hv) (at'.pushes hv) is_array]
      simp only [Option.bind_eq_bind, Option.bind_some]
      rw [pushes_as (new.pushes hv)]
      simp [code?_plain, op?, hv.memory parts]
  | @combineElement _ _ _ _ _ _ _ x y _ _ slot _ parts array is_array at' scratch right new =>
      have hold : Pushes v (plain [.localGet slot, .load (address x y).type.wordType])
          (address x y).type.wordType := fun s => by
        simp [code?_plain, op?, hv.scratch_type scratch, hv.memory parts]
      have hnew := new.pushes hold (right.pushes hv)
      intro s
      rw [code?_append, code?_append, code?_append,
        pushes_address (array.pushes hv) (at'.pushes hv) is_array]
      have htee : code? v (s.push .i32) (plain [.localTee slot]) = some (s.push .i32) := by
        simp [code?_plain, op?, hv.scratch_type scratch]
      simp only [Option.bind_eq_bind, Option.bind_some, htee]
      rw [pushes_as hnew]
      simp [code?_plain, op?, hv.memory parts]
  | @updateVariable _ _ _ _ _ slot t step name_variable chosen =>
      have hnew : Pushes v (plain [.localGet slot] ++ plain [one t, step]) t.wordType := fun s => by
        rw [code?_append, pushes_localGet hv name_variable]
        exact step_code? chosen s
      exact keeps_localSet hv name_variable hnew
  | @updateElement _ _ _ _ _ _ x y slot step parts array is_array at' scratch chosen =>
      intro s
      have hold : code? v (s.push .i32) (plain [.localTee slot, .localGet slot,
          .load (address x y).type.wordType])
          = some ((s.push .i32).push (address x y).type.wordType) := by
        simp [code?_plain, op?, hv.scratch_type scratch, hv.memory parts]
      have hstore : code? v ((s.push .i32).push (address x y).type.wordType)
          (plain [.store (address x y).type.wordType]) = some s := by
        simp [code?_plain, op?, hv.memory parts]
      show code? v s ((address x y).code ++ (plain [.localTee slot, .localGet slot,
        .load (address x y).type.wordType] ++ (plain [one (address x y).type, step] ++
        plain [.store (address x y).type.wordType]))) = some s
      rw [code?_append, pushes_address (array.pushes hv) (at'.pushes hv) is_array]
      simp only [code?_append, Option.bind_eq_bind, Option.bind_some, hold, step_code? chosen]
      exact hstore
  | value _ part =>
      intro s
      rw [code?_append, part.pushes hv]
      simp [code?_plain, op?]

/-- Declarators leave the operands as they were. -/
lemma Declares.keeps (hv : Fits cx size v) {ds : List Declarator} {code : Code}
    (h : Declares cx size ds code) : Keeps v code := by
  induction h with
  | nil => exact Keeps.nil
  | bare _ _ ih => exact ih
  | bound _ name_variable new _ ih =>
      exact (keeps_localSet hv name_variable (pushes_as (new.pushes hv) _)).append ih

/-- What is done between two rounds leaves the operands as they were. -/
lemma Steps.keeps (hv : Fits cx size v) {e : Option Expr} {code : Code}
    (h : Steps cx size e code) : Keeps v code := by
  cases h with
  | none => exact Keeps.nil
  | some part => exact part.keeps hv

/-- The test of a loop takes what it puts, where it can leave the innermost block. -/
lemma Exits.keeps (hv : Fits cx size v) {e : Option Expr} {code : Code}
    (h : Exits cx size e code) : Keeps v.enter code := by
  cases h with
  | never => exact Keeps.nil
  | tested test =>
      intro s
      rw [code?_append, pushes_condition (test.pushes hv.enter)]
      simp [code?_plain, op?, Context.enter]

/-- The rounds of a loop leave the stack as it was. -/
lemma keeps_roundAndRound {exit body step : Code} (hexit : Keeps v.enter.enter exit)
    (hbody : Passes v.enter.enter body) (hstep : Keeps v.enter.enter step) :
    Keeps v (roundAndRound exit body step) := by
  have hback : Passes v.enter.enter (plain [.br 1]) := fun reach =>
    ⟨true, by simp [code?_plain, op?, Context.enter, Operands.unreachable]⟩
  have hround := ((hexit.passes.append hbody).append hstep.passes).append hback
  exact keeps_loop (keeps_block hround).passes

/-- A word of the function's result type ends it. -/
lemma passes_ret (hv : Fits cx size v) {c : Code}
    (hc : Pushes v c cx.signature.returnType.wordType) : Passes v (c ++ plain [.ret]) := by
  intro reach
  refine ⟨true, ?_⟩
  rw [code?_append, hc, ← hv.result]
  simp [code?_plain, op?, Operands.unreachable]

mutual

/-- The code of a statement leaves the stack as it was, up to where it returns. -/
theorem LowersStatement.passes : ∀ {v : Context} {s : Statement} {code : Code}, Fits cx size v →
    LowersStatement cx size s code → Passes v code
  | _, _, _, hv, .declare parts => (parts.keeps hv).passes
  | _, _, _, hv, .expression part => (part.keeps hv).passes
  | _, _, _, hv, .retZero => passes_ret hv (pushes_zero _)
  | _, _, _, hv, .ret part => passes_ret hv (pushes_as (part.pushes hv) _)
  | v, _, _, hv, .conditional condition first second => by
      intro reach
      refine ⟨reach, ?_⟩
      rw [code?_append, pushes_condition (condition.pushes hv)]
      exact code?_choice (first.passes hv.enter) (second.passes hv.enter) _
  | _, _, _, hv, .whileLoop leaving round =>
      (keeps_roundAndRound (leaving.keeps hv.enter) (round.passes hv.enter.enter)
        Keeps.nil).passes
  | _, _, _, hv, .forLoop before leaving round stepping =>
      (before.passes hv).append (keeps_roundAndRound (leaving.keeps hv.enter)
        (round.passes hv.enter.enter) (stepping.keeps hv.enter.enter)).passes
  | _, _, _, hv, .block parts => parts.passes hv
  | _, _, _, hv, .empty => Keeps.nil.passes

/-- An alternate passes validation, if there is one. -/
theorem LowersAlternative.passes : ∀ {v : Context} {s : Option Statement} {code : Option Code},
    Fits cx size v → LowersAlternative cx size s code → ∀ c, code = some c → Passes v c
  | _, _, _, _, .none => fun _ h => by cases h
  | _, _, _, hv, .some part => fun _ h => Option.some.inj h ▸ part.passes hv

/-- What a `for` starts with passes validation. -/
theorem LowersInitial.passes : ∀ {v : Context} {s : Option Statement} {code : Code},
    Fits cx size v → LowersInitial cx size s code → Passes v code
  | _, _, _, _, .none => Keeps.nil.passes
  | _, _, _, hv, .some part => part.passes hv

/-- Statements one after another pass validation. -/
theorem LowersStatements.passes : ∀ {v : Context} {ss : List Statement} {code : Code},
    Fits cx size v → LowersStatements cx size ss code → Passes v code
  | _, _, _, _, .nil => Keeps.nil.passes
  | _, _, _, hv, .cons first others => (first.passes hv).append (others.passes hv)

end

end ArrayScript.Lowering
