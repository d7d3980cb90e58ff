import ArrayScript.Proofs.Lowering.Construction

/-!
The operations that occur in lowered code.

`Code.Every P code` says that all operations of a code, at any depth, are as `P` says.
`Emitted cx size` lists the operations that lowering can emit: each read of a variable
comes from an identifier of the function, each load and store from a place where the
function takes a part of something, and each call from the table of indices.

* `OnStack`: conversions, tests and the instructions of operators only compute on the stack.
* `Builds.every` … `BuildsStatements.every`: code that is built has no other operations.
* `lower_every`: neither has a function that is lowered.
-/

namespace ArrayScript

/-! ### The operations of code -/

/-- All operations of a code, at any depth, are as said. -/
def Code.Every (P : Op → Prop) (code : Code) : Prop :=
  ∀ o, Mark.op o ∈ Instr.listingList code → P o

namespace Code

variable {P Q : Op → Prop} {a b : Code}

/-- What is listed of code is listed of its parts, one after the other. -/
lemma listingList_append (a b : Code) :
    Instr.listingList (a ++ b) = Instr.listingList a ++ Instr.listingList b := by
  induction a with
  | nil => rfl
  | cons i rest ih =>
      rw [List.cons_append, Instr.listingList, Instr.listingList, ih, List.append_assoc]

/-- Operations without control flow are listed as they stand. -/
lemma listingList_plain (ops : List Op) :
    Instr.listingList (Lowering.plain ops) = ops.map .op := by
  induction ops with
  | nil => rfl
  | cons o rest ih =>
      rw [Lowering.plain, List.map_cons, Instr.listingList, Instr.listing, List.map_cons]
      exact congrArg (Mark.op o :: ·) ih

/-- Operations that all satisfy something satisfy whatever follows from it. -/
lemma Every.mono (h : a.Every P) (hPQ : ∀ o, P o → Q o) : a.Every Q :=
  fun o ho => hPQ o (h o ho)

lemma every_nil : Code.Every P [] :=
  fun _ h => by cases h

/-- What all operations satisfy, those of both parts do. -/
lemma every_append : Code.Every P (a ++ b) ↔ a.Every P ∧ b.Every P := by
  simp only [Every, listingList_append, List.mem_append, or_imp, forall_and]

lemma every_cons {i : Instr} : Code.Every P (i :: a) ↔ Code.Every P [i] ∧ a.Every P :=
  every_append (a := [i])

lemma every_plain {ops : List Op} : Code.Every P (Lowering.plain ops) ↔ ∀ o ∈ ops, P o := by
  simp [Every, listingList_plain]

lemma every_op {o : Op} : Code.Every P [.plain o] ↔ P o := by
  simp [Every, Instr.listingList, Instr.listing]

lemma every_block : Code.Every P [.block a] ↔ a.Every P := by
  simp [Every, Instr.listingList, Instr.listing]

lemma every_loop : Code.Every P [.loop a] ↔ a.Every P := by
  simp [Every, Instr.listingList, Instr.listing]

/-- The operations of an `if` are those of its branches. -/
lemma every_choice {other : Option Code} :
    Code.Every P [.choice a other] ↔ a.Every P ∧ ∀ b, other = some b → b.Every P := by
  cases other with
  | none => simp [Every, Instr.listingList, Instr.listing, Instr.listingElse]
  | some b =>
      simp [Every, Instr.listingList, Instr.listing, Instr.listingElse, or_imp, forall_and]

end Code

namespace Lowering

open Code

/-! ### Computation on the stack -/

/-- Operations on the stack alone. -/
inductive OnStack : Op → Prop
  | i32Const {n} : OnStack (.i32Const n)
  | f64Const {x} : OnStack (.f64Const x)
  | int {o} : OnStack (.int o)
  | float {o} : OnStack (.float o)
  | i32Eqz : OnStack .i32Eqz
  | f64Neg : OnStack .f64Neg
  | f64ConvertI32 : OnStack .f64ConvertI32
  | i32TruncSatF64 : OnStack .i32TruncSatF64

/-- A zero, of whatever type, is a constant. -/
lemma zero_onStack (t : ValueType) : OnStack (zero t) := by
  rw [zero]
  split
  · exact .f64Const
  · exact .i32Const

lemma one_onStack (t : ValueType) : OnStack (one t) := by
  rw [one]
  split
  · exact .f64Const
  · exact .i32Const

lemma constant_onStack (t : ValueType) (x : Double) : OnStack (constant t x) := by
  rw [constant]
  split
  · exact .f64Const
  · exact .i32Const

lemma isNonzeroDouble_onStack : isNonzeroDouble.Every OnStack := by
  simp [isNonzeroDouble, every_plain, OnStack.f64Const, OnStack.float]

/-- A conversion works on what it finds on top, with constants to compare with. -/
lemma convert_onStack (t u : ValueType) : (convert t u).Every OnStack := by
  unfold convert
  split
  · exact isNonzeroDouble_onStack
  · exact every_nil
  · simp [every_plain, OnStack.i32TruncSatF64]
  · simp [every_plain, OnStack.f64ConvertI32]
  · exact every_nil

/-- An operand as a condition: its code, and then operations on the stack. -/
lemma condition_eq (x : Operand) : ∃ g : Code, x.condition = x.code ++ g ∧ g.Every OnStack := by
  rw [Operand.condition]
  split
  · exact ⟨_, rfl, isNonzeroDouble_onStack⟩
  · exact ⟨[], (List.append_nil _).symm, every_nil⟩

/-- An operand as a truth value: its code, and then operations on the stack. -/
lemma truth_eq (x : Operand) : ∃ g : Code, x.truth = x.code ++ g ∧ g.Every OnStack := by
  rw [Operand.truth]
  split
  · exact ⟨[], (List.append_nil _).symm, every_nil⟩
  · exact ⟨_, rfl, isNonzeroDouble_onStack⟩
  · exact ⟨_, rfl, by simp [every_plain, OnStack.i32Const, OnStack.int]⟩

/-- The two values that `&&` and `||` choose between: the code of the right operand, with
operations on the stack before or after it. -/
lemma logicalChoices_eq (op : LogicalOp) (y : Operand) :
    ∃ g g' : Code, logicalChoices op y = g ++ y.code ++ g' ∧ g.Every OnStack ∧
      g'.Every OnStack := by
  obtain ⟨g, hg, hstack⟩ := truth_eq y
  have hconst : ∀ n, (plain [.i32Const n]).Every OnStack := fun n => by
    simp [every_plain, OnStack.i32Const]
  cases op with
  | and =>
      exact ⟨[], _, by rw [logicalChoices, hg, List.nil_append, List.append_assoc], every_nil,
        every_append.mpr ⟨hstack, hconst 0⟩⟩
  | or => exact ⟨_, g, by rw [logicalChoices, hg, List.append_assoc], hconst 1, hstack⟩

/-- An address: the code of the object, that of the subscript, and then operations on the
stack. -/
lemma address_eq (x y : Operand) :
    ∃ g : Code, (address x y).code = x.code ++ y.code ++ g ∧ g.Every OnStack := by
  refine ⟨convert y.type .int32 ++ plain [.i32Const (Int32.ofNat x.type.elementSize), .int .mul,
    .int .add], by simp [address, Operand.as], every_append.mpr ⟨convert_onStack _ _, ?_⟩⟩
  simp [every_plain, OnStack.i32Const, OnStack.int]

/-- The instruction of an arithmetic operator has no slot, label or index in it. -/
lemma arithmetic_onStack {op : BinaryOp} {float : Bool} {i : Op}
    (h : arithmetic op float = .ok i) : OnStack i := by
  unfold arithmetic at h
  split at h <;> first
    | exact Except.ok.inj h ▸ .int
    | exact Except.ok.inj h ▸ .float
    | cases h

lemma comparison_onStack (op : BinaryOp) (float : Bool) : OnStack (comparison op float) := by
  unfold comparison
  split <;> first | exact .int | exact .float

/-- Nor has that of any binary operator. -/
lemma instruction_onStack {op : BinaryOp} {float : Bool} {i : Op} {t : ValueType}
    (h : instruction op float = .ok (i, t)) : OnStack i := by
  rw [instruction] at h
  split at h
  · obtain ⟨rfl, rfl⟩ := Prod.mk.inj (Except.ok.inj h)
    exact comparison_onStack op float
  · obtain ⟨i', hi, h⟩ := bind_eq_ok.mp h
    obtain ⟨rfl, rfl⟩ := Prod.mk.inj (Except.ok.inj h)
    exact arithmetic_onStack hi

/-- Between and behind its operands an operator only computes. -/
lemma Joins.code_eq {op : BinaryOp} {t : ValueType} {x y z : Operand} (h : Joins op x t y z) :
    ∃ g g' : Code, z.code = x.code ++ g ++ y.code ++ g' ∧ g.Every OnStack ∧
      g'.Every OnStack := by
  obtain @⟨float, i, _, _, hchosen⟩ := h
  refine ⟨convert x.type (operandType float), convert y.type (operandType float) ++ plain [i],
    by simp [Operand.as], convert_onStack _ _, every_append.mpr ⟨convert_onStack _ _, ?_⟩⟩
  simp [every_plain, instruction_onStack hchosen]

/-! ### Emitted operations -/

/-- The operations that lowering can emit. -/
inductive Emitted (cx : LoweringContext) (size : Nat) : Op → Prop
  | i32Const {n} : Emitted cx size (.i32Const n)
  | f64Const {x} : Emitted cx size (.f64Const x)
  | int {o} : Emitted cx size (.int o)
  | float {o} : Emitted cx size (.float o)
  | i32Eqz : Emitted cx size .i32Eqz
  | f64Neg : Emitted cx size .f64Neg
  | f64ConvertI32 : Emitted cx size .f64ConvertI32
  | i32TruncSatF64 : Emitted cx size .i32TruncSatF64
  | get {id name slot} (occurs : .identifier id name ∈ cx.function.expressions)
      (name_slot : cx.names.idxOf? name = some slot) : Emitted cx size (.localGet slot)
  | set {name slot} (name_slot : cx.names.idxOf? name = some slot) :
      Emitted cx size (.localSet slot)
  | scratchGet {held slot} (scratch : IsScratch cx size held slot) :
      Emitted cx size (.localGet slot)
  | scratchSet {held slot} (scratch : IsScratch cx size held slot) :
      Emitted cx size (.localSet slot)
  | scratchTee {held slot} (scratch : IsScratch cx size held slot) :
      Emitted cx size (.localTee slot)
  | load {t} (parts : TakesParts cx) : Emitted cx size (.load t)
  | store {t} (parts : TakesParts cx) : Emitted cx size (.store t)
  | call {name index} (callee_index : cx.indices.find? name = some index) :
      Emitted cx size (.call index)
  | select : Emitted cx size .select
  | drop : Emitted cx size .drop
  | ret : Emitted cx size .ret
  | exit : Emitted cx size (.brIf 0)
  | back : Emitted cx size (.br 1)

variable {cx : LoweringContext} {size : Nat}

/-! ### Parts that do not depend on the function -/

/-- An operation on the stack is allowed for in every function. -/
lemma OnStack.emitted {o : Op} (h : OnStack o) : Emitted cx size o := by
  cases h <;> constructor

lemma every_onStack {g : Code} (h : g.Every OnStack) : g.Every (Emitted cx size) :=
  h.mono fun _ ho => ho.emitted

section

variable {x y : Operand}

/-- Converting an operand adds operations on the stack. -/
lemma every_as (h : x.code.Every (Emitted cx size)) (t : ValueType) :
    (x.as t).Every (Emitted cx size) :=
  every_append.mpr ⟨h, every_onStack (convert_onStack _ _)⟩

/-- Testing an operand adds operations on the stack. -/
lemma every_condition (h : x.code.Every (Emitted cx size)) :
    x.condition.Every (Emitted cx size) := by
  obtain ⟨g, hg, hstack⟩ := condition_eq x
  rw [hg]
  exact every_append.mpr ⟨h, every_onStack hstack⟩

/-- Making an operand a truth value adds operations on the stack. -/
lemma every_truth (h : x.code.Every (Emitted cx size)) : x.truth.Every (Emitted cx size) := by
  obtain ⟨g, hg, hstack⟩ := truth_eq x
  rw [hg]
  exact every_append.mpr ⟨h, every_onStack hstack⟩

lemma every_logicalChoices (op : LogicalOp) (h : y.code.Every (Emitted cx size)) :
    (logicalChoices op y).Every (Emitted cx size) := by
  obtain ⟨g, g', heq, hg, hg'⟩ := logicalChoices_eq op y
  rw [heq]
  exact every_append.mpr ⟨every_append.mpr ⟨every_onStack hg, h⟩, every_onStack hg'⟩

/-- An address has the operations of the object, those of the subscript, and operations on
the stack. -/
lemma every_address (hx : x.code.Every (Emitted cx size)) (hy : y.code.Every (Emitted cx size)) :
    (address x y).code.Every (Emitted cx size) := by
  obtain ⟨g, heq, hg⟩ := address_eq x y
  rw [heq]
  exact every_append.mpr ⟨every_append.mpr ⟨hx, hy⟩, every_onStack hg⟩

/-- A variable of the function is read from the slot of its name. -/
lemma every_localGet {id : ExprId} {name : String} {slot : Nat}
    (hin : Expr.identifier id name ∈ cx.function.expressions)
    (hslot : cx.names.idxOf? name = some slot) :
    (plain [.localGet slot]).Every (Emitted cx size) := by
  simp [every_plain, Emitted.get hin hslot]

/-- A value that is stored in a variable. -/
lemma every_localSet {name : String} {slot : Nat} {code : Code} (h : code.Every (Emitted cx size))
    (hslot : cx.names.idxOf? name = some slot) :
    Code.Every (Emitted cx size) (code ++ plain [.localSet slot]) :=
  every_append.mpr ⟨h, by simp [every_plain, Emitted.set hslot]⟩

/-- A binary operator has the operations of both operands, and one or two on the stack. -/
lemma Joins.every {op : BinaryOp} {t : ValueType} {z : Operand} (h : Joins op x t y z)
    (hx : x.code.Every (Emitted cx size)) (hy : y.code.Every (Emitted cx size)) :
    z.code.Every (Emitted cx size) := by
  obtain ⟨g, g', heq, hg, hg'⟩ := h.code_eq
  rw [heq]
  exact every_append.mpr ⟨every_append.mpr ⟨every_append.mpr ⟨hx, every_onStack hg⟩, hy⟩,
    every_onStack hg'⟩

end

/-! ### Expressions -/

/-- A member expression of the function takes a part of something. -/
lemma takesParts {e : Expr} (hin : e ∈ cx.function.expressions)
    (hmember : e.memberObject?.isSome = true) : TakesParts cx :=
  ⟨e, hin, hmember⟩

mutual

/-- Code that is built from an expression of the function has only such operations. -/
theorem Builds.every : ∀ {held : List Nat} {e : Expr} {x : Operand}, Builds cx size held e x →
    e.preorder ⊆ cx.function.expressions → x.code.Every (Emitted cx size)
  | _, _, _, .number, _ => every_onStack (every_op.mpr (constant_onStack _ _))
  | _, _, _, .boolean, _ => by simp [every_plain, Emitted.i32Const]
  | _, _, _, .identifier name_slot, hin => by
      rw [Expr.preorder, List.cons_subset] at hin
      exact every_localGet hin.1 name_slot
  | _, _, _, .not part, hin => by
      rw [Expr.preorder, List.cons_subset] at hin
      refine every_append.mpr ⟨every_condition (part.every hin.2), ?_⟩
      simp [every_plain, Emitted.i32Eqz]
  | _, _, _, .minusFloat part, hin => by
      rw [Expr.preorder, List.cons_subset] at hin
      refine every_append.mpr ⟨part.every hin.2, ?_⟩
      simp [every_plain, Emitted.f64Neg]
  | _, _, _, .minusWord part, hin => by
      rw [Expr.preorder, List.cons_subset] at hin
      refine every_append.mpr ⟨every_append.mpr ⟨?_, every_as (part.every hin.2) _⟩, ?_⟩
      · simp [every_plain, Emitted.i32Const]
      · simp [every_plain, Emitted.int]
  | _, _, _, .plus part, hin => by
      rw [Expr.preorder, List.cons_subset] at hin
      exact every_as (part.every hin.2) _
  | _, _, _, .binary left right result, hin => by
      rw [Expr.preorder, List.cons_subset, List.append_subset] at hin
      exact result.every (left.every hin.2.1) (right.every hin.2.2)
  | _, _, _, .logical left scratch right, hin => by
      rw [Expr.preorder, List.cons_subset, List.append_subset] at hin
      simp only [every_append, every_plain, List.forall_mem_cons, List.not_mem_nil,
        false_implies, implies_true, and_true]
      exact ⟨⟨⟨every_truth (left.every hin.2.1), .scratchSet scratch⟩,
        every_logicalChoices _ (right.every hin.2.2)⟩, .scratchGet scratch, .select⟩
  | _, _, _, .index array at', hin => by
      rw [Expr.preorder, List.cons_subset, List.append_subset] at hin
      refine every_append.mpr ⟨every_address (array.every hin.2.1) (at'.every hin.2.2), ?_⟩
      simp [every_plain, Emitted.load (takesParts hin.1 rfl)]
  | _, _, _, .length array, hin => by
      rw [Expr.preorder, List.cons_subset] at hin
      refine every_append.mpr ⟨array.every hin.2, ?_⟩
      simp [every_plain, Emitted.i32Const, Emitted.int, Emitted.load (takesParts hin.1 rfl)]
  | _, _, _, .call _ callee_index _ _ inputs, hin => by
      rw [Expr.preorder, List.cons_subset, List.append_subset] at hin
      refine every_append.mpr ⟨inputs.every hin.2.2, ?_⟩
      simp [every_plain, Emitted.call callee_index]

/-- The operations of arguments, one after another, with conversions between them. -/
theorem BuildsArguments.every : ∀ {held : List Nat} {es : List Expr} {types : List ValueType}
    {code : Code}, BuildsArguments cx size held es types code →
    Expr.preorderList es ⊆ cx.function.expressions → code.Every (Emitted cx size)
  | _, _, _, _, .nil, _ => every_nil
  | _, _, _, _, .cons head tail, hin => by
      rw [Expr.preorderList, List.append_subset] at hin
      exact every_append.mpr ⟨every_as (head.every hin.1) _, tail.every hin.2⟩

end

/-! ### Statements -/

/-- The operations of an assignment, an update or another expression that is lowered for its
effect. -/
theorem BuildsAct.every {e : Expr} {code : Code} (h : BuildsAct cx size e code)
    (hin : e.preorder ⊆ cx.function.expressions) : code.Every (Emitted cx size) := by
  cases h with
  | assignVariable name_slot new =>
      rw [Expr.preorder, List.cons_subset, List.append_subset] at hin
      exact every_localSet (every_as (new.every hin.2.2) _) name_slot
  | combineVariable _ name_slot right new =>
      rw [Expr.preorder, List.cons_subset, List.append_subset, Expr.preorder,
        List.cons_subset] at hin
      have hold : Code.Every (Emitted cx size) (plain [.localGet _]) :=
        every_localGet hin.2.1.1 name_slot
      exact every_localSet (every_as (new.every hold (right.every hin.2.2)) _) name_slot
  | assignElement array at' new =>
      simp only [Expr.preorder, List.cons_subset, List.append_subset] at hin
      obtain ⟨_, ⟨hself, hobject, hposition⟩, hvalue⟩ := hin
      have hat := every_address (array.every hobject) (at'.every hposition)
      refine every_append.mpr ⟨every_append.mpr ⟨hat, every_as (new.every hvalue) _⟩, ?_⟩
      simp [every_plain, Emitted.store (takesParts hself rfl)]
  | combineElement _ array at' scratch right new =>
      simp only [Expr.preorder, List.cons_subset, List.append_subset] at hin
      obtain ⟨_, ⟨hself, hobject, hposition⟩, hvalue⟩ := hin
      have hparts := takesParts hself rfl
      have hat := every_address (array.every hobject) (at'.every hposition)
      have hnew := new.every
        (by simp [every_plain, Emitted.scratchGet scratch, Emitted.load hparts])
        (right.every hvalue)
      refine every_append.mpr ⟨every_append.mpr ⟨every_append.mpr ⟨hat, ?_⟩,
        every_as hnew _⟩, ?_⟩
      · simp [every_plain, Emitted.scratchTee scratch]
      · simp [every_plain, Emitted.store hparts]
  | updateVariable name_slot chosen =>
      rw [Expr.preorder, List.cons_subset, Expr.preorder, List.cons_subset] at hin
      simp [every_plain, Emitted.get hin.2.1 name_slot, (one_onStack _).emitted,
        (arithmetic_onStack chosen).emitted, Emitted.set name_slot]
  | updateElement array at' scratch chosen =>
      simp only [Expr.preorder, List.cons_subset, List.append_subset] at hin
      obtain ⟨_, hself, hobject, hposition⟩ := hin
      have hparts := takesParts hself rfl
      refine every_append.mpr ⟨every_address (array.every hobject) (at'.every hposition), ?_⟩
      simp [every_plain, Emitted.scratchTee scratch, Emitted.scratchGet scratch,
        (one_onStack _).emitted, Emitted.load hparts, (arithmetic_onStack chosen).emitted,
        Emitted.store hparts]
  | value part =>
      refine every_append.mpr ⟨part.every hin, ?_⟩
      simp [every_plain, Emitted.drop]

/-- The expressions of a root of the function. -/
lemma root_preorder {e : Expr} (h : .expression e ∈ cx.function.roots) :
    e.preorder ⊆ cx.function.expressions :=
  fun _ he => cx.function.rootExpressions_sublist.subset (List.mem_flatMap.mpr ⟨_, h, he⟩)

/-- The operations of declarators: those of the initial values, and a write for each. -/
lemma BuildsDeclarators.every {ds : List Declarator} {code : Code}
    (h : BuildsDeclarators cx size ds code) (hin : ds.map Root.declarator ⊆ cx.function.roots) :
    code.Every (Emitted cx size) := by
  induction h with
  | nil => exact every_nil
  | bare _ ih =>
      rw [List.map_cons, List.cons_subset] at hin
      exact ih hin.2
  | bound _ name_slot new _ ih =>
      rw [List.map_cons, List.cons_subset] at hin
      have hinit := new.every fun _ he =>
        cx.function.rootExpressions_sublist.subset (List.mem_flatMap.mpr ⟨_, hin.1, he⟩)
      exact every_append.mpr ⟨every_localSet (every_as hinit _) name_slot, ih hin.2⟩

/-- The operations that decide whether another round is made. -/
lemma BuildsExit.every {test : Option Expr} {code : Code} (h : BuildsExit cx size test code)
    (hin : Root.ofOption test ⊆ cx.function.roots) : code.Every (Emitted cx size) := by
  cases h with
  | never => exact every_nil
  | tested part =>
      have hpart := part.every (root_preorder (hin List.mem_cons_self))
      refine every_append.mpr ⟨every_condition hpart, ?_⟩
      simp [every_plain, Emitted.i32Eqz, Emitted.exit]

/-- The operations between two rounds. -/
lemma BuildsStep.every {step : Option Expr} {code : Code} (h : BuildsStep cx size step code)
    (hin : Root.ofOption step ⊆ cx.function.roots) : code.Every (Emitted cx size) := by
  cases h with
  | none => exact every_nil
  | some part => exact part.every (root_preorder (hin List.mem_cons_self))

/-- A loop has the operations of its test, its body and its step, and one branch back. -/
lemma every_roundAndRound {exit body step : Code} (hexit : exit.Every (Emitted cx size))
    (hbody : body.Every (Emitted cx size)) (hstep : step.Every (Emitted cx size)) :
    (roundAndRound exit body step).Every (Emitted cx size) := by
  rw [roundAndRound, every_loop, every_block]
  refine every_append.mpr ⟨every_append.mpr ⟨every_append.mpr ⟨hexit, hbody⟩, hstep⟩, ?_⟩
  simp [every_plain, Emitted.back]

mutual

/-- Code that is built from a statement of the function has only such operations. -/
theorem BuildsStatement.every : ∀ {s : Statement} {code : Code}, BuildsStatement cx size s code →
    s.roots ⊆ cx.function.roots → code.Every (Emitted cx size)
  | _, _, .declare parts, hin => parts.every hin
  | _, _, .expression part, hin => part.every (root_preorder (hin List.mem_cons_self))
  | _, _, .retZero, _ => by simp [every_plain, (zero_onStack _).emitted, Emitted.ret]
  | _, _, .ret part, hin => by
      have hpart := part.every (root_preorder (hin List.mem_cons_self))
      refine every_append.mpr ⟨every_as hpart _, ?_⟩
      simp [every_plain, Emitted.ret]
  | _, _, .conditional condition first second, hin => by
      rw [Statement.roots, List.cons_subset, List.append_subset] at hin
      have htest := every_condition (condition.every (root_preorder hin.1))
      exact every_append.mpr ⟨htest, every_choice.mpr ⟨first.every hin.2.1, second.every hin.2.2⟩⟩
  | _, _, .whileLoop leaving round, hin => by
      rw [Statement.roots, List.cons_subset] at hin
      refine every_roundAndRound (leaving.every ?_) (round.every hin.2) every_nil
      simpa [Root.ofOption] using hin.1
  | _, _, .forLoop before leaving round stepping, hin => by
      simp only [Statement.roots, List.append_subset] at hin
      obtain ⟨⟨⟨hinit, htest⟩, hupdate⟩, hbody⟩ := hin
      exact every_append.mpr ⟨before.every hinit,
        every_roundAndRound (leaving.every htest) (round.every hbody) (stepping.every hupdate)⟩
  | _, _, .block parts, hin => parts.every hin
  | _, _, .empty, _ => every_nil

/-- The operations of an alternate, if there is one. -/
theorem BuildsAlternative.every : ∀ {s : Option Statement} {code : Option Code},
    BuildsAlternative cx size s code → Statement.rootsOption s ⊆ cx.function.roots →
    ∀ c, code = some c → c.Every (Emitted cx size)
  | _, _, .none, _ => fun _ h => by cases h
  | _, _, .some part, hin => fun _ h => Option.some.inj h ▸ part.every hin

/-- The operations of what a `for` starts with. -/
theorem BuildsInitial.every : ∀ {s : Option Statement} {code : Code},
    BuildsInitial cx size s code → Statement.rootsOption s ⊆ cx.function.roots →
    code.Every (Emitted cx size)
  | _, _, .none, _ => every_nil
  | _, _, .some part, hin => part.every hin

/-- The operations of statements, one after another. -/
theorem BuildsStatements.every : ∀ {ss : List Statement} {code : Code},
    BuildsStatements cx size ss code → Statement.rootsList ss ⊆ cx.function.roots →
    code.Every (Emitted cx size)
  | _, _, .nil, _ => every_nil
  | _, _, .cons first others, hin => by
      rw [Statement.rootsList, List.append_subset] at hin
      exact every_append.mpr ⟨first.every hin.1, others.every hin.2⟩

end

/-- A function that is lowered, in any context, has only operations that lowering can
emit, with scratch variables among its own. -/
theorem lower_every {f : CompiledFunction} (h : cx.lower = .ok f) :
    f.body.Every (Emitted cx f.localNames.length) := by
  obtain ⟨code, count, hbuilt, rfl⟩ := lower_eq_ok h
  have hsize : (cx.names ++ scratchNames count).length = cx.names.length + count := by
    simp [scratchNames]
  dsimp only
  rw [hsize]
  refine every_append.mpr ⟨hbuilt.every (List.Subset.refl _), ?_⟩
  simp [every_plain, (zero_onStack _).emitted]

end Lowering

end ArrayScript
