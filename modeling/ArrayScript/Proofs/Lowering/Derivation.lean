import ArrayScript.Lowering
import ArrayScript.Proofs.Typing.Roots

/-!
Which code belongs to which syntax.

`Lowers cx size held e x` says that the operand `x` belongs to the expression `e`:
`x` is built by the rule for `e` from operands that belong to its parts. The rules
speak of types of operands and of variables only and never of the types recorded for
expressions. Slots below `size` that belong to no variable are for scratch; those in
`held` hold something that is still needed, and the code does not write to them.

`Acts`, `Declares` and `LowersStatement` say the same of expressions that are run for
what they do, of declarators and of statements.
-/

namespace ArrayScript.Lowering

/-- The constant a numeric literal stands for. -/
def literal (x : Double) : Op :=
  if x.literalType.isFloat then .f64Const x else .i32Const x.toInt32Saturating

/-- A variable with its slot and its type. -/
structure IsVariable (cx : LoweringContext) (name : String) (slot : Nat) (t : ValueType) :
    Prop where
  slot_eq : cx.names.idxOf? name = some slot
  type_eq : cx.typing.variableTypes.find? name = some t

lemma IsVariable.getElem?_eq {cx : LoweringContext} {name : String} {slot : Nat} {t : ValueType}
    (h : IsVariable cx name slot t) : cx.names[slot]? = some name := by
  obtain ⟨hlt, hname, _⟩ := List.idxOf?_eq_some_iff.mp h.slot_eq
  rw [List.getElem?_eq_some_iff]
  exact ⟨hlt, hname⟩

lemma IsVariable.slot_lt {cx : LoweringContext} {name : String} {slot : Nat} {t : ValueType}
    (h : IsVariable cx name slot t) : slot < cx.names.length :=
  (List.getElem?_eq_some_iff.mp h.getElem?_eq).1

/-- Different variables have different slots. -/
lemma IsVariable.slot_ne {cx : LoweringContext} {name name' : String} {slot slot' : Nat}
    {t t' : ValueType} (h : IsVariable cx name slot t) (h' : IsVariable cx name' slot' t')
    (hne : name' ≠ name) : slot ≠ slot' := by
  rintro rfl
  exact hne (Option.some.inj (h'.getElem?_eq.symm.trans h.getElem?_eq))

/-- A scratch variable that holds nothing. -/
structure IsScratch (cx : LoweringContext) (size : Nat) (held : List Nat) (slot : Nat) :
    Prop where
  le : cx.names.length ≤ slot
  lt : slot < size
  free : slot ∉ held

/-- Whether the function takes a part of something anywhere. -/
def TakesParts (cx : LoweringContext) : Prop :=
  ∃ e ∈ cx.function.expressions, e.memberObject?.isSome = true

/-- The operand that an operator makes of two others. -/
inductive Combines (op : BinaryOp) (left right : Operand) : Operand → Prop
  | intro {float i t} (float_eq : float = (left.type.isFloat || right.type.isFloat))
      (chosen : instruction op float = .ok (i, t)) :
      Combines op left right
        ⟨left.as (operandType float) ++ right.as (operandType float) ++ plain [i], t⟩

/-- The operands of a choice between the value of the right side and a constant. -/
def logicalChoices (op : LogicalOp) (right : Operand) : Code :=
  match op with
  | .and => right.truth ++ plain [.i32Const 0]
  | .or => plain [.i32Const 1] ++ right.truth

mutual

/-- An operand belongs to an expression. -/
inductive Lowers (cx : LoweringContext) (size : Nat) : List Nat → Expr → Operand → Prop
  | number {held id x} :
      Lowers cx size held (.number id x) ⟨plain [literal x], x.literalType⟩
  | boolean {held id b} :
      Lowers cx size held (.boolean id b) ⟨plain [.i32Const (if b then 1 else 0)], .boolean⟩
  | identifier {held id name slot t} (name_variable : IsVariable cx name slot t) :
      Lowers cx size held (.identifier id name) ⟨plain [.localGet slot], t⟩
  | not {held id a x} (part : Lowers cx size held a x) :
      Lowers cx size held (.unary id .not a) ⟨x.condition ++ plain [.i32Eqz], .boolean⟩
  | minusFloat {held id a x} (part : Lowers cx size held a x) (float : x.type.isFloat = true) :
      Lowers cx size held (.unary id .minus a) ⟨x.code ++ plain [.f64Neg], .float64⟩
  | minusWord {held id a x} (part : Lowers cx size held a x) (word : x.type.isFloat = false) :
      Lowers cx size held (.unary id .minus a)
        ⟨plain [.i32Const 0] ++ x.as .int32 ++ plain [.int .sub], .int32⟩
  | plus {held id a x} (part : Lowers cx size held a x) :
      Lowers cx size held (.unary id .plus a) ⟨x.as x.type.numeric, x.type.numeric⟩
  | binary {held id op a b x y z} (left : Lowers cx size held a x)
      (right : Lowers cx size held b y) (result : Combines op x y z) :
      Lowers cx size held (.binary id op a b) z
  | logical {held id op a b x y slot} (left : Lowers cx size held a x)
      (scratch : IsScratch cx size held slot) (right : Lowers cx size (slot :: held) b y) :
      Lowers cx size held (.logical id op a b)
        ⟨x.truth ++ plain [.localSet slot] ++ logicalChoices op y ++
          plain [.localGet slot, .select], .boolean⟩
  | index {held id object position x y} (parts : TakesParts cx)
      (array : Lowers cx size held object x)
      (is_array : x.type.isArray = true) (at' : Lowers cx size held position y) :
      Lowers cx size held (.index id object position)
        ⟨(address x y).code ++ plain [.load (address x y).type.wordType], (address x y).type⟩
  | length {held id object x} (parts : TakesParts cx) (array : Lowers cx size held object x)
      (is_array : x.type.isArray = true) :
      Lowers cx size held (.property id object "length") (length x)
  | call {held id callee name arguments index signature code}
      (callee_name : callee.identifier? = some name)
      (callee_index : cx.indices.find? name = some index)
      (callee_signature : cx.table.find? name = some signature)
      (arity : signature.arity = arguments.length)
      (inputs : LowersArguments cx size held arguments signature.parameters code) :
      Lowers cx size held (.call id callee arguments)
        ⟨code ++ plain [.call index], signature.returnType⟩

/-- Code belongs to arguments that are converted to the given types. -/
inductive LowersArguments (cx : LoweringContext) (size : Nat) :
    List Nat → List Expr → List ValueType → Code → Prop
  | nil {held} : LowersArguments cx size held [] [] []
  | cons {held e rest t types x code} (head : Lowers cx size held e x)
      (tail : LowersArguments cx size held rest types code) :
      LowersArguments cx size held (e :: rest) (t :: types) (x.as t ++ code)

end

/-- Code belongs to an expression that is run for what it does. -/
inductive Acts (cx : LoweringContext) (size : Nat) : Expr → Code → Prop
  | assignVariable {id i name value slot t x} (name_variable : IsVariable cx name slot t)
      (new : Lowers cx size [] value x) :
      Acts cx size (.assign id .assign (.identifier i name) value)
        (x.as t ++ plain [.localSet slot])
  | combineVariable {id op o i name value slot t x y} (compound : op.binaryOp? = some o)
      (name_variable : IsVariable cx name slot t) (right : Lowers cx size [] value x)
      (new : Combines o ⟨plain [.localGet slot], t⟩ x y) :
      Acts cx size (.assign id op (.identifier i name) value) (y.as t ++ plain [.localSet slot])
  | assignElement {id i object position value x y z} (parts : TakesParts cx)
      (array : Lowers cx size [] object x) (is_array : x.type.isArray = true)
      (at' : Lowers cx size [] position y) (new : Lowers cx size [] value z) :
      Acts cx size (.assign id .assign (.index i object position) value)
        ((address x y).code ++ z.as (address x y).type ++
          plain [.store (address x y).type.wordType])
  | combineElement {id op o i object position value x y z w slot}
      (compound : op.binaryOp? = some o) (parts : TakesParts cx)
      (array : Lowers cx size [] object x) (is_array : x.type.isArray = true)
      (at' : Lowers cx size [] position y) (scratch : IsScratch cx size [] slot)
      (right : Lowers cx size [slot] value z)
      (new : Combines o ⟨plain [.localGet slot, .load (address x y).type.wordType],
        (address x y).type⟩ z w) :
      Acts cx size (.assign id op (.index i object position) value)
        ((address x y).code ++ plain [.localTee slot] ++ w.as (address x y).type ++
          plain [.store (address x y).type.wordType])
  | updateVariable {id op leading i name slot t step} (name_variable : IsVariable cx name slot t)
      (chosen : arithmetic op.binaryOp t.isFloat = .ok step) :
      Acts cx size (.update id op leading (.identifier i name))
        (plain [.localGet slot, one t, step, .localSet slot])
  | updateElement {id op leading i object position x y slot step} (parts : TakesParts cx)
      (array : Lowers cx size [] object x) (is_array : x.type.isArray = true)
      (at' : Lowers cx size [] position y) (scratch : IsScratch cx size [] slot)
      (chosen : arithmetic op.binaryOp (address x y).type.isFloat = .ok step) :
      Acts cx size (.update id op leading (.index i object position))
        ((address x y).code ++ plain [.localTee slot, .localGet slot,
          .load (address x y).type.wordType, one (address x y).type, step,
          .store (address x y).type.wordType])
  | value {e x} (plain_value : e.isEffect = false) (part : Lowers cx size [] e x) :
      Acts cx size e (x.code ++ plain [.drop])

/-- Code belongs to declarators. -/
inductive Declares (cx : LoweringContext) (size : Nat) : List Declarator → Code → Prop
  | nil : Declares cx size [] []
  | bare {target rest name code} (target_name : target.identifier? = some name)
      (tail : Declares cx size rest code) : Declares cx size (⟨target, none⟩ :: rest) code
  | bound {target init rest name slot t x code} (target_name : target.identifier? = some name)
      (name_variable : IsVariable cx name slot t) (new : Lowers cx size [] init x)
      (tail : Declares cx size rest code) :
      Declares cx size (⟨target, some init⟩ :: rest)
        (x.as t ++ plain [.localSet slot] ++ code)

/-- Code belongs to the test of a loop. -/
inductive Exits (cx : LoweringContext) (size : Nat) : Option Expr → Code → Prop
  | never : Exits cx size none []
  | tested {e x} (test : Lowers cx size [] e x) :
      Exits cx size (some e) (x.condition ++ plain [.i32Eqz, .brIf 0])

/-- Code belongs to the step of a loop. -/
inductive Steps (cx : LoweringContext) (size : Nat) : Option Expr → Code → Prop
  | none : Steps cx size none []
  | some {e code} (part : Acts cx size e code) : Steps cx size (some e) code

mutual

/-- Code belongs to a statement. -/
inductive LowersStatement (cx : LoweringContext) (size : Nat) : Statement → Code → Prop
  | declare {kind ds code} (parts : Declares cx size ds code) :
      LowersStatement cx size (.declare kind ds) code
  | expression {e code} (part : Acts cx size e code) :
      LowersStatement cx size (.expression e) code
  | retZero : LowersStatement cx size (.ret none) (plain [zero cx.signature.returnType, .ret])
  | ret {e x} (part : Lowers cx size [] e x) :
      LowersStatement cx size (.ret (some e)) (x.as cx.signature.returnType ++ plain [.ret])
  | conditional {test consequent alternate x code other} (condition : Lowers cx size [] test x)
      (first : LowersStatement cx size consequent code)
      (second : LowersAlternative cx size alternate other) :
      LowersStatement cx size (.conditional test consequent alternate)
        (x.condition ++ [.choice code other])
  | whileLoop {test body exit code} (leaving : Exits cx size (some test) exit)
      (round : LowersStatement cx size body code) :
      LowersStatement cx size (.whileLoop test body) (roundAndRound exit code [])
  | forLoop {init test update body first exit code step}
      (before : LowersInitial cx size init first) (leaving : Exits cx size test exit)
      (round : LowersStatement cx size body code) (stepping : Steps cx size update step) :
      LowersStatement cx size (.forLoop init test update body)
        (first ++ roundAndRound exit code step)
  | block {body code} (parts : LowersStatements cx size body code) :
      LowersStatement cx size (.block body) code
  | empty : LowersStatement cx size .empty []

/-- Code belongs to the second branch of a conditional. -/
inductive LowersAlternative (cx : LoweringContext) (size : Nat) :
    Option Statement → Option Code → Prop
  | none : LowersAlternative cx size none none
  | some {s code} (part : LowersStatement cx size s code) :
      LowersAlternative cx size (some s) (some code)

/-- Code belongs to what stands before a loop. -/
inductive LowersInitial (cx : LoweringContext) (size : Nat) : Option Statement → Code → Prop
  | none : LowersInitial cx size none []
  | some {s code} (part : LowersStatement cx size s code) : LowersInitial cx size (some s) code

/-- Code belongs to statements in order. -/
inductive LowersStatements (cx : LoweringContext) (size : Nat) : List Statement → Code → Prop
  | nil : LowersStatements cx size [] []
  | cons {s rest code tail} (first : LowersStatement cx size s code)
      (others : LowersStatements cx size rest tail) :
      LowersStatements cx size (s :: rest) (code ++ tail)

end

end ArrayScript.Lowering
