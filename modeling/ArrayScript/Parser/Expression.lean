import ArrayScript.Parser.Take
import ArrayScript.Syntax.Expr

/-!
The grammar of expressions.

From loosest to tightest: assignment, which groups to the right; `||`; `&&`;
equality; order; sums; products; powers, which group to the right; unary
operators and leading updates; one trailing update; calls, subscripts and
properties; and the primary expressions. The six kinds of left-grouping binary
operators differ only in their tokens, so one reader, `chain`, serves them all.

Ids are left at zero.
-/

namespace ArrayScript.Parser

/-! ### Tokens as operators -/

/-- An operator that joins two operands. -/
inductive Connective where
  | binary (op : BinaryOp)
  | logical (op : LogicalOp)
  deriving DecidableEq, Repr

/-- The expression that joins two operands. -/
def Connective.join : Connective → Expr → Expr → Expr
  | binary op, left, right => .binary 0 op left right
  | logical op, left, right => .logical 0 op left right

/-- The operators of each left-grouping level, from products at `1` to `||` at `6`. -/
def connective? : (level : Nat) → TokenKind → Option Connective
  | 1, .star => some (.binary .mul)
  | 1, .slash => some (.binary .div)
  | 1, .percent => some (.binary .rem)
  | 2, .plus => some (.binary .add)
  | 2, .minus => some (.binary .sub)
  | 3, .lt => some (.binary .lt)
  | 3, .le => some (.binary .le)
  | 3, .gt => some (.binary .gt)
  | 3, .ge => some (.binary .ge)
  | 4, .eq => some (.binary .eq)
  | 4, .neq => some (.binary .ne)
  | 5, .andAnd => some (.logical .and)
  | 6, .orOr => some (.logical .or)
  | _, _ => none

/-- The loosest of the left-grouping levels. -/
def loosest : Nat := 6

/-- Tokens that assign. -/
def assignOp? : TokenKind → Option AssignOp
  | .assign => some .assign
  | .plusAssign => some .addAssign
  | .minusAssign => some .subAssign
  | .starAssign => some .mulAssign
  | .slashAssign => some .divAssign
  | .percentAssign => some .remAssign
  | _ => none

/-- Tokens that act on the operand after them. -/
def unaryOp? : TokenKind → Option UnaryOp
  | .bang => some .not
  | .minus => some .minus
  | .plus => some .plus
  | _ => none

/-- Tokens that step a variable or element. -/
def updateOp? : TokenKind → Option UpdateOp
  | .plusPlus => some .increment
  | .minusMinus => some .decrement
  | _ => none

/-! ### The readers -/

mutual

/-- An assignment, or an expression of a tighter level. -/
def assignment (ts : List Token) : Reading Expr ts.length := do
  let ⟨target, ts₁, h₁⟩ ← chain loosest ts
  match take? assignOp? ts₁ with
  | none => return ⟨target, ts₁, h₁⟩
  | some ⟨op, ts₂, h₂⟩ =>
    let ⟨value, ts₃, h₃⟩ ← assignment ts₂
    return .past h₁ (.past h₂ ⟨.assign 0 op target value, ts₃, h₃⟩)
termination_by (ts.length, loosest + 5)

/-- Operands joined by the operators of a level, grouped to the left; level `0` is
that of powers. -/
def chain (level : Nat) (ts : List Token) : Reading Expr ts.length :=
  match level with
  | 0 => power ts
  | tighter + 1 => do
    let ⟨left, ts₁, h₁⟩ ← chain tighter ts
    let ⟨e, ts₂, h₂⟩ ← chainRest tighter left ts₁
    return .after h₁ ⟨e, ts₂, h₂⟩
termination_by (ts.length, level + 4)

/-- The operators and operands that follow the first operand of a level, whose
operands are chains of the next tighter one. -/
def chainRest (tighter : Nat) (left : Expr) (ts : List Token) :
    Reading Expr (ts.length + 1) :=
  match take? (connective? (tighter + 1)) ts with
  | none => .ok (.here left ts)
  | some ⟨c, ts₁, h₁⟩ => do
    let ⟨right, ts₂, h₂⟩ ← chain tighter ts₁
    let ⟨e, ts₃, h₃⟩ ← chainRest tighter (c.join left right) ts₂
    return .loose (.past h₁ (.after h₂ ⟨e, ts₃, h₃⟩))
termination_by (ts.length, 0)

/-- A power, grouped to the right, or an expression of a tighter level. -/
def power (ts : List Token) : Reading Expr ts.length := do
  let ⟨base, ts₁, h₁⟩ ← unary ts
  match takeToken? .starStar ts₁ with
  | none => return ⟨base, ts₁, h₁⟩
  | some ⟨(), ts₂, h₂⟩ =>
    let ⟨exponent, ts₃, h₃⟩ ← power ts₂
    return .past h₁ (.past h₂ ⟨.binary 0 .pow base exponent, ts₃, h₃⟩)
termination_by (ts.length, 3)

/-- Unary operators and leading updates before an expression of a tighter level. -/
def unary (ts : List Token) : Reading Expr ts.length :=
  match take? unaryOp? ts with
  | some ⟨op, ts₁, h₁⟩ => do
    let ⟨argument, ts₂, h₂⟩ ← unary ts₁
    return .past h₁ ⟨.unary 0 op argument, ts₂, h₂⟩
  | none =>
    match take? updateOp? ts with
    | some ⟨op, ts₁, h₁⟩ => do
      let ⟨argument, ts₂, h₂⟩ ← unary ts₁
      return .past h₁ ⟨.update 0 op true argument, ts₂, h₂⟩
    | none => trailing ts
termination_by (ts.length, 2)

/-- A primary expression with what is applied to it, and at most one trailing update. -/
def trailing (ts : List Token) : Reading Expr ts.length := do
  let ⟨head, ts₁, h₁⟩ ← primary ts
  let ⟨e, ts₂, h₂⟩ ← applied head ts₁
  match take? updateOp? ts₂ with
  | none => return .after h₁ ⟨e, ts₂, h₂⟩
  | some ⟨op, ts₃, h₃⟩ => return .past h₁ (.within h₂ ⟨.update 0 op false e, ts₃, h₃⟩)
termination_by (ts.length, 1)

/-- The argument lists, subscripts and properties applied to an expression. -/
def applied (head : Expr) (ts : List Token) : Reading Expr (ts.length + 1) :=
  match ts with
  | ⟨.leftParen, _⟩ :: ts₁ => do
    let ⟨arguments, ts₂, h₂⟩ ← items .rightParen ts₁
    let ⟨(), ts₃, h₃⟩ ← expect .rightParen ts₂
    let ⟨e, ts₄, h₄⟩ ← applied (.call 0 head arguments) ts₃
    return .loose (.past h₂ (.after h₃ ⟨e, ts₄, h₄⟩))
  | ⟨.leftBracket, _⟩ :: ts₁ => do
    let ⟨position, ts₂, h₂⟩ ← assignment ts₁
    let ⟨(), ts₃, h₃⟩ ← expect .rightBracket ts₂
    let ⟨e, ts₄, h₄⟩ ← applied (.index 0 head position) ts₃
    return .loose (.loose (.past h₂ (.after h₃ ⟨e, ts₄, h₄⟩)))
  | ⟨.dot, _⟩ :: ts₁ => do
    let ⟨name, ts₂, h₂⟩ ← expectName .propertyName ts₁
    let ⟨e, ts₃, h₃⟩ ← applied (.property 0 head name) ts₂
    return .loose (.loose (.after h₂ ⟨e, ts₃, h₃⟩))
  | ts => .ok (.here head ts)
termination_by (ts.length, 0)

/-- Literals, names, parenthesised expressions and array literals. -/
def primary (ts : List Token) : Reading Expr ts.length :=
  match ts with
  | [] => .error .unexpectedEnd
  | t :: ts₁ =>
    match t.kind with
    | .number value => .ok (.here (.number 0 value) ts₁)
    | .true => .ok (.here (.boolean 0 true) ts₁)
    | .false => .ok (.here (.boolean 0 false) ts₁)
    | .identifier name => .ok (.here (.identifier 0 name) ts₁)
    | .leftParen => do
      let ⟨e, ts₂, h₂⟩ ← assignment ts₁
      let ⟨(), ts₃, h₃⟩ ← expect .rightParen ts₂
      return .loose (.past h₂ ⟨e, ts₃, h₃⟩)
    | .leftBracket => do
      let ⟨elements, ts₂, h₂⟩ ← items .rightBracket ts₁
      let ⟨(), ts₃, h₃⟩ ← expect .rightBracket ts₂
      return .past h₂ ⟨.array 0 elements, ts₃, h₃⟩
    | .eof => .error .unexpectedEnd
    | _ => .error (.notAnExpression t)
termination_by (ts.length, 0)

/-- Expressions separated by commas, up to the closing token; a comma may stand
before it. -/
def items (close : TokenKind) (ts : List Token) :
    Reading (List Expr) (ts.length + 1) :=
  if (firstToken ts).kind = close then .ok (.here [] ts)
  else do
    let ⟨e, ts₁, h₁⟩ ← assignment ts
    match takeToken? .comma ts₁ with
    | none => return .loose ⟨[e], ts₁, h₁⟩
    | some ⟨(), ts₂, h₂⟩ =>
      let ⟨es, ts₃, h₃⟩ ← items close ts₂
      return .loose (.past h₁ (.after h₂ ⟨e :: es, ts₃, h₃⟩))
termination_by (ts.length, loosest + 6)

end

end ArrayScript.Parser
