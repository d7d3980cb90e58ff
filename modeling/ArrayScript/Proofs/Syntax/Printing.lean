import ArrayScript.Proofs.Syntax.Erasure
import ArrayScript.Token

/-!
Programs as tokens.

Expressions have levels, from the loosest to the tightest: assignment `0`, `||` `1`, `&&`
`2`, equality `3`, order `4`, sums `5`, products `6`, powers `7`, unary operators and
leading updates `8`, trailing updates `9`, calls, members and primary expressions `10`. The
place of an expression needs a level, and an expression of a lower one is printed in
parentheses (`enclose`).

* `Expr.print`, `Statement.print`, `Program.print`: the kinds of the tokens.
* `Program.isExpressible`: the programs for which these tokens are not ambiguous.
-/

namespace ArrayScript

/-! ### Operators -/

/-- The token of a unary operator. -/
def UnaryOp.token : UnaryOp → TokenKind
  | not => .bang
  | minus => .minus
  | plus => .plus

/-- The token of an update. -/
def UpdateOp.token : UpdateOp → TokenKind
  | increment => .plusPlus
  | decrement => .minusMinus

/-- The token of an assignment. -/
def AssignOp.token : AssignOp → TokenKind
  | assign => .assign
  | addAssign => .plusAssign
  | subAssign => .minusAssign
  | mulAssign => .starAssign
  | divAssign => .slashAssign
  | remAssign => .percentAssign

namespace LogicalOp

/-- The token of a logical operator. -/
def token : LogicalOp → TokenKind
  | and => .andAnd
  | or => .orOr

/-- The level of a logical operator. -/
def level : LogicalOp → Nat
  | or => 1
  | and => 2

end LogicalOp

namespace BinaryOp

/-- The token of a binary operator. -/
def token : BinaryOp → TokenKind
  | add => .plus
  | sub => .minus
  | mul => .star
  | div => .slash
  | rem => .percent
  | pow => .starStar
  | lt => .lt
  | le => .le
  | eq => .eq
  | ne => .neq
  | ge => .ge
  | gt => .gt

/-- The level of a binary operator. -/
def level : BinaryOp → Nat
  | eq | ne => 3
  | lt | le | ge | gt => 4
  | add | sub => 5
  | mul | div | rem => 6
  | pow => 7

/-- What the left operand needs: only powers do not group to the left. -/
def leftNeed : BinaryOp → Nat
  | pow => 8
  | op => op.level

/-- What the right operand needs: only powers group to the right. -/
def rightNeed : BinaryOp → Nat
  | pow => 7
  | op => op.level + 1

end BinaryOp

/-! ### Expressions -/

/-- Lists of tokens with commas between them. -/
def separated : List (List TokenKind) → List TokenKind
  | [] => []
  | [ks] => ks
  | ks :: rest => ks ++ .comma :: separated rest

/-- Tokens in parentheses if their level is lower than the one that is needed. -/
def enclose (need level : Nat) (ks : List TokenKind) : List TokenKind :=
  if level < need then .leftParen :: ks ++ [.rightParen] else ks

namespace Expr

/-- The level of an expression. -/
def level : Expr → Nat
  | assign _ _ _ _ => 0
  | logical _ op _ _ => op.level
  | binary _ op _ _ => op.level
  | unary _ _ _ | update _ _ true _ => 8
  | update _ _ false _ => 9
  | number _ _ | boolean _ _ | identifier _ _ | array _ _ | call _ _ _ | index _ _ _
  | property _ _ _ => 10

/-- Ten is the tightest level: where it is needed, every expression of a lower level stands
in parentheses. -/
lemma level_le (e : Expr) : e.level ≤ 10 := by
  match e with
  | logical _ op _ _ =>
      rw [level]
      cases op <;> decide
  | binary _ op _ _ =>
      rw [level]
      cases op <;> decide
  | assign _ _ _ _ | unary _ _ _ | update _ _ true _ | update _ _ false _ | number _ _
  | boolean _ _ | identifier _ _ | array _ _ | call _ _ _ | index _ _ _ | property _ _ _ =>
      exact Nat.le_of_ble_eq_true rfl

mutual

/-- The tokens of an expression where no level is needed. -/
def print : Expr → List TokenKind
  | number _ x => [.number x]
  | boolean _ true => [.true]
  | boolean _ false => [.false]
  | identifier _ name => [.identifier name]
  | array _ elements => .leftBracket :: separated (printAll elements) ++ [.rightBracket]
  | unary _ op a => op.token :: enclose 8 a.level (print a)
  | binary _ op a b =>
    enclose op.leftNeed a.level (print a) ++ op.token :: enclose op.rightNeed b.level (print b)
  | logical _ op a b =>
    enclose op.level a.level (print a) ++ op.token :: enclose (op.level + 1) b.level (print b)
  | update _ op true a => op.token :: enclose 8 a.level (print a)
  | update _ op false a => enclose 10 a.level (print a) ++ [op.token]
  | assign _ op a b => enclose 1 a.level (print a) ++ op.token :: print b
  | call _ f arguments =>
    enclose 10 f.level (print f) ++ .leftParen :: separated (printAll arguments) ++ [.rightParen]
  | index _ a b => enclose 10 a.level (print a) ++ .leftBracket :: print b ++ [.rightBracket]
  | property _ a name => enclose 10 a.level (print a) ++ [.dot, .identifier name]

/-- The tokens of each expression of a list. -/
def printAll : List Expr → List (List TokenKind)
  | [] => []
  | e :: rest => print e :: printAll rest

end

/-- The tokens of an expression where a level is needed. -/
def printAt (need : Nat) (e : Expr) : List TokenKind :=
  enclose need e.level e.print

/-- The tokens of an expression that may be left out. -/
def printOption : Option Expr → List TokenKind
  | none => []
  | some e => e.print

/-- Elements and arguments are printed one by one. -/
lemma printAll_eq_map (es : List Expr) : printAll es = es.map print := by
  induction es with
  | nil => rfl
  | cons e rest ih => rw [printAll, ih, List.map_cons]

end Expr

/-! ### Bindings -/

namespace Pattern

mutual

/-- The tokens of a pattern. -/
def print : Pattern → List TokenKind
  | identifier name => [.identifier name]
  | array elements => .leftBracket :: separated (printAll elements) ++ [.rightBracket]
  | object keys =>
    .leftBrace :: separated (keys.map fun key => [.identifier key]) ++ [.rightBrace]

/-- The tokens of each pattern of a list. -/
def printAll : List Pattern → List (List TokenKind)
  | [] => []
  | p :: rest => print p :: printAll rest

end

/-- The elements of a pattern are printed one by one. -/
lemma printAll_eq_map (ps : List Pattern) : printAll ps = ps.map print := by
  induction ps with
  | nil => rfl
  | cons p rest ih => rw [printAll, ih, List.map_cons]

end Pattern

/-- The tokens of a type. -/
def ValueType.print : ValueType → List TokenKind
  | int32 => [.identifier "int"]
  | float64 => [.identifier "double"]
  | boolean => [.identifier "boolean"]
  | int32Array => [.identifier "int", .leftBracket, .rightBracket]
  | float64Array => [.identifier "double", .leftBracket, .rightBracket]

/-- The tokens of a type that may be left out, and of the colon before it. -/
def ValueType.printMark : Option ValueType → List TokenKind
  | none => []
  | some t => .colon :: t.print

/-- The tokens of a parameter. -/
def Param.print (p : Param) : List TokenKind :=
  p.pattern.print ++ ValueType.printMark p.declared

/-- The tokens of an initial value that may be left out, and of the equals sign before
it. -/
def Expr.printInit : Option Expr → List TokenKind
  | none => []
  | some e => .assign :: e.print

/-- The tokens of a declarator. -/
def Declarator.print (d : Declarator) : List TokenKind :=
  d.target.print ++ Expr.printInit d.init

/-- The token that opens a declaration. -/
def DeclarationKind.token : DeclarationKind → TokenKind
  | var => .var
  | let' => .let'
  | const => .const

/-- The tokens of a declaration without the semicolon. -/
def Declarator.printAll (kind : DeclarationKind) (ds : List Declarator) : List TokenKind :=
  kind.token :: separated (ds.map Declarator.print)

/-! ### Statements -/

namespace Statement

/-- The tokens of what a `for` starts with, without the semicolon. -/
def printInit : Option Statement → List TokenKind
  | some (declare kind ds) => Declarator.printAll kind ds
  | some (expression e) => e.print
  | _ => []

mutual

/-- The tokens of a statement. -/
def print : Statement → List TokenKind
  | function name params returnType body =>
    .function :: (name.map TokenKind.identifier).toList ++
      .leftParen :: separated (params.map Param.print) ++ .rightParen ::
      ValueType.printMark returnType ++ .leftBrace :: printAll body ++ [.rightBrace]
  | declare kind ds => Declarator.printAll kind ds ++ [.semicolon]
  | expression e => e.print ++ [.semicolon]
  | ret argument => .return' :: Expr.printOption argument ++ [.semicolon]
  | conditional test consequent alternate =>
    .if' :: .leftParen :: test.print ++ .rightParen :: print consequent ++ printElse alternate
  | whileLoop test body => .while' :: .leftParen :: test.print ++ .rightParen :: print body
  | forLoop init test update body =>
    .for' :: .leftParen :: printInit init ++ .semicolon :: Expr.printOption test ++
      .semicolon :: Expr.printOption update ++ .rightParen :: print body
  | block body => .leftBrace :: printAll body ++ [.rightBrace]
  | empty => [.semicolon]

/-- The tokens of an alternate that may be left out, and of the `else` before it. -/
def printElse : Option Statement → List TokenKind
  | none => []
  | some s => .else' :: print s

/-- The tokens of statements one after another. -/
def printAll : List Statement → List TokenKind
  | [] => []
  | s :: rest => print s ++ printAll rest

end

/-! ### Expressible programs -/

mutual

/-- Whether a statement ends with an `if` without alternate, outside braces. An `else`
after it would belong to that `if`. -/
def endsOpen : Statement → Bool
  | conditional _ _ alternate => endsOpenElse alternate
  | whileLoop _ body | forLoop _ _ _ body => endsOpen body
  | function _ _ _ _ | declare _ _ | expression _ | ret _ | block _ | empty => false

/-- Whether an `if` ends so after its alternate. -/
def endsOpenElse : Option Statement → Bool
  | none => true
  | some s => endsOpen s

end

/-- Whether a `for` can start so: with nothing, an expression, or a declaration of
something. -/
def isLoopInit : Option Statement → Bool
  | none | some (expression _) => true
  | some (declare _ ds) => !ds.isEmpty
  | some _ => false

mutual

/-- Whether a statement can be written down: declarations declare something, a `for` starts
as it can, and no `else` belongs to another `if`. -/
def isExpressible : Statement → Bool
  | function _ _ _ body | block body => isExpressibleAll body
  | declare _ ds => !ds.isEmpty
  | conditional _ consequent alternate =>
    (alternate.isNone || !endsOpen consequent) && isExpressible consequent &&
      isExpressibleElse alternate
  | whileLoop _ body => isExpressible body
  | forLoop init _ _ body => isLoopInit init && isExpressible body
  | expression _ | ret _ | empty => true

/-- Whether an alternate can be written down. -/
def isExpressibleElse : Option Statement → Bool
  | none => true
  | some s => isExpressible s

/-- Whether all statements of a list can be written down. -/
def isExpressibleAll : List Statement → Bool
  | [] => true
  | s :: rest => isExpressible s && isExpressibleAll rest

end

/-! ### Ids do not matter -/

mutual

/-- Whether an `else` would be captured is a matter of the statements alone, and so does not
depend on ids. -/
lemma endsOpen_erase : ∀ s : Statement, s.erase.endsOpen = s.endsOpen
  | conditional _ _ alternate => by
      rw [erase, endsOpen, endsOpen, endsOpenElse_erase alternate]
  | whileLoop _ body | forLoop _ _ _ body => by
      rw [erase, endsOpen, endsOpen, endsOpen_erase body]
  | function _ _ _ _ | declare _ _ | expression _ | ret _ | block _ | empty => rfl

/-- The same of what stands behind an `else`. -/
lemma endsOpenElse_erase : ∀ s : Option Statement, endsOpenElse (eraseOption s) = endsOpenElse s
  | none => rfl
  | some s => endsOpen_erase s

end

/-- Whether a `for` can start so does not depend on ids: a list of declarators is as long as
it was. -/
lemma isLoopInit_erase (s : Option Statement) : isLoopInit (eraseOption s) = isLoopInit s := by
  cases s with
  | none => rfl
  | some s =>
      cases s with
      | declare kind ds =>
          rw [eraseOption, erase, isLoopInit, isLoopInit, List.isEmpty_map]
      | _ => rfl

mutual

/-- Whether a statement can be written down does not depend on ids. -/
lemma isExpressible_erase : ∀ s : Statement, s.erase.isExpressible = s.isExpressible
  | function _ _ _ body | block body => isExpressibleAll_erase body
  | declare _ ds => by
      rw [erase, isExpressible, isExpressible, List.isEmpty_map]
  | conditional _ consequent alternate => by
      rw [erase, isExpressible, isExpressible, endsOpen_erase, isExpressible_erase consequent,
        isExpressibleElse_erase alternate]
      -- there is an alternate afterwards if and only if there was one
      cases alternate with
      | none => rfl
      | some s => rfl
  | whileLoop _ body => isExpressible_erase body
  | forLoop init _ _ body => by
      rw [erase, isExpressible, isExpressible, isLoopInit_erase, isExpressible_erase body]
  | expression _ | ret _ | empty => rfl

/-- Whether an alternate can be written down does not depend on ids. -/
lemma isExpressibleElse_erase : ∀ s : Option Statement,
    isExpressibleElse (eraseOption s) = isExpressibleElse s
  | none => rfl
  | some s => isExpressible_erase s

/-- Whether all statements of a list can be written down does not depend on ids. -/
lemma isExpressibleAll_erase : ∀ ss : List Statement,
    isExpressibleAll (eraseAll ss) = isExpressibleAll ss
  | [] => rfl
  | s :: rest => by
      rw [eraseAll, isExpressibleAll, isExpressibleAll, isExpressible_erase s,
        isExpressibleAll_erase rest]

end

end Statement

namespace Program

/-- The tokens of a program. -/
def print (p : Program) : List TokenKind :=
  Statement.printAll p.body

/-- Whether a program can be written down. -/
def isExpressible (p : Program) : Bool :=
  Statement.isExpressibleAll p.body

/-- A program can be written down if and only if it can after renumbering: both differ from
the program without ids in nothing but ids. -/
lemma isExpressible_renumber (p : Program) : p.renumber.isExpressible = p.isExpressible := by
  have h : p.renumber.erase.isExpressible = p.erase.isExpressible := by rw [p.erase_renumber]
  rwa [isExpressible, isExpressible, erase, erase, Statement.isExpressibleAll_erase,
    Statement.isExpressibleAll_erase] at h

end Program

end ArrayScript
