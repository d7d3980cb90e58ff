import ArrayScript.Syntax.Expr
import ArrayScript.ValueType

/-!
Statements, functions and programs.

The grammar is wider than what compiles: patterns other than plain names,
functions inside functions and statements outside functions are all represented,
so that each can be refused by name.
-/

namespace ArrayScript

/-- What a parameter or a declaration binds. -/
inductive Pattern where
  /-- a plain name -/
  | identifier (name : String)
  /-- `[a, b]` -/
  | array (elements : List Pattern)
  /-- `{a, b}` -/
  | object (keys : List String)
  deriving Repr, Inhabited

/-- The name, if the pattern is a plain one. -/
def Pattern.identifier? : Pattern → Option String
  | identifier name => some name
  | array _ | object _ => none

/-- A parameter with the type written after it, if any. -/
structure Param where
  pattern : Pattern
  declared : Option ValueType := none
  deriving Repr, Inhabited

/-- The keyword that opens a declaration. -/
inductive DeclarationKind where
  | var
  | let'
  | const
  deriving DecidableEq, Repr, Inhabited

/-- One binding of a declaration with its initial value, if any. -/
structure Declarator where
  target : Pattern
  init : Option Expr := none
  deriving Repr, Inhabited

/-- Statements. -/
inductive Statement where
  /-- a function, nameless if `name` is `none` -/
  | function (name : Option String) (params : List Param) (returnType : Option ValueType)
      (body : List Statement)
  /-- `var a = 1, b;` -/
  | declare (kind : DeclarationKind) (declarators : List Declarator)
  /-- an expression followed by a semicolon -/
  | expression (e : Expr)
  /-- `return;` or `return e;` -/
  | ret (argument : Option Expr)
  /-- `if (test) consequent else alternate` -/
  | conditional (test : Expr) (consequent : Statement) (alternate : Option Statement)
  /-- `while (test) body` -/
  | whileLoop (test : Expr) (body : Statement)
  /-- `for (init; test; update) body` -/
  | forLoop (init : Option Statement) (test update : Option Expr) (body : Statement)
  /-- statements between braces -/
  | block (body : List Statement)
  /-- a lone semicolon -/
  | empty
  deriving Repr, Inhabited

/-- What kind of statement it is, in the words of messages. -/
def Statement.kindName : Statement → String
  | function _ _ _ _ => "function declaration"
  | declare _ _ => "variable declaration"
  | expression _ => "expression statement"
  | ret _ => "return statement"
  | conditional _ _ _ => "if statement"
  | whileLoop _ _ => "while statement"
  | forLoop _ _ _ _ => "for statement"
  | block _ => "block statement"
  | empty => "empty statement"

/-- A function declaration. -/
structure FunctionDeclaration where
  name : Option String
  params : List Param
  returnType : Option ValueType
  body : List Statement
  deriving Repr, Inhabited

/-- A name to show; a nameless function is called anonymous. -/
def displayName (name : Option String) : String :=
  name.getD "<anonymous>"

/-- The name of a function in messages. -/
def FunctionDeclaration.displayName (f : FunctionDeclaration) : String :=
  ArrayScript.displayName f.name

/-- The function a statement declares. -/
def Statement.function? : Statement → Option FunctionDeclaration
  | function name params returnType body => some ⟨name, params, returnType, body⟩
  | _ => none

/-- A compilation unit. -/
structure Program where
  body : List Statement
  deriving Repr, Inhabited

/-- The functions of a program in order; other statements are passed over. -/
def Program.functions (p : Program) : List FunctionDeclaration :=
  p.body.filterMap Statement.function?

/-! ### Ids -/

/-- Gives out ids in an optional expression. -/
def Expr.renumberOption (next : ExprId) : Option Expr → Option Expr × ExprId
  | none => (none, next)
  | some e =>
    let (e, last) := e.renumber next
    (some e, last)

/-- Gives out ids in the initial values of declarators. -/
def Declarator.renumberList (next : ExprId) : List Declarator → List Declarator × ExprId
  | [] => ([], next)
  | d :: rest =>
    let (init, mid) := Expr.renumberOption next d.init
    let (rest, last) := renumberList mid rest
    ({ d with init := init } :: rest, last)

namespace Statement

mutual

/-- Gives out ids from `next` on to the expressions of a statement in the order in
which they are written, a loop's header before its body. -/
def renumber (next : ExprId) : Statement → Statement × ExprId
  | function name params returnType body =>
    let (body, last) := renumberList next body
    (function name params returnType body, last)
  | declare kind declarators =>
    let (declarators, last) := Declarator.renumberList next declarators
    (declare kind declarators, last)
  | expression e =>
    let (e, last) := e.renumber next
    (expression e, last)
  | ret argument =>
    let (argument, last) := Expr.renumberOption next argument
    (ret argument, last)
  | conditional test consequent alternate =>
    let (test, next) := test.renumber next
    let (consequent, next) := renumber next consequent
    let (alternate, last) := renumberOption next alternate
    (conditional test consequent alternate, last)
  | whileLoop test body =>
    let (test, next) := test.renumber next
    let (body, last) := renumber next body
    (whileLoop test body, last)
  | forLoop init test update body =>
    let (init, next) := renumberOption next init
    let (test, next) := Expr.renumberOption next test
    let (update, next) := Expr.renumberOption next update
    let (body, last) := renumber next body
    (forLoop init test update body, last)
  | block body =>
    let (body, last) := renumberList next body
    (block body, last)
  | empty => (empty, next)

/-- Gives out ids in an optional statement. -/
def renumberOption (next : ExprId) : Option Statement → Option Statement × ExprId
  | none => (none, next)
  | some s =>
    let (s, last) := renumber next s
    (some s, last)

/-- Gives out ids along a list of statements. -/
def renumberList (next : ExprId) : List Statement → List Statement × ExprId
  | [] => ([], next)
  | s :: rest =>
    let (s, mid) := renumber next s
    let (rest, last) := renumberList mid rest
    (s :: rest, last)

end

end Statement

/-- The program with its expressions numbered from zero in the order in which they
are written, whatever ids they had before. -/
def Program.renumber (p : Program) : Program :=
  ⟨(Statement.renumberList 0 p.body).1⟩

end ArrayScript
