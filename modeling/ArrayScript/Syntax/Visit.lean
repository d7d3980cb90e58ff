import ArrayScript.Syntax.Statement

/-!
The order in which a program is walked.

* `Statement.visits` lists every statement, function, declarator and expression
  inside a statement, each before its parts and the parts in the order in which
  they are written. Analyses that only ask what occurs in a function read this
  list.
* `Statement.roots` lists the declarators and the outermost expressions in the
  same order, but does not go into inner functions. Analyses that treat a function
  body from the first to the last expression read this list.
-/

namespace ArrayScript

/-- One stop of a walk. -/
inductive Visit where
  | statement (s : Statement)
  | function (f : FunctionDeclaration)
  | declarator (d : Declarator)
  | expression (e : Expr)
  deriving Repr, Inhabited

namespace Visit

/-- The expression met at a stop. -/
def expression? : Visit → Option Expr
  | expression e => some e
  | statement _ | function _ | declarator _ => none

/-- How a stop is shown: the kind of a statement, the name of a function or
declarator, the id and kind of an expression. -/
def display : Visit → String
  | statement s => s.kindName
  | function f => "function " ++ f.displayName
  | declarator d => "declarator " ++ d.target.identifier?.getD "<pattern>"
  | expression e =>
    toString e.id ++ " " ++ e.kindName ++ (if e.isEffect then " effect" else "")

end Visit

/-- The stops inside an optional expression. -/
def Expr.visitsOption : Option Expr → List Visit
  | none => []
  | some e => e.preorder.map .expression

/-- The stops inside declarators. -/
def Declarator.visits : List Declarator → List Visit
  | [] => []
  | d :: rest => .declarator d :: (Expr.visitsOption d.init ++ visits rest)

namespace Statement

mutual

/-- The stops of a walk through a statement. -/
def visits : Statement → List Visit
  | s@(function name params returnType body) =>
    .statement s :: .function ⟨name, params, returnType, body⟩ :: visitsList body
  | s@(declare _ declarators) => .statement s :: Declarator.visits declarators
  | s@(expression e) => .statement s :: e.preorder.map .expression
  | s@(ret argument) => .statement s :: Expr.visitsOption argument
  | s@(conditional test consequent alternate) =>
    .statement s :: (test.preorder.map .expression ++ visits consequent ++
      visitsOption alternate)
  | s@(whileLoop test body) =>
    .statement s :: (test.preorder.map .expression ++ visits body)
  | s@(forLoop init test update body) =>
    .statement s :: (visitsOption init ++ Expr.visitsOption test ++
      Expr.visitsOption update ++ visits body)
  | s@(block body) => .statement s :: visitsList body
  | s@empty => [.statement s]

/-- The stops of a walk through an optional statement. -/
def visitsOption : Option Statement → List Visit
  | none => []
  | some s => visits s

/-- The stops of a walk through statements in order. -/
def visitsList : List Statement → List Visit
  | [] => []
  | s :: rest => visits s ++ visitsList rest

end

end Statement

/-- The stops of a walk through the body of a function, inner functions included. -/
def FunctionDeclaration.visits (f : FunctionDeclaration) : List Visit :=
  Statement.visitsList f.body

/-- The expressions in the body of a function, inner functions included. -/
def FunctionDeclaration.expressions (f : FunctionDeclaration) : List Expr :=
  f.visits.filterMap Visit.expression?

/-- The stops of a walk through a whole program. -/
def Program.visits (p : Program) : List Visit :=
  Statement.visitsList p.body

/-- A walk that is broken off once `stop` stops were made, but not before the
first: the stops made, and whether the walk came to its end. -/
def Program.visitsUntil (p : Program) (stop : Nat) : List Visit × Bool :=
  (p.visits.take (max stop 1), p.visits.length < max stop 1)

/-- The names of all identifier expressions in the order of a walk. -/
def Program.identifiers (p : Program) : List String :=
  p.visits.filterMap fun v => v.expression?.bind Expr.identifier?

/-! ### The outermost expressions -/

/-- A declarator, or an expression that is not inside another. -/
inductive Root where
  | declarator (d : Declarator)
  | expression (e : Expr)
  deriving Repr, Inhabited

/-- An optional expression as a root. -/
def Root.ofOption : Option Expr → List Root
  | none => []
  | some e => [.expression e]

namespace Statement

mutual

/-- The declarators and outermost expressions of a statement. -/
def roots : Statement → List Root
  | function _ _ _ _ => []
  | declare _ declarators => declarators.map .declarator
  | expression e => [.expression e]
  | ret argument => Root.ofOption argument
  | conditional test consequent alternate =>
    .expression test :: (roots consequent ++ rootsOption alternate)
  | whileLoop test body => .expression test :: roots body
  | forLoop init test update body =>
    rootsOption init ++ Root.ofOption test ++ Root.ofOption update ++ roots body
  | block body => rootsList body
  | empty => []

/-- The roots of an optional statement. -/
def rootsOption : Option Statement → List Root
  | none => []
  | some s => roots s

/-- The roots of statements in order. -/
def rootsList : List Statement → List Root
  | [] => []
  | s :: rest => roots s ++ rootsList rest

end

end Statement

/-- The declarators and outermost expressions of a function body. -/
def FunctionDeclaration.roots (f : FunctionDeclaration) : List Root :=
  Statement.rootsList f.body

end ArrayScript
