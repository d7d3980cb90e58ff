import ArrayScript.Double
import ArrayScript.Syntax.Operator

/-!
Expressions.

Every node carries a number, its *id*, under which analyses record what they
find. The ids of a program are given out by `Program.renumber`; until then they
have no meaning.
-/

namespace ArrayScript

/-- The number of an expression within its program. -/
abbrev ExprId := Nat

/-- Expressions, each with its id. -/
inductive Expr where
  /-- a numeric literal -/
  | number (id : ExprId) (value : Double)
  /-- `true` or `false` -/
  | boolean (id : ExprId) (value : Bool)
  /-- a variable, or the name of a called function -/
  | identifier (id : ExprId) (name : String)
  /-- `[a, b, c]` -/
  | array (id : ExprId) (elements : List Expr)
  /-- `!a`, `-a`, `+a` -/
  | unary (id : ExprId) (op : UnaryOp) (argument : Expr)
  /-- `a + b` and the like -/
  | binary (id : ExprId) (op : BinaryOp) (left right : Expr)
  /-- `a && b`, `a || b` -/
  | logical (id : ExprId) (op : LogicalOp) (left right : Expr)
  /-- `++a` if `leading`, else `a++` -/
  | update (id : ExprId) (op : UpdateOp) (leading : Bool) (argument : Expr)
  /-- `a = b` and the like -/
  | assign (id : ExprId) (op : AssignOp) (target value : Expr)
  /-- `f(a, b)` -/
  | call (id : ExprId) (callee : Expr) (arguments : List Expr)
  /-- `a[i]` -/
  | index (id : ExprId) (object position : Expr)
  /-- `a.name` -/
  | property (id : ExprId) (object : Expr) (name : String)
  deriving Repr, Inhabited

namespace Expr

/-- The id of an expression. -/
def id : Expr → ExprId
  | number i _ | boolean i _ | identifier i _ | array i _ | unary i _ _ | binary i _ _ _
  | logical i _ _ _ | update i _ _ _ | assign i _ _ _ | call i _ _ | index i _ _
  | property i _ _ => i

/-- What kind of expression it is, in the words of messages. -/
def kindName : Expr → String
  | number _ _ => "numeric literal"
  | boolean _ _ => "boolean literal"
  | identifier _ _ => "identifier"
  | array _ _ => "array literal"
  | unary _ _ _ => "unary expression"
  | binary _ _ _ _ => "binary expression"
  | logical _ _ _ _ => "logical expression"
  | update _ _ _ _ => "update expression"
  | assign _ _ _ _ => "assignment expression"
  | call _ _ _ => "call expression"
  | index _ _ _ | property _ _ _ => "member expression"

/-- The name, if the expression is an identifier. -/
def identifier? : Expr → Option String
  | identifier _ name => some name
  | _ => none

/-- The array or other value a member expression takes a part of. -/
def memberObject? : Expr → Option Expr
  | index _ object _ | property _ object _ => some object
  | _ => none

/-- Assignments and updates, which store a value and leave none behind. -/
def isEffect : Expr → Bool
  | assign _ _ _ _ | update _ _ _ _ => true
  | _ => false

mutual

/-- The expression and all expressions inside it, each before its parts and the
parts from left to right. -/
def preorder : Expr → List Expr
  | e@(number _ _) | e@(boolean _ _) | e@(identifier _ _) => [e]
  | e@(array _ elements) => e :: preorderList elements
  | e@(unary _ _ a) | e@(update _ _ _ a) | e@(property _ a _) => e :: preorder a
  | e@(binary _ _ a b) | e@(logical _ _ a b) | e@(assign _ _ a b) | e@(index _ a b) =>
    e :: (preorder a ++ preorder b)
  | e@(call _ f arguments) => e :: (preorder f ++ preorderList arguments)

/-- The expressions of a list, one after the other. -/
def preorderList : List Expr → List Expr
  | [] => []
  | e :: rest => preorder e ++ preorderList rest

end

mutual

/-- Gives out ids from `next` on, each expression before its parts and the parts
from left to right; also returns the first id not given out. -/
def renumber (next : ExprId) : Expr → Expr × ExprId
  | number _ x => (number next x, next + 1)
  | boolean _ b => (boolean next b, next + 1)
  | identifier _ name => (identifier next name, next + 1)
  | array _ elements =>
    let (elements, last) := renumberList (next + 1) elements
    (array next elements, last)
  | unary _ op a =>
    let (a, last) := renumber (next + 1) a
    (unary next op a, last)
  | binary _ op a b =>
    let (a, mid) := renumber (next + 1) a
    let (b, last) := renumber mid b
    (binary next op a b, last)
  | logical _ op a b =>
    let (a, mid) := renumber (next + 1) a
    let (b, last) := renumber mid b
    (logical next op a b, last)
  | update _ op leading a =>
    let (a, last) := renumber (next + 1) a
    (update next op leading a, last)
  | assign _ op a b =>
    let (a, mid) := renumber (next + 1) a
    let (b, last) := renumber mid b
    (assign next op a b, last)
  | call _ f arguments =>
    let (f, mid) := renumber (next + 1) f
    let (arguments, last) := renumberList mid arguments
    (call next f arguments, last)
  | index _ a b =>
    let (a, mid) := renumber (next + 1) a
    let (b, last) := renumber mid b
    (index next a b, last)
  | property _ a name =>
    let (a, last) := renumber (next + 1) a
    (property next a name, last)

/-- Gives out ids along a list of expressions. -/
def renumberList (next : ExprId) : List Expr → List Expr × ExprId
  | [] => ([], next)
  | e :: rest =>
    let (e, mid) := renumber next e
    let (rest, last) := renumberList mid rest
    (e :: rest, last)

end

end Expr

end ArrayScript
