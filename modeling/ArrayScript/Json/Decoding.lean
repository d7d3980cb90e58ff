import ArrayScript.Json.Names
import ArrayScript.Json.Record
import ArrayScript.Signature

/-!
Programs and signature tables from JSON trees.

Every reader takes a bound on the nesting of arrays and objects and spends one
unit of it for each that it enters, so the bound is also what its recursion runs
on. Data that is passed over does not count.
-/

namespace ArrayScript.Decoding

open Json (alternative? record? required optional defaulted nullable? isBare string?)

/-- The deepest nesting of arrays and objects that is read. -/
def maxDepth : Nat := 127

/-- The elements of an array. -/
def list? {α : Type} (read : Json → Option α) : Json → Option (List α)
  | .array elements => elements.mapM read
  | _ => none

/-- A name of an alternative without content. -/
def bare? {α : Type} (ofName? : String → Option α) (depth : Nat) (j : Json) : Option α :=
  match alternative? j with
  | some (name, none) => ofName? name
  | some (name, some .null) => if 0 < depth then ofName? name else none
  | _ => none

/-- A type. -/
def valueType (depth : Nat) (j : Json) : Option ValueType :=
  bare? ValueType.ofName? depth j

/-! ### Patterns -/

/-- A pattern. -/
def pattern : (depth : Nat) → Json → Option Pattern
  | depth + 2, j => do
    match ← alternative? j with
    | ("Identifier", some content) => return .identifier (← content.string?)
    | ("Array", some content) => return .array (← list? (pattern depth) content)
    | ("Object", some content) => return .object (← list? string? content)
    | _ => none
  | 1, j => do
    match ← alternative? j with
    | ("Identifier", some content) => return .identifier (← content.string?)
    | _ => none
  | 0, _ => none

/-- A parameter. -/
def param : (depth : Nat) → Json → Option Param
  | 0, _ => none
  | depth + 1, j => do
    match ← record? [required "pattern", defaulted "annotation"] j with
    | [some binding, declared] =>
      return ⟨← pattern depth binding, ← nullable? (valueType depth) declared⟩
    | _ => none

/-! ### Expressions -/

mutual

/-- An expression: its kind, and an id that defaults to zero. -/
def expr : (depth : Nat) → Json → Option Expr
  | 0, _ => none
  | depth + 1, j => do
    match ← record? [defaulted "id", required "kind"] j with
    | [id, some kind] =>
      let id ← match id with
        | none => some 0
        | some j => j.natBelow? 4294967296
      exprKind depth id kind
    | _ => none

/-- The kind of an expression with the given id. -/
def exprKind : (depth : Nat) → ExprId → Json → Option Expr
  | 0, _, _ => none
  | depth + 1, id, j => do
    match ← alternative? j with
    | ("Number", some content) => return .number id (← content.double?)
    | ("Boolean", some content) => return .boolean id (← content.bool?)
    | ("Identifier", some content) => return .identifier id (← content.string?)
    | ("Array", some content) => return .array id (← exprList depth content)
    | ("Unary", some content) => exprUnary depth id content
    | ("Binary", some content) => exprBinary depth id content
    | ("Logical", some content) => exprLogical depth id content
    | ("Update", some content) => exprUpdate depth id content
    | ("Assign", some content) => exprAssign depth id content
    | ("Call", some content) => exprCall depth id content
    | ("Member", some content) => exprMember depth id content
    | _ => none

/-- A list of expressions. -/
def exprList : (depth : Nat) → Json → Option (List Expr)
  | 0, _ => none
  | depth + 1, j => list? (expr depth) j

/-- The operator and operand of a unary expression. -/
def exprUnary : (depth : Nat) → ExprId → Json → Option Expr
  | 0, _, _ => none
  | depth + 1, id, j => do
    match ← record? [required "op", required "argument"] j with
    | [some op, some a] => return .unary id (← bare? UnaryOp.ofName? depth op) (← expr depth a)
    | _ => none

/-- The operator and operands of a binary expression. -/
def exprBinary : (depth : Nat) → ExprId → Json → Option Expr
  | 0, _, _ => none
  | depth + 1, id, j => do
    match ← record? [required "op", required "left", required "right"] j with
    | [some op, some a, some b] =>
      return .binary id (← bare? BinaryOp.ofName? depth op) (← expr depth a) (← expr depth b)
    | _ => none

/-- The operator and operands of a logical expression. -/
def exprLogical : (depth : Nat) → ExprId → Json → Option Expr
  | 0, _, _ => none
  | depth + 1, id, j => do
    match ← record? [required "op", required "left", required "right"] j with
    | [some op, some a, some b] =>
      return .logical id (← bare? LogicalOp.ofName? depth op) (← expr depth a) (← expr depth b)
    | _ => none

/-- The operator, side and operand of an update. -/
def exprUpdate : (depth : Nat) → ExprId → Json → Option Expr
  | 0, _, _ => none
  | depth + 1, id, j => do
    match ← record? [required "op", required "prefix", required "argument"] j with
    | [some op, some leading, some a] =>
      return .update id (← bare? UpdateOp.ofName? depth op) (← leading.bool?) (← expr depth a)
    | _ => none

/-- The operator, target and value of an assignment. -/
def exprAssign : (depth : Nat) → ExprId → Json → Option Expr
  | 0, _, _ => none
  | depth + 1, id, j => do
    match ← record? [required "op", required "target", required "value"] j with
    | [some op, some a, some b] =>
      return .assign id (← bare? AssignOp.ofName? depth op) (← expr depth a) (← expr depth b)
    | _ => none

/-- The function and arguments of a call. -/
def exprCall : (depth : Nat) → ExprId → Json → Option Expr
  | 0, _, _ => none
  | depth + 1, id, j => do
    match ← record? [required "callee", required "arguments"] j with
    | [some f, some arguments] => return .call id (← expr depth f) (← exprList depth arguments)
    | _ => none

/-- The object of a member expression and the part taken of it. -/
def exprMember : (depth : Nat) → ExprId → Json → Option Expr
  | 0, _, _ => none
  | depth + 1, id, j => do
    match ← record? [required "object", required "property"] j with
    | [some object, some part] => exprPart depth id (← expr depth object) part
    | _ => none

/-- The part a member expression takes: an element or a named property. -/
def exprPart : (depth : Nat) → ExprId → (object : Expr) → Json → Option Expr
  | 0, _, _, _ => none
  | depth + 1, id, object, j => do
    match ← alternative? j with
    | ("Computed", some content) => return .index id object (← expr depth content)
    | ("Named", some content) => return .property id object (← content.string?)
    | _ => none

end

/-- A declarator. -/
def declarator : (depth : Nat) → Json → Option Declarator
  | 0, _ => none
  | depth + 1, j => do
    match ← record? [required "target", optional "init"] j with
    | [some target, init] => return ⟨← pattern depth target, ← nullable? (expr depth) init⟩
    | _ => none

/-! ### Statements -/

/-- The keyword and declarators of a declaration. -/
def declaration : (depth : Nat) → Json → Option Statement
  | depth + 2, j => do
    match ← record? [required "kind", required "declarations"] j with
    | [some kind, some ds] =>
      return .declare (← bare? DeclarationKind.ofName? (depth + 1) kind)
        (← list? (declarator depth) ds)
    | _ => none
  | _, _ => none

mutual

/-- A statement. -/
def statement : (depth : Nat) → Json → Option Statement
  | 0, j => do
    match ← alternative? j with
    | ("Empty", none) => return .empty
    | _ => none
  | depth + 1, j => do
    match ← alternative? j with
    | ("Function", some content) => function depth content
    | ("Variable", some content) => declaration depth content
    | ("Expression", some content) => return .expression (← expr depth content)
    | ("Return", some content) => return .ret (← nullable? (expr depth) (some content))
    | ("If", some content) => conditional depth content
    | ("While", some content) => whileLoop depth content
    | ("For", some content) => forLoop depth content
    | ("Block", some content) => return .block (← statements depth content)
    | ("Empty", content) => if isBare content then return .empty else none
    | _ => none

/-- A list of statements. -/
def statements : (depth : Nat) → Json → Option (List Statement)
  | 0, _ => none
  | depth + 1, j => list? (statement depth) j

/-- The parts of a function. -/
def function : (depth : Nat) → Json → Option Statement
  | depth + 2, j => do
    let components := [optional "name", required "params", defaulted "return_type", required "body"]
    match ← record? components j with
    | [name, some ps, returnType, some body] =>
      return .function (← nullable? string? name) (← list? (param depth) ps)
        (← nullable? (valueType (depth + 1)) returnType) (← statements (depth + 1) body)
    | _ => none
  | _, _ => none

/-- The parts of a conditional. -/
def conditional : (depth : Nat) → Json → Option Statement
  | 0, _ => none
  | depth + 1, j => do
    match ← record? [required "test", required "consequent", optional "alternate"] j with
    | [some test, some consequent, alternate] =>
      return .conditional (← expr depth test) (← statement depth consequent)
        (← nullable? (statement depth) alternate)
    | _ => none

/-- The parts of a `while` loop. -/
def whileLoop : (depth : Nat) → Json → Option Statement
  | 0, _ => none
  | depth + 1, j => do
    match ← record? [required "test", required "body"] j with
    | [some test, some body] => return .whileLoop (← expr depth test) (← statement depth body)
    | _ => none

/-- The parts of a `for` loop. -/
def forLoop : (depth : Nat) → Json → Option Statement
  | 0, _ => none
  | depth + 1, j => do
    let components := [optional "init", optional "test", optional "update", required "body"]
    match ← record? components j with
    | [init, test, update, some body] =>
      return .forLoop (← nullable? (statement depth) init) (← nullable? (expr depth) test)
        (← nullable? (expr depth) update) (← statement depth body)
    | _ => none

end

/-- A program, with the ids it was stored with. -/
def program : (depth : Nat) → Json → Option Program
  | 0, _ => none
  | depth + 1, j => do
    match ← record? [required "body"] j with
    | [some body] => return ⟨← statements depth body⟩
    | _ => none

/-! ### Signatures -/

/-- A signature. -/
def signature : (depth : Nat) → Json → Option Signature
  | depth + 2, j => do
    match ← record? [required "parameters", required "return_type"] j with
    | [some ps, some result] =>
      return ⟨← list? (valueType depth) ps, ← valueType (depth + 1) result⟩
    | _ => none
  | _, _ => none

/-- A field of a signature table. -/
def signatureField (depth : Nat) : Option String × Json → Option (String × Signature)
  | (some name, j) => do return (name, ← signature depth j)
  | (none, _) => none

/-- A table of signatures; of a repeated name the last signature stays. -/
def signatureTable : (depth : Nat) → Json → Option SignatureTable
  | depth + 1, .object fields => do return Table.ofList (← fields.mapM (signatureField depth))
  | _, _ => none

end ArrayScript.Decoding
