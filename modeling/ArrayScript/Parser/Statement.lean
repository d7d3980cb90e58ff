import ArrayScript.Parser.Binding
import ArrayScript.Token.Lexer

/-!
The grammar of statements, and the programs of whole texts.

`parseTokens` reads statements up to the end token and gives their expressions
ids; `parse` does so for the tokens of a text.
-/

namespace ArrayScript

namespace Parser

/-- An expression, unless the token that would follow it stands first. -/
def expressionBefore (close : TokenKind) (ts : List Token) :
    Reading (Option Expr) (ts.length + 1) :=
  if (firstToken ts).kind = close then .ok (.here none ts)
  else do
    let ⟨e, ts₁, h₁⟩ ← assignment ts
    return .loose ⟨some e, ts₁, h₁⟩

/-- What a `return` gives back: nothing before a semicolon, a closing brace or the
end, else an expression. -/
def returned (ts : List Token) : Reading (Option Expr) (ts.length + 1) :=
  match (firstToken ts).kind with
  | .semicolon | .rightBrace | .eof => .ok (.here none ts)
  | _ => do
    let ⟨e, ts₁, h₁⟩ ← assignment ts
    return .loose ⟨some e, ts₁, h₁⟩

/-- An expression in parentheses. -/
def parenthesised (ts : List Token) : Reading Expr ts.length := do
  let ⟨(), ts₁, h₁⟩ ← expect .leftParen ts
  let ⟨e, ts₂, h₂⟩ ← assignment ts₁
  let ⟨(), ts₃, h₃⟩ ← expect .rightParen ts₂
  return .past h₁ (.past h₂ ⟨e, ts₃, h₃⟩)

/-- What a `for` starts with: nothing before a semicolon, a declaration, or an
expression. -/
def loopInit (ts : List Token) : Reading (Option Statement) (ts.length + 1) :=
  match take? declarationKind? ts with
  | some ⟨kind, ts₁, h₁⟩ => do
    let ⟨ds, ts₂, h₂⟩ ← declarators ts₁
    return .loose (.past h₁ ⟨some (.declare kind ds), ts₂, h₂⟩)
  | none => do
    let ⟨e, ts₁, h₁⟩ ← expressionBefore .semicolon ts
    return ⟨e.map .expression, ts₁, h₁⟩

/-- The parts of a `for` between its parentheses. -/
structure LoopHeader where
  init : Option Statement
  test : Option Expr
  update : Option Expr

/-- The header of a `for` loop, parentheses included. -/
def loopHeader (ts : List Token) : Reading LoopHeader ts.length := do
  let ⟨(), ts₁, h₁⟩ ← expect .leftParen ts
  let ⟨init, ts₂, h₂⟩ ← loopInit ts₁
  let ⟨(), ts₃, h₃⟩ ← expect .semicolon ts₂
  let ⟨test, ts₄, h₄⟩ ← expressionBefore .semicolon ts₃
  let ⟨(), ts₅, h₅⟩ ← expect .semicolon ts₄
  let ⟨update, ts₆, h₆⟩ ← expressionBefore .rightParen ts₅
  let ⟨(), ts₇, h₇⟩ ← expect .rightParen ts₆
  return .past h₁ (.within h₂ (.past h₃ (.within h₄ (.past h₅ (.within h₆
    ⟨⟨init, test, update⟩, ts₇, h₇⟩)))))

/-- A function up to its body: name, parameters and result type. -/
structure FunctionHeader where
  name : Option String
  params : List Param
  returnType : Option ValueType

/-- The name of a function, if one stands first. -/
def functionName (ts : List Token) : Read Token (Option String) (ts.length + 1) :=
  match take? (fun | .identifier name => some name | _ => none) ts with
  | some ⟨name, ts₁, h₁⟩ => .loose ⟨some name, ts₁, h₁⟩
  | none => .here none ts

/-- What stands between the keyword `function` and the body. -/
def functionHeader (ts : List Token) : Reading FunctionHeader ts.length := do
  let ⟨name, ts₁, h₁⟩ := functionName ts
  let ⟨(), ts₂, h₂⟩ ← expect .leftParen ts₁
  let ⟨params, ts₃, h₃⟩ ← params ts₂
  let ⟨(), ts₄, h₄⟩ ← expect .rightParen ts₃
  let ⟨returnType, ts₅, h₅⟩ ← typeMark ts₄
  return .within h₁ (.past h₂ (.within h₃ (.after h₄
    ⟨⟨name, params, returnType⟩, ts₅, h₅⟩)))

mutual

/-- One statement. -/
def statement (ts : List Token) : Reading Statement ts.length :=
  match ts with
  | ⟨.function, _⟩ :: ts₁ => do
    let ⟨header, ts₂, h₂⟩ ← functionHeader ts₁
    let ⟨body, ts₃, h₃⟩ ← braced ts₂
    return .loose (.past h₂
      ⟨.function header.name header.params header.returnType body, ts₃, h₃⟩)
  | ⟨.return', _⟩ :: ts₁ => do
    let ⟨argument, ts₂, h₂⟩ ← returned ts₁
    let ⟨(), ts₃, h₃⟩ := skipSemicolon ts₂
    return .after h₂ ⟨.ret argument, ts₃, h₃⟩
  | ⟨.if', _⟩ :: ts₁ => do
    let ⟨test, ts₂, h₂⟩ ← parenthesised ts₁
    let ⟨consequent, ts₃, h₃⟩ ← statement ts₂
    match takeToken? .else' ts₃ with
    | none =>
      return .loose (.past h₂ ⟨.conditional test consequent none, ts₃, h₃⟩)
    | some ⟨(), ts₄, h₄⟩ =>
      let ⟨alternate, ts₅, h₅⟩ ← statement ts₄
      return .loose (.past h₂ (.past h₃ (.past h₄
        ⟨.conditional test consequent (some alternate), ts₅, h₅⟩)))
  | ⟨.while', _⟩ :: ts₁ => do
    let ⟨test, ts₂, h₂⟩ ← parenthesised ts₁
    let ⟨body, ts₃, h₃⟩ ← statement ts₂
    return .loose (.past h₂ ⟨.whileLoop test body, ts₃, h₃⟩)
  | ⟨.for', _⟩ :: ts₁ => do
    let ⟨header, ts₂, h₂⟩ ← loopHeader ts₁
    let ⟨body, ts₃, h₃⟩ ← statement ts₂
    return .loose (.past h₂
      ⟨.forLoop header.init header.test header.update body, ts₃, h₃⟩)
  | ⟨.leftBrace, _⟩ :: ts₁ => do
    let ⟨body, ts₂, h₂⟩ ← bracedRest ts₁
    return .loose ⟨.block body, ts₂, h₂⟩
  | ⟨.semicolon, _⟩ :: ts₁ => .ok (.here .empty ts₁)
  | ts =>
    match take? declarationKind? ts with
    | some ⟨kind, ts₁, h₁⟩ => do
      let ⟨ds, ts₂, h₂⟩ ← declarators ts₁
      let ⟨(), ts₃, h₃⟩ := skipSemicolon ts₂
      return .past h₁ (.after h₂ ⟨.declare kind ds, ts₃, h₃⟩)
    | none => do
      let ⟨e, ts₁, h₁⟩ ← assignment ts
      let ⟨(), ts₂, h₂⟩ := skipSemicolon ts₁
      return .after h₁ ⟨.expression e, ts₂, h₂⟩
termination_by (ts.length, 0)

/-- Statements between braces. -/
def braced (ts : List Token) : Reading (List Statement) ts.length := do
  let ⟨(), ts₁, h₁⟩ ← expect .leftBrace ts
  let ⟨body, ts₂, h₂⟩ ← bracedRest ts₁
  return .past h₁ ⟨body, ts₂, h₂⟩
termination_by (ts.length, 2)

/-- Statements up to a closing brace, which is taken as well. -/
def bracedRest (ts : List Token) : Reading (List Statement) ts.length := do
  let ⟨body, ts₁, h₁⟩ ← statements ts
  let ⟨(), ts₂, h₂⟩ ← expect .rightBrace ts₁
  return .within h₁ ⟨body, ts₂, h₂⟩
termination_by (ts.length, 2)

/-- Statements up to a closing brace or the end. -/
def statements (ts : List Token) : Reading (List Statement) (ts.length + 1) :=
  match (firstToken ts).kind with
  | .rightBrace | .eof => .ok (.here [] ts)
  | _ => do
    let ⟨s, ts₁, h₁⟩ ← statement ts
    let ⟨rest, ts₂, h₂⟩ ← statements ts₁
    return .loose (.after h₁ ⟨s :: rest, ts₂, h₂⟩)
termination_by (ts.length, 1)

end

/-- Statements up to the end. -/
def topLevel (ts : List Token) : Except ParseError (List Statement) :=
  match (firstToken ts).kind with
  | .eof => .ok []
  | _ => do
    let ⟨s, ts₁, _⟩ ← statement ts
    let rest ← topLevel ts₁
    return s :: rest
termination_by ts.length

end Parser

/-- The program a list of tokens spells. -/
def parseTokens (ts : List Token) : Except ParseError Program := do
  let body ← Parser.topLevel ts
  return (Program.mk body).renumber

/-- The program of a source text. -/
def parse (source : String) : Except ParseError Program := do
  let ts ← tokenize source
  parseTokens ts

end ArrayScript
