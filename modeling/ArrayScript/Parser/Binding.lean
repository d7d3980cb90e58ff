import ArrayScript.Parser.Expression
import ArrayScript.Syntax.Statement

/-!
The grammar of what binds names: patterns, types, parameters and declarators.
-/

namespace ArrayScript.Parser

/-- Names separated by commas, up to a closing brace; a comma may stand before it. -/
def keys (ts : List Token) : Reading (List String) (ts.length + 1) :=
  if (firstToken ts).kind = .rightBrace then .ok (.here [] ts)
  else do
    let ⟨key, ts₁, h₁⟩ ← expectName .propertyName ts
    match takeToken? .comma ts₁ with
    | none => return .loose ⟨[key], ts₁, h₁⟩
    | some ⟨(), ts₂, h₂⟩ =>
      let ⟨rest, ts₃, h₃⟩ ← keys ts₂
      return .loose (.past h₁ (.after h₂ ⟨key :: rest, ts₃, h₃⟩))
termination_by ts.length

mutual

/-- A name, a list of patterns in brackets, or a list of names in braces. -/
def pattern (ts : List Token) : Reading Pattern ts.length :=
  match ts with
  | ⟨.identifier name, _⟩ :: ts₁ => .ok (.here (.identifier name) ts₁)
  | ⟨.leftBracket, _⟩ :: ts₁ => do
    let ⟨elements, ts₂, h₂⟩ ← patterns ts₁
    let ⟨(), ts₃, h₃⟩ ← expect .rightBracket ts₂
    return .past h₂ ⟨.array elements, ts₃, h₃⟩
  | ⟨.leftBrace, _⟩ :: ts₁ => do
    let ⟨names, ts₂, h₂⟩ ← keys ts₁
    let ⟨(), ts₃, h₃⟩ ← expect .rightBrace ts₂
    return .past h₂ ⟨.object names, ts₃, h₃⟩
  | ts => .error (.unexpectedToken .bindingPattern (firstToken ts))
termination_by (ts.length, 0)

/-- Patterns separated by commas, up to a closing bracket; a comma may stand before
it. -/
def patterns (ts : List Token) : Reading (List Pattern) (ts.length + 1) :=
  if (firstToken ts).kind = .rightBracket then .ok (.here [] ts)
  else do
    let ⟨p, ts₁, h₁⟩ ← pattern ts
    match takeToken? .comma ts₁ with
    | none => return .loose ⟨[p], ts₁, h₁⟩
    | some ⟨(), ts₂, h₂⟩ =>
      let ⟨rest, ts₃, h₃⟩ ← patterns ts₂
      return .loose (.past h₁ (.after h₂ ⟨p :: rest, ts₃, h₃⟩))
termination_by (ts.length, 1)

end

/-- The type a name stands for, with or without brackets after it. -/
def namedType? : (name : String) → (isArray : Bool) → Option ValueType
  | "int", false => some .int32
  | "double", false => some .float64
  | "boolean", false => some .boolean
  | "int", true => some .int32Array
  | "double", true => some .float64Array
  | _, _ => none

/-- A pair of brackets, if an opening one stands first. -/
def brackets (ts : List Token) : Reading Bool (ts.length + 1) :=
  match takeToken? .leftBracket ts with
  | none => .ok (.here false ts)
  | some ⟨(), ts₁, h₁⟩ => do
    let ⟨(), ts₂, h₂⟩ ← expect .rightBracket ts₁
    return .loose (.past h₁ ⟨true, ts₂, h₂⟩)

/-- A colon and a type, if a colon stands first. -/
def typeMark (ts : List Token) : Reading (Option ValueType) (ts.length + 1) :=
  match takeToken? .colon ts with
  | none => .ok (.here none ts)
  | some ⟨(), ts₁, h₁⟩ => do
    let ⟨name, ts₂, h₂⟩ ← expectName .typeName ts₁
    let ⟨isArray, ts₃, h₃⟩ ← brackets ts₂
    match namedType? name isArray with
    | some type => return .loose (.past h₁ (.after h₂ ⟨some type, ts₃, h₃⟩))
    | none => throw (.unknownType name isArray (firstToken ts₁).position)

/-- Parameters separated by commas, up to a closing parenthesis; a comma may stand
before it. -/
def params (ts : List Token) : Reading (List Param) (ts.length + 1) :=
  if (firstToken ts).kind = .rightParen then .ok (.here [] ts)
  else do
    let ⟨binding, ts₁, h₁⟩ ← pattern ts
    let ⟨declared, ts₂, h₂⟩ ← typeMark ts₁
    match takeToken? .comma ts₂ with
    | none => return .loose (.after h₁ ⟨[⟨binding, declared⟩], ts₂, h₂⟩)
    | some ⟨(), ts₃, h₃⟩ =>
      let ⟨rest, ts₄, h₄⟩ ← params ts₃
      return .loose (.after h₁ (.past h₂ (.after h₃ ⟨⟨binding, declared⟩ :: rest, ts₄, h₄⟩)))
termination_by ts.length

/-- An equals sign and an expression, if an equals sign stands first. -/
def initial (ts : List Token) : Reading (Option Expr) (ts.length + 1) :=
  match takeToken? .assign ts with
  | none => .ok (.here none ts)
  | some ⟨(), ts₁, h₁⟩ => do
    let ⟨e, ts₂, h₂⟩ ← assignment ts₁
    return .loose (.past h₁ ⟨some e, ts₂, h₂⟩)

/-- One or more declarators separated by commas. -/
def declarators (ts : List Token) : Reading (List Declarator) ts.length := do
  let ⟨target, ts₁, h₁⟩ ← pattern ts
  let ⟨init, ts₂, h₂⟩ ← initial ts₁
  match takeToken? .comma ts₂ with
  | none => return .after h₁ ⟨[⟨target, init⟩], ts₂, h₂⟩
  | some ⟨(), ts₃, h₃⟩ =>
    let ⟨rest, ts₄, h₄⟩ ← declarators ts₃
    return .after h₁ (.past h₂ (.past h₃ ⟨⟨target, init⟩ :: rest, ts₄, h₄⟩))
termination_by ts.length

/-- Keywords that open a declaration. -/
def declarationKind? : TokenKind → Option DeclarationKind
  | .var => some .var
  | .let' => some .let'
  | .const => some .const
  | _ => none

end ArrayScript.Parser
