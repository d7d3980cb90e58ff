import ArrayScript.Token

/-!
Why a source text is not a program.
-/

namespace ArrayScript

/-- What the grammar asks for at a place where something else stands. -/
inductive Expectation where
  | token (kind : TokenKind)
  | bindingPattern
  | typeName
  | propertyName
  deriving DecidableEq, Inhabited, Repr

/-- An expectation in messages. -/
def Expectation.display : Expectation → String
  | token kind => kind.display
  | bindingPattern => "binding pattern"
  | typeName => "type name"
  | propertyName => "property name"

/-- The ways a text can fail to be a program. -/
inductive ParseError where
  /-- no token starts with this character -/
  | unexpectedCharacter (c : Char) (place : Position)
  /-- the grammar asks for something else than the token found -/
  | unexpectedToken (expected : Expectation) (found : Token)
  /-- a type name that is not one of the language, with or without brackets -/
  | unknownType (name : String) (isArray : Bool) (place : Position)
  /-- a token that starts no expression -/
  | notAnExpression (found : Token)
  /-- the text ends inside a comment or where an expression is needed -/
  | unexpectedEnd
  deriving DecidableEq, Inhabited, Repr

namespace ParseError

/-- A place in a named text. -/
def location (file : String) (p : Position) : String :=
  file ++ ":" ++ toString p.line ++ ":" ++ toString p.column

/-- The place an error names, if it names one. -/
def place? : ParseError → Option Position
  | unexpectedCharacter _ p | unknownType _ _ p => some p
  | unexpectedToken _ found | notAnExpression found => some found.position
  | unexpectedEnd => none

/-- The text of an error about the file of the given name. -/
def message (file : String) : ParseError → String
  | unexpectedCharacter c p =>
    "Syntax Error at " ++ location file p ++ ": Unexpected character '" ++ String.singleton c ++ "'"
  | unexpectedToken expected found =>
    "Unexpected token: expected " ++ expected.display ++ ", found " ++ found.kind.display ++
      " at " ++ location file found.position
  | unknownType name isArray p =>
    "Syntax Error at " ++ location file p ++ ": Unknown type annotation '" ++ name ++
      (if isArray then "[]" else "") ++ "'"
  | notAnExpression found =>
    "Syntax Error at " ++ location file found.position ++ ": Unexpected token in expression: " ++
      found.kind.display
  | unexpectedEnd => "Unexpected end of file"

end ParseError

end ArrayScript
