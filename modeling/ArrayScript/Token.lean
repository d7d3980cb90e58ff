import ArrayScript.Decimal.Shortest
import ArrayScript.Text.Quoted

/-!
Tokens of the source text and where they stand.
-/

namespace ArrayScript

/-- A place in a text: lines and columns count from one, and a column counts
characters. -/
structure Position where
  line : Nat
  column : Nat
  deriving DecidableEq, Inhabited, Repr

namespace Position

/-- The first place of a text. -/
def start : Position := ⟨1, 1⟩

/-- The place after one character. -/
def step (p : Position) (c : Char) : Position :=
  if c = '\n' then ⟨p.line + 1, 1⟩ else ⟨p.line, p.column + 1⟩

/-- The place after some characters. -/
def after (p : Position) (text : List Char) : Position :=
  text.foldl step p

end Position

/-- What a token is. -/
inductive TokenKind where
  | number (value : Double)
  | identifier (name : String)
  | function
  | var
  | let'
  | const
  | return'
  | if'
  | else'
  | while'
  | for'
  | true
  | false
  | plus
  | minus
  | star
  | starStar
  | slash
  | percent
  | bang
  | assign
  | plusAssign
  | minusAssign
  | starAssign
  | slashAssign
  | percentAssign
  | plusPlus
  | minusMinus
  | eq
  | neq
  | lt
  | gt
  | le
  | ge
  | andAnd
  | orOr
  | leftParen
  | rightParen
  | leftBrace
  | rightBrace
  | leftBracket
  | rightBracket
  | comma
  | dot
  | colon
  | semicolon
  | eof
  deriving DecidableEq, Inhabited, Repr

/-- A token and the place of its first character. -/
structure Token where
  kind : TokenKind
  position : Position
  deriving DecidableEq, Inhabited, Repr

namespace TokenKind

/-- The name of a kind of token, without the value it carries. -/
def name : TokenKind → String
  | number _ => "Number"
  | identifier _ => "Identifier"
  | function => "Function"
  | var => "Var"
  | let' => "Let"
  | const => "Const"
  | return' => "Return"
  | if' => "If"
  | else' => "Else"
  | while' => "While"
  | for' => "For"
  | true => "True"
  | false => "False"
  | plus => "Plus"
  | minus => "Minus"
  | star => "Star"
  | starStar => "StarStar"
  | slash => "Slash"
  | percent => "Percent"
  | bang => "Bang"
  | assign => "Assign"
  | plusAssign => "PlusAssign"
  | minusAssign => "MinusAssign"
  | starAssign => "StarAssign"
  | slashAssign => "SlashAssign"
  | percentAssign => "PercentAssign"
  | plusPlus => "PlusPlus"
  | minusMinus => "MinusMinus"
  | eq => "Eq"
  | neq => "Neq"
  | lt => "Lt"
  | gt => "Gt"
  | le => "Le"
  | ge => "Ge"
  | andAnd => "AndAnd"
  | orOr => "OrOr"
  | leftParen => "LParen"
  | rightParen => "RParen"
  | leftBrace => "LBrace"
  | rightBrace => "RBrace"
  | leftBracket => "LBracket"
  | rightBracket => "RBracket"
  | comma => "Comma"
  | dot => "Dot"
  | colon => "Colon"
  | semicolon => "Semicolon"
  | eof => "Eof"

/-- Numbers in messages are written out between `10^-4` and `10^16`. -/
def numberStyle : DecimalStyle := ⟨-4, 16⟩

/-- A token in messages, with the value it carries. -/
def display : TokenKind → String
  | number value => "Number(" ++ value.text numberStyle ++ ")"
  | identifier name => "Identifier(" ++ Text.quote name ++ ")"
  | kind => kind.name

end TokenKind

end ArrayScript
