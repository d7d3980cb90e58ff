import ArrayScript.Read
import ArrayScript.Token.ParseError

/-!
Taking single tokens from the head of a list.
-/

namespace ArrayScript

namespace Parser

/-- What a reader of tokens returns: a value and fewer than `n` tokens, or an error. -/
abbrev Reading (α : Type) (n : Nat) := Except ParseError (Read Token α n)

/-- What stands after the last token of a list. -/
def endToken : Token := ⟨.eof, ⟨0, 0⟩⟩

/-- The token at the head of a list. -/
def firstToken : List Token → Token
  | [] => endToken
  | t :: _ => t

/-- Takes the first token if it has a meaning under `meaning`. -/
def take? {α : Type} (meaning : TokenKind → Option α) :
    (ts : List Token) → Option (Read Token α ts.length)
  | [] => none
  | t :: ts => (meaning t.kind).map fun a => .here a ts

/-- Takes the first token if it is of the given kind. -/
def takeToken? (kind : TokenKind) (ts : List Token) : Option (Read Token Unit ts.length) :=
  take? (fun k => if k = kind then some () else none) ts

/-- Takes a token of the given kind, which must stand first. -/
def expect (kind : TokenKind) (ts : List Token) : Reading Unit ts.length :=
  match takeToken? kind ts with
  | some r => .ok r
  | none => .error (.unexpectedToken (.token kind) (firstToken ts))

/-- Takes a name, which must stand first. -/
def expectName (what : Expectation) (ts : List Token) :
    Reading String ts.length :=
  match take? (fun | .identifier name => some name | _ => none) ts with
  | some r => .ok r
  | none => .error (.unexpectedToken what (firstToken ts))

/-- Takes a semicolon if one stands first. -/
def skipSemicolon (ts : List Token) : Read Token Unit (ts.length + 1) :=
  match takeToken? .semicolon ts with
  | some ⟨(), rest, h⟩ => .loose ⟨(), rest, h⟩
  | none => .here () ts

end Parser

end ArrayScript
