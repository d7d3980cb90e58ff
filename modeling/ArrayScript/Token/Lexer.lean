import ArrayScript.Text.Properties
import ArrayScript.Token.ParseError

/-!
From text to tokens.

`lexeme?` finds the longest token at the head of a text and splits it off;
`lexeme?_append` says that nothing is lost and `lexeme?_text_ne_nil` that the
token is not empty. `scan` passes over blanks and comments and collects the
tokens, each with the place of its first character.
-/

namespace ArrayScript

/-- A token's kind, its characters, and the text after it. -/
structure Lexeme where
  kind : TokenKind
  text : List Char
  rest : List Char
  deriving Repr

namespace Lexeme

/-! ### Names and keywords -/

/-- Characters a name may start with. -/
def isNameStart (c : Char) : Bool :=
  Text.isAlphabetic c || c == '_' || c == '$'

/-- Characters a name may go on with. -/
def isNamePart (c : Char) : Bool :=
  Text.isAlphabetic c || Text.isNumeric c || c == '_' || c == '$'

/-- The token spelt by a word: a keyword, or else a name. -/
def wordKind : String → TokenKind
  | "function" => .function
  | "var" => .var
  | "let" => .let'
  | "const" => .const
  | "return" => .return'
  | "if" => .if'
  | "else" => .else'
  | "while" => .while'
  | "for" => .for'
  | "true" => .true
  | "false" => .false
  | word => .identifier word

/-- The word at the head of a text. -/
def word (cs : List Char) : Lexeme :=
  let text := cs.takeWhile isNamePart
  ⟨wordKind (String.ofList text), text, cs.dropWhile isNamePart⟩

/-! ### Numbers -/

/-- A point and the digits after it, if there is a point: the characters taken, the
digits among them, and the rest. -/
def fractionPart : List Char → List Char × List Char × List Char
  | '.' :: cs =>
    let digits := cs.takeWhile Char.isDigit
    ('.' :: digits, digits, cs.dropWhile Char.isDigit)
  | cs => ([], [], cs)

/-- An exponent mark with its sign, if a digit follows: the characters taken, whether
the sign is minus, and the rest, which starts with that digit. -/
def exponentMark? : List Char → Option (List Char × Bool × List Char)
  | e :: cs =>
    if e = 'e' ∨ e = 'E' then
      match cs with
      | '+' :: d :: rest => if d.isDigit then some ([e, '+'], false, d :: rest) else none
      | '-' :: d :: rest => if d.isDigit then some ([e, '-'], true, d :: rest) else none
      | d :: rest => if d.isDigit then some ([e], false, d :: rest) else none
      | [] => none
    else none
  | [] => none

/-- An exponent, if one follows: the characters taken, its value, and the rest. -/
def exponentPart (cs : List Char) : List Char × Int × List Char :=
  match exponentMark? cs with
  | some (mark, negative, rest) =>
    let digits := rest.takeWhile Char.isDigit
    let size : Int := Decimal.ofDigits digits
    (mark ++ digits, if negative then -size else size, rest.dropWhile Char.isDigit)
  | none => ([], 0, cs)

/-- The number at the head of a text: digits, then a point with further digits, then
an exponent, the last two being optional. -/
def numeral (cs : List Char) : Lexeme :=
  let whole := cs.takeWhile Char.isDigit
  let (point, fraction, cs) := fractionPart (cs.dropWhile Char.isDigit)
  let (mark, exponent, rest) := exponentPart cs
  ⟨.number (Decimal.ofParts whole fraction exponent).toDouble, whole ++ (point ++ mark), rest⟩

/-- A digit, or a point before a digit, starts a number. -/
def startsNumeral : List Char → Bool
  | '.' :: d :: _ => d.isDigit
  | c :: _ => c.isDigit
  | [] => false

/-! ### Operators and brackets -/

/-- The operators and brackets, longer spellings before their beginnings. -/
def punctuation : List (List Char × TokenKind) :=
  [(['=', '=', '='], .eq), (['!', '=', '='], .neq),
   (['+', '+'], .plusPlus), (['+', '='], .plusAssign),
   (['-', '-'], .minusMinus), (['-', '='], .minusAssign),
   (['*', '*'], .starStar), (['*', '='], .starAssign),
   (['/', '='], .slashAssign), (['%', '='], .percentAssign),
   (['=', '='], .eq), (['!', '='], .neq),
   (['<', '='], .le), (['>', '='], .ge),
   (['&', '&'], .andAnd), (['|', '|'], .orOr),
   (['+'], .plus), (['-'], .minus), (['*'], .star), (['/'], .slash), (['%'], .percent),
   (['='], .assign), (['!'], .bang), (['<'], .lt), (['>'], .gt),
   (['('], .leftParen), ([')'], .rightParen), (['{'], .leftBrace), (['}'], .rightBrace),
   (['['], .leftBracket), ([']'], .rightBracket), ([','], .comma), (['.'], .dot),
   ([':'], .colon), ([';'], .semicolon)]

/-- The text after a given beginning, if it starts so. -/
def dropStart? : (start text : List Char) → Option (List Char)
  | [], cs => some cs
  | _ :: _, [] => none
  | s :: start, c :: cs => if s = c then dropStart? start cs else none

/-- The first spelling of a list that starts a text. -/
def symbol? (spellings : List (List Char × TokenKind)) (cs : List Char) : Option Lexeme :=
  spellings.findSome? fun (text, kind) => (dropStart? text cs).map fun rest => ⟨kind, text, rest⟩

/-! ### The token at the head of a text -/

end Lexeme

open Lexeme in
/-- The longest token at the head of a text. -/
def lexeme? (cs : List Char) : Option Lexeme :=
  if startsNumeral cs then some (numeral cs)
  else
    match cs with
    | [] => none
    | c :: _ => if isNameStart c then some (word cs) else symbol? punctuation cs

namespace Lexeme

theorem fractionPart_append (cs : List Char) :
    (fractionPart cs).1 ++ (fractionPart cs).2.2 = cs := by
  unfold fractionPart
  split <;> simp [List.takeWhile_append_dropWhile]

theorem exponentMark?_append {cs mark rest : List Char} {negative : Bool}
    (h : exponentMark? cs = some (mark, negative, rest)) : mark ++ rest = cs := by
  unfold exponentMark? at h
  repeat' split at h
  all_goals
    simp only [Option.some.injEq, Prod.mk.injEq, reduceCtorEq] at h
    try obtain ⟨rfl, _, rfl⟩ := h
    try rfl

theorem exponentPart_append (cs : List Char) :
    (exponentPart cs).1 ++ (exponentPart cs).2.2 = cs := by
  unfold exponentPart
  split
  next mark negative rest h =>
    simp [List.takeWhile_append_dropWhile, exponentMark?_append h]
  next => simp

theorem numeral_append (cs : List Char) : (numeral cs).text ++ (numeral cs).rest = cs := by
  simp [numeral, fractionPart_append, exponentPart_append, List.takeWhile_append_dropWhile]

theorem dropStart?_append {start cs rest : List Char} (h : dropStart? start cs = some rest) :
    start ++ rest = cs := by
  induction start generalizing cs with
  | nil => simp_all [dropStart?]
  | cons s start ih =>
      cases cs with
      | nil => simp [dropStart?] at h
      | cons c cs =>
          rw [dropStart?] at h
          split at h
          · simp_all [ih h]
          · simp at h

theorem symbol?_append {spellings : List (List Char × TokenKind)} {cs : List Char} {l : Lexeme}
    (h : symbol? spellings cs = some l) : l.text ++ l.rest = cs := by
  obtain ⟨p, _, hp⟩ := List.exists_of_findSome?_eq_some h
  obtain ⟨rest, hrest, rfl⟩ := Option.map_eq_some_iff.mp hp
  exact dropStart?_append hrest

theorem symbol?_text_mem {spellings : List (List Char × TokenKind)} {cs : List Char} {l : Lexeme}
    (h : symbol? spellings cs = some l) : (l.text, l.kind) ∈ spellings := by
  obtain ⟨p, hmem, hp⟩ := List.exists_of_findSome?_eq_some h
  obtain ⟨rest, _, rfl⟩ := Option.map_eq_some_iff.mp hp
  exact hmem

theorem numeral_text_ne_nil {cs : List Char} (h : startsNumeral cs) :
    (numeral cs).text ≠ [] := by
  unfold startsNumeral at h
  split at h
  · simp [numeral, fractionPart, List.dropWhile, List.takeWhile, Char.isDigit]
  · simp [numeral, List.takeWhile, h]
  · simp at h

end Lexeme

open Lexeme in
/-- A token and the text after it make up the text. -/
theorem lexeme?_append {cs : List Char} {l : Lexeme} (h : lexeme? cs = some l) :
    l.text ++ l.rest = cs := by
  unfold lexeme? at h
  split at h
  · obtain rfl := Option.some.inj h
    exact numeral_append cs
  · split at h
    · simp at h
    · split at h
      · obtain rfl := Option.some.inj h
        exact List.takeWhile_append_dropWhile
      · exact symbol?_append h

open Lexeme in
/-- A token has at least one character. -/
theorem lexeme?_text_ne_nil {cs : List Char} {l : Lexeme} (h : lexeme? cs = some l) :
    l.text ≠ [] := by
  unfold lexeme? at h
  split at h
  next hn =>
    obtain rfl := Option.some.inj h
    exact numeral_text_ne_nil hn
  next =>
    split at h
    · simp at h
    next c rest _ =>
      split at h
      next hc =>
        obtain rfl := Option.some.inj h
        have hpart : isNamePart c = true := by
          simp only [isNameStart, isNamePart, Bool.or_eq_true] at hc ⊢
          rcases hc with (hc | hc) | hc <;> simp [hc]
        simp [word, List.takeWhile, hpart]
      next =>
        have hmem := symbol?_text_mem h
        revert hmem
        generalize l.text = text, l.kind = kind
        intro hmem ht
        subst ht
        simp [punctuation] at hmem

/-- The text after a token is shorter. -/
theorem lexeme?_rest_length {cs : List Char} {l : Lexeme} (h : lexeme? cs = some l) :
    l.rest.length < cs.length := by
  have hne := List.length_pos_iff.mpr (lexeme?_text_ne_nil h)
  rw [← lexeme?_append h, List.length_append]
  omega

/-! ### Comments -/

/-- The end of a comment: its last characters up to the closing mark, and the text
after it. There is none if the comment is never closed. -/
def closeComment? : List Char → Option (List Char × List Char)
  | [] => none
  | '*' :: '/' :: rest => some (['*', '/'], rest)
  | c :: cs => (closeComment? cs).map fun (text, rest) => (c :: text, rest)

theorem closeComment?_append {cs text rest : List Char} (h : closeComment? cs = some (text, rest)) :
    text ++ rest = cs := by
  fun_induction closeComment? cs generalizing text rest with
  | case1 => simp at h
  | case2 r =>
      simp only [Option.some.injEq, Prod.mk.injEq] at h
      simp [← h.1, ← h.2]
  | case3 c cs _ ih =>
      obtain ⟨⟨t, r⟩, hr, heq⟩ := Option.map_eq_some_iff.mp h
      simp only [Prod.mk.injEq] at heq
      simp [← heq.1, ← heq.2, ih hr]

/-! ### The whole text -/

/-- The tokens of a text that starts at the given place. Blanks, `//` comments up to
the end of their line and closed `/* */` comments are passed over. -/
def scan (p : Position) (cs : List Char) : Except ParseError (List Token) :=
  match cs with
  | [] => .ok [⟨.eof, p⟩]
  | '/' :: '/' :: body =>
    scan (p.after ('/' :: '/' :: body.takeWhile (· ≠ '\n'))) (body.dropWhile (· ≠ '\n'))
  | '/' :: '*' :: body =>
    match _h : closeComment? body with
    | none => .error .unexpectedEnd
    | some (text, rest) => scan (p.after ('/' :: '*' :: text)) rest
  | c :: rest =>
    if Text.isWhiteSpace c then scan (p.step c) rest
    else
      match _h : lexeme? (c :: rest) with
      | none => .error (.unexpectedCharacter c p)
      | some l =>
        match scan (p.after l.text) l.rest with
        | .ok tokens => .ok (⟨l.kind, p⟩ :: tokens)
        | .error e => .error e
termination_by cs.length
decreasing_by
  · have := (List.dropWhile_sublist (· ≠ '\n') (l := body)).length_le
    simp only [List.length_cons]
    omega
  · have := congrArg List.length (closeComment?_append _h)
    simp only [List.length_append, List.length_cons] at this ⊢
    omega
  · simp
  · exact lexeme?_rest_length _h

/-- The tokens of a text, the last of them being the end. -/
def tokenize (source : String) : Except ParseError (List Token) :=
  scan .start source.toList

end ArrayScript
