import ArrayScript.Json.Number
import ArrayScript.Read

/-!
From JSON text to trees.

The grammar is strict: no comments, no comma before a closing bracket, no leading
zeros, no control characters inside strings, and nothing but blanks after the
value. `Json.read?` is `none` for a text that breaks it.
-/

namespace ArrayScript

namespace JsonReader

/-- What a reader of characters returns: a value and fewer than `n` characters. -/
abbrev Reading (α : Type) (n : Nat) := Option (Read Char α n)

/-- The four blanks of JSON. -/
def isBlank (c : Char) : Bool :=
  c == ' ' || c == '\n' || c == '\t' || c == '\r'

/-- Passes over blanks. -/
def skipBlanks : (cs : List Char) → Read Char Unit (cs.length + 1)
  | [] => .here () []
  | c :: cs =>
    if isBlank c then
      let ⟨(), rest, h⟩ := skipBlanks cs
      .loose ⟨(), rest, h⟩
    else .here () (c :: cs)

/-- Takes the given characters, which must stand first. -/
def expectWord : (word : List Char) → (cs : List Char) → Reading Unit (cs.length + 1)
  | [], cs => some (.here () cs)
  | _ :: _, [] => none
  | w :: word, c :: cs => do
    if w ≠ c then none
    else
      let ⟨(), cs₁, h₁⟩ ← expectWord word cs
      return .loose ⟨(), cs₁, h₁⟩

/-! ### Strings -/

/-- A piece of a string: a character, or half of a surrogate pair. -/
inductive Piece where
  | char (c : Char)
  | half (code : Nat)

/-- The value of a hexadecimal digit. -/
def hexDigit? (c : Char) : Option Nat :=
  if '0' ≤ c ∧ c ≤ '9' then some (c.toNat - '0'.toNat)
  else if 'a' ≤ c ∧ c ≤ 'f' then some (c.toNat - 'a'.toNat + 10)
  else if 'A' ≤ c ∧ c ≤ 'F' then some (c.toNat - 'A'.toNat + 10)
  else none

/-- The piece with the given code of 16 bits. -/
def Piece.ofCode (code : Nat) : Piece :=
  if 0xd800 ≤ code ∧ code < 0xe000 then .half code else .char (Char.ofNat code)

/-- The piece of an escape by a single letter. -/
def escape? : Char → Option Piece
  | '"' => some (.char '"')
  | '\\' => some (.char '\\')
  | '/' => some (.char '/')
  | 'b' => some (.char '\x08')
  | 'f' => some (.char '\x0c')
  | 'n' => some (.char '\n')
  | 'r' => some (.char '\r')
  | 't' => some (.char '\t')
  | _ => none

/-- The pieces of a string up to its closing quotation mark, which is taken as well. -/
def pieces (cs : List Char) : Reading (List Piece) cs.length :=
  match cs with
  | [] => none
  | '"' :: cs => some (.here [] cs)
  | '\\' :: 'u' :: a :: b :: c :: d :: cs => do
    let code := 4096 * (← hexDigit? a) + 256 * (← hexDigit? b) + 16 * (← hexDigit? c) +
      (← hexDigit? d)
    let ⟨rest, cs₁, h₁⟩ ← pieces cs
    return .loose (.loose (.loose (.loose (.loose (.loose ⟨.ofCode code :: rest, cs₁, h₁⟩)))))
  | '\\' :: e :: cs => do
    let piece ← escape? e
    let ⟨rest, cs₁, h₁⟩ ← pieces cs
    return .loose (.loose ⟨piece :: rest, cs₁, h₁⟩)
  | c :: cs => do
    if c < ' ' ∨ c = '\\' then none
    else
      let ⟨rest, cs₁, h₁⟩ ← pieces cs
      return .loose ⟨.char c :: rest, cs₁, h₁⟩
termination_by cs.length

/-- The characters of some pieces. The two halves of a pair stand for one character;
a half alone stands for none. -/
def join? : List Piece → Option (List Char)
  | [] => some []
  | .char c :: rest => (join? rest).map (c :: ·)
  | .half high :: .half low :: rest =>
    if high < 0xdc00 ∧ 0xdc00 ≤ low then
      (join? rest).map (Char.ofNat (0x10000 + 1024 * (high - 0xd800) + (low - 0xdc00)) :: ·)
    else none
  | .half _ :: _ => none

/-- A string after its opening quotation mark. -/
def stringRest (cs : List Char) : Reading (Option String) cs.length := do
  let ⟨parts, cs₁, h₁⟩ ← pieces cs
  return ⟨(join? parts).map String.ofList, cs₁, h₁⟩

/-! ### Numbers -/

/-- Digits at the head of a text. -/
def digits : (cs : List Char) → Read Char (List Char) (cs.length + 1)
  | [] => .here [] []
  | c :: cs =>
    if c.isDigit then
      let ⟨rest, cs₁, h₁⟩ := digits cs
      .loose ⟨c :: rest, cs₁, h₁⟩
    else .here [] (c :: cs)

/-- At least one digit. -/
def someDigits : (cs : List Char) → Reading (List Char) cs.length
  | [] => none
  | c :: cs =>
    if c.isDigit then
      let ⟨rest, cs₁, h₁⟩ := digits cs
      some ⟨c :: rest, cs₁, h₁⟩
    else none

/-- Whole digits: a zero alone, or digits that do not start with one. -/
def wholeDigits (cs : List Char) : Reading (List Char) cs.length := do
  let ⟨ds, cs₁, h₁⟩ ← someDigits cs
  match ds with
  | '0' :: _ :: _ => none
  | _ => some ⟨ds, cs₁, h₁⟩

/-- A point with digits, if a point stands first. -/
def fraction (cs : List Char) : Reading (Option (List Char)) (cs.length + 1) :=
  match cs with
  | '.' :: cs => do
    let ⟨ds, cs₁, h₁⟩ ← someDigits cs
    return .loose (.loose ⟨some ds, cs₁, h₁⟩)
  | cs => some (.here none cs)

/-- A sign, if one stands first: whether it is minus. -/
def sign (cs : List Char) : Read Char Bool (cs.length + 1) :=
  match cs with
  | '-' :: cs => .loose (.here true cs)
  | '+' :: cs => .loose (.here false cs)
  | cs => .here false cs

/-- An exponent, if its mark stands first: whether it is negative, and its digits. -/
def exponent (cs : List Char) : Reading (Option (Bool × List Char)) (cs.length + 1) :=
  match cs with
  | [] => some (.here none [])
  | c :: cs =>
    if c = 'e' ∨ c = 'E' then do
      let ⟨downward, cs₁, h₁⟩ := sign cs
      let ⟨ds, cs₂, h₂⟩ ← someDigits cs₁
      return .loose (.past h₁ ⟨some (downward, ds), cs₂, h₂⟩)
    else some (.here none (c :: cs))

/-- A number literal after its sign, which is given. -/
def magnitude (negative : Bool) (cs : List Char) : Reading JsonNumber cs.length := do
  let ⟨whole, cs₁, h₁⟩ ← wholeDigits cs
  let ⟨point, cs₂, h₂⟩ ← fraction cs₁
  let ⟨power, cs₃, h₃⟩ ← exponent cs₂
  let n :=
    match point, power with
    | none, none => .ofWhole negative whole
    | point, power =>
      let (downward, ds) := power.getD (false, [])
      .ofParts negative whole (point.getD []) downward ds
  return .after h₁ (.after h₂ ⟨n, cs₃, h₃⟩)

/-! ### Values -/

/-- The first character that is not a blank. -/
def visible (cs : List Char) : Reading Char cs.length :=
  match skipBlanks cs with
  | ⟨(), [], _⟩ => none
  | ⟨(), c :: cs₁, h₁⟩ => some ⟨c, cs₁, Nat.lt_of_succ_lt_succ h₁⟩

mutual

/-- A value, with blanks before it. -/
def value (cs : List Char) : Reading Json cs.length := do
  let ⟨c, cs₁, h₁⟩ ← visible cs
  match c with
  | '{' =>
    let ⟨next, cs₂, h₂⟩ ← visible cs₁
    if next = '}' then return .past h₁ ⟨.object [], cs₂, h₂⟩
    else
      let ⟨fields, cs₃, h₃⟩ ← fields cs₁
      return .past h₁ ⟨.object fields, cs₃, h₃⟩
  | '[' =>
    let ⟨next, cs₂, h₂⟩ ← visible cs₁
    if next = ']' then return .past h₁ ⟨.array [], cs₂, h₂⟩
    else
      let ⟨elements, cs₃, h₃⟩ ← elements cs₁
      return .past h₁ ⟨.array elements, cs₃, h₃⟩
  | '"' =>
    let ⟨text, cs₂, h₂⟩ ← stringRest cs₁
    return .past h₁ ⟨.string text, cs₂, h₂⟩
  | 'n' =>
    let ⟨(), cs₂, h₂⟩ ← expectWord ['u', 'l', 'l'] cs₁
    return .after h₁ ⟨.null, cs₂, h₂⟩
  | 't' =>
    let ⟨(), cs₂, h₂⟩ ← expectWord ['r', 'u', 'e'] cs₁
    return .after h₁ ⟨.bool true, cs₂, h₂⟩
  | 'f' =>
    let ⟨(), cs₂, h₂⟩ ← expectWord ['a', 'l', 's', 'e'] cs₁
    return .after h₁ ⟨.bool false, cs₂, h₂⟩
  | '-' =>
    let ⟨n, cs₂, h₂⟩ ← magnitude true cs₁
    return .past h₁ ⟨.number n, cs₂, h₂⟩
  | c =>
    let ⟨n, cs₂, h₂⟩ ← magnitude false (c :: cs₁)
    return .after h₁ ⟨.number n, cs₂, h₂⟩
termination_by 2 * cs.length

/-- The elements of an array that is not empty, and its closing bracket. -/
def elements (cs : List Char) : Reading (List Json) cs.length := do
  let ⟨first, cs₁, h₁⟩ ← value cs
  let ⟨next, cs₂, h₂⟩ ← visible cs₁
  match next with
  | ',' =>
    let ⟨rest, cs₃, h₃⟩ ← elements cs₂
    return .past h₁ (.past h₂ ⟨first :: rest, cs₃, h₃⟩)
  | ']' => return .past h₁ ⟨[first], cs₂, h₂⟩
  | _ => none
termination_by 2 * cs.length + 1

/-- The fields of an object that is not empty, and its closing brace. -/
def fields (cs : List Char) : Reading (List (Option String × Json)) cs.length := do
  let ⟨quote, cs₁, h₁⟩ ← visible cs
  if quote ≠ '"' then none
  else
    let ⟨key, cs₂, h₂⟩ ← stringRest cs₁
    let ⟨colon, cs₃, h₃⟩ ← visible cs₂
    if colon ≠ ':' then none
    else
      let ⟨first, cs₄, h₄⟩ ← value cs₃
      let ⟨next, cs₅, h₅⟩ ← visible cs₄
      match next with
      | ',' =>
        let ⟨rest, cs₆, h₆⟩ ← fields cs₅
        return .past h₁ (.past h₂ (.past h₃ (.past h₄ (.past h₅
          ⟨(key, first) :: rest, cs₆, h₆⟩))))
      | '}' => return .past h₁ (.past h₂ (.past h₃ (.past h₄ ⟨[(key, first)], cs₅, h₅⟩)))
      | _ => none
termination_by 2 * cs.length + 1

end

end JsonReader

/-- The tree of a JSON text. -/
def Json.read? (text : String) : Option Json := do
  let ⟨j, cs, _⟩ ← JsonReader.value text.toList
  match JsonReader.skipBlanks cs with
  | ⟨(), [], _⟩ => return j
  | _ => none

end ArrayScript
