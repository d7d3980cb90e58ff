import ArrayScript.Token.Lexer
import Mathlib.Data.List.TakeWhile
import Mathlib.Tactic

/-!
How tokens are spelt.

`Spells kind text` says that a text is a spelling of a kind of token. It is stated without
the lexer: a number is spelt by a `Numeral`, a name by a word that is not reserved, every
other token by its `spelling?`, two of them also by a longer one.

* `lexeme?_spells`: what the lexer splits off spells the kind it reports.
* `Spells.lexeme?_append`: before a text that starts with a spelling the lexer splits off
  that spelling or a longer one, and if it is that one, reports its kind.
* `Spells.not_blank`: no spelling contains a blank.
-/

namespace ArrayScript

/-! ### Kinds of characters -/

namespace Text

/-- No code point lies in ranges of both lists. -/
def Apart (a b : List (Nat × Nat)) : Prop :=
  ∀ r ∈ a, ∀ s ∈ b, r.2 < s.1 ∨ s.2 < r.1

instance (a b : List (Nat × Nat)) : Decidable (Apart a b) :=
  inferInstanceAs (Decidable (∀ r ∈ a, ∀ s ∈ b, r.2 < s.1 ∨ s.2 < r.1))

/-- The digits `0` to `9`. -/
def digitRanges : List (Nat × Nat) := [(0x30, 0x39)]

variable {c : Char}

lemma inRanges_iff {ranges : List (Nat × Nat)} :
    inRanges ranges c = true ↔ ∃ r ∈ ranges, r.1 ≤ c.toNat ∧ c.toNat ≤ r.2 := by
  simp [inRanges]

lemma inRanges_of_apart {a b : List (Nat × Nat)} (h : Apart a b) (hc : inRanges a c = true) :
    inRanges b c = false := by
  obtain ⟨r, hr, hlow, hhigh⟩ := inRanges_iff.mp hc
  rw [Bool.eq_false_iff]
  intro hb
  obtain ⟨s, hs, hlow', hhigh'⟩ := inRanges_iff.mp hb
  rcases h r hr s hs with h | h <;> omega

lemma isDigit_eq (c : Char) : c.isDigit = inRanges digitRanges c := by
  simp [inRanges, digitRanges, Char.isDigit, UInt32.le_iff_toNat_le]

lemma not_whiteSpace_of_isDigit (h : c.isDigit = true) : isWhiteSpace c = false :=
  inRanges_of_apart (by decide) (isDigit_eq c ▸ h)

lemma not_alphabetic_of_isDigit (h : c.isDigit = true) : isAlphabetic c = false :=
  inRanges_of_apart (by decide +kernel) (isDigit_eq c ▸ h)

end Text

namespace Lexeme

variable {c : Char}

lemma not_whiteSpace_of_isNamePart (h : isNamePart c = true) : Text.isWhiteSpace c = false := by
  have halphabetic : Text.Apart Text.alphabeticRanges Text.whiteSpaceRanges := by decide +kernel
  have hnumeric : Text.Apart Text.numericRanges Text.whiteSpaceRanges := by decide +kernel
  simp only [isNamePart, Bool.or_eq_true, beq_iff_eq] at h
  rcases h with ((h | h) | rfl) | rfl
  · exact Text.inRanges_of_apart halphabetic h
  · exact Text.inRanges_of_apart hnumeric h
  · decide
  · decide

lemma isNamePart_of_isNameStart (h : isNameStart c = true) : isNamePart c = true := by
  simp only [isNameStart, isNamePart, Bool.or_eq_true] at h ⊢
  rcases h with (h | h) | h <;> simp [h]

lemma not_isDigit_of_isNameStart (h : isNameStart c = true) : c.isDigit = false := by
  rw [Bool.eq_false_iff]
  intro hdigit
  have halphabetic := Text.not_alphabetic_of_isDigit hdigit
  simp only [isNameStart, halphabetic, Bool.false_or, Bool.or_eq_true, beq_iff_eq] at h
  rcases h with rfl | rfl <;> exact absurd hdigit (by decide)

end Lexeme

/-! ### Numerals -/

/-- An exponent: its mark, a sign if there is one, and digits. -/
structure Exponent where
  mark : Char
  sign : Option Char
  digits : List Char
  mark_eq : mark = 'e' ∨ mark = 'E'
  sign_eq : ∀ s ∈ sign, s = '+' ∨ s = '-'
  digits_ne_nil : digits ≠ []
  isDigit : ∀ d ∈ digits, d.isDigit = true

namespace Exponent

/-- The characters of an exponent. -/
def text (e : Exponent) : List Char :=
  e.mark :: (e.sign.toList ++ e.digits)

/-- The power of ten an exponent stands for. -/
def value (e : Exponent) : Int :=
  if e.sign = some '-' then -(Decimal.ofDigits e.digits : Int) else Decimal.ofDigits e.digits

end Exponent

/-- The parts of a number: digits, perhaps a point with further digits, perhaps an exponent;
at least one digit stands before or after the point. -/
structure Numeral where
  whole : List Char
  fraction : Option (List Char)
  exponent : Option Exponent
  whole_isDigit : ∀ d ∈ whole, d.isDigit = true
  fraction_isDigit : ∀ f ∈ fraction, ∀ d ∈ f, d.isDigit = true
  hasDigit : whole ≠ [] ∨ ∃ f ∈ fraction, f ≠ []

namespace Numeral

/-- The point and the digits after it. -/
def pointText (n : Numeral) : List Char :=
  (n.fraction.map ('.' :: ·)).getD []

/-- The exponent as it is written. -/
def exponentText (n : Numeral) : List Char :=
  (n.exponent.map Exponent.text).getD []

/-- The characters of a numeral. -/
def text (n : Numeral) : List Char :=
  n.whole ++ (n.pointText ++ n.exponentText)

/-- The double a numeral stands for. -/
def value (n : Numeral) : Double :=
  (Decimal.ofParts n.whole (n.fraction.getD [])
    ((n.exponent.map Exponent.value).getD 0)).toDouble

end Numeral

/-! ### Spellings -/

/-- Words that are tokens of their own. -/
def keywords : List String :=
  ["function", "var", "let", "const", "return", "if", "else", "while", "for", "true", "false"]

/-- A word that starts and goes on as names do. -/
def IsWord (text : List Char) : Prop :=
  ∃ c cs, text = c :: cs ∧ Lexeme.isNameStart c = true ∧ ∀ d ∈ cs, Lexeme.isNamePart d = true

/-- The spelling of a token that carries no value. -/
def TokenKind.spelling? : TokenKind → Option (List Char)
  | .number _ | .identifier _ | .eof => none
  | .function => some "function".toList
  | .var => some "var".toList
  | .let' => some "let".toList
  | .const => some "const".toList
  | .return' => some "return".toList
  | .if' => some "if".toList
  | .else' => some "else".toList
  | .while' => some "while".toList
  | .for' => some "for".toList
  | .true => some "true".toList
  | .false => some "false".toList
  | .plus => some ['+']
  | .minus => some ['-']
  | .star => some ['*']
  | .starStar => some ['*', '*']
  | .slash => some ['/']
  | .percent => some ['%']
  | .bang => some ['!']
  | .assign => some ['=']
  | .plusAssign => some ['+', '=']
  | .minusAssign => some ['-', '=']
  | .starAssign => some ['*', '=']
  | .slashAssign => some ['/', '=']
  | .percentAssign => some ['%', '=']
  | .plusPlus => some ['+', '+']
  | .minusMinus => some ['-', '-']
  | .eq => some ['=', '=']
  | .neq => some ['!', '=']
  | .lt => some ['<']
  | .gt => some ['>']
  | .le => some ['<', '=']
  | .ge => some ['>', '=']
  | .andAnd => some ['&', '&']
  | .orOr => some ['|', '|']
  | .leftParen => some ['(']
  | .rightParen => some [')']
  | .leftBrace => some ['{']
  | .rightBrace => some ['}']
  | .leftBracket => some ['[']
  | .rightBracket => some [']']
  | .comma => some [',']
  | .dot => some ['.']
  | .colon => some [':']
  | .semicolon => some [';']

/-- The texts that spell a token. Equality and its negation may be written with one more
equals sign. -/
inductive Spells : TokenKind → List Char → Prop
  | number (n : Numeral) : Spells (.number n.value) n.text
  | identifier {name : String} (hword : IsWord name.toList) (hfree : name ∉ keywords) :
      Spells (.identifier name) name.toList
  | fixed {kind : TokenKind} {text : List Char} (h : kind.spelling? = some text) :
      Spells kind text
  | longEq : Spells .eq ['=', '=', '=']
  | longNeq : Spells .neq ['!', '=', '=']

namespace Lexeme

variable {c : Char} {cs text rest : List Char}

/-! ### Numbers are read as they are spelt -/

lemma exponentMark?_eq_some {mark : List Char} {negative : Bool}
    (h : exponentMark? cs = some (mark, negative, rest)) :
    ∃ (m : Char) (sign : Option Char) (d : Char) (ds : List Char), (m = 'e' ∨ m = 'E') ∧
      (∀ s ∈ sign, s = '+' ∨ s = '-') ∧ mark = m :: sign.toList ∧
      (negative = true ↔ sign = some '-') ∧ rest = d :: ds ∧ d.isDigit = true := by
  unfold exponentMark? at h
  repeat' split at h
  all_goals
    simp only [Option.some.injEq, Prod.mk.injEq, reduceCtorEq] at h
    try obtain ⟨rfl, rfl, rfl⟩ := h
  · exact ⟨_, some '+', _, _, ‹_›, by simp, rfl, by simp, rfl, ‹_›⟩
  · exact ⟨_, some '-', _, _, ‹_›, by simp, rfl, by simp, rfl, ‹_›⟩
  · exact ⟨_, none, _, _, ‹_›, by simp, rfl, by simp, rfl, ‹_›⟩

/-- What is taken for an exponent is one, or nothing. -/
lemma exponentPart_spells (cs : List Char) : ∃ e : Option Exponent,
    (exponentPart cs).1 = (e.map Exponent.text).getD [] ∧
    (exponentPart cs).2.1 = (e.map Exponent.value).getD 0 := by
  unfold exponentPart
  split
  next mark negative rest h =>
    obtain ⟨m, sign, d, ds, hmark, hsign, rfl, hnegative, rfl, hd⟩ := exponentMark?_eq_some h
    have hne : (d :: ds).takeWhile Char.isDigit ≠ [] := by simp [List.takeWhile, hd]
    refine ⟨some ⟨m, sign, _, hmark, hsign, hne, fun _ => List.mem_takeWhile_imp⟩, rfl, ?_⟩
    simp [Exponent.value, hnegative]
  next => exact ⟨none, rfl, rfl⟩

/-- What is taken for a fraction is one, or nothing. -/
lemma fractionPart_spells (cs : List Char) : ∃ f : Option (List Char),
    (fractionPart cs).1 = (f.map ('.' :: ·)).getD [] ∧ (fractionPart cs).2.1 = f.getD [] ∧
    ∀ g ∈ f, ∀ d ∈ g, d.isDigit = true := by
  unfold fractionPart
  split
  · refine ⟨some _, rfl, rfl, fun g hg d hd => ?_⟩
    obtain rfl := Option.some.inj hg
    exact List.mem_takeWhile_imp hd
  · exact ⟨none, rfl, rfl, by simp⟩

lemma numeral_spells (h : startsNumeral cs = true) : ∃ n : Numeral,
    (numeral cs).text = n.text ∧ (numeral cs).kind = .number n.value := by
  obtain ⟨f, hpoint, hfraction, hdigits⟩ := fractionPart_spells (cs.dropWhile Char.isDigit)
  obtain ⟨e, htext, hvalue⟩ :=
    exponentPart_spells (fractionPart (cs.dropWhile Char.isDigit)).2.2
  have hdigit : cs.takeWhile Char.isDigit ≠ [] ∨ ∃ g ∈ f, g ≠ [] := by
    unfold startsNumeral at h
    split at h
    · refine .inr ?_
      have hdot : Char.isDigit '.' = false := by decide
      cases f with
      | none => simp [fractionPart, hdot] at hpoint
      | some g =>
          refine ⟨g, rfl, fun hg => ?_⟩
          simp [fractionPart, hdot, h, hg] at hfraction
    · exact .inl (by simp [List.takeWhile, h])
    · cases h
  refine ⟨⟨cs.takeWhile Char.isDigit, f, e, fun _ => List.mem_takeWhile_imp, hdigits, hdigit⟩,
    ?_, ?_⟩
  · simp [numeral, Numeral.text, Numeral.pointText, Numeral.exponentText, hpoint, htext]
  · simp [numeral, Numeral.value, hfraction, hvalue]

/-! ### Words and symbols are read as they are spelt -/

lemma wordKind_of_not_mem {name : String} (h : name ∉ keywords) :
    wordKind name = .identifier name := by
  unfold wordKind
  split
  all_goals first | rfl | exact absurd (by decide) h

lemma wordKind_spells (h : IsWord text) : Spells (wordKind (String.ofList text)) text := by
  by_cases hkeyword : String.ofList text ∈ keywords
  · obtain ⟨name, hname, rfl⟩ : ∃ name ∈ keywords, text = name.toList :=
      ⟨_, hkeyword, String.toList_ofList.symm⟩
    have hall : ∀ name ∈ keywords, (wordKind name).spelling? = some name.toList := by decide
    rw [String.ofList_toList]
    exact .fixed (hall name hname)
  · have hspells : Spells (.identifier (String.ofList text)) (String.ofList text).toList :=
      .identifier (String.toList_ofList.symm ▸ h) hkeyword
    rw [String.toList_ofList] at hspells
    rwa [wordKind_of_not_mem hkeyword]

lemma word_spells (h : isNameStart c = true) :
    Spells (word (c :: cs)).kind (word (c :: cs)).text := by
  refine wordKind_spells ⟨c, cs.takeWhile isNamePart, ?_, h, fun _ => List.mem_takeWhile_imp⟩
  simp [List.takeWhile, isNamePart_of_isNameStart h]

lemma punctuation_spells {kind : TokenKind} (h : (text, kind) ∈ punctuation) :
    Spells kind text := by
  have hall : ∀ p ∈ punctuation, p.2.spelling? = some p.1 ∨
      p = (['=', '=', '='], .eq) ∨ p = (['!', '=', '='], .neq) := by decide
  rcases hall _ h with hfixed | heq | hneq
  · exact .fixed hfixed
  · cases heq
    exact .longEq
  · cases hneq
    exact .longNeq

end Lexeme

open Lexeme in
/-- What is split off spells the kind that is reported. -/
theorem lexeme?_spells {cs : List Char} {l : Lexeme} (h : lexeme? cs = some l) :
    Spells l.kind l.text := by
  unfold lexeme? at h
  split at h
  next hn =>
    obtain rfl := Option.some.inj h
    obtain ⟨n, htext, hkind⟩ := numeral_spells hn
    rw [htext, hkind]
    exact .number n
  next =>
    split at h
    · cases h
    · split at h
      next hstart =>
        obtain rfl := Option.some.inj h
        exact word_spells hstart
      next => exact punctuation_spells (symbol?_text_mem h)

namespace Lexeme

variable {c : Char} {cs text rest : List Char}

/-! ### Spellings are split off -/

/-- What is split off a text that starts with a spelling: this spelling or a longer one, and
its kind if it is this one. -/
def Extends (kind : TokenKind) (text : List Char) (l : Lexeme) : Prop :=
  ∃ more, l.text = text ++ more ∧ (more = [] → l.kind = kind)

lemma isDigit_mark (e : Exponent) : e.mark.isDigit = false ∧ e.mark ≠ '.' := by
  rcases e.mark_eq with h | h <;> rw [h] <;> decide

lemma exponentMark?_text (e : Exponent) (rest : List Char) :
    ∃ negative, exponentMark? (e.text ++ rest) =
      some (e.mark :: e.sign.toList, negative, e.digits ++ rest) ∧
      (negative = true ↔ e.sign = some '-') := by
  obtain ⟨mark, sign, digits, hmark, hsign, hne, hdigits⟩ := e
  cases digits with
  | nil => exact absurd rfl hne
  | cons d ds =>
      have hd := hdigits d List.mem_cons_self
      cases sign with
      | some s =>
          rcases hsign s rfl with rfl | rfl
          · exact ⟨false, by simp [Exponent.text, exponentMark?, hmark, hd], by simp⟩
          · exact ⟨true, by simp [Exponent.text, exponentMark?, hmark, hd], by simp⟩
      | none =>
          have hplus : d ≠ '+' := by rintro rfl; exact absurd hd (by decide)
          have hminus : d ≠ '-' := by rintro rfl; exact absurd hd (by decide)
          refine ⟨false, ?_, by simp⟩
          simp [Exponent.text, exponentMark?, hmark, hd, hplus, hminus]

/-- An exponent is taken with the digits after it. -/
lemma exponentPart_text (e : Exponent) (rest : List Char) :
    (exponentPart (e.text ++ rest)).1 = e.text ++ rest.takeWhile Char.isDigit ∧
    (rest.takeWhile Char.isDigit = [] → (exponentPart (e.text ++ rest)).2.1 = e.value) := by
  obtain ⟨negative, hmark, hnegative⟩ := exponentMark?_text e rest
  have hdigits : (e.digits ++ rest).takeWhile Char.isDigit =
      e.digits ++ rest.takeWhile Char.isDigit := List.takeWhile_append_of_pos e.isDigit
  rw [exponentPart, hmark]
  refine ⟨by simp [hdigits, Exponent.text], fun hrest => ?_⟩
  simp [hdigits, hrest, Exponent.value, hnegative]

/-- Where nothing is taken for an exponent, its value is zero. -/
lemma exponentPart_nil (h : (exponentPart cs).1 = []) : (exponentPart cs).2.1 = 0 := by
  obtain ⟨e, htext, hvalue⟩ := exponentPart_spells cs
  rw [htext] at h
  cases e with
  | none => exact hvalue
  | some e => cases h

lemma fractionPart_of_ne (h : c ≠ '.') : fractionPart (c :: cs) = ([], [], c :: cs) := by
  unfold fractionPart
  split
  next heq => exact absurd (List.cons.inj heq).1 h
  next => rfl

/-- Where nothing is taken for a fraction, there are no digits of one. -/
lemma fractionPart_nil (h : (fractionPart cs).1 = []) : (fractionPart cs).2.1 = [] := by
  obtain ⟨f, htext, hdigits, _⟩ := fractionPart_spells cs
  rw [htext] at h
  cases f with
  | none => exact hdigits
  | some f => cases h

/-- A point is taken with the given digits and those after them. -/
lemma fractionPart_point {f : List Char} (h : ∀ d ∈ f, d.isDigit = true) (cs : List Char) :
    fractionPart ('.' :: (f ++ cs)) = ('.' :: (f ++ cs.takeWhile Char.isDigit),
      f ++ cs.takeWhile Char.isDigit, cs.dropWhile Char.isDigit) := by
  rw [fractionPart, List.takeWhile_append_of_pos h, List.dropWhile_append_of_pos h]

/-- The fraction and the exponent of a numeral are taken, perhaps with more after them. -/
lemma decimals_text (n : Numeral) (rest : List Char) :
    ∃ more, let point := fractionPart (n.pointText ++ (n.exponentText ++ rest))
      let mark := exponentPart point.2.2
      point.1 ++ mark.1 = n.pointText ++ (n.exponentText ++ more) ∧
      (more = [] → point.2.1 = n.fraction.getD [] ∧
        mark.2.1 = (n.exponent.map Exponent.value).getD 0) := by
  obtain ⟨whole, fraction, exponent, hwhole, hfraction, _⟩ := n
  cases exponent with
  | some e =>
      obtain ⟨hdigit, hdot⟩ := isDigit_mark e
      obtain ⟨htext, hvalue⟩ := exponentPart_text e rest
      refine ⟨rest.takeWhile Char.isDigit, ?_⟩
      have hpoint : fractionPart ((fraction.map ('.' :: ·)).getD [] ++ (e.text ++ rest)) =
          ((fraction.map ('.' :: ·)).getD [], fraction.getD [], e.text ++ rest) := by
        cases fraction with
        | none => exact fractionPart_of_ne hdot
        | some f =>
            refine (fractionPart_point (hfraction f rfl) _).trans ?_
            simp [Exponent.text, hdigit]
      simp only [Numeral.pointText, Numeral.exponentText, Option.map_some, Option.getD_some,
        hpoint, htext]
      exact ⟨trivial, fun hmore => ⟨trivial, hvalue hmore⟩⟩
  | none =>
      cases fraction with
      | some f =>
          have hpoint := fractionPart_point (hfraction f rfl) rest
          refine ⟨rest.takeWhile Char.isDigit ++
            (exponentPart (rest.dropWhile Char.isDigit)).1, ?_⟩
          simp only [Numeral.pointText, Numeral.exponentText, Option.map_some, Option.getD_some,
            Option.map_none, Option.getD_none, List.nil_append, List.cons_append, hpoint,
            List.append_assoc]
          refine ⟨trivial, fun hmore => ?_⟩
          obtain ⟨hdigits, hmark⟩ := List.append_eq_nil_iff.mp hmore
          rw [hdigits, List.append_nil]
          exact ⟨rfl, exponentPart_nil hmark⟩
      | none =>
          refine ⟨_, rfl, fun hmore => ?_⟩
          obtain ⟨hpoint, hmark⟩ := List.append_eq_nil_iff.mp hmore
          exact ⟨fractionPart_nil hpoint, exponentPart_nil hmark⟩

/-- The digits at the head of a text that starts with a numeral are those before the point,
with more after them only if the numeral ends there. -/
lemma whole_text (n : Numeral) (rest : List Char) : ∃ digits rest',
    (n.text ++ rest).takeWhile Char.isDigit = n.whole ++ digits ∧
    (n.text ++ rest).dropWhile Char.isDigit = n.pointText ++ (n.exponentText ++ rest') ∧
    (digits = [] ∨ n.pointText = [] ∧ n.exponentText = []) := by
  rw [Numeral.text, List.append_assoc, List.takeWhile_append_of_pos n.whole_isDigit,
    List.dropWhile_append_of_pos n.whole_isDigit]
  obtain ⟨whole, fraction, exponent, _, _, _⟩ := n
  cases fraction with
  | some f =>
      refine ⟨[], rest, ?_, ?_, .inl rfl⟩ <;>
        simp [Numeral.pointText, show Char.isDigit '.' = false from rfl]
  | none =>
      cases exponent with
      | some e =>
          refine ⟨[], rest, ?_, ?_, .inl rfl⟩ <;>
            simp [Numeral.pointText, Numeral.exponentText, Exponent.text, (isDigit_mark e).1]
      | none => exact ⟨_, _, rfl, rfl, .inr ⟨rfl, rfl⟩⟩

/-- The number at the head of a text that starts with a numeral. -/
lemma numeral_text (n : Numeral) (rest : List Char) :
    Extends (.number n.value) n.text (numeral (n.text ++ rest)) := by
  obtain ⟨digits, rest', hwhole, hrest, hempty⟩ := whole_text n rest
  obtain ⟨more, htext, hvalue⟩ := decimals_text n rest'
  have hmore : digits ++ (n.pointText ++ (n.exponentText ++ more)) =
      n.pointText ++ (n.exponentText ++ (digits ++ more)) := by
    rcases hempty with h | ⟨h, h'⟩
    · rw [h, List.nil_append, List.nil_append]
    · rw [h, h', List.nil_append, List.nil_append, List.nil_append, List.nil_append]
  refine ⟨digits ++ more, ?_, fun hnil => ?_⟩
  · calc (numeral (n.text ++ rest)).text
      _ = (n.text ++ rest).takeWhile Char.isDigit ++
          ((fractionPart ((n.text ++ rest).dropWhile Char.isDigit)).1 ++ (exponentPart
            (fractionPart ((n.text ++ rest).dropWhile Char.isDigit)).2.2).1) := rfl
      _ = n.whole ++ digits ++ (n.pointText ++ (n.exponentText ++ more)) := by
          rw [hwhole, hrest, htext]
      _ = n.whole ++ (n.pointText ++ (n.exponentText ++ (digits ++ more))) := by
          rw [List.append_assoc, hmore]
      _ = n.text ++ (digits ++ more) := by simp only [Numeral.text, List.append_assoc]
  · obtain ⟨hdigits, hmore⟩ := List.append_eq_nil_iff.mp hnil
    obtain ⟨hfraction, hexponent⟩ := hvalue hmore
    rw [hdigits, List.append_nil] at hwhole
    rw [← hrest] at hfraction hexponent
    rw [Numeral.value, ← hwhole, ← hfraction, ← hexponent]
    rfl

lemma startsNumeral_of_isDigit (h : c.isDigit = true) : startsNumeral (c :: cs) = true := by
  unfold startsNumeral
  split
  next heq =>
    obtain ⟨rfl, _⟩ := List.cons.inj heq
    exact absurd h (by decide)
  next heq =>
    obtain ⟨rfl, _⟩ := List.cons.inj heq
    exact h
  next heq => cases heq

lemma startsNumeral_of_not_isDigit (h : c.isDigit = false) (hdot : c ≠ '.') :
    startsNumeral (c :: cs) = false := by
  unfold startsNumeral
  split
  next heq => exact absurd (List.cons.inj heq).1 hdot
  next heq =>
    obtain ⟨rfl, _⟩ := List.cons.inj heq
    exact h
  next heq => cases heq

lemma lexeme?_numeral (h : startsNumeral cs = true) : lexeme? cs = some (numeral cs) := by
  unfold lexeme?
  rw [if_pos h]

lemma lexeme?_symbol (h : startsNumeral (c :: cs) = false) (hstart : isNameStart c = false) :
    lexeme? (c :: cs) = symbol? punctuation (c :: cs) := by
  unfold lexeme?
  simp [h, hstart]

lemma startsNumeral_text (n : Numeral) (rest : List Char) :
    startsNumeral (n.text ++ rest) = true := by
  obtain ⟨whole, fraction, exponent, hwhole, hfraction, hdigit⟩ := n
  cases whole with
  | cons d ds => exact startsNumeral_of_isDigit (hwhole d List.mem_cons_self)
  | nil =>
      obtain ⟨f, rfl, hne⟩ := hdigit.resolve_left fun h => h rfl
      cases f with
      | nil => exact absurd rfl hne
      | cons d ds => exact hfraction _ rfl d List.mem_cons_self

/-- A number that starts with a point is longer than that. -/
lemma numeral_point {d : Char} (h : d.isDigit = true) (rest : List Char) :
    (numeral ('.' :: d :: rest)).text = ['.'] ++ d :: (rest.takeWhile Char.isDigit ++
      (exponentPart (rest.dropWhile Char.isDigit)).1) := by
  simp [numeral, fractionPart, show Char.isDigit '.' = false from rfl, h]

lemma lexeme?_word (h : IsWord text) (rest : List Char) :
    lexeme? (text ++ rest) = some (word (text ++ rest)) := by
  obtain ⟨c, cs, rfl, hstart, _⟩ := h
  have hdot : c ≠ '.' := by
    rintro rfl
    exact absurd hstart (by decide +kernel)
  rw [List.cons_append, lexeme?,
    startsNumeral_of_not_isDigit (not_isDigit_of_isNameStart hstart) hdot]
  simp [hstart]

/-- The word at the head of a text that starts with one. -/
lemma word_text (h : IsWord text) (rest : List Char) :
    Extends (wordKind (String.ofList text)) text (word (text ++ rest)) := by
  obtain ⟨c, cs, rfl, hstart, hparts⟩ := h
  have hall : ∀ d ∈ c :: cs, isNamePart d = true :=
    List.forall_mem_cons.mpr ⟨isNamePart_of_isNameStart hstart, hparts⟩
  have htext : (word (c :: cs ++ rest)).text = c :: cs ++ rest.takeWhile isNamePart :=
    List.takeWhile_append_of_pos hall
  refine ⟨_, htext, fun hmore => ?_⟩
  rw [hmore, List.append_nil] at htext
  exact congrArg (fun t => wordKind (String.ofList t)) htext

lemma isWord_of_mem {name : String} (h : name ∈ keywords) : IsWord name.toList := by
  have hall : ∀ name ∈ keywords, name.toList.head?.any isNameStart = true ∧
      name.toList.tail.all isNamePart = true := by decide +kernel
  obtain ⟨hstart, hparts⟩ := hall name h
  obtain ⟨c, hc, hstart⟩ := (Option.any_eq_true _ _).mp hstart
  exact ⟨c, name.toList.tail, List.eq_cons_of_mem_head? hc, hstart, List.all_eq_true.mp hparts⟩

/-- A token without a value is a reserved word, an operator or a bracket. -/
lemma spelling?_cases {kind : TokenKind} (h : kind.spelling? = some text) :
    (∃ name ∈ keywords, text = name.toList ∧ wordKind name = kind) ∨
    (text, kind) ∈ punctuation := by
  cases kind <;> cases h <;> decide

lemma dropStart?_self (start rest : List Char) : dropStart? start (start ++ rest) = some rest := by
  induction start with
  | nil => rfl
  | cons c cs ih => rw [List.cons_append, dropStart?, if_pos rfl, ih]

/-- In a list in which no spelling comes before one that it starts, the longest one is
found. -/
lemma symbol?_text {spellings : List (List Char × TokenKind)} {kind : TokenKind}
    (hlonger : spellings.Pairwise fun p q => ¬p.1 <+: q.1) (hmem : (text, kind) ∈ spellings)
    (rest : List Char) : ∃ l, symbol? spellings (text ++ rest) = some l ∧ Extends kind text l := by
  induction spellings with
  | nil => cases hmem
  | cons p spellings ih =>
      obtain ⟨hp, hlonger⟩ := List.pairwise_cons.mp hlonger
      cases hdrop : dropStart? p.1 (text ++ rest) with
      | some rest' =>
          refine ⟨⟨p.2, p.1, rest'⟩, by simp [symbol?, hdrop], ?_⟩
          rcases List.mem_cons.mp hmem with rfl | hmem
          · exact ⟨[], (List.append_nil _).symm, fun _ => rfl⟩
          · have hne := hp _ hmem
            have hprefix : p.1 <+: text ++ rest := ⟨rest', dropStart?_append hdrop⟩
            obtain ⟨more, hmore⟩ := (List.prefix_or_prefix_of_prefix hprefix
              (List.prefix_append text rest)).resolve_left hne
            refine ⟨more, hmore.symm, fun hnil => absurd ?_ hne⟩
            rw [← hmore, hnil, List.append_nil]
      | none =>
          have hmem : (text, kind) ∈ spellings := by
            refine (List.mem_cons.mp hmem).resolve_left ?_
            rintro rfl
            rw [dropStart?_self] at hdrop
            cases hdrop
          obtain ⟨l, hl, hextends⟩ := ih hlonger hmem
          exact ⟨l, by simpa [symbol?, hdrop] using hl, hextends⟩

/-- An operator or bracket at the head of a text; a point may begin a number instead. -/
lemma lexeme?_punctuation {kind : TokenKind} (h : (text, kind) ∈ punctuation)
    (rest : List Char) : ∃ l, lexeme? (text ++ rest) = some l ∧ Extends kind text l := by
  have hbegin : ∀ p ∈ punctuation, (p.1.head?.any fun c => !c.isDigit && !isNameStart c) = true ∧
      (p.1.head? = some '.' → p.1 = ['.']) := by decide +kernel
  have hlonger : punctuation.Pairwise fun p q => ¬p.1 <+: q.1 := by decide
  obtain ⟨hany, hdot⟩ := hbegin _ h
  obtain ⟨c, hc, hbegins⟩ := (Option.any_eq_true _ _).mp hany
  obtain ⟨hdigit, hstart⟩ : c.isDigit = false ∧ isNameStart c = false := by simpa using hbegins
  obtain ⟨cs, rfl⟩ : ∃ cs, text = c :: cs := List.head?_eq_some_iff.mp hc
  by_cases hnumeral : startsNumeral (c :: cs ++ rest) = true
  · have hpoint : c = '.' := by
      by_contra hne
      rw [List.cons_append, startsNumeral_of_not_isDigit hdigit hne] at hnumeral
      cases hnumeral
    obtain rfl := hpoint
    obtain ⟨_, rfl⟩ := List.cons.inj (hdot rfl)
    refine ⟨_, lexeme?_numeral hnumeral, ?_⟩
    cases rest with
    | nil => cases hnumeral
    | cons d rest =>
        have hd : d.isDigit = true := hnumeral
        exact ⟨_, numeral_point hd rest, fun hnil => by cases hnil⟩
  · obtain ⟨l, hl, hextends⟩ := symbol?_text hlonger h rest
    refine ⟨l, ?_, hextends⟩
    rw [List.cons_append] at hnumeral hl ⊢
    rw [lexeme?_symbol (Bool.eq_false_iff.mpr hnumeral) hstart, hl]

end Lexeme

open Lexeme in
/-- From a text that starts with a spelling this spelling or a longer one is split off. -/
theorem Spells.lexeme?_append {kind : TokenKind} {text : List Char} (h : Spells kind text)
    (rest : List Char) : ∃ l, lexeme? (text ++ rest) = some l ∧ Extends kind text l := by
  cases h with
  | number n => exact ⟨_, lexeme?_numeral (startsNumeral_text n rest), numeral_text n rest⟩
  | @identifier name hword hfree =>
      have hextends := word_text hword rest
      rw [String.ofList_toList, wordKind_of_not_mem hfree] at hextends
      exact ⟨_, lexeme?_word hword rest, hextends⟩
  | fixed hspelling =>
      rcases spelling?_cases hspelling with ⟨name, hname, rfl, hkind⟩ | hmem
      · have hextends := word_text (isWord_of_mem hname) rest
        rw [String.ofList_toList, hkind] at hextends
        exact ⟨_, lexeme?_word (isWord_of_mem hname) rest, hextends⟩
      · exact lexeme?_punctuation hmem rest
  | longEq => exact lexeme?_punctuation (by decide) rest
  | longNeq => exact lexeme?_punctuation (by decide) rest

/-! ### What spellings consist of -/

lemma Exponent.not_blank (e : Exponent) : ∀ c ∈ e.text, Text.isWhiteSpace c = false := by
  rw [text, List.forall_mem_cons, List.forall_mem_append]
  refine ⟨?_, fun c hc => ?_, fun c hc => Text.not_whiteSpace_of_isDigit (e.isDigit c hc)⟩
  · rcases e.mark_eq with h | h <;> rw [h] <;> decide
  · rcases e.sign_eq c (Option.mem_toList.mp hc) with rfl | rfl <;> decide

lemma Numeral.not_blank (n : Numeral) : ∀ c ∈ n.text, Text.isWhiteSpace c = false := by
  rw [text, List.forall_mem_append, List.forall_mem_append]
  refine ⟨fun c hc => Text.not_whiteSpace_of_isDigit (n.whole_isDigit c hc), ?_, ?_⟩
  · rw [pointText]
    cases h : n.fraction with
    | none => exact fun c hc => by cases hc
    | some f =>
        exact List.forall_mem_cons.mpr ⟨by decide, fun c hc =>
          Text.not_whiteSpace_of_isDigit (n.fraction_isDigit f h c hc)⟩
  · rw [exponentText]
    cases n.exponent with
    | none => exact fun c hc => by cases hc
    | some e => exact e.not_blank

lemma IsWord.not_blank {text : List Char} (h : IsWord text) :
    ∀ c ∈ text, Text.isWhiteSpace c = false := by
  obtain ⟨c, cs, rfl, hstart, hparts⟩ := h
  refine List.forall_mem_cons.mpr ⟨?_, fun d hd => ?_⟩
  · exact Lexeme.not_whiteSpace_of_isNamePart (Lexeme.isNamePart_of_isNameStart hstart)
  · exact Lexeme.not_whiteSpace_of_isNamePart (hparts d hd)

namespace Spells

variable {kind : TokenKind} {text : List Char}

/-- No blank occurs in a spelling. -/
theorem not_blank (h : Spells kind text) : ∀ c ∈ text, Text.isWhiteSpace c = false := by
  have hsymbol : ∀ kind, (text, kind) ∈ Lexeme.punctuation →
      ∀ c ∈ text, Text.isWhiteSpace c = false := by
    have hall : ∀ p ∈ Lexeme.punctuation, p.1.any Text.isWhiteSpace = false := by decide
    intro kind hmem c hc
    exact Bool.eq_false_iff.mpr (List.any_eq_false.mp (hall _ hmem) c hc)
  cases h with
  | number n => exact n.not_blank
  | identifier hword _ => exact hword.not_blank
  | fixed h =>
      rcases Lexeme.spelling?_cases h with ⟨name, hname, rfl, _⟩ | hmem
      · exact (Lexeme.isWord_of_mem hname).not_blank
      · exact hsymbol kind hmem
  | longEq => exact hsymbol .eq (by decide)
  | longNeq => exact hsymbol .neq (by decide)

/-- A spelling has at least one character. -/
lemma ne_nil (h : Spells kind text) : text ≠ [] := by
  rintro rfl
  obtain ⟨l, hl, _⟩ := h.lexeme?_append []
  cases hl

/-- The end of the text is not spelt. -/
lemma ne_eof (h : Spells kind text) : kind ≠ .eof := by
  rintro rfl
  cases h with
  | fixed h => cases h

end Spells

end ArrayScript
