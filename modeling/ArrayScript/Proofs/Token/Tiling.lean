import ArrayScript.Proofs.Token.Spelling

/-!
The tokens of a text cover it.

`Tiles before cs tokens rest` says that a text begins with the given tokens, each with blanks
and comments before it and at the place where it stands.

* `Position.start_after`: counting along a text gives the place after it, which `behind` states
  by the line ends in the text and the characters after the last of them.
* `scan_covers`: scanning from any place covers the text, and where it fails, covers it up to
  the character or the comment to blame.
* `tokenize_tiles`: the same of a whole source.
-/

namespace ArrayScript

/-! ### Places -/

namespace Position

/-- The place after a text: one line more than there are line ends in it, one column more
than there are characters after the last of them. -/
def behind (before : List Char) : Position :=
  ⟨1 + before.count '\n', 1 + (before.reverse.takeWhile (· ≠ '\n')).length⟩

lemma after_append (p : Position) (text text' : List Char) :
    p.after (text ++ text') = (p.after text).after text' :=
  List.foldl_append

/-- Counting lines and columns along a text gives the place after it. -/
lemma start_after (before : List Char) : start.after before = behind before := by
  induction before using List.reverseRecOn with
  | nil => rfl
  | append_singleton before c ih =>
      rw [after_append, ih]
      by_cases hc : c = '\n'
      · simp [after, step, behind, hc, Nat.add_assoc]
      · simp [after, step, behind, hc]
        omega

lemma behind_after (before text : List Char) :
    (behind before).after text = behind (before ++ text) := by
  rw [← start_after, ← start_after, after_append]

lemma line_behind_pos (before : List Char) : 0 < (behind before).line :=
  Nat.add_pos_left Nat.one_pos _

end Position

/-! ### Blanks and comments -/

/-- What is passed over before the text `rest`: blanks, comments up to the end of their line
and closed comments. -/
inductive Gap : (gap rest : List Char) → Prop
  | nil (rest : List Char) : Gap [] rest
  | blank {c : Char} {gap rest : List Char} (hc : Text.isWhiteSpace c = true) (h : Gap gap rest) :
      Gap (c :: gap) rest
  | line {body gap rest : List Char} (hbody : '\n' ∉ body)
      (hend : ∀ c ∈ (gap ++ rest).head?, c = '\n') (h : Gap gap rest) :
      Gap ('/' :: '/' :: (body ++ gap)) rest
  | block {body gap rest : List Char} (hbody : ¬['*', '/'] <:+: body) (h : Gap gap rest) :
      Gap ('/' :: '*' :: (body ++ '*' :: '/' :: gap)) rest

namespace Gap

/-- Blanks and comments after blanks and comments are blanks and comments. -/
lemma append {gap gap' rest : List Char} (h : Gap gap (gap' ++ rest)) (h' : Gap gap' rest) :
    Gap (gap ++ gap') rest := by
  generalize hcs : gap' ++ rest = cs at h
  induction h with
  | nil => exact h'
  | blank hc _ ih => exact .blank hc (ih hcs)
  | line hbody hend _ ih =>
      subst hcs
      rw [List.cons_append, List.cons_append, List.append_assoc]
      refine .line hbody ?_ (ih rfl)
      rwa [List.append_assoc]
  | block hbody _ ih =>
      subst hcs
      simp only [List.cons_append, List.append_assoc]
      exact .block hbody (ih rfl)

/-- The rest of a line is passed over after two slashes. -/
lemma takeWhile (body : List Char) :
    Gap ('/' :: '/' :: body.takeWhile (· ≠ '\n')) (body.dropWhile (· ≠ '\n')) := by
  have hbody : '\n' ∉ body.takeWhile (· ≠ '\n') := fun h => by
    simpa using List.mem_takeWhile_imp h
  have hend : ∀ c ∈ (body.dropWhile (· ≠ '\n')).head?, c = '\n' := fun c hc => by
    have hhead := List.head?_dropWhile_not (· ≠ '\n') body
    rw [Option.mem_def.mp hc] at hhead
    simpa using hhead
  simpa only [List.append_nil] using Gap.line hbody hend (.nil _)

end Gap

/-- A comment that is never closed has no closing mark. -/
lemma closeComment?_eq_none {cs : List Char} (h : closeComment? cs = none) :
    ¬['*', '/'] <:+: cs := by
  fun_induction closeComment? cs with
  | case1 => simp
  | case2 rest => cases h
  | case3 c cs hne ih =>
      rw [List.infix_cons_iff]
      rintro (⟨rest, heq⟩ | hinfix)
      · obtain ⟨rfl, rfl⟩ := List.cons.inj heq
        exact hne rest rfl rfl
      · exact ih (Option.map_eq_none_iff.mp h) hinfix

/-- A comment ends with its first closing mark. -/
lemma closeComment?_eq_some {cs text rest : List Char} (h : closeComment? cs = some (text, rest)) :
    ∃ body, text = body ++ ['*', '/'] ∧ ¬['*', '/'] <:+: body := by
  fun_induction closeComment? cs generalizing text rest with
  | case1 => cases h
  | case2 r =>
      obtain ⟨rfl, rfl⟩ := Prod.mk.inj (Option.some.inj h)
      exact ⟨[], rfl, by simp⟩
  | case3 c cs hne ih =>
      obtain ⟨⟨text', rest'⟩, hclose, heq⟩ := Option.map_eq_some_iff.mp h
      obtain ⟨rfl, rfl⟩ := Prod.mk.inj heq
      obtain ⟨body, rfl, hbody⟩ := ih hclose
      refine ⟨c :: body, rfl, ?_⟩
      rw [List.infix_cons_iff]
      rintro (⟨more, heq⟩ | hinfix)
      · obtain ⟨rfl, rfl⟩ := List.cons.inj heq
        exact hne _ rfl (closeComment?_append hclose).symm
      · exact hbody hinfix

lemma closeComment?_text {body : List Char} (h : ¬['*', '/'] <:+: body) (rest : List Char) :
    closeComment? (body ++ '*' :: '/' :: rest) = some (body ++ ['*', '/'], rest) := by
  induction body with
  | nil => rfl
  | cons c body ih =>
      rw [List.infix_cons_iff, not_or] at h
      have hne : ∀ more, c = '*' → body ++ '*' :: '/' :: rest = '/' :: more → False := by
        rintro more rfl heq
        cases body with
        | nil => cases heq
        | cons d body =>
            obtain ⟨rfl, _⟩ := List.cons.inj heq
            exact h.1 ⟨body, rfl⟩
      rw [List.cons_append, closeComment?, ih h.2]
      · rfl
      · exact hne

/-- A comment starts at the head of the text. -/
def OpensComment (cs : List Char) : Prop :=
  ['/', '/'] <+: cs ∨ ['/', '*'] <+: cs

/-! ### Tokens in a text -/

/-- After the text `before`, the text `cs` begins with the given tokens, each at its place and
with what is passed over before it; `rest` is left. Where a token stands no comment starts, and
the token is written by the longest spelling that stands there. -/
inductive Tiles : (before cs : List Char) → List Token → (rest : List Char) → Prop
  | gap {before gap rest : List Char} (hgap : Gap gap rest) : Tiles before (gap ++ rest) [] rest
  | token {before gap text cs rest : List Char} {kind : TokenKind} {tokens : List Token}
      (hgap : Gap gap (text ++ cs)) (hspells : Spells kind text) (hne : text ≠ [])
      (hopens : ¬OpensComment (text ++ cs))
      (hlongest : ∀ kind' text', Spells kind' text' → text' <+: text ++ cs →
        text'.length ≤ text.length)
      (htiles : Tiles (before ++ (gap ++ text)) cs tokens rest) :
      Tiles before (gap ++ (text ++ cs)) (⟨kind, .behind (before ++ gap)⟩ :: tokens) rest

namespace Tiles

variable {before cs gap rest text : List Char} {kind : TokenKind} {tokens : List Token}

/-- What is passed over before a tiled text is passed over before its first token. -/
lemma of_gap (hgap : Gap gap cs) (h : Tiles (before ++ gap) cs tokens rest) :
    Tiles before (gap ++ cs) tokens rest := by
  cases h with
  | gap hgap' =>
      rw [← List.append_assoc]
      exact .gap (hgap.append hgap')
  | token hgap' hspells hne hopens hlongest htiles =>
      rw [← List.append_assoc, List.append_assoc before]
      refine .token (hgap.append hgap') hspells hne hopens hlongest ?_
      simpa only [List.append_assoc] using htiles

/-- A token stands before a tiled text. -/
lemma of_token (hspells : Spells kind text) (hopens : ¬OpensComment (text ++ cs))
    (hlongest : ∀ kind' text', Spells kind' text' → text' <+: text ++ cs →
      text'.length ≤ text.length) (h : Tiles (before ++ text) cs tokens rest) :
    Tiles before (text ++ cs) (⟨kind, .behind before⟩ :: tokens) rest := by
  have htoken := Tiles.token (.nil _) hspells hspells.ne_nil hopens hlongest h
  rwa [List.append_nil] at htoken

lemma ne_eof (h : Tiles before cs tokens rest) : ∀ t ∈ tokens, t.kind ≠ .eof := by
  induction h with
  | gap => exact fun t ht => by cases ht
  | token _ hspells _ _ _ _ ih => exact List.forall_mem_cons.mpr ⟨hspells.ne_eof, ih⟩

end Tiles

/-- How the tokens of the text `cs`, which comes after the text `before`, cover it. -/
def Covers (before cs : List Char) : Except ParseError (List Token) → Prop
  | .ok tokens => ∃ ts, tokens = ts ++ [⟨.eof, .behind (before ++ cs)⟩] ∧ Tiles before cs ts []
  | .error .unexpectedEnd =>
    ∃ ts body, Tiles before cs ts ('/' :: '*' :: body) ∧ ¬['*', '/'] <:+: body
  | .error (.unexpectedCharacter c p) =>
    ∃ ts middle rest, cs = middle ++ c :: rest ∧ p = .behind (before ++ middle) ∧
      Tiles before cs ts (c :: rest) ∧ Text.isWhiteSpace c = false ∧
      ∀ kind text, Spells kind text → ¬text <+: c :: rest
  | .error _ => False

namespace Covers

variable {before cs gap text : List Char} {result : Except ParseError (List Token)}

lemma of_gap (hgap : Gap gap cs) (h : Covers (before ++ gap) cs result) :
    Covers before (gap ++ cs) result := by
  cases result with
  | ok tokens =>
      obtain ⟨ts, rfl, htiles⟩ := h
      exact ⟨ts, by rw [List.append_assoc], htiles.of_gap hgap⟩
  | error e =>
      cases e with
      | unexpectedEnd =>
          obtain ⟨ts, body, htiles, hbody⟩ := h
          exact ⟨ts, body, htiles.of_gap hgap, hbody⟩
      | unexpectedCharacter c p =>
          obtain ⟨ts, middle, rest, rfl, rfl, htiles, hc⟩ := h
          exact ⟨ts, gap ++ middle, rest, by rw [List.append_assoc], by rw [List.append_assoc],
            htiles.of_gap hgap, hc⟩
      | _ => exact h

lemma of_token {kind : TokenKind} (hspells : Spells kind text)
    (hopens : ¬OpensComment (text ++ cs))
    (hlongest : ∀ kind' text', Spells kind' text' → text' <+: text ++ cs →
      text'.length ≤ text.length) (h : Covers (before ++ text) cs result) :
    Covers before (text ++ cs) (result.map (⟨kind, .behind before⟩ :: ·)) := by
  cases result with
  | ok tokens =>
      obtain ⟨ts, rfl, htiles⟩ := h
      exact ⟨_ :: ts, by rw [List.append_assoc]; rfl, htiles.of_token hspells hopens hlongest⟩
  | error e =>
      cases e with
      | unexpectedEnd =>
          obtain ⟨ts, body, htiles, hbody⟩ := h
          exact ⟨_ :: ts, body, htiles.of_token hspells hopens hlongest, hbody⟩
      | unexpectedCharacter c p =>
          obtain ⟨ts, middle, rest, rfl, rfl, htiles, hc⟩ := h
          exact ⟨_ :: ts, text ++ middle, rest, by rw [List.append_assoc],
            by rw [List.append_assoc], htiles.of_token hspells hopens hlongest, hc⟩
      | _ => exact h

end Covers

/-- What is split off is the longest spelling at the head of the text. -/
lemma lexeme?_longest {cs text : List Char} {kind : TokenKind} {l : Lexeme}
    (h : lexeme? cs = some l) (hspells : Spells kind text) (hstarts : text <+: cs) :
    text.length ≤ l.text.length := by
  obtain ⟨rest, rfl⟩ := hstarts
  obtain ⟨l', hl', more, hmore, _⟩ := hspells.lexeme?_append rest
  obtain rfl := Option.some.inj (h.symm.trans hl')
  simp [hmore]

/-- Where nothing is split off, no spelling stands. -/
lemma lexeme?_eq_none {cs text : List Char} {kind : TokenKind} (h : lexeme? cs = none)
    (hspells : Spells kind text) : ¬text <+: cs := by
  rintro ⟨rest, rfl⟩
  obtain ⟨l, hl, _⟩ := hspells.lexeme?_append rest
  rw [h] at hl
  cases hl

/-- What is split off stands before what covers the rest. -/
lemma Covers.of_lexeme {before cs : List Char} {l : Lexeme}
    {result : Except ParseError (List Token)} (hopens : ¬OpensComment cs)
    (hl : lexeme? cs = some l) (h : Covers (before ++ l.text) l.rest result) :
    Covers before cs (result.map (⟨l.kind, .behind before⟩ :: ·)) := by
  obtain rfl := lexeme?_append hl
  exact h.of_token (lexeme?_spells hl) hopens fun _ _ => lexeme?_longest hl

lemma not_opensComment {c : Char} {rest : List Char}
    (hline : ∀ body, c = '/' → rest = '/' :: body → False)
    (hblock : ∀ body, c = '/' → rest = '*' :: body → False) : ¬OpensComment (c :: rest) := by
  rintro (⟨body, h⟩ | ⟨body, h⟩)
  · obtain ⟨rfl, rfl⟩ := List.cons.inj h
    exact hline body rfl rfl
  · obtain ⟨rfl, rfl⟩ := List.cons.inj h
    exact hblock body rfl rfl

/-- Scanning covers the text, from any place in a source. -/
lemma scan_covers (p : Position) (cs before : List Char) (hp : p = .behind before) :
    Covers before cs (scan p cs) := by
  fun_induction scan p cs generalizing before with
  | case1 p =>
      subst hp
      exact ⟨[], by rw [List.append_nil]; rfl, .gap (.nil [])⟩
  | case2 p body ih =>
      have h := (ih _ (hp ▸ Position.behind_after _ _)).of_gap (.takeWhile body)
      simpa only [List.cons_append, List.takeWhile_append_dropWhile] using h
  | case3 p body hclose =>
      exact ⟨[], body, .gap (.nil _), closeComment?_eq_none hclose⟩
  | case4 p body text rest hclose ih =>
      obtain ⟨inner, htext, hinner⟩ := closeComment?_eq_some hclose
      have h := (ih _ (hp ▸ Position.behind_after _ _)).of_gap
        (htext ▸ .block hinner (.nil rest))
      simpa only [List.cons_append, closeComment?_append hclose] using h
  | case5 p c rest _ _ hc ih =>
      exact (ih _ (hp ▸ Position.behind_after _ [c])).of_gap (.blank hc (.nil rest))
  | case6 p c rest _ _ hc hnone =>
      refine ⟨[], [], rest, rfl, by rw [hp, List.append_nil], .gap (.nil _), ?_, ?_⟩
      · simpa using hc
      · exact fun _ _ => lexeme?_eq_none hnone
  | case7 p c rest hline hblock _ l hl tokens hscan ih =>
      subst hp
      have h := hscan ▸ ih _ (Position.behind_after _ _)
      exact h.of_lexeme (not_opensComment hline hblock) hl
  | case8 p c rest hline hblock _ l hl e hscan ih =>
      subst hp
      have h := hscan ▸ ih _ (Position.behind_after _ _)
      exact h.of_lexeme (not_opensComment hline hblock) hl

/-- **The tokens of a source and what is passed over cover it.** Either the whole source is
tokens, each at its place, with blanks and closed comments between them, and the end comes last
and only there; or they cover it up to a comment that is never closed; or up to a character,
reported at its place, that is no blank and at which nothing is spelt. Wherever a number starts,
what is collected for it has the form of a `Numeral`, so that reading it as a double is never
refused. -/
theorem tokenize_tiles (source : String) :
    ((∃ ts, tokenize source = .ok (ts ++ [⟨.eof, .behind source.toList⟩]) ∧
        Tiles [] source.toList ts [] ∧ ∀ t ∈ ts, t.kind ≠ .eof) ∨
      (∃ ts body, tokenize source = .error .unexpectedEnd ∧
        Tiles [] source.toList ts ('/' :: '*' :: body) ∧ ¬['*', '/'] <:+: body) ∨
      ∃ ts before c rest, tokenize source = .error (.unexpectedCharacter c (.behind before)) ∧
        source.toList = before ++ c :: rest ∧ Tiles [] source.toList ts (c :: rest) ∧
        Text.isWhiteSpace c = false ∧ ∀ kind text, Spells kind text → ¬text <+: c :: rest) ∧
    ∀ cs, Lexeme.startsNumeral cs = true → ∃ n : Numeral,
      (Lexeme.numeral cs).text = n.text ∧ (Lexeme.numeral cs).kind = .number n.value := by
  refine ⟨?_, fun _ => Lexeme.numeral_spells⟩
  have hcovers := scan_covers .start source.toList [] rfl
  unfold tokenize
  generalize scan .start source.toList = result at hcovers ⊢
  cases result with
  | ok tokens =>
      obtain ⟨ts, rfl, htiles⟩ := hcovers
      exact .inl ⟨ts, rfl, htiles, htiles.ne_eof⟩
  | error e =>
      cases e with
      | unexpectedEnd =>
          obtain ⟨ts, body, htiles, hbody⟩ := hcovers
          exact .inr (.inl ⟨ts, body, rfl, htiles, hbody⟩)
      | unexpectedCharacter c p =>
          obtain ⟨ts, middle, rest, hsource, rfl, htiles, hc⟩ := hcovers
          exact .inr (.inr ⟨ts, middle, c, rest, rfl, hsource, htiles, hc⟩)
      | _ => exact hcovers.elim

end ArrayScript
