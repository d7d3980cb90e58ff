import ArrayScript.Proofs.Computation
import ArrayScript.Proofs.Parser.Statements
import ArrayScript.Proofs.Syntax.Ids

/-!
The grammar is the inverse of printing.

* `topLevel_print`: an expressible program is read from its tokens.
* `statement_sound`: a statement that was read is expressible, and no `else` follows if it
  ends with an `if` without alternate.
* `parseTokens_print`: so printing and reading are inverse to each other up to ids, and the
  programs that are read are the expressible ones.
-/

namespace ArrayScript

open Statement

namespace Parser

/-! ### From programs to tokens and back -/

lemma topLevel_eq (ts : List Token) : topLevel ts =
    if next ts = .eof then .ok [] else do
      let (s, ts₁) ← run statement ts
      let rest ← topLevel ts₁
      return s :: rest := by
  rw [topLevel, next]
  split
  · rename_i h
    rw [if_pos h]
  · rename_i h
    rw [if_neg h, run]
    cases statement ts with
    | error e => rfl
    | ok r => rfl

/-- The first token after the first statement of a program. -/
lemma next_ne_else {ts : List Token} {ss : List Statement}
    (h : ts.map Token.kind = printAll ss ++ [.eof]) : next ts ≠ .else' := by
  rw [← ts.append_nil, next_append h]
  cases ss with
  | nil => exact TokenKind.noConfusion
  | cons s rest =>
      obtain ⟨k, hk, _, _, helse⟩ := statement_begins s
      rw [printAll, List.append_assoc, List.headD_eq_head?_getD, List.head?_append, hk]
      exact helse

/-- The statements of an expressible program are read from its tokens. -/
theorem topLevel_print {ss : List Statement} {ts : List Token}
    (h : isExpressibleAll ss = true) (hts : ts.map Token.kind = printAll ss ++ [.eof]) :
    topLevel ts = .ok (eraseAll ss) := by
  induction ss generalizing ts with
  | nil =>
      have heof : next ts = .eof := by rw [← ts.append_nil, next_append hts]; rfl
      rw [topLevel_eq, if_pos heof]
      rfl
  | cons s rest ih =>
      obtain ⟨hs, hrest⟩ := Bool.and_eq_true_iff.mp h
      rw [printAll, List.append_assoc] at hts
      have hne : next ts ≠ .eof := by
        obtain ⟨k, hk, _, heof, _⟩ := statement_begins s
        rw [← ts.append_nil, next_append hts, List.headD_eq_head?_getD, List.head?_append, hk]
        exact heof
      obtain ⟨ts₁, ts₂, rfl, h₁, h₂⟩ := List.map_eq_append_iff.mp hts
      rw [topLevel_eq, if_neg hne,
        leads_statement s hs ts₁ ts₂ h₁ fun _ => next_ne_else h₂]
      show (topLevel ts₂ >>= fun rest => pure (s.erase :: rest)) = _
      rw [ih hrest h₂]
      rfl

/-! ### From tokens to programs -/

section

variable {α β : Type} {ts rest : List Token}

lemma reader_bind_eq_ok {x : Reader α} {f : α → Reader β} {b : β} :
    (x >>= f) ts = .ok (b, rest) ↔ ∃ a ts', x ts = .ok (a, ts') ∧ f a ts' = .ok (b, rest) := by
  show (x ts >>= fun p => f p.1 p.2) = _ ↔ _
  rw [bind_eq_ok, Prod.exists]

lemma reader_pure_eq_ok {a b : α} :
    (pure a : Reader α) ts = .ok (b, rest) ↔ a = b ∧ ts = rest := by
  show (Except.ok (a, ts) : Except ParseError _) = _ ↔ _
  rw [Except.ok.injEq, Prod.mk.injEq]

lemma run_shorter {n : List Token → Nat} {r : (ts : List Token) → Reading α (n ts)} {a : α}
    (h : run r ts = .ok (a, rest)) : rest.length < n ts := by
  rw [run, outcome] at h
  cases hr : r ts with
  | error e =>
      rw [hr] at h
      cases h
  | ok b =>
      rw [hr] at h
      obtain ⟨_, rfl⟩ := Prod.mk.inj (Except.ok.inj h)
      exact b.shorter

lemma take_eq_some {meaning : TokenKind → Option α} {a : α}
    (h : take meaning ts = .ok (some a, rest)) :
    ∃ t, ts = t :: rest ∧ meaning t.kind = some a := by
  cases ts with
  | nil => cases h
  | cons t ts =>
      rw [take, take?] at h
      cases hm : meaning t.kind with
      | none =>
          rw [hm] at h
          cases h
      | some b =>
          rw [hm] at h
          obtain ⟨hb, rfl⟩ := Prod.mk.inj (Except.ok.inj h)
          exact ⟨t, rfl, by rw [← hb, hm]; rfl⟩

lemma take_eq_none {meaning : TokenKind → Option α} (h : take meaning ts = .ok (none, rest)) :
    rest = ts ∧ (meaning (next ts) = none ∨ ts = []) := by
  cases ts with
  | nil =>
      obtain ⟨_, rfl⟩ := Prod.mk.inj (Except.ok.inj h)
      exact ⟨rfl, .inr rfl⟩
  | cons t ts =>
      rw [take, take?] at h
      cases hm : meaning t.kind with
      | none =>
          rw [hm] at h
          obtain ⟨_, rfl⟩ := Prod.mk.inj (Except.ok.inj h)
          exact ⟨rfl, .inl hm⟩
      | some b =>
          rw [hm] at h
          cases h

lemma declarators_nonempty {ds : List Declarator} (h : run declarators ts = .ok (ds, rest)) :
    (!ds.isEmpty) = true := by
  rw [run_declarators] at h
  obtain ⟨d, ts₁, _, h⟩ := reader_bind_eq_ok.mp h
  obtain ⟨comma, ts₂, _, h⟩ := reader_bind_eq_ok.mp h
  cases comma with
  | none =>
      obtain ⟨rfl, _⟩ := reader_pure_eq_ok.mp h
      rfl
  | some _ =>
      obtain ⟨more, ts₃, _, h⟩ := reader_bind_eq_ok.mp h
      obtain ⟨rfl, _⟩ := reader_pure_eq_ok.mp h
      rfl

/-- What a `for` was read to start with is what it can start with. -/
lemma loopHeader_isLoopInit {header : LoopHeader} (h : run loopHeader ts = .ok (header, rest)) :
    isLoopInit header.init = true := by
  rw [run_loopHeader] at h
  obtain ⟨_, ts₁, _, h⟩ := reader_bind_eq_ok.mp h
  obtain ⟨init, ts₂, hinit, h⟩ := reader_bind_eq_ok.mp h
  obtain ⟨_, ts₃, _, h⟩ := reader_bind_eq_ok.mp h
  obtain ⟨test, ts₄, _, h⟩ := reader_bind_eq_ok.mp h
  obtain ⟨_, ts₅, _, h⟩ := reader_bind_eq_ok.mp h
  obtain ⟨update, ts₆, _, h⟩ := reader_bind_eq_ok.mp h
  obtain ⟨_, ts₇, _, h⟩ := reader_bind_eq_ok.mp h
  obtain ⟨rfl, _⟩ := reader_pure_eq_ok.mp h
  rw [run_loopInit] at hinit
  obtain ⟨kind, ts', _, hinit⟩ := reader_bind_eq_ok.mp hinit
  cases kind with
  | none =>
      obtain ⟨e, ts'', _, hinit⟩ := reader_bind_eq_ok.mp hinit
      obtain ⟨rfl, _⟩ := reader_pure_eq_ok.mp hinit
      cases e with
      | none => rfl
      | some e => rfl
  | some kind =>
      obtain ⟨ds, ts'', hds, hinit⟩ := reader_bind_eq_ok.mp hinit
      obtain ⟨rfl, _⟩ := reader_pure_eq_ok.mp hinit
      exact declarators_nonempty hds

/-- What holds of a statement that was read and of what is left. -/
def Sound (s : Statement) (rest : List Token) : Prop :=
  s.isExpressible = true ∧ Closes s (next rest)

/-- All statements that are read from fewer than `bound` tokens are sound. -/
def SoundBelow (bound : Nat) : Prop :=
  ∀ ts s rest, ts.length < bound → run statement ts = .ok (s, rest) → Sound s rest

variable {bound : Nat}

lemma statements_sound (hbound : SoundBelow bound) {ss : List Statement} (hts : ts.length < bound)
    (h : run statements ts = .ok (ss, rest)) : isExpressibleAll ss = true := by
  induction hn : ts.length using Nat.strong_induction_on generalizing ts ss with
  | _ n ih =>
      rw [run_statements, peek_bind] at h
      split at h
      · obtain ⟨rfl, _⟩ := reader_pure_eq_ok.mp h
        rfl
      · obtain ⟨s, ts₁, hs, h⟩ := reader_bind_eq_ok.mp h
        obtain ⟨more, ts₂, hmore, h⟩ := reader_bind_eq_ok.mp h
        obtain ⟨rfl, rfl⟩ := reader_pure_eq_ok.mp h
        have hshorter := run_shorter hs
        have hrest := ih ts₁.length (by omega) (by omega) hmore rfl
        rw [isExpressibleAll, (hbound ts s ts₁ hts hs).1, hrest]
        rfl

lemma bracedRest_sound (hbound : SoundBelow bound) {ss : List Statement} (hts : ts.length < bound)
    (h : run bracedRest ts = .ok (ss, rest)) : isExpressibleAll ss = true := by
  rw [run_bracedRest] at h
  obtain ⟨body, ts₁, hbody, h⟩ := reader_bind_eq_ok.mp h
  obtain ⟨_, ts₂, _, h⟩ := reader_bind_eq_ok.mp h
  obtain ⟨rfl, _⟩ := reader_pure_eq_ok.mp h
  exact statements_sound hbound hts hbody

lemma declaration_sound {kind : DeclarationKind} {s : Statement}
    (h : declaration kind ts = .ok (s, rest)) : Sound s rest := by
  obtain ⟨ds, ts₁, hds, h⟩ := reader_bind_eq_ok.mp h
  obtain ⟨_, ts₂, _, h⟩ := reader_bind_eq_ok.mp h
  obtain ⟨rfl, _⟩ := reader_pure_eq_ok.mp h
  exact ⟨declarators_nonempty hds, fun hopen => by cases hopen⟩

/-- An `else` that was taken did not belong to an `if` inside the consequent, and without one
none follows. -/
lemma conditionalRest_sound (hbound : SoundBelow bound) {test : Expr} {consequent s : Statement}
    (hts : ts.length < bound) (hconsequent : Sound consequent ts)
    (h : conditionalRest test consequent ts = .ok (s, rest)) : Sound s rest := by
  obtain ⟨hexpressible, hcloses⟩ := hconsequent
  obtain ⟨taken, ts₁, htaken, h⟩ := reader_bind_eq_ok.mp h
  cases taken with
  | none =>
      obtain ⟨rfl, rfl⟩ := reader_pure_eq_ok.mp h
      obtain ⟨rfl, hnone⟩ := take_eq_none htaken
      refine ⟨by simp [isExpressible, isExpressibleElse, hexpressible], fun _ => ?_⟩
      rcases hnone with hnone | rfl
      · intro helse
        rw [if_pos helse] at hnone
        cases hnone
      · exact TokenKind.noConfusion
  | some _ =>
      obtain ⟨alternate, ts₂, halternate, h⟩ := reader_bind_eq_ok.mp h
      obtain ⟨rfl, rfl⟩ := reader_pure_eq_ok.mp h
      obtain ⟨t, rfl, ht⟩ := take_eq_some htaken
      have helse : t.kind = .else' := by
        by_contra hne
        rw [if_neg hne] at ht
        cases ht
      have hopen : consequent.endsOpen = false := by
        by_contra hne
        exact hcloses (by simpa using hne) helse
      obtain ⟨hexpressible', hcloses'⟩ :=
        hbound ts₁ alternate ts₂ (by rw [List.length_cons] at hts; omega) halternate
      exact ⟨by simp [isExpressible, isExpressibleElse, hexpressible, hexpressible', hopen],
        hcloses'⟩

/-- A statement is sound if all shorter ones are. -/
lemma statement_sound_step (hbound : SoundBelow ts.length) {s : Statement}
    (h : run statement ts = .ok (s, rest)) : Sound s rest := by
  rw [run_statement] at h
  obtain ⟨opening, ts₁, hopening, h⟩ := reader_bind_eq_ok.mp h
  cases opening with
  | none =>
      obtain ⟨e, ts₂, _, h⟩ := reader_bind_eq_ok.mp h
      obtain ⟨_, ts₃, _, h⟩ := reader_bind_eq_ok.mp h
      obtain ⟨rfl, _⟩ := reader_pure_eq_ok.mp h
      exact ⟨rfl, fun hopen => by cases hopen⟩
  | some r =>
      obtain ⟨⟨k, position⟩, rfl, hr⟩ := take_eq_some hopening
      rw [List.length_cons] at hbound
      cases k with
      | function =>
          obtain rfl := Option.some.inj hr
          obtain ⟨header, ts₂, hheader, h⟩ := reader_bind_eq_ok.mp h
          obtain ⟨body, ts₃, hbody, h⟩ := reader_bind_eq_ok.mp h
          obtain ⟨rfl, _⟩ := reader_pure_eq_ok.mp h
          rw [run_braced] at hbody
          obtain ⟨_, ts₄, hbrace, hbody⟩ := reader_bind_eq_ok.mp hbody
          have h₂ := run_shorter hheader
          have h₄ := run_shorter hbrace
          exact ⟨bracedRest_sound hbound (by omega) hbody, fun hopen => by cases hopen⟩
      | return' =>
          obtain rfl := Option.some.inj hr
          obtain ⟨argument, ts₂, _, h⟩ := reader_bind_eq_ok.mp h
          obtain ⟨_, ts₃, _, h⟩ := reader_bind_eq_ok.mp h
          obtain ⟨rfl, _⟩ := reader_pure_eq_ok.mp h
          exact ⟨rfl, fun hopen => by cases hopen⟩
      | if' =>
          obtain rfl := Option.some.inj hr
          obtain ⟨test, ts₂, htest, h⟩ := reader_bind_eq_ok.mp h
          obtain ⟨consequent, ts₃, hconsequent, h⟩ := reader_bind_eq_ok.mp h
          have h₂ := run_shorter htest
          have h₃ := run_shorter hconsequent
          exact conditionalRest_sound hbound (by omega)
            (hbound ts₂ consequent ts₃ (by omega) hconsequent) h
      | while' =>
          obtain rfl := Option.some.inj hr
          obtain ⟨test, ts₂, htest, h⟩ := reader_bind_eq_ok.mp h
          obtain ⟨body, ts₃, hbody, h⟩ := reader_bind_eq_ok.mp h
          obtain ⟨rfl, rfl⟩ := reader_pure_eq_ok.mp h
          have h₂ := run_shorter htest
          exact hbound ts₂ body ts₃ (by omega) hbody
      | for' =>
          obtain rfl := Option.some.inj hr
          obtain ⟨header, ts₂, hheader, h⟩ := reader_bind_eq_ok.mp h
          obtain ⟨body, ts₃, hbody, h⟩ := reader_bind_eq_ok.mp h
          obtain ⟨rfl, rfl⟩ := reader_pure_eq_ok.mp h
          have h₂ := run_shorter hheader
          obtain ⟨hexpressible, hcloses⟩ := hbound ts₂ body ts₃ (by omega) hbody
          refine ⟨?_, hcloses⟩
          rw [isExpressible, loopHeader_isLoopInit hheader, hexpressible]
          rfl
      | leftBrace =>
          obtain rfl := Option.some.inj hr
          obtain ⟨body, ts₂, hbody, h⟩ := reader_bind_eq_ok.mp h
          obtain ⟨rfl, _⟩ := reader_pure_eq_ok.mp h
          exact ⟨bracedRest_sound hbound (by omega) hbody, fun hopen => by cases hopen⟩
      | semicolon =>
          obtain rfl := Option.some.inj hr
          obtain ⟨rfl, _⟩ := reader_pure_eq_ok.mp h
          exact ⟨rfl, fun hopen => by cases hopen⟩
      | var | let' | const =>
          obtain rfl := Option.some.inj hr
          exact declaration_sound h
      | _ => cases hr

/-- Every statement that was read is sound. -/
theorem statement_sound {s : Statement} (h : run statement ts = .ok (s, rest)) : Sound s rest := by
  have hall : ∀ bound, SoundBelow bound := by
    intro bound
    induction bound with
    | zero =>
        intro ts s rest hts
        cases hts
    | succ bound ih =>
        intro ts s rest hts h
        exact statement_sound_step (fun ts' s' rest' hts' h' => ih ts' s' rest' (by omega) h') h
  exact hall (ts.length + 1) ts s rest (Nat.lt_succ_self _) h

lemma topLevel_isExpressible {ss : List Statement} (h : topLevel ts = .ok ss) :
    isExpressibleAll ss = true := by
  induction hn : ts.length using Nat.strong_induction_on generalizing ts ss with
  | _ n ih =>
      rw [topLevel_eq] at h
      split at h
      · obtain rfl := Except.ok.inj h
        rfl
      · obtain ⟨⟨s, ts₁⟩, hs, h⟩ := bind_eq_ok.mp h
        obtain ⟨more, hmore, h⟩ := bind_eq_ok.mp h
        obtain rfl := pure_eq_ok.mp h
        have hshorter := run_shorter hs
        have hrest := ih ts₁.length (by omega) hmore rfl
        rw [isExpressibleAll, (statement_sound hs).1, hrest]
        rfl

end

end Parser

/-! ### Programs -/

/-- The tokens of an expressible program, whatever their places, are read as that program
with its ids in order: the same but for ids, and these count up from zero along a walk.
Every program that is read from any tokens is expressible and has its ids in order. -/
theorem parseTokens_print :
    (∀ (p : Program) (ts : List Token), p.isExpressible = true →
      ts.map Token.kind = p.print ++ [.eof] → parseTokens ts = .ok p.renumber) ∧
    (∀ p : Program, p.renumber.erase = p.erase ∧
      ∃ n, Visit.ids p.renumber.visits = List.range' 0 n) ∧
    (∀ (ts : List Token) (p : Program), parseTokens ts = .ok p →
      p.isExpressible = true ∧ p.renumber = p) := by
  refine ⟨?_, fun p => ⟨p.erase_renumber, p.renumber_ids⟩, ?_⟩
  · intro p ts hp hts
    have hbody : Parser.topLevel ts = .ok p.erase.body := Parser.topLevel_print hp hts
    rw [parseTokens, hbody]
    show Except.ok p.erase.renumber = _
    rw [p.renumber_erase]
  · intro ts p h
    obtain ⟨body, hbody, h⟩ := bind_eq_ok.mp h
    obtain rfl := pure_eq_ok.mp h
    refine ⟨?_, (Program.mk body).renumber_renumber⟩
    rw [Program.isExpressible_renumber]
    exact Parser.topLevel_isExpressible hbody

/-- A program that needs the parentheses of a sum and the braces of an `if`:
`if (a) { if (b) ; } else (a + b) * -c ** d;`. -/
def nestedConditional : Program :=
  ⟨[.conditional (.identifier 7 "a") (.block [.conditional (.identifier 7 "b") .empty none])
    (some (.expression (.binary 7 .mul
      (.binary 7 .add (.identifier 7 "a") (.identifier 7 "b"))
      (.binary 7 .pow (.unary 7 .minus (.identifier 7 "c")) (.identifier 7 "d")))))]⟩

theorem nestedConditional_parsed :
    nestedConditional.print = [.if', .leftParen, .identifier "a", .rightParen, .leftBrace, .if',
      .leftParen, .identifier "b", .rightParen, .semicolon, .rightBrace, .else', .leftParen,
      .identifier "a", .plus, .identifier "b", .rightParen, .star, .minus, .identifier "c",
      .starStar, .identifier "d", .semicolon] ∧
    parseTokens ((nestedConditional.print ++ [TokenKind.eof]).map (Token.mk · .start)) =
      .ok nestedConditional.renumber ∧
    nestedConditional.renumber.isExpressible = true := by
  have hparsed := parseTokens_print.1 nestedConditional
    ((nestedConditional.print ++ [TokenKind.eof]).map (Token.mk · .start)) rfl rfl
  exact ⟨rfl, hparsed, (parseTokens_print.2.2 _ _ hparsed).1⟩

end ArrayScript
