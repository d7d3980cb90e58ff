import ArrayScript.Proofs.Parser.Expressions

/-!
Printed statements are read again.

* `leads_pattern`, `leads_params`, `leads_declarators`: what binds names.
* `leads_statement`: a statement is read from its tokens. If it ends with an `if` without
  alternate, no `else` may follow.
-/

namespace ArrayScript.Parser

/-! ### Patterns -/

/-- A pattern begins with a token that closes nothing, so an element is told from the end of
the list. -/
lemma pattern_begins (p : Pattern) : ∃ k, p.print.head? = some k ∧
    k ≠ .rightBracket ∧ k ≠ .rightParen := by
  cases p with
  | identifier name => exact ⟨.identifier name, rfl, TokenKind.noConfusion, TokenKind.noConfusion⟩
  | array elements => exact ⟨.leftBracket, rfl, by decide, by decide⟩
  | object keys => exact ⟨.leftBrace, rfl, by decide, by decide⟩

/-- Behind an opening bracket patterns are read, up to the closing one. -/
lemma leads_arrayPattern : Leads (run pattern) [.leftBracket] (do
    let elements ← run patterns
    run (expect .rightBracket)
    pure (.array elements)) Anything := by
  refine .token fun position rest => ?_
  rw [run, pattern]
  exact run_bind patterns fun _ => run_bind (expect .rightBracket) fun _ => rfl

/-- Behind an opening brace keys are read, up to the closing one. -/
lemma leads_objectPattern : Leads (run pattern) [.leftBrace] (do
    let names ← run keys
    run (expect .rightBrace)
    pure (.object names)) Anything := by
  refine .token fun position rest => ?_
  rw [run, pattern]
  exact run_bind keys fun _ => run_bind (expect .rightBrace) fun _ => rfl

mutual

/-- Patterns are read from their tokens. -/
theorem leads_pattern : ∀ p : Pattern, Leads (run pattern) p.print (pure p) Anything
  | .identifier name => by
      refine .token fun position rest => ?_
      rw [run, pattern]
      rfl
  | .array elements => by
      refine leads_arrayPattern.cons ?_
      have hpatterns := leads_list elements Pattern.print id run_patterns (by decide)
        (fun p hp => (leads_patterns elements p hp).mono fun _ _ => trivial) fun p _ => ?_
      · rw [← Pattern.printAll_eq_map, List.map_id] at hpatterns
        exact hpatterns.andThen (leads_expect.feed _) fun _ _ => rfl
      · obtain ⟨k, hk, hne, _⟩ := pattern_begins p
        exact ⟨k, hk, hne⟩
  | .object keys => by
      refine leads_objectPattern.cons ?_
      have hkeys := leads_list keys (fun key => [.identifier key]) id run_keys (by decide)
        (fun key _ => leads_expectName .propertyName key)
        fun key _ => ⟨_, rfl, TokenKind.noConfusion⟩
      rw [List.map_id] at hkeys
      exact hkeys.andThen (leads_expect.feed _) fun _ _ => rfl

/-- Each pattern of a list is read back. -/
theorem leads_patterns : ∀ ps : List Pattern, ∀ p ∈ ps,
    Leads (run pattern) p.print (pure p) Anything
  | [] => fun _ h => by cases h
  | p :: rest => List.forall_mem_cons.mpr ⟨leads_pattern p, leads_patterns rest⟩

end

/-! ### Types -/

/-- What may follow a type mark, also one that is left out. -/
def EndsMark (k : TokenKind) : Prop :=
  k ≠ .colon ∧ k ≠ .leftBracket

/-- A name of a type, with or without brackets behind it. -/
lemma leads_named {name : String} {isArray : Bool} {t : ValueType} {ks : List TokenKind}
    (ht : namedType? name isArray = some t)
    (h : Leads (run brackets) ks (pure isArray) EndsMark) :
    Leads (run typeMark) (.colon :: .identifier name :: ks) (pure (some t)) EndsMark := by
  rw [run_typeMark]
  refine leads_takeToken.consThen (.placed fun position => ?_)
  refine (leads_expectName .typeName name).consThen ?_
  have htype := h.feed (named name position)
  rwa [named, ht] at htype

/-- A type that may be left out is read back, with the colon before it. -/
lemma leads_typeMark (t : Option ValueType) :
    Leads (run typeMark) (ValueType.printMark t) (pure t) EndsMark := by
  have hnone : Leads (run brackets) [] (pure false) EndsMark := by
    rw [run_brackets]
    exact (leads_takeToken_none fun k hk => hk.2).feed _
  have hsome : Leads (run brackets) [.leftBracket, .rightBracket] (pure true) EndsMark := by
    rw [run_brackets]
    exact leads_takeToken.consThen (leads_expect.feed _)
  cases t with
  | none =>
      rw [run_typeMark]
      exact (leads_takeToken_none fun k hk => hk.1).feed _
  | some t =>
      cases t with
      | int32 => exact leads_named rfl hnone
      | float64 => exact leads_named rfl hnone
      | boolean => exact leads_named rfl hnone
      | int32Array => exact leads_named rfl hsome
      | float64Array => exact leads_named rfl hsome

/-! ### Parameters and declarators -/

/-- A parameter is read back. -/
lemma leads_param (p : Param) : Leads param p.print (pure p) EndsMark :=
  (leads_pattern p.pattern).andThen ((leads_typeMark p.declared).feed _) fun _ _ => trivial

/-- Parameters are read back, up to the closing parenthesis. -/
lemma leads_params (ps : List Param) :
    Leads (run params) (separated (ps.map Param.print)) (pure ps) (· = .rightParen) := by
  have hparams := leads_list ps Param.print id run_params (by decide)
    (fun p _ => (leads_param p).mono ?_) fun p _ => ?_
  · rwa [List.map_id] at hparams
  · rintro k (rfl | rfl)
    · exact ⟨by decide, by decide⟩
    · exact ⟨by decide, by decide⟩
  · obtain ⟨k, hk, _, hne⟩ := pattern_begins p.pattern
    exact ⟨k, by rw [Param.print, List.head?_append, hk, Option.some_or], hne⟩

/-- An initial value that may be left out is read back. -/
lemma leads_initial (e : Option Expr) :
    Leads (run initial) (Expr.printInit e) (pure (e.map Expr.erase)) (Stops 0) := by
  rw [run_initial]
  cases e with
  | none =>
      refine (leads_takeToken_none fun k hk => ?_).feed _
      rintro rfl
      exact absurd (hk 0 rfl) (by decide)
  | some e =>
      exact leads_takeToken.consThen ((reads e).assignment.feed _)

/-- A declarator is read back. -/
lemma leads_declarator (d : Declarator) : Leads declarator d.print (pure d.erase) (Stops 0) :=
  (leads_pattern d.target).andThen ((leads_initial d.init).feed _) fun _ _ => trivial

/-- Declarations of something are read from their tokens. -/
lemma leads_declarators {ds : List Declarator} (h : ds ≠ []) :
    Leads (run declarators) (separated (ds.map Declarator.print)) (pure (ds.map Declarator.erase))
      (· = .semicolon) := by
  induction ds with
  | nil => exact absurd rfl h
  | cons d rest ih =>
      rw [run_declarators]
      cases rest with
      | nil =>
          rw [List.map_singleton, separated, ← d.print.append_nil]
          refine (leads_declarator d).andThen ((leads_takeToken_none ?_).feed _) ?_
          · rintro k rfl
            decide
          · rintro k rfl
            exact stops_of_none rfl 0
      | cons d' rest =>
          rw [List.map_cons, List.map_cons, separated]
          · exact (leads_declarator d).andThen
              (leads_takeToken.consThen ((ih (List.cons_ne_nil _ _)).feed _))
              fun _ _ => stops_of_none rfl 0
          · exact List.cons_ne_nil _ _

/-- The keyword of a declaration tells its kind. -/
lemma declarationKind?_token (kind : DeclarationKind) :
    declarationKind? kind.token = some kind := by
  cases kind <;> rfl

/-! ### Parts of statements -/

/-- No expression begins with such a keyword. -/
lemma Begins.declarationKind? {k : TokenKind} (h : Begins k) : declarationKind? k = none := by
  cases k <;> first | rfl | exact h.elim

/-- An expression that may be left out is read back, if the token that ends it begins
none. -/
lemma leads_expressionBefore (close : TokenKind) (e : Option Expr) (hbegins : ¬ Begins close)
    (hstops : Stops 0 close) :
    Leads (run (expressionBefore close)) (Expr.printOption e) (pure (e.map Expr.erase))
      (· = close) := by
  rw [run_expressionBefore]
  cases e with
  | none =>
      refine .of_eq fun rest hrest => ?_
      rw [peek_bind, if_pos hrest]
      rfl
  | some e =>
      obtain ⟨k, hk, hbegin⟩ := print_begins e
      refine .peeked hk ?_
      rw [if_neg]
      · refine ((reads e).assignment.feed _).mono ?_
        rintro k rfl
        exact hstops
      · rintro rfl
        exact hbegins hbegin

/-- An expression in parentheses is read back. -/
lemma leads_parenthesised (e : Expr) :
    Leads (run parenthesised) (.leftParen :: e.print ++ [.rightParen]) (pure e.erase) Anything := by
  rw [run_parenthesised]
  refine leads_expect.consThen ?_
  exact (reads e).assignment.andThen (leads_expect.feed _) fun _ _ => stops_of_none rfl 0

/-- What a `for` starts with is read back. -/
lemma leads_loopInit {init : Option Statement} (h : Statement.isLoopInit init = true) :
    Leads (run loopInit) (Statement.printInit init) (pure (Statement.eraseOption init))
      (· = .semicolon) := by
  have hbefore := fun e => leads_expressionBefore .semicolon e id (stops_of_none rfl 0)
  rw [run_loopInit]
  match init with
  | none =>
      have htake : Leads (take declarationKind?) [] (pure none) (· = .semicolon) := by
        refine leads_take_none ?_
        rintro k rfl
        rfl
      exact htake.keepThen ((hbefore none).feed _) fun _ hk => hk
  | some (.expression e) =>
      obtain ⟨k, hk, hbegin⟩ := print_begins e
      refine (leads_take_none fun _ => Begins.declarationKind?).keepThen
        ((hbefore (some e)).feed _) fun k' _ => ?_
      show Begins (e.print.headD k')
      rw [List.headD_eq_head?_getD, hk]
      exact hbegin
  | some (.declare kind ds) =>
      have hds : ds ≠ [] := by
        rintro rfl
        cases h
      exact (leads_take (declarationKind?_token kind)).consThen ((leads_declarators hds).feed _)

/-- The parentheses behind `for` are read back. -/
lemma leads_loopHeader {init : Option Statement} (h : Statement.isLoopInit init = true)
    (test update : Option Expr) :
    Leads (run loopHeader) (.leftParen :: (Statement.printInit init ++ .semicolon ::
        (Expr.printOption test ++ .semicolon :: (Expr.printOption update ++ [.rightParen]))))
      (pure ⟨Statement.eraseOption init, test.map Expr.erase, update.map Expr.erase⟩)
      Anything := by
  rw [run_loopHeader]
  refine leads_expect.consThen ?_
  refine (leads_loopInit h).andThen ?_ fun _ _ => rfl
  refine leads_expect.consThen ?_
  refine (leads_expressionBefore _ test id (stops_of_none rfl 0)).andThen ?_ fun _ _ => rfl
  refine leads_expect.consThen ?_
  refine (leads_expressionBefore _ update id (stops_of_none rfl 0)).andThen ?_ fun _ _ => rfl
  exact leads_expect.feed _

/-- What stands before the body of a function is read back. -/
lemma leads_functionHeader (name : Option String) (ps : List Param) (t : Option ValueType) :
    Leads (run functionHeader) ((name.map TokenKind.identifier).toList ++ .leftParen ::
        (separated (ps.map Param.print) ++ .rightParen :: ValueType.printMark t))
      (pure ⟨name, ps, t⟩) EndsMark := by
  have hname : Leads (take name?) (name.map TokenKind.identifier).toList (pure name)
      (· = .leftParen) := by
    cases name with
    | none =>
        refine leads_take_none ?_
        rintro k rfl
        rfl
    | some name => exact leads_take rfl
  rw [run_functionHeader]
  refine hname.andThen ?_ fun _ _ => rfl
  refine leads_expect.consThen ?_
  refine (leads_params ps).andThen ?_ fun _ _ => rfl
  exact leads_expect.consThen ((leads_typeMark t).feed _)

lemma leads_semicolon {follow : TokenKind → Prop} :
    Leads semicolon [.semicolon] (pure ()) follow :=
  .token fun _ _ => rfl

/-- A returned value that may be left out is read back. -/
lemma leads_returned (e : Option Expr) :
    Leads (run returned) (Expr.printOption e) (pure (e.map Expr.erase)) (· = .semicolon) := by
  rw [run_returned]
  cases e with
  | none =>
      refine .of_eq fun rest hrest => ?_
      rw [peek_bind, if_pos (.inl hrest)]
      rfl
  | some e =>
      obtain ⟨k, hk, hbegin⟩ := print_begins e
      refine .peeked hk ?_
      rw [if_neg]
      · refine ((reads e).assignment.feed _).mono ?_
        rintro k rfl
        exact stops_of_none rfl 0
      · rintro (rfl | rfl | rfl) <;> exact hbegin

/-! ### Statements -/

/-- What may follow a statement: no `else` that would belong to an `if` inside. -/
def Closes (s : Statement) (k : TokenKind) : Prop :=
  s.endsOpen = true → k ≠ .else'

/-- No expression begins with a token that opens another statement. -/
lemma Begins.afterOpening? {k : TokenKind} (h : Begins k) : afterOpening? k = none := by
  cases k <;> first | rfl | exact h.elim

/-- The first token of a statement closes nothing. -/
lemma statement_begins (s : Statement) : ∃ k, s.print.head? = some k ∧
    k ≠ .rightBrace ∧ k ≠ .eof ∧ k ≠ .else' := by
  cases s with
  | expression e =>
      obtain ⟨k, hk, hbegin⟩ := print_begins e
      refine ⟨k, by rw [Statement.print, List.head?_append, hk, Option.some_or], ?_, ?_, ?_⟩
      all_goals
        rintro rfl
        exact hbegin
  | declare kind ds => exact ⟨kind.token, rfl, by cases kind <;> decide⟩
  | _ => exact ⟨_, rfl, by decide⟩

/-- After the token that opens a statement the rest of it is read. -/
lemma leads_opened {k : TokenKind} {ks : List TokenKind} {r y : Reader Statement}
    {follow : TokenKind → Prop} (hk : afterOpening? k = some r) (h : Leads r ks y follow) :
    Leads (run statement) (k :: ks) y follow := by
  rw [run_statement]
  exact (leads_take hk).consThen h

/-- A declaration of something is read back. -/
lemma leads_declaration (kind : DeclarationKind) {ds : List Declarator} (h : ds ≠ []) :
    Leads (declaration kind) (separated (ds.map Declarator.print) ++ [.semicolon])
      (pure (.declare kind (ds.map Declarator.erase))) Anything :=
  (leads_declarators h).andThen (leads_semicolon.feed _) fun _ _ => rfl

/-- An expression as a statement is read back. -/
lemma leads_expressionStatement (e : Expr) :
    Leads (run statement) (e.print ++ [.semicolon]) (pure (.expression e.erase)) Anything := by
  obtain ⟨k, hk, hbegin⟩ := print_begins e
  rw [run_statement]
  refine (leads_take_none fun _ => Begins.afterOpening?).keepThen
    ((reads e).assignment.andThen (leads_semicolon.feed _) fun _ _ => stops_of_none rfl 0)
    fun k' _ => ?_
  show Begins ((e.print ++ [TokenKind.semicolon]).headD k')
  rw [List.headD_eq_head?_getD, List.head?_append, hk]
  exact hbegin

open Statement

/-- A list of statements up to a closing brace. -/
lemma leads_statements {ss : List Statement}
    (h : ∀ s ∈ ss, Leads (run statement) s.print (pure s.erase) (Closes s)) :
    Leads (run statements) (printAll ss) (pure (eraseAll ss)) (· = .rightBrace) := by
  induction ss with
  | nil =>
      refine .of_eq fun rest hrest => ?_
      rw [run_statements, peek_bind, if_pos (.inl hrest)]
      rfl
  | cons s rest ih =>
      obtain ⟨hs, hrest⟩ := List.forall_mem_cons.mp h
      obtain ⟨k, hk, hbrace, heof, _⟩ := statement_begins s
      rw [run_statements, printAll, eraseAll]
      refine .peeked (k := k) (by rw [List.head?_append, hk, Option.some_or]) ?_
      rw [if_neg (not_or.mpr ⟨hbrace, heof⟩)]
      refine hs.andThen ((ih hrest).feed _) ?_
      rintro k rfl _
      cases rest with
      | nil => decide
      | cons s' rest =>
          obtain ⟨k', hk', _, _, helse⟩ := statement_begins s'
          rw [printAll, List.headD_eq_head?_getD, List.head?_append, hk']
          exact helse

/-- Statements are read back one after another, up to the closing brace. -/
lemma leads_bracedRest {ss : List Statement}
    (h : ∀ s ∈ ss, Leads (run statement) s.print (pure s.erase) (Closes s)) :
    Leads (run bracedRest) (printAll ss ++ [.rightBrace]) (pure (eraseAll ss)) Anything := by
  rw [run_bracedRest]
  exact (leads_statements h).andThen (leads_expect.feed _) fun _ _ => rfl

/-- An `if` is read back, provided that what follows its consequent does not belong to
it. -/
lemma leads_conditional {test : Expr} {consequent s : Statement} {ks : List TokenKind}
    {follow : TokenKind → Prop}
    (hconsequent : Leads (run statement) consequent.print (pure consequent.erase)
      (Closes consequent))
    (hrest : Leads (conditionalRest test.erase consequent.erase) ks (pure s) follow)
    (hfollow : ∀ k, follow k → Closes consequent (ks.headD k)) :
    Leads (run statement)
      (.if' :: ((.leftParen :: test.print ++ [.rightParen]) ++ (consequent.print ++ ks)))
      (pure s) follow := by
  refine leads_opened rfl ((leads_parenthesised test).andThen ?_ fun _ _ => trivial)
  exact hconsequent.andThen hrest hfollow

mutual

/-- Every statement that can be written down is read from its tokens. -/
theorem leads_statement : ∀ s : Statement, s.isExpressible = true →
    Leads (run statement) s.print (pure s.erase) (Closes s)
  | .function name ps t body, h => by
      have htokens : (Statement.function name ps t body).print = .function ::
          (((name.map TokenKind.identifier).toList ++ .leftParen ::
            (separated (ps.map Param.print) ++ .rightParen :: ValueType.printMark t)) ++
          .leftBrace :: (printAll body ++ [.rightBrace])) := by
        simp only [Statement.print, List.cons_append, List.append_assoc]
      rw [htokens]
      refine leads_opened rfl ((leads_functionHeader name ps t).andThen ?_ fun _ _ => ?_)
      · have hbody : Leads (run braced) (.leftBrace :: (printAll body ++ [.rightBrace]))
            (pure (eraseAll body)) Anything := by
          rw [run_braced]
          exact leads_expect.consThen (leads_bracedRest (leads_all body h))
        exact (hbody.feed _).mono fun _ _ => trivial
      · exact ⟨TokenKind.noConfusion, TokenKind.noConfusion⟩
  | .declare kind ds, h => by
      have hds : ds ≠ [] := by
        rintro rfl
        cases h
      refine (leads_opened ?_ (leads_declaration kind hds)).mono fun _ _ => trivial
      cases kind <;> rfl
  | .expression e, _ => (leads_expressionStatement e).mono fun _ _ => trivial
  | .ret argument, _ => by
      refine leads_opened rfl ?_
      exact (leads_returned argument).andThen (leads_semicolon.feed _) fun _ _ => rfl
  | .conditional test consequent none, h => by
      have hconsequent : consequent.isExpressible = true := by
        simpa [isExpressible, isExpressibleElse] using h
      have htokens : (Statement.conditional test consequent none).print = .if' ::
          ((.leftParen :: test.print ++ [.rightParen]) ++ (consequent.print ++ [])) := by
        simp only [Statement.print, printElse, List.cons_append, List.append_assoc,
          List.nil_append]
      rw [htokens]
      refine leads_conditional (leads_statement consequent hconsequent)
        ((leads_takeToken_none fun k hk => hk rfl).feed _) fun k hk _ => hk rfl
  | .conditional test consequent (some alternate), h => by
      obtain ⟨⟨hopen, hconsequent⟩, halternate⟩ : (consequent.endsOpen = false ∧
          consequent.isExpressible = true) ∧ alternate.isExpressible = true := by
        simpa [isExpressible, isExpressibleElse] using h
      have htokens : (Statement.conditional test consequent (some alternate)).print = .if' ::
          ((.leftParen :: test.print ++ [.rightParen]) ++
            (consequent.print ++ .else' :: alternate.print)) := by
        simp only [Statement.print, printElse, List.cons_append, List.append_assoc,
          List.nil_append]
      rw [htokens]
      refine leads_conditional (leads_statement consequent hconsequent) ?_ fun _ _ hends => ?_
      · exact leads_takeToken.consThen ((leads_statement alternate halternate).feed _)
      · rw [hopen] at hends
        cases hends
  | .whileLoop test body, h => by
      have htokens : (Statement.whileLoop test body).print =
          .while' :: ((.leftParen :: test.print ++ [.rightParen]) ++ body.print) := by
        simp only [Statement.print, List.cons_append, List.append_assoc, List.nil_append]
      rw [htokens]
      refine leads_opened rfl ((leads_parenthesised test).andThen ?_ fun _ _ => trivial)
      exact (leads_statement body h).feed _
  | .forLoop init test update body, h => by
      obtain ⟨hinit, hbody⟩ := Bool.and_eq_true_iff.mp h
      have htokens : (Statement.forLoop init test update body).print = .for' ::
          (.leftParen :: (printInit init ++ .semicolon :: (Expr.printOption test ++ .semicolon ::
            (Expr.printOption update ++ [.rightParen]))) ++ body.print) := by
        simp only [Statement.print, List.cons_append, List.append_assoc, List.nil_append]
      rw [htokens]
      refine leads_opened rfl ((leads_loopHeader hinit test update).andThen ?_ fun _ _ => trivial)
      exact (leads_statement body hbody).feed _
  | .block body, h => by
      have hbody := (leads_bracedRest (leads_all body h)).feed (pure ∘ Statement.block)
      exact (leads_opened rfl hbody).mono fun _ _ => trivial
  | .empty, _ => leads_opened rfl (.refl _)

/-- Each statement of a list that can be written down is read back. -/
theorem leads_all : ∀ ss : List Statement, isExpressibleAll ss = true →
    ∀ s ∈ ss, Leads (run statement) s.print (pure s.erase) (Closes s)
  | [], _ => fun _ h => by cases h
  | s :: rest, h => by
      obtain ⟨hs, hrest⟩ := Bool.and_eq_true_iff.mp h
      exact List.forall_mem_cons.mpr ⟨leads_statement s hs, leads_all rest hrest⟩

end

end ArrayScript.Parser
