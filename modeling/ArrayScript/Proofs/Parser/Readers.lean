import ArrayScript.Parser.Statement
import Mathlib.Tactic.Basic

/-!
The grammar as readers that pass tokens on.

`run` forgets the bound on the tokens that are left, so that the functions of the grammar
are computations with a state. Each of them has an equation, `run_assignment` and so on.

`Leads x ks y follow` says that tokens of the kinds `ks` take the reader `x` to the reader
`y`, whatever comes after them, as long as it begins as `follow` allows. A reader that
leads to `pure a` has read `a`. Such facts are put together by `Leads.trans`, `Leads.bind`
and `Leads.andThen`.
-/

namespace ArrayScript.Parser

/-! ### Readers -/

/-- Readers with the tokens as their state. -/
abbrev Reader := StateT (List Token) (Except ParseError)

/-- What was read and what is left. -/
def outcome {α : Type} {n : Nat} (r : Reading α n) : Except ParseError (α × List Token) :=
  r.map fun a => (a.value, a.rest)

/-- A reader without the bound on what it leaves. -/
def run {α : Type} {n : List Token → Nat} (r : (ts : List Token) → Reading α (n ts)) : Reader α :=
  fun ts => outcome (r ts)

/-- Takes the first token if it has a meaning. -/
def take {α : Type} (meaning : TokenKind → Option α) : Reader (Option α) := fun ts =>
  match take? meaning ts with
  | none => .ok (none, ts)
  | some r => .ok (some r.value, r.rest)

/-- Takes the first token if it is of the given kind. -/
def takeToken (kind : TokenKind) : Reader (Option Unit) :=
  take fun k => if k = kind then some () else none

/-- The kind of the first token. -/
def next (ts : List Token) : TokenKind :=
  (firstToken ts).kind

/-- Looks at the first token without taking it. -/
def peek : Reader TokenKind := fun ts => .ok (next ts, ts)

/-- Where the first token stands. -/
def place : Reader Position := fun ts => .ok ((firstToken ts).position, ts)

section

variable {α β : Type} {n : List Token → Nat} {m : Nat} {ts : List Token}

/-- A reader whose steps carry bounds on the tokens, without the bounds. -/
lemma run_bind (r : (ts : List Token) → Reading α (n ts)) {k : Read Token α (n ts) → Reading β m}
    {f : α → Reader β} (h : ∀ a, outcome (k a) = f a.value a.rest) :
    outcome (r ts >>= k) = (run r >>= f) ts := by
  show outcome (Except.bind _ _) = Except.bind (outcome _) _
  cases r ts with
  | error e => rfl
  | ok a => exact h a

/-- Passing on what was read last is no step of its own. -/
lemma run_last (r : (ts : List Token) → Reading α (n ts)) {k : Read Token α (n ts) → Reading α m}
    (h : ∀ a, outcome (k a) = .ok (a.value, a.rest)) : outcome (r ts >>= k) = run r ts := by
  rw [← bind_pure (run r)]
  exact run_bind r h

/-- A token that may be there, and what is done in either case. -/
lemma take_bind {meaning : TokenKind → Option α} {f : Option α → Reader β} :
    (take meaning >>= f) ts = match take? meaning ts with
      | none => f none ts
      | some r => f (some r.value) r.rest := by
  show Except.bind (take meaning ts) _ = _
  rw [take]
  cases take? meaning ts with
  | none => rfl
  | some r => rfl

lemma takeToken_bind {kind : TokenKind} {f : Option Unit → Reader β} :
    (takeToken kind >>= f) ts = match takeToken? kind ts with
      | none => f none ts
      | some r => f (some ()) r.rest := by
  rw [takeToken, take_bind, takeToken?]
  cases take? (fun k => if k = kind then some () else none) ts with
  | none => rfl
  | some r => rfl

lemma peek_bind {f : TokenKind → Reader β} : (peek >>= f) ts = f (next ts) ts := rfl

lemma place_bind {f : Position → Reader β} :
    (place >>= f) ts = f (firstToken ts).position ts := rfl

end

/-! ### Tokens that lead on -/

/-- Tokens of the given kinds take one reader to another, whatever comes after them that
begins as it may. -/
def Leads {α : Type} (x : Reader α) (ks : List TokenKind) (y : Reader α)
    (follow : TokenKind → Prop) : Prop :=
  ∀ ts rest, ts.map Token.kind = ks → follow (next rest) → x (ts ++ rest) = y rest

/-- Whatever comes after. -/
def Anything : TokenKind → Prop := fun _ => True

lemma next_append {ts : List Token} {ks : List TokenKind} (h : ts.map Token.kind = ks)
    (rest : List Token) : next (ts ++ rest) = ks.headD (next rest) := by
  subst h
  cases ts with
  | nil => rfl
  | cons t ts => rfl

namespace Leads

variable {α β : Type} {x y z : Reader α} {ks ks' : List TokenKind} {k : TokenKind}
  {follow follow' : TokenKind → Prop}

/-- No tokens, and nothing happens. -/
lemma refl (x : Reader α) : Leads x [] x follow := by
  intro ts rest hts _
  rw [List.map_eq_nil_iff.mp hts, List.nil_append]

/-- A reader that waits for no token. -/
lemma of_eq (h : ∀ rest, follow (next rest) → x rest = y rest) : Leads x [] y follow := by
  intro ts rest hts hfollow
  rw [List.map_eq_nil_iff.mp hts, List.nil_append, h rest hfollow]

/-- One token, whatever its position. -/
lemma token (h : ∀ position rest, x (⟨k, position⟩ :: rest) = y rest) : Leads x [k] y follow := by
  intro ts rest hts _
  obtain ⟨⟨_, position⟩, rfl, rfl⟩ := List.map_eq_singleton_iff.mp hts
  exact h position rest

/-- Less may follow. -/
lemma mono (h : Leads x ks y follow) (himp : ∀ k, follow' k → follow k) : Leads x ks y follow' :=
  fun ts rest hts hfollow => h ts rest hts (himp _ hfollow)

/-- What the first tokens lead to is what the others begin with. -/
lemma trans (h : Leads x ks y follow) (h' : Leads y ks' z follow')
    (hfollow : ∀ k, follow' k → follow (ks'.headD k)) : Leads x (ks ++ ks') z follow' := by
  intro ts rest hts hrest
  obtain ⟨ts₁, ts₂, rfl, h₁, h₂⟩ := List.map_eq_append_iff.mp hts
  rw [List.append_assoc, h ts₁ (ts₂ ++ rest) h₁ (by rw [next_append h₂]; exact hfollow _ hrest),
    h' ts₂ rest h₂ hrest]

/-- What comes after a reader comes after what it leads to. -/
lemma bind (h : Leads x ks y follow) (f : α → Reader β) :
    Leads (x >>= f) ks (y >>= f) follow := by
  intro ts rest hts hfollow
  show Except.bind (x (ts ++ rest)) _ = Except.bind (y rest) _
  rw [h ts rest hts hfollow]

/-- What was read is passed on. -/
lemma feed {a : α} (h : Leads x ks (pure a) follow) (f : α → Reader β) :
    Leads (x >>= f) ks (f a) follow := by
  have hbind := h.bind f
  rwa [pure_bind] at hbind

/-- What was read first decides how the other tokens are read. -/
lemma andThen {a : α} {f : α → Reader β} {z : Reader β} (h : Leads x ks (pure a) follow)
    (h' : Leads (f a) ks' z follow') (hfollow : ∀ k, follow' k → follow (ks'.headD k)) :
    Leads (x >>= f) (ks ++ ks') z follow' :=
  (h.feed f).trans h' hfollow

/-- One token, and then the others. -/
lemma cons (h : Leads x [k] y Anything) (h' : Leads y ks z follow) :
    Leads x (k :: ks) z follow :=
  h.trans h' fun _ _ => trivial

/-- One token that is read, and then the others. -/
lemma consThen {a : α} {f : α → Reader β} {z : Reader β} (h : Leads x [k] (pure a) Anything)
    (h' : Leads (f a) ks z follow) : Leads (x >>= f) (k :: ks) z follow :=
  (h.feed f).cons h'

/-- A token that is not taken decides how it is read. -/
lemma keepThen {a : α} {f : α → Reader β} {z : Reader β} (h : Leads x [] (pure a) follow')
    (h' : Leads (f a) ks z follow) (hfollow : ∀ k, follow k → follow' (ks.headD k)) :
    Leads (x >>= f) ks z follow :=
  (h.feed f).trans h' hfollow

/-- Positions do not matter. -/
lemma placed {f : Position → Reader α} (h : ∀ position, Leads (f position) ks y follow) :
    Leads (place >>= f) ks y follow :=
  fun ts rest hts hfollow => h _ ts rest hts hfollow

/-- The next token is the first of those to be read. -/
lemma peeked {f : TokenKind → Reader α} (hk : ks.head? = some k)
    (h : Leads (f k) ks y follow) : Leads (peek >>= f) ks y follow := by
  intro ts rest hts hfollow
  rw [peek_bind, next_append hts, List.headD_eq_head?_getD, hk]
  exact h ts rest hts hfollow

end Leads

section

variable {α : Type} {follow : TokenKind → Prop} {k : TokenKind}

/-- A token with a meaning is taken. -/
lemma leads_take {meaning : TokenKind → Option α} {a : α} (h : meaning k = some a) :
    Leads (take meaning) [k] (pure (some a)) follow := by
  refine .token fun position rest => ?_
  rw [take, take?, h]
  rfl

/-- Nothing is taken before a token without meaning. -/
lemma leads_take_none {meaning : TokenKind → Option α}
    (h : ∀ k, follow k → meaning k = none) : Leads (take meaning) [] (pure none) follow := by
  refine .of_eq fun rest hrest => ?_
  cases rest with
  | nil => rfl
  | cons t rest =>
      rw [take, take?, h t.kind hrest]
      rfl

lemma leads_takeToken : Leads (takeToken k) [k] (pure (some ())) follow :=
  leads_take (if_pos rfl)

lemma leads_takeToken_none (h : ∀ k', follow k' → k' ≠ k) :
    Leads (takeToken k) [] (pure none) follow :=
  leads_take_none fun k' hk' => if_neg (h k' hk')

/-- A token that must be there is taken. -/
lemma leads_expect : Leads (run (expect k)) [k] (pure ()) follow := by
  refine .token fun position rest => ?_
  rw [run, expect, takeToken?, take?, if_pos rfl]
  rfl

/-- A name that must be there is taken. -/
lemma leads_expectName (what : Expectation) (name : String) :
    Leads (run (expectName what)) [.identifier name] (pure name) follow :=
  .token fun _ _ => rfl

end

/-! ### Expressions -/

lemma run_assignment : run assignment = (do
    let target ← run (chain loosest)
    match ← take assignOp? with
    | none => pure target
    | some op =>
      let value ← run assignment
      pure (.assign 0 op target value)) := by
  funext ts
  rw [run, assignment]
  refine run_bind _ ?_
  rintro ⟨target, ts₁, h₁⟩
  rw [take_bind]
  dsimp only
  cases take? assignOp? ts₁ with
  | none => rfl
  | some r => exact run_bind assignment fun _ => rfl

lemma run_chain_zero : run (chain 0) = run power := by
  funext ts
  rw [run, chain]
  rfl

lemma run_chain_succ (c : Nat) : run (chain (c + 1)) = (do
    let left ← run (chain c)
    run (chainRest c left)) := by
  funext ts
  rw [run, chain]
  exact run_bind _ fun r => run_last (chainRest c r.value) fun _ => rfl

lemma run_chainRest (c : Nat) (left : Expr) : run (chainRest c left) = (do
    match ← take (connective? (c + 1)) with
    | none => pure left
    | some op =>
      let right ← run (chain c)
      run (chainRest c (op.join left right))) := by
  funext ts
  rw [run, chainRest, take_bind]
  cases take? (connective? (c + 1)) ts with
  | none => rfl
  | some r =>
      exact run_bind (chain c) fun r' =>
        run_last (chainRest c (r.value.join left r'.value)) fun _ => rfl

lemma run_power : run power = (do
    let base ← run unary
    match ← takeToken .starStar with
    | none => pure base
    | some () =>
      let exponent ← run power
      pure (.binary 0 .pow base exponent)) := by
  funext ts
  rw [run, power]
  refine run_bind _ ?_
  rintro ⟨base, ts₁, h₁⟩
  rw [takeToken_bind]
  dsimp only
  cases takeToken? .starStar ts₁ with
  | none => rfl
  | some r => exact run_bind power fun _ => rfl

lemma run_unary : run unary = (do
    match ← take unaryOp? with
    | some op =>
      let argument ← run unary
      pure (.unary 0 op argument)
    | none =>
      match ← take updateOp? with
      | some op =>
        let argument ← run unary
        pure (.update 0 op true argument)
      | none => run trailing) := by
  funext ts
  rw [run, unary, take_bind]
  cases take? unaryOp? ts with
  | some r => exact run_bind unary fun _ => rfl
  | none =>
      dsimp only
      rw [take_bind]
      cases take? updateOp? ts with
      | some r => exact run_bind unary fun _ => rfl
      | none => rfl

lemma run_trailing : run trailing = (do
    let head ← run primary
    let e ← run (applied head)
    match ← take updateOp? with
    | none => pure e
    | some op => pure (.update 0 op false e)) := by
  funext ts
  rw [run, trailing]
  refine run_bind _ fun r => run_bind (applied r.value) ?_
  rintro ⟨e, ts₂, h₂⟩
  rw [take_bind]
  dsimp only
  cases take? updateOp? ts₂ with
  | none => rfl
  | some r' => rfl

/-- Items up to a closing token, separated by commas; a comma may stand before it. -/
def list {α : Type} (close : TokenKind) (item : Reader α) (rest : Reader (List α)) :
    Reader (List α) := do
  if (← peek) = close then pure []
  else do
    let a ← item
    match ← takeToken .comma with
    | none => pure [a]
    | some () =>
      let as ← rest
      pure (a :: as)

/-- The readers of lists differ only in their items. -/
lemma outcome_list {α : Type} (close : TokenKind) (item : (ts : List Token) → Reading α ts.length)
    (rest : (ts : List Token) → Reading (List α) (ts.length + 1)) (ts : List Token) :
    outcome (if (firstToken ts).kind = close then .ok (.here [] ts)
      else do
        let ⟨a, ts₁, h₁⟩ ← item ts
        match takeToken? .comma ts₁ with
        | none => return .loose ⟨[a], ts₁, h₁⟩
        | some ⟨(), ts₂, h₂⟩ =>
          let ⟨as, ts₃, h₃⟩ ← rest ts₂
          return .loose (.past h₁ (.after h₂ ⟨a :: as, ts₃, h₃⟩)) :
      Reading (List α) (ts.length + 1)) = list close (run item) (run rest) ts := by
  rw [list, peek_bind, next]
  by_cases h : (firstToken ts).kind = close
  · rw [if_pos h, if_pos h]
    rfl
  · rw [if_neg h, if_neg h]
    refine run_bind item ?_
    rintro ⟨a, ts₁, h₁⟩
    rw [takeToken_bind]
    dsimp only
    cases takeToken? .comma ts₁ with
    | none => rfl
    | some r => exact run_bind rest fun _ => rfl

lemma run_items (close : TokenKind) :
    run (items close) = list close (run assignment) (run (items close)) := by
  funext ts
  rw [run, items]
  exact outcome_list close assignment (items close) ts

/-! ### Bindings -/

lemma run_keys : run keys = list .rightBrace (run (expectName .propertyName)) (run keys) := by
  funext ts
  rw [run, keys]
  exact outcome_list .rightBrace (expectName .propertyName) keys ts

lemma run_patterns : run patterns = list .rightBracket (run pattern) (run patterns) := by
  funext ts
  rw [run, patterns]
  exact outcome_list .rightBracket pattern patterns ts

/-- One parameter. -/
def param : Reader Param := do
  let binding ← run pattern
  let declared ← run typeMark
  pure ⟨binding, declared⟩

lemma run_params : run params = list .rightParen param (run params) := by
  funext ts
  rw [run, params, list, peek_bind, next]
  by_cases h : (firstToken ts).kind = .rightParen
  · rw [if_pos h, if_pos h]
    rfl
  · rw [if_neg h, if_neg h, param, bind_assoc]
    refine run_bind pattern fun r => ?_
    rw [bind_assoc]
    refine run_bind typeMark ?_
    rintro ⟨declared, ts₂, h₂⟩
    rw [pure_bind, takeToken_bind]
    dsimp only
    cases takeToken? .comma ts₂ with
    | none => rfl
    | some r => exact run_bind params fun _ => rfl

lemma run_brackets : run brackets = (do
    match ← takeToken .leftBracket with
    | none => pure false
    | some () =>
      run (expect .rightBracket)
      pure true) := by
  funext ts
  rw [run, brackets, takeToken_bind]
  cases takeToken? .leftBracket ts with
  | none => rfl
  | some r => exact run_bind (expect .rightBracket) fun _ => rfl

/-- The type of a name with or without brackets. -/
def named (name : String) (position : Position) (isArray : Bool) : Reader (Option ValueType) :=
  match namedType? name isArray with
  | some t => pure (some t)
  | none => throw (.unknownType name isArray position)

lemma run_typeMark : run typeMark = (do
    match ← takeToken .colon with
    | none => pure none
    | some () =>
      let position ← place
      let name ← run (expectName .typeName)
      let isArray ← run brackets
      named name position isArray) := by
  funext ts
  rw [run, typeMark, takeToken_bind]
  cases takeToken? .colon ts with
  | none => rfl
  | some r =>
      dsimp only
      rw [place_bind]
      refine run_bind (expectName .typeName) fun name => run_bind brackets ?_
      rintro ⟨isArray, ts₃, h₃⟩
      dsimp only [named]
      cases namedType? name.value isArray with
      | some t => rfl
      | none => rfl

lemma run_initial : run initial = (do
    match ← takeToken .assign with
    | none => pure none
    | some () =>
      let e ← run assignment
      pure (some e)) := by
  funext ts
  rw [run, initial, takeToken_bind]
  cases takeToken? .assign ts with
  | none => rfl
  | some r => exact run_bind assignment fun _ => rfl

/-- One declarator. -/
def declarator : Reader Declarator := do
  let target ← run pattern
  let init ← run initial
  pure ⟨target, init⟩

lemma run_declarators : run declarators = (do
    let d ← declarator
    match ← takeToken .comma with
    | none => pure [d]
    | some () =>
      let ds ← run declarators
      pure (d :: ds)) := by
  funext ts
  rw [run, declarators, declarator, bind_assoc]
  refine run_bind pattern fun r => ?_
  rw [bind_assoc]
  refine run_bind initial ?_
  rintro ⟨init, ts₂, h₂⟩
  rw [pure_bind, takeToken_bind]
  dsimp only
  cases takeToken? .comma ts₂ with
  | none => rfl
  | some r => exact run_bind declarators fun _ => rfl

/-! ### Statements -/

lemma run_expressionBefore (close : TokenKind) : run (expressionBefore close) = (do
    if (← peek) = close then pure none
    else do
      let e ← run assignment
      pure (some e)) := by
  funext ts
  rw [run, expressionBefore, peek_bind, next]
  by_cases h : (firstToken ts).kind = close
  · rw [if_pos h, if_pos h]
    rfl
  · rw [if_neg h, if_neg h]
    exact run_bind assignment fun _ => rfl

lemma run_returned : run returned = (do
    let k ← peek
    if k = .semicolon ∨ k = .rightBrace ∨ k = .eof then pure none
    else do
      let e ← run assignment
      pure (some e)) := by
  funext ts
  rw [run, returned, peek_bind, next]
  split
  · rename_i h
    rw [if_pos (.inl h)]
    rfl
  · rename_i h
    rw [if_pos (.inr (.inl h))]
    rfl
  · rename_i h
    rw [if_pos (.inr (.inr h))]
    rfl
  · rename_i hsemicolon hbrace heof
    rw [if_neg (not_or.mpr ⟨hsemicolon, not_or.mpr ⟨hbrace, heof⟩⟩)]
    exact run_bind assignment fun _ => rfl

lemma run_parenthesised : run parenthesised = (do
    run (expect .leftParen)
    let e ← run assignment
    run (expect .rightParen)
    pure e) := by
  funext ts
  rw [run, parenthesised]
  exact run_bind _ fun _ => run_bind assignment fun _ => run_bind (expect .rightParen) fun _ => rfl

lemma run_loopInit : run loopInit = (do
    match ← take declarationKind? with
    | some kind =>
      let ds ← run declarators
      pure (some (.declare kind ds))
    | none =>
      let e ← run (expressionBefore .semicolon)
      pure (e.map .expression)) := by
  funext ts
  rw [run, loopInit, take_bind]
  cases take? declarationKind? ts with
  | some r => exact run_bind declarators fun _ => rfl
  | none => exact run_bind (expressionBefore .semicolon) fun _ => rfl

lemma run_loopHeader : run loopHeader = (do
    run (expect .leftParen)
    let init ← run loopInit
    run (expect .semicolon)
    let test ← run (expressionBefore .semicolon)
    run (expect .semicolon)
    let update ← run (expressionBefore .rightParen)
    run (expect .rightParen)
    pure ⟨init, test, update⟩) := by
  funext ts
  rw [run, loopHeader]
  exact run_bind _ fun _ => run_bind loopInit fun _ => run_bind (expect .semicolon) fun _ =>
    run_bind (expressionBefore .semicolon) fun _ => run_bind (expect .semicolon) fun _ =>
    run_bind (expressionBefore .rightParen) fun _ => run_bind (expect .rightParen) fun _ => rfl

/-- The name that a token is. -/
def name? : TokenKind → Option String
  | .identifier name => some name
  | _ => none

lemma functionName_eq (ts : List Token) : functionName ts =
    match take? name? ts with
    | some r => .loose ⟨some r.value, r.rest, r.shorter⟩
    | none => .here none ts := by
  cases ts with
  | nil => rfl
  | cons t ts =>
      obtain ⟨kind, position⟩ := t
      cases kind <;> rfl

lemma run_functionHeader : run functionHeader = (do
    let name ← take name?
    run (expect .leftParen)
    let params ← run params
    run (expect .rightParen)
    let returnType ← run typeMark
    pure ⟨name, params, returnType⟩) := by
  funext ts
  rw [run, functionHeader, take_bind, functionName_eq]
  cases take? name? ts with
  | none =>
      exact run_bind (expect .leftParen) fun _ => run_bind params fun _ =>
        run_bind (expect .rightParen) fun _ => run_bind typeMark fun _ => rfl
  | some r =>
      exact run_bind (expect .leftParen) fun _ => run_bind params fun _ =>
        run_bind (expect .rightParen) fun _ => run_bind typeMark fun _ => rfl

lemma run_braced : run braced = (do
    run (expect .leftBrace)
    run bracedRest) := by
  funext ts
  rw [run, braced]
  exact run_bind _ fun _ => run_last bracedRest fun _ => rfl

lemma run_bracedRest : run bracedRest = (do
    let body ← run statements
    run (expect .rightBrace)
    pure body) := by
  funext ts
  rw [run, bracedRest]
  exact run_bind _ fun _ => run_bind (expect .rightBrace) fun _ => rfl

lemma run_statements : run statements = (do
    let k ← peek
    if k = .rightBrace ∨ k = .eof then pure []
    else do
      let s ← run statement
      let rest ← run statements
      pure (s :: rest)) := by
  funext ts
  rw [run, statements, peek_bind, next]
  split
  · rename_i h
    rw [if_pos (.inl h)]
    rfl
  · rename_i h
    rw [if_pos (.inr h)]
    rfl
  · rename_i hbrace heof
    rw [if_neg (not_or.mpr ⟨hbrace, heof⟩)]
    exact run_bind statement fun _ => run_bind statements fun _ => rfl

/-- Takes a semicolon if one stands first. -/
def semicolon : Reader Unit := fun ts => .ok ((), (skipSemicolon ts).rest)

/-- A declaration after its first token. -/
def declaration (kind : DeclarationKind) : Reader Statement := do
  let ds ← run declarators
  semicolon
  pure (.declare kind ds)

/-- An `if` after its consequent. -/
def conditionalRest (test : Expr) (consequent : Statement) : Reader Statement := do
  match ← takeToken .else' with
  | none => pure (.conditional test consequent none)
  | some () =>
    let alternate ← run statement
    pure (.conditional test consequent (some alternate))

/-- How a statement is read after its first token, if this does not begin an expression. -/
def afterOpening? : TokenKind → Option (Reader Statement)
  | .function => some do
    let header ← run functionHeader
    let body ← run braced
    pure (.function header.name header.params header.returnType body)
  | .return' => some do
    let argument ← run returned
    semicolon
    pure (.ret argument)
  | .if' => some do
    let test ← run parenthesised
    let consequent ← run statement
    conditionalRest test consequent
  | .while' => some do
    let test ← run parenthesised
    let body ← run statement
    pure (.whileLoop test body)
  | .for' => some do
    let header ← run loopHeader
    let body ← run statement
    pure (.forLoop header.init header.test header.update body)
  | .leftBrace => some do
    let body ← run bracedRest
    pure (.block body)
  | .semicolon => some (pure .empty)
  | .var => some (declaration .var)
  | .let' => some (declaration .let')
  | .const => some (declaration .const)
  | _ => none

lemma run_statement : run statement = (do
    match ← take afterOpening? with
    | some r => r
    | none =>
      let e ← run assignment
      semicolon
      pure (.expression e)) := by
  funext ts
  rw [run, take_bind]
  cases ts with
  | nil =>
      rw [statement]
      · exact run_bind assignment fun _ => rfl
      all_goals
        intro _ _ h
        cases h
  | cons t ts =>
      obtain ⟨k, position⟩ := t
      cases k with
      | function =>
          rw [statement]
          exact run_bind functionHeader fun _ => run_bind braced fun _ => rfl
      | return' =>
          rw [statement]
          exact run_bind returned fun _ => rfl
      | if' =>
          rw [statement]
          refine run_bind parenthesised fun test => run_bind statement ?_
          rintro ⟨consequent, ts₃, h₃⟩
          rw [conditionalRest, takeToken_bind]
          dsimp only
          cases takeToken? .else' ts₃ with
          | none => rfl
          | some r => exact run_bind statement fun _ => rfl
      | while' =>
          rw [statement]
          exact run_bind parenthesised fun _ => run_bind statement fun _ => rfl
      | for' =>
          rw [statement]
          exact run_bind loopHeader fun _ => run_bind statement fun _ => rfl
      | leftBrace =>
          rw [statement]
          exact run_bind bracedRest fun _ => rfl
      | semicolon =>
          rw [statement]
          rfl
      | var | let' | const =>
          rw [statement]
          · exact run_bind declarators fun _ => rfl
          all_goals
            intro _ _ h
            cases h
      | _ =>
          rw [statement]
          · exact run_bind assignment fun _ => rfl
          all_goals
            intro _ _ h
            cases h

end ArrayScript.Parser
