import ArrayScript.Proofs.Computation
import ArrayScript.Proofs.Parser.Statements

/-!
How far the readers of the grammar come.

`Took k ts rest` says that `rest` is what is left of the tokens `ts` when some first ones,
at least `k` of them and none the end of the text, were taken. `Blames ts e` says that a
place named by the error `e` is that of one of the tokens `ts`, or, if there is no end
among them, that of the token which then stands for it.

`Advances k x ts` joins the two: a reader that is started on `ts` takes at least `k`
tokens or blames one of them. It is shown for the readers of the grammar along their own
recursion, down to `assignment_advances`, `pattern_advances` and `statement_advances`.
-/

namespace ArrayScript.Parser

variable {α β : Type} {j k : Nat} {ts mid rest : List Token}

/-! ### Tokens taken and tokens blamed -/

/-- Of the tokens `ts` some first ones, at least `k` and no end among them, were taken. -/
def Took (k : Nat) (ts rest : List Token) : Prop :=
  ∃ taken, ts = taken ++ rest ∧ k ≤ taken.length ∧ ∀ t ∈ taken, t.kind ≠ .eof

/-- The place an error names is that of a token, or, where no end token is to be found, that
of the token which stands for it. -/
def Blames (ts : List Token) (e : ParseError) : Prop :=
  ∀ p, e.place? = some p →
    (∃ t ∈ ts, t.position = p) ∨ (∀ t ∈ ts, t.kind ≠ .eof) ∧ p = endToken.position

namespace Took

/-- Nothing is taken. -/
lemma refl (ts : List Token) : Took 0 ts ts :=
  ⟨[], rfl, Nat.zero_le _, fun _ ht => absurd ht List.not_mem_nil⟩

/-- One token is taken, and it does not end the file. -/
lemma cons {t : Token} (ht : t.kind ≠ .eof) : Took 1 (t :: rest) rest :=
  ⟨[t], rfl, le_rfl, fun _ h => by rwa [List.mem_singleton.mp h]⟩

/-- Tokens are taken, and then more. -/
lemma trans (h : Took j ts mid) (h' : Took k mid rest) : Took (k + j) ts rest := by
  obtain ⟨taken, rfl, hlen, hkinds⟩ := h
  obtain ⟨taken', rfl, hlen', hkinds'⟩ := h'
  refine ⟨taken ++ taken', (List.append_assoc ..).symm, ?_, List.forall_mem_append.mpr
    ⟨hkinds, hkinds'⟩⟩
  rw [List.length_append]
  omega

/-- Who takes tokens takes at least fewer. -/
lemma mono (h : Took k ts rest) (hle : j ≤ k) : Took j ts rest := by
  obtain ⟨taken, heq, hlen, hkinds⟩ := h
  exact ⟨taken, heq, hle.trans hlen, hkinds⟩

/-- What is left is shorter by what was taken. -/
lemma length_le (h : Took k ts rest) : rest.length + k ≤ ts.length := by
  obtain ⟨taken, rfl, hlen, _⟩ := h
  rw [List.length_append]
  omega

/-- What is blamed later was there before. -/
lemma blames {e : ParseError} (h : Took k ts rest) (he : Blames rest e) : Blames ts e := by
  obtain ⟨taken, rfl, _, hkinds⟩ := h
  intro p hp
  rcases he p hp with ⟨t, ht, hplace⟩ | ⟨hrest, hplace⟩
  · exact .inl ⟨t, List.mem_append_right _ ht, hplace⟩
  · exact .inr ⟨List.forall_mem_append.mpr ⟨hkinds, hrest⟩, hplace⟩

end Took

/-- An error at the first token. -/
lemma blames_first {e : ParseError} (h : e.place? = some (firstToken ts).position) :
    Blames ts e := by
  intro p hp
  obtain rfl : (firstToken ts).position = p := Option.some.inj (h.symm.trans hp)
  cases ts with
  | nil => exact .inr ⟨fun _ ht => absurd ht List.not_mem_nil, rfl⟩
  | cons t ts => exact .inl ⟨t, List.mem_cons_self, rfl⟩

/-- An error without a place. -/
lemma blames_nothing {e : ParseError} (h : e.place? = none) : Blames ts e := by
  intro p hp
  rw [h] at hp
  cases hp

/-! ### Readers that advance -/

/-- A reader that is started on `ts` takes at least `k` tokens, and none of them is the end, or
fails with an error about one of them. -/
def Advances (k : Nat) (x : Reader α) (ts : List Token) : Prop :=
  Meets (Blames ts) x ts fun _ rest => Took k ts rest

namespace Advances

variable {x : Reader α} {f : α → Reader β} {a : α} {e : ParseError} {meaning : TokenKind → Option α}

/-- Who advances by some tokens advances by fewer. -/
lemma mono (h : Advances k x ts) (hle : j ≤ k) : Advances j x ts :=
  h.weaken fun _ _ htook => htook.mono hle

/-- Nothing is said of how many tokens are taken. -/
lemma loose (h : Advances k x ts) : Advances 0 x ts :=
  h.mono (Nat.zero_le k)

/-- Returning takes nothing. -/
lemma pure : Advances 0 (Pure.pure a : Reader α) ts :=
  Meets.pure (.refl ts)

/-- A reader that succeeds has to account for the tokens that it took. -/
lemma of_ok (h : x ts = .ok (a, rest)) (htook : Took k ts rest) : Advances k x ts := by
  rw [Advances, Meets, h]
  exact htook

/-- A reader that fails has to blame one of the tokens. -/
lemma of_error (h : x ts = .error e) (he : Blames ts e) : Advances k x ts := by
  rw [Advances, Meets, h]
  exact he

/-- A success takes tokens from the front. -/
lemma took (h : Advances k x ts) (hx : x ts = .ok (a, rest)) : Took k ts rest := by
  rw [Advances, Meets, hx] at h
  exact h

/-- A failure blames a token. -/
lemma blames (h : Advances k x ts) (hx : x ts = .error e) : Blames ts e := by
  rw [Advances, Meets, hx] at h
  exact h

/-- What is read after some tokens were taken. -/
lemma after (h : Advances k x mid) (htook : Took j ts mid) :
    Meets (Blames ts) x mid fun _ rest => Took (k + j) ts rest :=
  .intro (fun _ _ hok => htook.trans (h.took hok)) fun _ herror => htook.blames (h.blames herror)

/-- One reader after another; the second is started on what the first left. -/
lemma bind (hx : Advances j x ts)
    (hf : ∀ a rest, rest.length + j ≤ ts.length → Advances k (f a) rest) :
    Advances (k + j) (x >>= f) ts :=
  Meets.bind hx fun a rest htook => (hf a rest htook.length_le).after htook

/-- What the first reader takes is taken, whatever the second does. -/
lemma andThen (hx : Advances j x ts)
    (hf : ∀ a rest, rest.length + j ≤ ts.length → Advances 0 (f a) rest) :
    Advances j (x >>= f) ts := by
  have h := hx.bind hf
  rwa [Nat.zero_add] at h

/-- A token, not the end, leads to another reader. -/
lemma of_leads {y : Reader α} {kind : TokenKind} {p : Position}
    (h : Leads x [kind] y Anything) (hkind : kind ≠ .eof) (hy : Advances 0 y rest) :
    Advances 1 x (⟨kind, p⟩ :: rest) := by
  have heq : x (⟨kind, p⟩ :: rest) = y rest := h [⟨kind, p⟩] rest rfl trivial
  rw [Advances, Meets, heq]
  exact hy.after (.cons hkind)

/-- The first token decides how to go on. Only a token that has a meaning is taken, so the
end is not. -/
lemma take_bind {f : Option α → Reader β} (heof : meaning .eof = none) (hk : k ≤ 1)
    (hnone : Advances k (f none) ts)
    (hsome : ∀ kind a rest, meaning kind = some a → rest.length + 1 ≤ ts.length →
      Advances 0 (f (some a)) rest) : Advances k (take meaning >>= f) ts := by
  cases ts with
  | nil => exact hnone
  | cons t ts =>
      cases hm : meaning t.kind with
      | none =>
          have heq : (take meaning >>= f) (t :: ts) = f none (t :: ts) := by
            rw [Parser.take_bind, take?, hm]
            rfl
          rw [Advances, Meets, heq]
          exact hnone
      | some a =>
          have heq : (take meaning >>= f) (t :: ts) = f (some a) ts := by
            rw [Parser.take_bind, take?, hm]
            rfl
          have ht : t.kind ≠ .eof := fun ht => by simp [ht, heof] at hm
          have htook : Advances 1 (take meaning >>= f) (t :: ts) := by
            rw [Advances, Meets, heq]
            exact (hsome t.kind a ts hm le_rfl).after (.cons ht)
          exact htook.mono hk

/-- A token may be there or not. If it is, the rest is shorter, and recursion on it is
justified. -/
lemma takeToken_bind {f : Option Unit → Reader β} {kind : TokenKind} (heof : kind ≠ .eof)
    (hk : k ≤ 1) (hnone : Advances k (f none) ts)
    (hsome : ∀ rest, rest.length + 1 ≤ ts.length → Advances 0 (f (some ())) rest) :
    Advances k (takeToken kind >>= f) ts :=
  take_bind (if_neg heof.symm) hk hnone fun _ _ rest _ hrest => hsome rest hrest

/-- Looking at the next token takes nothing. -/
lemma peek_bind {f : TokenKind → Reader β} (h : Advances k (f (next ts)) ts) :
    Advances k (peek >>= f) ts := h

/-- Nor does noting where it stands. -/
lemma place_bind {f : Position → Reader β} (h : Advances k (f (firstToken ts).position) ts) :
    Advances k (place >>= f) ts := h

end Advances

/-- A token that must be there is taken, or the one in its place is blamed. -/
lemma expect_advances {kind : TokenKind} (heof : kind ≠ .eof) (ts : List Token) :
    Advances 1 (run (expect kind)) ts := by
  cases ts with
  | nil => exact .of_error rfl (blames_first rfl)
  | cons t ts =>
      by_cases h : t.kind = kind
      · have htaken : run (expect kind) (t :: ts) = .ok ((), ts) := by
          rw [run, expect, takeToken?, take?, if_pos h]
          rfl
        exact .of_ok htaken (.cons (h ▸ heof))
      · have hfailed : run (expect kind) (t :: ts) =
            .error (.unexpectedToken (.token kind) t) := by
          rw [run, expect, takeToken?, take?, if_neg h]
          rfl
        exact .of_error hfailed (blames_first rfl)

/-- A name that must be there is taken, or what stands in its place is blamed. -/
lemma expectName_advances (what : Expectation) (ts : List Token) :
    Advances 1 (run (expectName what)) ts := by
  cases ts with
  | nil => exact .of_error rfl (blames_first rfl)
  | cons t ts =>
      obtain ⟨kind, p⟩ := t
      cases kind with
      | identifier name => exact .of_ok rfl (.cons TokenKind.noConfusion)
      | _ => exact .of_error rfl (blames_first rfl)

/-- The readers of lists advance if their items do. -/
lemma list_advances {close : TokenKind} {item : Reader α} {more : Reader (List α)}
    (hitem : Advances 1 item ts)
    (hmore : ∀ rest, rest.length < ts.length → Advances 0 more rest) :
    Advances 0 (list close item more) ts := by
  refine .peek_bind ?_
  split
  · exact .pure
  · refine (hitem.andThen fun a ts₁ h₁ => ?_).loose
    refine .takeToken_bind (by decide) (Nat.zero_le _) .pure fun ts₂ h₂ => ?_
    exact (hmore ts₂ (by omega)).andThen fun _ _ _ => .pure

/-! ### Expressions -/

/-- The end of the file is no operator. -/
lemma connective?_eof (level : Nat) : connective? level .eof = none := by
  unfold connective?
  split <;> first | rfl | contradiction

/-- Nothing is applied to an expression before a token that is no opening bracket and no point. -/
lemma applied_none (head : Expr) (hcall : ∀ p rest, ts ≠ ⟨.leftParen, p⟩ :: rest)
    (hindex : ∀ p rest, ts ≠ ⟨.leftBracket, p⟩ :: rest) (hdot : ∀ p rest, ts ≠ ⟨.dot, p⟩ :: rest) :
    run (applied head) ts = .ok (head, ts) := by
  rw [run, applied]
  · rfl
  · exact hcall
  · exact hindex
  · exact hdot

mutual

/-- An assignment takes a token at least. The recursion is on the tokens that are left and,
where none was taken yet, on the level of the expression. -/
theorem assignment_advances (ts : List Token) : Advances 1 (run assignment) ts := by
  rw [run_assignment]
  refine (chain_advances loosest ts).andThen fun target ts₁ h₁ => ?_
  refine .take_bind rfl (Nat.zero_le _) .pure fun _ op ts₂ _ h₂ => ?_
  exact (assignment_advances ts₂).loose.andThen fun _ _ _ => .pure
termination_by (ts.length, loosest + 5)

/-- A chain of operators of one level takes a token at least: its first operand does. -/
theorem chain_advances (level : Nat) (ts : List Token) : Advances 1 (run (chain level)) ts := by
  cases level with
  | zero =>
      rw [run_chain_zero]
      exact power_advances ts
  | succ tighter =>
      rw [run_chain_succ]
      exact (chain_advances tighter ts).andThen fun left ts₁ h₁ =>
        chainRest_advances tighter left ts₁
termination_by (ts.length, level + 4)

/-- What follows the first operand of a chain may be nothing. -/
theorem chainRest_advances (tighter : Nat) (left : Expr) (ts : List Token) :
    Advances 0 (run (chainRest tighter left)) ts := by
  rw [run_chainRest]
  refine .take_bind (connective?_eof _) (Nat.zero_le _) .pure fun _ op ts₁ _ h₁ => ?_
  refine ((chain_advances tighter ts₁).andThen fun right ts₂ h₂ => ?_).loose
  exact chainRest_advances tighter (op.join left right) ts₂
termination_by (ts.length, 0)

/-- A power takes a token at least. -/
theorem power_advances (ts : List Token) : Advances 1 (run power) ts := by
  rw [run_power]
  refine (unary_advances ts).andThen fun base ts₁ h₁ => ?_
  refine .takeToken_bind (by decide) (Nat.zero_le _) .pure fun ts₂ h₂ => ?_
  exact (power_advances ts₂).loose.andThen fun _ _ _ => .pure
termination_by (ts.length, 3)

/-- A unary expression takes a token at least. -/
theorem unary_advances (ts : List Token) : Advances 1 (run unary) ts := by
  rw [run_unary]
  refine .take_bind rfl le_rfl ?_ fun _ op ts₁ _ h₁ =>
    (unary_advances ts₁).loose.andThen fun _ _ _ => .pure
  exact .take_bind rfl le_rfl (trailing_advances ts) fun _ op ts₁ _ h₁ =>
    (unary_advances ts₁).loose.andThen fun _ _ _ => .pure
termination_by (ts.length, 2)

/-- An expression with an update behind it takes a token at least. -/
theorem trailing_advances (ts : List Token) : Advances 1 (run trailing) ts := by
  rw [run_trailing]
  refine (primary_advances ts).andThen fun head ts₁ h₁ => ?_
  refine (applied_advances head ts₁).andThen fun e ts₂ h₂ => ?_
  exact .take_bind rfl (Nat.zero_le _) .pure fun _ _ _ _ _ => .pure
termination_by (ts.length, 1)

/-- Calls, subscripts and properties behind an expression may be none. -/
theorem applied_advances (head : Expr) (ts : List Token) :
    Advances 0 (run (applied head)) ts := by
  match ts with
  | [] => exact .of_ok (applied_none head nofun nofun nofun) (.refl [])
  | ⟨kind, p⟩ :: rest =>
      by_cases hcall : kind = .leftParen
      · subst hcall
        refine Advances.loose (.of_leads (leads_call head) (by decide) ?_)
        refine (items_advances .rightParen rest).andThen fun arguments ts₁ h₁ => ?_
        refine ((expect_advances (by decide) ts₁).andThen fun _ ts₂ h₂ => ?_).loose
        exact applied_advances (.call 0 head arguments) ts₂
      by_cases hindex : kind = .leftBracket
      · subst hindex
        refine Advances.loose (.of_leads (leads_index head) (by decide) ?_)
        refine ((assignment_advances rest).andThen fun position ts₁ h₁ => ?_).loose
        refine ((expect_advances (by decide) ts₁).andThen fun _ ts₂ h₂ => ?_).loose
        exact applied_advances (.index 0 head position) ts₂
      by_cases hdot : kind = .dot
      · subst hdot
        refine Advances.loose (.of_leads (leads_property head) (by decide) ?_)
        refine ((expectName_advances _ rest).andThen fun name ts₁ h₁ => ?_).loose
        exact applied_advances (.property 0 head name) ts₁
      · refine .of_ok (applied_none head (fun p' rest' h => ?_) (fun p' rest' h => ?_)
          fun p' rest' h => ?_) (.refl _)
        · exact hcall (Token.mk.inj (List.cons.inj h).1).1
        · exact hindex (Token.mk.inj (List.cons.inj h).1).1
        · exact hdot (Token.mk.inj (List.cons.inj h).1).1
termination_by (ts.length, 0)

/-- A primary expression takes a token at least, and blames the first if it is none. -/
theorem primary_advances (ts : List Token) : Advances 1 (run primary) ts := by
  match ts with
  | [] => exact .of_error (by rw [run, primary]; rfl) (blames_nothing rfl)
  | ⟨kind, p⟩ :: rest =>
      cases kind with
      | number _ | identifier _ | true | false =>
          exact .of_ok (by rw [run, primary]; rfl) (.cons TokenKind.noConfusion)
      | leftParen =>
          refine .of_leads leads_leftParen (by decide) ?_
          refine ((assignment_advances rest).andThen fun e ts₁ h₁ => ?_).loose
          exact ((expect_advances (by decide) ts₁).andThen fun _ _ _ => .pure).loose
      | leftBracket =>
          refine .of_leads leads_leftBracket (by decide) ?_
          refine (items_advances .rightBracket rest).andThen fun elements ts₁ h₁ => ?_
          exact ((expect_advances (by decide) ts₁).andThen fun _ _ _ => .pure).loose
      | eof => exact .of_error (by rw [run, primary]; rfl) (blames_nothing rfl)
      | _ => exact .of_error (by rw [run, primary]; rfl) (blames_first rfl)
termination_by (ts.length, 0)

/-- A list of expressions may be empty. -/
theorem items_advances (close : TokenKind) (ts : List Token) :
    Advances 0 (run (items close)) ts := by
  rw [run_items]
  exact list_advances (assignment_advances ts) fun rest h => items_advances close rest
termination_by (ts.length, loosest + 6)

end

/-! ### Bindings -/

/-- A list of keys may be empty. -/
lemma keys_advances (ts : List Token) : Advances 0 (run keys) ts := by
  rw [run_keys]
  exact list_advances (expectName_advances _ ts) fun rest h => keys_advances rest
termination_by ts.length

/-- A token that opens no pattern is blamed. -/
lemma pattern_none (hname : ∀ name p rest, ts ≠ ⟨.identifier name, p⟩ :: rest)
    (harray : ∀ p rest, ts ≠ ⟨.leftBracket, p⟩ :: rest)
    (hobject : ∀ p rest, ts ≠ ⟨.leftBrace, p⟩ :: rest) :
    run pattern ts = .error (.unexpectedToken .bindingPattern (firstToken ts)) := by
  rw [run, pattern]
  · rfl
  · exact hname
  · exact harray
  · exact hobject

mutual

/-- A pattern takes a token at least. -/
theorem pattern_advances (ts : List Token) : Advances 1 (run pattern) ts := by
  match ts with
  | [] => exact .of_error (pattern_none nofun nofun nofun) (blames_first rfl)
  | ⟨kind, p⟩ :: rest =>
      cases kind with
      | identifier name =>
          exact .of_ok (by rw [run, pattern]; rfl) (.cons TokenKind.noConfusion)
      | leftBracket =>
          refine .of_leads leads_arrayPattern (by decide) ?_
          refine (patterns_advances rest).andThen fun elements ts₁ h₁ => ?_
          exact ((expect_advances (by decide) ts₁).andThen fun _ _ _ => .pure).loose
      | leftBrace =>
          refine .of_leads leads_objectPattern (by decide) ?_
          refine (keys_advances rest).andThen fun names ts₁ h₁ => ?_
          exact ((expect_advances (by decide) ts₁).andThen fun _ _ _ => .pure).loose
      | _ => exact .of_error (pattern_none nofun nofun nofun) (blames_first rfl)
termination_by (ts.length, 0)

/-- A list of patterns may be empty. -/
theorem patterns_advances (ts : List Token) : Advances 0 (run patterns) ts := by
  rw [run_patterns]
  exact list_advances (pattern_advances ts) fun rest h => patterns_advances rest
termination_by (ts.length, 1)

end

/-- Brackets behind a type may be missing. -/
lemma brackets_advances (ts : List Token) : Advances 0 (run brackets) ts := by
  rw [run_brackets]
  refine .takeToken_bind (by decide) (Nat.zero_le _) .pure fun ts₁ h₁ => ?_
  exact ((expect_advances (by decide) ts₁).andThen fun _ _ _ => .pure).loose

/-- A type that is none is blamed on its name, which is the first token after the colon. -/
lemma typeMark_advances (ts : List Token) : Advances 0 (run typeMark) ts := by
  rw [run_typeMark]
  refine .takeToken_bind (by decide) (Nat.zero_le _) .pure fun ts₁ h₁ => .place_bind ?_
  refine Meets.bind (expectName_advances _ ts₁).loose fun name ts₂ h₂ => ?_
  refine Meets.bind ((brackets_advances ts₂).after h₂) fun isArray ts₃ h₃ => ?_
  rw [named]
  split
  · exact Meets.pure h₃
  · exact Meets.throw (blames_first rfl)

/-- A list of parameters may be empty. -/
lemma params_advances (ts : List Token) : Advances 0 (run params) ts := by
  rw [run_params]
  refine list_advances ?_ fun rest h => params_advances rest
  refine (pattern_advances ts).andThen fun binding ts₁ h₁ => ?_
  exact (typeMark_advances ts₁).andThen fun _ _ _ => .pure
termination_by ts.length

/-- An initial value may be missing. -/
lemma initial_advances (ts : List Token) : Advances 0 (run initial) ts := by
  rw [run_initial]
  refine .takeToken_bind (by decide) (Nat.zero_le _) .pure fun ts₁ h₁ => ?_
  exact ((assignment_advances ts₁).andThen fun _ _ _ => .pure).loose

lemma declarator_advances (ts : List Token) : Advances 1 declarator ts :=
  (pattern_advances ts).andThen fun _ ts₁ _ => (initial_advances ts₁).andThen fun _ _ _ => .pure

/-- Declarators take a token at least: there is one. -/
lemma declarators_advances (ts : List Token) : Advances 1 (run declarators) ts := by
  rw [run_declarators]
  refine (declarator_advances ts).andThen fun d ts₁ h₁ => ?_
  refine .takeToken_bind (by decide) (Nat.zero_le _) .pure fun ts₂ h₂ => ?_
  exact ((declarators_advances ts₂).andThen fun _ _ _ => .pure).loose
termination_by ts.length

/-! ### Statements -/

/-- An expression that ends at a given token may be missing. -/
lemma expressionBefore_advances (close : TokenKind) (ts : List Token) :
    Advances 0 (run (expressionBefore close)) ts := by
  rw [run_expressionBefore]
  refine .peek_bind ?_
  split
  · exact .pure
  · exact ((assignment_advances ts).andThen fun _ _ _ => .pure).loose

/-- A returned value may be missing. -/
lemma returned_advances (ts : List Token) : Advances 0 (run returned) ts := by
  rw [run_returned]
  refine .peek_bind ?_
  split
  · exact .pure
  · exact ((assignment_advances ts).andThen fun _ _ _ => .pure).loose

/-- An expression in parentheses takes a token at least. -/
lemma parenthesised_advances (ts : List Token) : Advances 1 (run parenthesised) ts := by
  rw [run_parenthesised]
  refine (expect_advances (by decide) ts).andThen fun _ ts₁ h₁ => ?_
  refine ((assignment_advances ts₁).andThen fun e ts₂ h₂ => ?_).loose
  exact ((expect_advances (by decide) ts₂).andThen fun _ _ _ => .pure).loose

lemma loopInit_advances (ts : List Token) : Advances 0 (run loopInit) ts := by
  rw [run_loopInit]
  refine .take_bind rfl (Nat.zero_le _) ?_ fun _ kind ts₁ _ h₁ => ?_
  · exact (expressionBefore_advances .semicolon ts).andThen fun _ _ _ => .pure
  · exact ((declarators_advances ts₁).andThen fun _ _ _ => .pure).loose

/-- The parentheses behind `for` take a token at least. -/
lemma loopHeader_advances (ts : List Token) : Advances 1 (run loopHeader) ts := by
  rw [run_loopHeader]
  refine (expect_advances (by decide) ts).andThen fun _ ts₁ _ => ?_
  refine (loopInit_advances ts₁).andThen fun init ts₂ _ => ?_
  refine ((expect_advances (by decide) ts₂).andThen fun _ ts₃ _ => ?_).loose
  refine (expressionBefore_advances .semicolon ts₃).andThen fun test ts₄ _ => ?_
  refine ((expect_advances (by decide) ts₄).andThen fun _ ts₅ _ => ?_).loose
  refine (expressionBefore_advances .rightParen ts₅).andThen fun update ts₆ _ => ?_
  exact ((expect_advances (by decide) ts₆).andThen fun _ _ _ => .pure).loose

/-- A function takes a token at least before its body. -/
lemma functionHeader_advances (ts : List Token) : Advances 1 (run functionHeader) ts := by
  -- whether a name was taken or not, the parenthesis after it is
  have hrest : ∀ (name : Option String) (ts : List Token), Advances 1 (do
      run (expect .leftParen)
      let params ← run params
      run (expect .rightParen)
      let returnType ← run typeMark
      pure (FunctionHeader.mk name params returnType)) ts := by
    intro name ts
    refine (expect_advances (by decide) ts).andThen fun _ ts₁ _ => ?_
    refine (params_advances ts₁).andThen fun params ts₂ _ => ?_
    refine ((expect_advances (by decide) ts₂).andThen fun _ ts₃ _ => ?_).loose
    exact (typeMark_advances ts₃).andThen fun _ _ _ => .pure
  rw [run_functionHeader]
  exact .take_bind rfl le_rfl (hrest none ts) fun _ name ts₁ _ _ => (hrest (some name) ts₁).loose

/-- A semicolon is taken if it is there. -/
lemma semicolon_advances (ts : List Token) : Advances 0 semicolon ts := by
  cases ts with
  | nil => exact .of_ok rfl (.refl [])
  | cons t ts =>
      by_cases h : t.kind = .semicolon
      · have htaken : semicolon (t :: ts) = .ok ((), ts) := by
          rw [semicolon, skipSemicolon, takeToken?, take?, if_pos h]
          rfl
        exact .of_ok htaken ((Took.cons (by rw [h]; decide)).mono (Nat.zero_le 1))
      · have hleft : semicolon (t :: ts) = .ok ((), t :: ts) := by
          rw [semicolon, skipSemicolon, takeToken?, take?, if_neg h]
          rfl
        exact .of_ok hleft (.refl _)

lemma declaration_advances (kind : DeclarationKind) (ts : List Token) :
    Advances 1 (declaration kind) ts :=
  (declarators_advances ts).andThen fun _ ts₁ _ =>
    (semicolon_advances ts₁).andThen fun _ _ _ => .pure

mutual

/-- A statement takes a token at least, so that statements one after another come to an
end. -/
theorem statement_advances (ts : List Token) : Advances 1 (run statement) ts := by
  rw [run_statement]
  refine .take_bind rfl le_rfl ?_ fun kind r ts₁ hr h₁ => ?_
  · refine (assignment_advances ts).andThen fun e ts₁ _ => ?_
    exact (semicolon_advances ts₁).andThen fun _ _ _ => .pure
  · cases kind with
    | function =>
        obtain rfl := Option.some.inj hr
        refine ((functionHeader_advances ts₁).andThen fun header ts₂ h₂ => ?_).loose
        exact ((braced_advances ts₂).andThen fun _ _ _ => .pure).loose
    | return' =>
        obtain rfl := Option.some.inj hr
        refine (returned_advances ts₁).andThen fun argument ts₂ _ => ?_
        exact (semicolon_advances ts₂).andThen fun _ _ _ => .pure
    | if' =>
        obtain rfl := Option.some.inj hr
        refine ((parenthesised_advances ts₁).andThen fun test ts₂ h₂ => ?_).loose
        refine ((statement_advances ts₂).andThen fun consequent ts₃ h₃ => ?_).loose
        refine .takeToken_bind (by decide) (Nat.zero_le _) .pure fun ts₄ h₄ => ?_
        exact ((statement_advances ts₄).andThen fun _ _ _ => .pure).loose
    | while' =>
        obtain rfl := Option.some.inj hr
        refine ((parenthesised_advances ts₁).andThen fun test ts₂ h₂ => ?_).loose
        exact ((statement_advances ts₂).andThen fun _ _ _ => .pure).loose
    | for' =>
        obtain rfl := Option.some.inj hr
        refine ((loopHeader_advances ts₁).andThen fun header ts₂ h₂ => ?_).loose
        exact ((statement_advances ts₂).andThen fun _ _ _ => .pure).loose
    | leftBrace =>
        obtain rfl := Option.some.inj hr
        exact ((bracedRest_advances ts₁).andThen fun _ _ _ => .pure).loose
    | semicolon =>
        obtain rfl := Option.some.inj hr
        exact .pure
    | var | let' | const =>
        obtain rfl := Option.some.inj hr
        exact (declaration_advances _ ts₁).loose
    | _ => cases hr
termination_by (ts.length, 0)

/-- A body in braces takes its opening brace. -/
theorem braced_advances (ts : List Token) : Advances 1 (run braced) ts := by
  rw [run_braced]
  exact (expect_advances (by decide) ts).andThen fun _ ts₁ h₁ => (bracedRest_advances ts₁).loose
termination_by (ts.length, 2)

/-- What follows the opening brace takes the closing one. -/
theorem bracedRest_advances (ts : List Token) : Advances 1 (run bracedRest) ts := by
  rw [run_bracedRest]
  exact (statements_advances ts).bind fun body ts₁ _ =>
    (expect_advances (by decide) ts₁).andThen fun _ _ _ => .pure
termination_by (ts.length, 2)

/-- Statements one after another may be none. -/
theorem statements_advances (ts : List Token) : Advances 0 (run statements) ts := by
  rw [run_statements]
  refine .peek_bind ?_
  split
  · exact .pure
  · refine ((statement_advances ts).andThen fun s ts₁ h₁ => ?_).loose
    exact (statements_advances ts₁).andThen fun _ _ _ => .pure
termination_by (ts.length, 1)

end

end ArrayScript.Parser
