import ArrayScript.Proofs.Parser.Readers
import ArrayScript.Proofs.Syntax.Printing
import Mathlib.Tactic.IntervalCases

/-!
Printed expressions are read again.

`readAt n` reads an expression of level `n` or a tighter one. At the levels that group to
the left it has not decided, after an operand, whether this was all: `onward n e` is what is
left to do. `Passes n ks e` says that tokens take `readAt n` to `onward n e`, if what
follows does not go on with a tighter expression.

* `Passes.down`: what is read at a level is read at all looser ones.
* `passes_connective`: left-grouping operators.
* `reads`: every expression is read from its tokens, wherever it stands.
-/

namespace ArrayScript.Parser

/-! ### Levels -/

/-- The level at which a token goes on with the expression before it. -/
def continues : TokenKind → Option Nat
  | .assign | .plusAssign | .minusAssign | .starAssign | .slashAssign | .percentAssign => some 0
  | .orOr => some 1
  | .andAnd => some 2
  | .eq | .neq => some 3
  | .lt | .le | .gt | .ge => some 4
  | .plus | .minus => some 5
  | .star | .slash | .percent => some 6
  | .starStar => some 7
  | .plusPlus | .minusMinus => some 9
  | .leftParen | .leftBracket | .dot => some 10
  | _ => none

/-- A token does not go on with an expression of the level or of a tighter one. -/
def Stops (n : Nat) (k : TokenKind) : Prop :=
  ∀ l, continues k = some l → l < n

lemma Stops.mono {n m : Nat} {k : TokenKind} (h : Stops n k) (hle : n ≤ m) : Stops m k :=
  fun l hl => (h l hl).trans_le hle

lemma stops_of_none {k : TokenKind} (h : continues k = none) (n : Nat) : Stops n k := by
  intro l hl
  rw [h] at hl
  cases hl

/-- A primary expression and what is applied to it. -/
def operand : Reader Expr := do
  let head ← run primary
  run (applied head)

/-- Reads an expression of a level or of a tighter one. -/
def readAt : Nat → Reader Expr
  | 0 => run assignment
  | 8 => run unary
  | 9 => run trailing
  | 10 => operand
  | n => run (chain (7 - n))

/-- What is left to do after an expression of a level. -/
def onward : Nat → Expr → Reader Expr
  | 0, e | 7, e | 8, e | 9, e => pure e
  | 10, e => run (applied e)
  | n, e => run (chainRest (6 - n) e)

/-- What may follow an expression of a level while it is not decided whether it goes on. -/
def Follows : Nat → TokenKind → Prop
  | 0 => Stops 0
  | 7 => Stops 7
  | 8 => Stops 8
  | 9 => Stops 9
  | n => Stops (n + 1)

/-- Tokens are read as an expression at a level, up to what is left to do there. -/
def Passes (n : Nat) (ks : List TokenKind) (e : Expr) : Prop :=
  Leads (readAt n) ks (onward n e) (Follows n)

lemma readAt_chain {n : Nat} (h : 1 ≤ n) (h' : n ≤ 7) : readAt n = run (chain (7 - n)) := by
  interval_cases n <;> rfl

lemma onward_chain {n : Nat} (h : 1 ≤ n) (h' : n ≤ 6) (e : Expr) :
    onward n e = run (chainRest (6 - n) e) := by
  interval_cases n <;> rfl

lemma follows_chain {n : Nat} (h : 1 ≤ n) (h' : n ≤ 6) : Follows n = Stops (n + 1) := by
  interval_cases n <;> rfl

/-- After an operand everything may follow. -/
lemma follows_ten (k : TokenKind) : Follows 10 k := by
  intro l hl
  cases k <;> cases hl <;> decide

/-! ### Where expressions end -/

lemma assignOp?_of_stops {k : TokenKind} (h : Stops 0 k) : assignOp? k = none := by
  cases k <;> first | rfl | exact absurd (h 0 rfl) (by decide)

lemma updateOp?_of_stops {k : TokenKind} (h : Stops 9 k) : updateOp? k = none := by
  cases k <;> first | rfl | exact absurd (h 9 rfl) (by decide)

lemma ne_starStar_of_stops {k : TokenKind} (h : Stops 7 k) : k ≠ .starStar := by
  rintro rfl
  exact absurd (h 7 rfl) (by decide)

/-- The operators of a left-grouping level go on with expressions of that level. -/
lemma continues_of_connective {c : Nat} {k : TokenKind} {op : Connective}
    (h : connective? c k = some op) : continues k = some (7 - c) := by
  unfold connective? at h
  split at h <;> first | rfl | cases h

lemma connective?_of_stops {n : Nat} {k : TokenKind} (hn : n ≤ 6) (h : Stops n k) :
    connective? (7 - n) k = none := by
  cases hop : connective? (7 - n) k with
  | none => rfl
  | some op =>
      have hlt := h _ (continues_of_connective hop)
      omega

lemma chainRest_stops {n : Nat} (hn : n ≤ 6) (e : Expr) :
    Leads (run (chainRest (6 - n) e)) [] (pure e) (Stops n) := by
  rw [run_chainRest]
  refine (leads_take_none fun k hk => ?_).feed _
  rw [show 6 - n + 1 = 7 - n by omega]
  exact connective?_of_stops hn hk

lemma applied_stops (e : Expr) : Leads (run (applied e)) [] (pure e) (Stops 10) := by
  refine .of_eq fun rest hrest => ?_
  rw [run, applied]
  · rfl
  all_goals
    rintro position ts rfl
    exact absurd (hrest 10 rfl) (by decide)

/-! ### From level to level -/

section

variable {n m : Nat} {ks : List TokenKind} {e : Expr}

/-- If nothing goes on with it, an expression is read as a whole. -/
lemma Passes.whole (h : Passes n ks e) (hn : n ≤ 10) : Leads (readAt n) ks (pure e) (Stops n) := by
  rw [← ks.append_nil]
  by_cases hchain : 1 ≤ n ∧ n ≤ 6
  · rw [Passes, onward_chain hchain.1 hchain.2, follows_chain hchain.1 hchain.2] at h
    exact h.trans (chainRest_stops hchain.2 e) fun k hk => hk.mono (Nat.le_succ n)
  · by_cases hten : n = 10
    · subst hten
      exact h.trans (applied_stops e) fun k hk => hk.mono (Nat.le_succ 10)
    · obtain rfl | rfl | rfl | rfl : n = 0 ∨ n = 7 ∨ n = 8 ∨ n = 9 := by omega
      all_goals exact h.trans (.refl _) fun k hk => hk

/-- A token that begins a primary expression is no operator before one. -/
lemma unary_eq_trailing {ts : List Token} {r : Expr × List Token}
    (h : run trailing ts = .ok r) : run unary ts = .ok r := by
  rw [run_unary, take_bind]
  cases ts with
  | nil => exact h
  | cons t ts =>
      obtain ⟨kind, position⟩ := t
      have hops : unaryOp? kind = none ∧ updateOp? kind = none := by
        rw [run, trailing, primary] at h
        cases kind <;> first | exact ⟨rfl, rfl⟩ | cases h
      rw [take?, hops.1]
      dsimp only [Option.map_none]
      rw [take_bind, take?, hops.2]
      exact h

/-- What is read at a level is read at the next looser one. -/
lemma Passes.climb (h : Passes (n + 1) ks e) (hn : n ≤ 9) : Passes n ks e := by
  -- the looser reader begins with the tighter one, and then finds no operator of its own
  have hwhole := h.whole (by omega)
  by_cases hchain : 1 ≤ n ∧ n ≤ 6
  · obtain ⟨hlow, hhigh⟩ := hchain
    rw [readAt_chain (by omega) (by omega), show 7 - (n + 1) = 6 - n by omega] at hwhole
    rw [Passes, readAt_chain hlow (by omega), onward_chain hlow hhigh, follows_chain hlow hhigh,
      show 7 - n = 6 - n + 1 by omega, run_chain_succ]
    exact hwhole.feed _
  · rw [← ks.append_nil]
    obtain rfl | rfl | rfl | rfl : n = 0 ∨ n = 7 ∨ n = 8 ∨ n = 9 := by omega
    · show Leads (run assignment) _ (pure e) (Stops 0)
      rw [run_assignment]
      refine hwhole.andThen ?_ fun k hk => hk.mono (Nat.le_succ 0)
      exact (leads_take_none fun k hk => assignOp?_of_stops hk).feed _
    · show Leads (run (chain 0)) _ (pure e) (Stops 7)
      rw [run_chain_zero, run_power]
      refine hwhole.andThen ?_ fun k hk => hk.mono (Nat.le_succ 7)
      exact (leads_takeToken_none fun k hk => ne_starStar_of_stops hk).feed _
    · -- unary operators come first, so here the first token decides
      rw [ks.append_nil]
      intro ts rest hts hrest
      exact unary_eq_trailing (hwhole ts rest hts (hrest.mono (Nat.le_succ 8)))
    · show Leads (run trailing) _ (pure e) (Stops 9)
      rw [run_trailing, ← bind_assoc]
      refine hwhole.andThen ?_ fun k hk => hk.mono (Nat.le_succ 9)
      exact (leads_take_none fun k hk => updateOp?_of_stops hk).feed _

/-- What is read at a level is read at all looser ones. -/
lemma Passes.down (h : Passes m ks e) (hm : m ≤ 10) (hle : n ≤ m) : Passes n ks e := by
  induction m with
  | zero =>
      obtain rfl := Nat.le_zero.mp hle
      exact h
  | succ m ih =>
      rcases Nat.lt_or_eq_of_le hle with hlt | rfl
      · exact ih (h.climb (by omega)) (by omega) (by omega)
      · exact h

end

/-! ### Lists -/

lemma head?_separated {ks : List TokenKind} {k : TokenKind} (h : ks.head? = some k)
    (rest : List (List TokenKind)) : (separated (ks :: rest)).head? = some k := by
  cases rest with
  | nil => exact h
  | cons ks' rest =>
      rw [separated, List.head?_append, h, Option.some_or]
      exact List.cons_ne_nil _ _

/-- Lists are read from their items with commas between them. -/
lemma leads_list {α β : Type} (l : List β) (tokens : β → List TokenKind) (value : β → α)
    {close : TokenKind} {item : Reader α} {all : Reader (List α)}
    (hall : all = list close item all) (hclose : close ≠ .comma)
    (hitem : ∀ b ∈ l, Leads item (tokens b) (pure (value b)) fun k => k = .comma ∨ k = close)
    (hstart : ∀ b ∈ l, ∃ k, (tokens b).head? = some k ∧ k ≠ close) :
    Leads all (separated (l.map tokens)) (pure (l.map value)) (· = close) := by
  induction l with
  | nil =>
      refine .of_eq fun rest hrest => ?_
      rw [hall, list, peek_bind, if_pos hrest]
      rfl
  | cons b rest ih =>
      obtain ⟨hb, hrest⟩ := List.forall_mem_cons.mp hitem
      obtain ⟨⟨k, hhead, hk⟩, hstart⟩ := List.forall_mem_cons.mp hstart
      rw [hall, list, List.map_cons]
      refine .peeked (head?_separated hhead _) ?_
      rw [if_neg hk]
      cases rest with
      | nil =>
          rw [List.map_nil, separated, ← (tokens b).append_nil]
          refine hb.andThen ((leads_takeToken_none ?_).feed _) fun k hk => .inr hk
          rintro k rfl
          exact hclose
      | cons b' rest =>
          rw [List.map_cons, separated]
          · exact hb.andThen (leads_takeToken.consThen ((ih hrest hstart).feed _))
              fun _ _ => .inl rfl
          · exact List.cons_ne_nil _ _

/-! ### First tokens -/

/-- The tokens that an expression can begin with. -/
def Begins : TokenKind → Prop
  | .number _ | .true | .false | .identifier _ | .leftParen | .leftBracket | .bang | .minus | .plus
  | .plusPlus | .minusMinus => True
  | _ => False

lemma begins_enclose {need level : Nat} {ks : List TokenKind}
    (h : ∃ k, ks.head? = some k ∧ Begins k) (rest : List TokenKind) :
    ∃ k, (enclose need level ks ++ rest).head? = some k ∧ Begins k := by
  rw [enclose]
  split
  · exact ⟨.leftParen, rfl, trivial⟩
  · obtain ⟨k, hk, hbegins⟩ := h
    exact ⟨k, by rw [List.head?_append, hk, Option.some_or], hbegins⟩

/-- The first token of an expression. -/
lemma print_begins (e : Expr) : ∃ k, e.print.head? = some k ∧ Begins k := by
  match e with
  | .number _ _ | .boolean _ true | .boolean _ false | .identifier _ _ | .array _ _ =>
      exact ⟨_, rfl, trivial⟩
  | .unary _ op _ => exact ⟨op.token, rfl, by cases op <;> trivial⟩
  | .update _ op true _ => exact ⟨op.token, rfl, by cases op <;> trivial⟩
  | .update _ _ false a => exact begins_enclose (print_begins a) _
  | .binary _ _ a _ | .logical _ _ a _ | .assign _ _ a _ | .property _ a _ =>
      exact begins_enclose (print_begins a) _
  | .call _ a _ | .index _ a _ =>
      rw [Expr.print, List.append_assoc]
      exact begins_enclose (print_begins a) _

/-! ### Primary expressions and what is applied to them -/

lemma leads_leftParen : Leads (run primary) [.leftParen] (do
    let e ← run assignment
    run (expect .rightParen)
    pure e) Anything := by
  refine .token fun position rest => ?_
  rw [run, primary]
  exact run_bind assignment fun _ => run_bind (expect .rightParen) fun _ => rfl

lemma leads_leftBracket : Leads (run primary) [.leftBracket] (do
    let elements ← run (items .rightBracket)
    run (expect .rightBracket)
    pure (.array 0 elements)) Anything := by
  refine .token fun position rest => ?_
  rw [run, primary]
  exact run_bind (items .rightBracket) fun _ => run_bind (expect .rightBracket) fun _ => rfl

section

variable (head : Expr)

lemma leads_call : Leads (run (applied head)) [.leftParen] (do
    let arguments ← run (items .rightParen)
    run (expect .rightParen)
    run (applied (.call 0 head arguments))) Anything := by
  refine .token fun position rest => ?_
  rw [run, applied]
  exact run_bind (items .rightParen) fun r => run_bind (expect .rightParen) fun _ =>
    run_last (applied (.call 0 head r.value)) fun _ => rfl

lemma leads_index : Leads (run (applied head)) [.leftBracket] (do
    let position ← run assignment
    run (expect .rightBracket)
    run (applied (.index 0 head position))) Anything := by
  refine .token fun position rest => ?_
  rw [run, applied]
  exact run_bind assignment fun r => run_bind (expect .rightBracket) fun _ =>
    run_last (applied (.index 0 head r.value)) fun _ => rfl

lemma leads_property : Leads (run (applied head)) [.dot] (do
    let name ← run (expectName .propertyName)
    run (applied (.property 0 head name))) Anything := by
  refine .token fun position rest => ?_
  rw [run, applied]
  exact run_bind (expectName .propertyName) fun r =>
    run_last (applied (.property 0 head r.value)) fun _ => rfl

end

/-! ### Expressions -/

/-- An expression is read from its tokens at every level. -/
def Reads (e : Expr) : Prop :=
  ∀ n ≤ 10, Passes n (e.printAt n) e.erase

section

variable {n : Nat} {ks ks' : List TokenKind} {e a b : Expr}

lemma Reads.whole (h : Reads e) (hn : n ≤ 10) :
    Leads (readAt n) (e.printAt n) (pure e.erase) (Stops n) :=
  (h n hn).whole hn

/-- Where no level is needed, an expression is read without parentheses. -/
lemma Reads.assignment (h : Reads e) : Leads (run assignment) e.print (pure e.erase) (Stops 0) := by
  have hwhole := h.whole (Nat.zero_le 10)
  rwa [Expr.printAt, enclose, if_neg (Nat.not_lt_zero _)] at hwhole

/-- A primary expression that is read by itself. -/
lemma passes_primary (h : Leads (run primary) ks (pure e) Anything) : Passes 10 ks e :=
  (h.feed _).mono fun _ _ => trivial

/-- An expression in parentheses is a primary one. -/
lemma Passes.parenthesised (h : Passes 0 ks e) :
    Passes 10 (.leftParen :: ks ++ [.rightParen]) e := by
  refine passes_primary (leads_leftParen.cons ?_)
  exact (h.whole (Nat.zero_le 10)).andThen (leads_expect.feed _) fun _ _ => stops_of_none rfl 0

/-- It is enough to read an expression at its own level. -/
lemma Reads.of_level (h : Passes e.level e.print e.erase) : Reads e := by
  have hlevel := e.level_le
  intro n hn
  rw [Expr.printAt, enclose]
  split
  · exact ((h.down hlevel (Nat.zero_le _)).parenthesised).down le_rfl hn
  · rename_i hle
    exact h.down hlevel (not_lt.mp hle)

/-- Two operands of a level that groups to the left. -/
lemma passes_connective (hlow : 1 ≤ n) (hhigh : n ≤ 6) {op : Connective} {k : TokenKind}
    (hop : connective? (7 - n) k = some op) (ha : Passes n ks a) (hb : Passes (n + 1) ks' b) :
    Passes n (ks ++ k :: ks') (op.join a b) := by
  have hright := hb.whole (by omega)
  rw [readAt_chain (by omega) (by omega), show 7 - (n + 1) = 6 - n by omega] at hright
  have hk : Stops (n + 1) k := by
    intro l hl
    rw [continues_of_connective hop, Option.some.injEq] at hl
    omega
  rw [Passes, onward_chain hlow hhigh, follows_chain hlow hhigh] at ha ⊢
  -- the left operand may itself be of this level: it leaves the loop where it can go on
  refine ha.trans ?_ fun _ _ => hk
  rw [run_chainRest]
  refine (leads_take ?_).consThen (hright.feed _)
  rw [show 6 - n + 1 = 7 - n by omega]
  exact hop

/-- What is applied to an operand. -/
lemma passes_applied (ha : Reads a)
    (h : Leads (run (applied a.erase)) ks (run (applied e)) Anything) :
    Passes 10 (a.printAt 10 ++ ks) e :=
  ((ha 10 le_rfl).trans h fun _ _ => follows_ten _).mono fun _ _ => trivial

/-- Expressions with commas between them, up to a closing token. -/
lemma leads_items {es : List Expr} (h : ∀ e ∈ es, Reads e) {close : TokenKind}
    (hcomma : close ≠ .comma) (hbegins : ¬ Begins close) (hstops : Stops 0 close) :
    Leads (run (items close)) (separated (Expr.printAll es)) (pure (Expr.eraseAll es))
      (· = close) := by
  rw [Expr.printAll_eq_map, Expr.eraseAll_eq_map]
  refine leads_list es _ _ (run_items close) hcomma (fun e he => ?_) fun e _ => ?_
  · refine (h e he).assignment.mono ?_
    rintro k (rfl | rfl)
    · exact stops_of_none rfl 0
    · exact hstops
  · obtain ⟨k, hk, hbegin⟩ := print_begins e
    refine ⟨k, hk, ?_⟩
    rintro rfl
    exact hbegins hbegin

lemma reads_binary {i : ExprId} {op : BinaryOp} (ha : Reads a) (hb : Reads b) :
    Reads (.binary i op a b) := by
  by_cases hpow : op = .pow
  · subst hpow
    refine Reads.of_level ?_
    show Leads (run (chain 0)) (a.printAt 8 ++ .starStar :: b.printAt 7) (pure _) (Stops 7)
    rw [run_chain_zero, run_power]
    refine (ha.whole (n := 8) (by decide)).andThen ?_ fun k _ l hl => ?_
    · refine leads_takeToken.consThen ?_
      have hexponent := hb.whole (n := 7) (by decide)
      rw [readAt_chain (by decide) (by decide), run_chain_zero] at hexponent
      exact hexponent.feed _
    · cases hl
      decide
  · have hop : 1 ≤ op.level ∧ op.level ≤ 6 ∧ op.leftNeed = op.level ∧
        op.rightNeed = op.level + 1 ∧ connective? (7 - op.level) op.token = some (.binary op) := by
      cases op <;> first | exact absurd rfl hpow | decide
    obtain ⟨hlow, hhigh, hleft, hright, hconnective⟩ := hop
    refine Reads.of_level ?_
    rw [Expr.print, hleft, hright]
    exact passes_connective hlow hhigh hconnective (ha _ (by omega)) (hb _ (by omega))

lemma reads_logical {i : ExprId} {op : LogicalOp} (ha : Reads a) (hb : Reads b) :
    Reads (.logical i op a b) := by
  have hop : 1 ≤ op.level ∧ op.level ≤ 6 ∧
      connective? (7 - op.level) op.token = some (.logical op) := by
    cases op <;> decide
  obtain ⟨hlow, hhigh, hconnective⟩ := hop
  refine Reads.of_level ?_
  exact passes_connective hlow hhigh hconnective (ha _ (by omega)) (hb _ (by omega))

lemma reads_assign {i : ExprId} {op : AssignOp} (ha : Reads a) (hb : Reads b) :
    Reads (.assign i op a b) := by
  have hop : assignOp? op.token = some op ∧ Stops 1 op.token := by
    cases op <;> exact ⟨rfl, fun l hl => by cases hl; decide⟩
  refine Reads.of_level ?_
  show Leads (run assignment) (a.printAt 1 ++ op.token :: b.print) (pure _) (Stops 0)
  rw [run_assignment]
  refine (ha.whole (n := 1) (by decide)).andThen ?_ fun _ _ => hop.2
  exact (leads_take hop.1).consThen (hb.assignment.feed _)

lemma reads_unary {i : ExprId} {op : UnaryOp} (ha : Reads a) : Reads (.unary i op a) := by
  have hop : unaryOp? op.token = some op := by
    cases op <;> rfl
  refine Reads.of_level ?_
  show Leads (run unary) (op.token :: a.printAt 8) (pure _) (Stops 8)
  rw [run_unary]
  exact (leads_take hop).consThen ((ha.whole (n := 8) (by decide)).feed _)

lemma reads_update {i : ExprId} {op : UpdateOp} {leading : Bool} (ha : Reads a) :
    Reads (.update i op leading a) := by
  have hop : unaryOp? op.token = none ∧ updateOp? op.token = some op ∧ Stops 10 op.token := by
    cases op <;> exact ⟨rfl, rfl, fun l hl => by cases hl; decide⟩
  obtain ⟨hunary, hupdate, hstops⟩ := hop
  cases leading with
  | true =>
      refine Reads.of_level ?_
      show Leads (run unary) (op.token :: a.printAt 8) (pure _) (Stops 8)
      rw [run_unary]
      exact (leads_take_none fun _ hk => hk).keepThen
        ((leads_take hupdate).consThen ((ha.whole (n := 8) (by decide)).feed _))
        fun _ _ => hunary
  | false =>
      refine Reads.of_level ?_
      show Leads (run trailing) (a.printAt 10 ++ [op.token]) (pure _) (Stops 9)
      rw [run_trailing, ← bind_assoc]
      exact (ha.whole (n := 10) le_rfl).andThen ((leads_take hupdate).feed _) fun _ _ => hstops

end

mutual

/-- Every expression is read from its tokens. -/
theorem reads : ∀ e : Expr, Reads e
  | .number _ x | .boolean _ true | .boolean _ false | .identifier _ name => by
      refine Reads.of_level (passes_primary (.token fun position rest => ?_))
      rw [run, primary]
      rfl
  | .array _ elements => by
      refine Reads.of_level (passes_primary ?_)
      refine leads_leftBracket.cons ?_
      exact (leads_items (readsAll elements) (by decide) id (stops_of_none rfl 0)).andThen
        (leads_expect.feed _) fun _ _ => rfl
  | .unary _ _ a => reads_unary (reads a)
  | .binary _ _ a b => reads_binary (reads a) (reads b)
  | .logical _ _ a b => reads_logical (reads a) (reads b)
  | .update _ _ _ a => reads_update (reads a)
  | .assign _ _ a b => reads_assign (reads a) (reads b)
  | .call _ f arguments => by
      refine Reads.of_level ?_
      rw [Expr.print, List.append_assoc]
      refine passes_applied (reads f) ?_
      refine (leads_call f.erase).cons ?_
      exact (leads_items (readsAll arguments) (by decide) id (stops_of_none rfl 0)).andThen
        (leads_expect.feed _) fun _ _ => rfl
  | .index _ a b => by
      refine Reads.of_level ?_
      rw [Expr.print, List.append_assoc]
      refine passes_applied (reads a) ?_
      refine (leads_index a.erase).cons ?_
      exact (reads b).assignment.andThen (leads_expect.feed _) fun _ _ => stops_of_none rfl 0
  | .property _ a name => by
      refine Reads.of_level (passes_applied (reads a) ?_)
      refine (leads_property a.erase).cons ?_
      exact (leads_expectName .propertyName name).feed _

theorem readsAll : ∀ es : List Expr, ∀ e ∈ es, Reads e
  | [] => fun _ h => by cases h
  | e :: rest => List.forall_mem_cons.mpr ⟨reads e, readsAll rest⟩

end

end ArrayScript.Parser
