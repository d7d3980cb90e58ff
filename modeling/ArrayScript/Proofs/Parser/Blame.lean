import ArrayScript.Proofs.Parser.Progress
import ArrayScript.Proofs.Parser.RoundTrip
import ArrayScript.Proofs.Token.Tiling

/-!
How reading a program ends and which token it blames.

* `StatementsRead.took`: a run of statements takes at least one token for each of them.
* `topLevel_course`: reading a program is such a run, up to the end or to a statement that
  cannot be read.
* `tokenize_ends`: among the tokens of a source the end comes once, as the last of them.
* `parseTokens_progress`: so a program that is read takes all tokens before the end, and an error
  names the place of a token, for the tokens of a source never that of the token which stands
  for a missing end.
-/

namespace ArrayScript

namespace Parser

variable {ts rest : List Token} {ss : List Statement} {e : ParseError}

/-! ### Statement after statement -/

section

variable {α : Type} {n : List Token → Nat} {k : Nat} {r : (ts : List Token) → Reading α (n ts)}

/-- What a reader of the grammar takes. -/
lemma Advances.takes (h : Advances k (run r) ts) {a : Read Token α (n ts)} (hr : r ts = .ok a) :
    Took k ts a.rest :=
  h.took (by rw [run, hr]; rfl)

/-- What a reader of the grammar blames. -/
lemma Advances.fails (h : Advances k (run r) ts) (hr : r ts = .error e) : Blames ts e :=
  h.blames (by rw [run, hr]; rfl)

end

/-- The statements `ss` are read one after another, each from what the one before it left and
none from the end; of the tokens `ts` the tokens `rest` are left. -/
inductive StatementsRead : (ts : List Token) → List Statement → (rest : List Token) → Prop
  | nil (ts : List Token) : StatementsRead ts [] ts
  | cons {ts rest : List Token} {ss : List Statement} {r : Read Token Statement ts.length}
      (hts : (firstToken ts).kind ≠ .eof) (hr : statement ts = .ok r)
      (h : StatementsRead r.rest ss rest) : StatementsRead ts (r.value :: ss) rest

/-- A run of statements takes at least one token for each of them. -/
lemma StatementsRead.took (h : StatementsRead ts ss rest) : Took ss.length ts rest := by
  induction h with
  | nil ts => exact .refl ts
  | cons _ hr _ ih => exact ((statement_advances _).takes hr).trans ih

/-- A program is read statement after statement, up to the end or to a statement that cannot be
read. -/
theorem topLevel_course (ts : List Token) : ∃ ss rest, StatementsRead ts ss rest ∧
    ((firstToken rest).kind = .eof ∧ topLevel ts = .ok ss ∨
      ∃ e, statement rest = .error e ∧ topLevel ts = .error e) := by
  by_cases hts : (firstToken ts).kind = .eof
  · refine ⟨[], ts, .nil ts, .inl ⟨hts, ?_⟩⟩
    rw [topLevel_eq, next, if_pos hts]
  rw [topLevel_eq, next, if_neg hts, run]
  cases hr : statement ts with
  | error e => exact ⟨[], ts, .nil ts, .inr ⟨e, hr, rfl⟩⟩
  | ok r =>
      have hshorter := r.shorter
      have hnext : ((outcome (.ok r) : Except ParseError (Statement × List Token)) >>=
          fun p => topLevel p.2 >>= fun rest => pure (p.1 :: rest)) =
            topLevel r.rest >>= fun rest => pure (r.value :: rest) := rfl
      obtain ⟨ss, rest, hread, hend⟩ := topLevel_course r.rest
      refine ⟨r.value :: ss, rest, .cons hts hr hread, ?_⟩
      rcases hend with ⟨heof, htop⟩ | ⟨e, he, htop⟩
      · exact .inl ⟨heof, by rw [hnext, htop]; rfl⟩
      · exact .inr ⟨e, he, by rw [hnext, htop]; rfl⟩
termination_by ts.length

/-- The same of a program with its expressions numbered. -/
lemma parseTokens_course (ts : List Token) : ∃ ss rest, StatementsRead ts ss rest ∧
    ((firstToken rest).kind = .eof ∧ parseTokens ts = .ok (Program.mk ss).renumber ∨
      ∃ e, statement rest = .error e ∧ parseTokens ts = .error e) := by
  obtain ⟨ss, rest, hread, hend⟩ := topLevel_course ts
  refine ⟨ss, rest, hread, ?_⟩
  rcases hend with ⟨heof, htop⟩ | ⟨e, he, htop⟩
  · exact .inl ⟨heof, by rw [parseTokens, htop]; rfl⟩
  · exact .inr ⟨e, he, by rw [parseTokens, htop]; rfl⟩

/-- A program that cannot be read blames a token. -/
lemma parseTokens_blames (h : parseTokens ts = .error e) : Blames ts e := by
  obtain ⟨ss, rest, hread, ⟨_, hok⟩ | ⟨e', he, herror⟩⟩ := parseTokens_course ts
  · cases h.symm.trans hok
  · obtain rfl := Except.error.inj (h.symm.trans herror)
    exact hread.took.blames ((statement_advances rest).fails he)

/-! ### The tokens of a source -/

/-- The end comes once among the tokens and is the last of them. -/
def EndsOnce (ts : List Token) : Prop :=
  ∃ before last, ts = before ++ [last] ∧ last.kind = .eof ∧ ∀ t ∈ before, t.kind ≠ .eof

/-- Where the end comes once, nothing is left after it. -/
lemma EndsOnce.rest_eq {k : Nat} (h : EndsOnce ts) (htook : Took k ts rest)
    (hrest : (firstToken rest).kind = .eof) : ∃ last, last.kind = .eof ∧ rest = [last] := by
  obtain ⟨before, last, rfl, hlast, hbefore⟩ := h
  obtain ⟨taken, heq, _, htaken⟩ := htook
  have hdrop := congrArg (List.dropWhile fun t => decide (t.kind ≠ .eof)) heq
  rw [List.dropWhile_append_of_pos (by simpa using hbefore),
    List.dropWhile_append_of_pos (by simpa using htaken)] at hdrop
  refine ⟨last, hlast, ?_⟩
  cases rest with
  | nil => simp [hlast] at hdrop
  | cons t rest =>
      have ht : t.kind = .eof := hrest
      simpa [hlast, ht] using hdrop.symm

/-- Where there is an end, the token that stands for a missing one is not blamed. -/
lemma EndsOnce.blames (h : EndsOnce ts) (he : Blames ts e) {p : Position}
    (hp : e.place? = some p) : ∃ t ∈ ts, t.position = p := by
  obtain ⟨before, last, rfl, hlast, _⟩ := h
  refine (he p hp).resolve_right fun hnone => ?_
  exact hnone.1 last (List.mem_append_right _ (List.mem_singleton_self last)) hlast

end Parser

namespace Tiles

variable {before cs rest : List Char} {tokens : List Token}

/-- Every token of a tiled text stands on a line. -/
lemma line_pos (h : Tiles before cs tokens rest) : ∀ t ∈ tokens, 0 < t.position.line := by
  induction h with
  | gap => exact fun t ht => by cases ht
  | token _ _ _ _ _ _ ih => exact List.forall_mem_cons.mpr ⟨Position.line_behind_pos _, ih⟩

end Tiles

/-- The tokens of a source end once and stand on lines. -/
lemma tokenize_ends {source : String} {ts : List Token} (h : tokenize source = .ok ts) :
    Parser.EndsOnce ts ∧ ∀ t ∈ ts, 0 < t.position.line := by
  have hcovers := scan_covers .start source.toList [] rfl
  rw [show scan .start source.toList = .ok ts from h] at hcovers
  obtain ⟨before, rfl, htiles⟩ := hcovers
  refine ⟨⟨before, _, rfl, rfl, htiles.ne_eof⟩, List.forall_mem_append.mpr ⟨htiles.line_pos, ?_⟩⟩
  exact List.forall_mem_singleton.mpr (Position.line_behind_pos _)

/-- **Reading always goes on, and blames a real token.** From any tokens, a statement, a pattern
or an expression that is read takes at least one of them, from the first on and none of them the
end, and gives none back; a program is read statement after statement, no more of them than there
are tokens, up to the end or to a statement that cannot be read. From the tokens of a source, a
program that is read takes all of them but the end, and an error that names a place names that of
one of them, not that of the token which stands for a missing end. -/
theorem parseTokens_progress (ts : List Token) :
    (∀ r, Parser.statement ts = .ok r → Parser.Took 1 ts r.rest) ∧
    (∀ r, Parser.pattern ts = .ok r → Parser.Took 1 ts r.rest) ∧
    (∀ r, Parser.assignment ts = .ok r → Parser.Took 1 ts r.rest) ∧
    (∃ ss rest, Parser.StatementsRead ts ss rest ∧ ss.length + rest.length ≤ ts.length ∧
      ((Parser.firstToken rest).kind = .eof ∧ parseTokens ts = .ok (Program.mk ss).renumber ∨
        ∃ e, Parser.statement rest = .error e ∧ parseTokens ts = .error e)) ∧
    ∀ source, tokenize source = .ok ts →
      (∀ program, parseTokens ts = .ok program → ∃ ss last, last.kind = .eof ∧
        Parser.StatementsRead ts ss [last] ∧ program = (Program.mk ss).renumber) ∧
      ∀ e p, parseTokens ts = .error e → e.place? = some p →
        (∃ t ∈ ts, t.position = p) ∧ p ≠ Parser.endToken.position := by
  obtain ⟨ss, rest, hread, hend⟩ := Parser.parseTokens_course ts
  refine ⟨fun r hr => (Parser.statement_advances ts).takes hr,
    fun r hr => (Parser.pattern_advances ts).takes hr,
    fun r hr => (Parser.assignment_advances ts).takes hr,
    ⟨ss, rest, hread, Nat.add_comm .. ▸ hread.took.length_le, hend⟩, fun source hsource => ?_⟩
  obtain ⟨hends, hlines⟩ := tokenize_ends hsource
  refine ⟨fun program hok => ?_, fun e p herror hp => ?_⟩
  · rcases hend with ⟨heof, hparse⟩ | ⟨e, _, hparse⟩
    · obtain ⟨last, hlast, rfl⟩ := hends.rest_eq hread.took heof
      exact ⟨ss, last, hlast, hread, Except.ok.inj (hok.symm.trans hparse)⟩
    · cases hok.symm.trans hparse
  · obtain ⟨t, ht, rfl⟩ := hends.blames (Parser.parseTokens_blames herror) hp
    refine ⟨⟨t, ht, rfl⟩, fun hplace => ?_⟩
    exact absurd (hlines t ht) (by rw [hplace]; exact Nat.lt_irrefl 0)

/-- The tokens of `a = f(b);` and of `c` on the next line. -/
def twoStatements : List Token :=
  [⟨.identifier "a", ⟨1, 1⟩⟩, ⟨.assign, ⟨1, 3⟩⟩, ⟨.identifier "f", ⟨1, 5⟩⟩, ⟨.leftParen, ⟨1, 6⟩⟩,
   ⟨.identifier "b", ⟨1, 7⟩⟩, ⟨.rightParen, ⟨1, 8⟩⟩, ⟨.semicolon, ⟨1, 9⟩⟩,
   ⟨.identifier "c", ⟨2, 1⟩⟩, ⟨.eof, ⟨2, 2⟩⟩]

/-- The tokens of `a = f(b,` and of a semicolon on the next line. -/
def openCall : List Token :=
  [⟨.identifier "a", ⟨1, 1⟩⟩, ⟨.assign, ⟨1, 3⟩⟩, ⟨.identifier "f", ⟨1, 5⟩⟩, ⟨.leftParen, ⟨1, 6⟩⟩,
   ⟨.identifier "b", ⟨1, 7⟩⟩, ⟨.comma, ⟨1, 8⟩⟩, ⟨.semicolon, ⟨2, 1⟩⟩, ⟨.eof, ⟨2, 2⟩⟩]

theorem twoStatements_read_openCall_blamed :
    let assigned : Expr := .assign 0 .assign (.identifier 0 "a")
      (.call 0 (.identifier 0 "f") [.identifier 0 "b"])
    let program := (Program.mk [.expression assigned, .expression (.identifier 0 "c")]).renumber
    (Parser.statement twoStatements =
        .ok ⟨.expression assigned, twoStatements.drop 7, by decide⟩ ∧
      Parser.Took 1 twoStatements (twoStatements.drop 7)) ∧
    (Parser.pattern twoStatements =
        .ok ⟨.identifier "a", twoStatements.drop 1, by decide⟩ ∧
      Parser.Took 1 twoStatements (twoStatements.drop 1)) ∧
    (Parser.assignment twoStatements = .ok ⟨assigned, twoStatements.drop 6, by decide⟩ ∧
      Parser.Took 1 twoStatements (twoStatements.drop 6)) ∧
    (tokenize "a = f(b);\nc" = .ok twoStatements ∧ parseTokens twoStatements = .ok program ∧
      ∃ ss last, last.kind = .eof ∧ Parser.StatementsRead twoStatements ss [last] ∧
        program = (Program.mk ss).renumber) ∧
    tokenize "a = f(b,\n;" = .ok openCall ∧
    parseTokens openCall = .error (.notAnExpression ⟨.semicolon, ⟨2, 1⟩⟩) ∧
    (∃ t ∈ openCall, t.position = ⟨2, 1⟩) ∧ (⟨2, 1⟩ : Position) ≠ Parser.endToken.position := by
  intro assigned program
  have hstatement : Parser.statement twoStatements =
      .ok ⟨.expression assigned, twoStatements.drop 7, by decide⟩ := by cbv
  have hpattern : Parser.pattern twoStatements =
      .ok ⟨.identifier "a", twoStatements.drop 1, by decide⟩ := by cbv
  have hassignment : Parser.assignment twoStatements =
      .ok ⟨assigned, twoStatements.drop 6, by decide⟩ := by cbv
  have htwo : tokenize "a = f(b);\nc" = .ok twoStatements := by decide +kernel
  have hopen : tokenize "a = f(b,\n;" = .ok openCall := by decide +kernel
  have hread : parseTokens twoStatements = .ok program := by cbv
  have hblamed : parseTokens openCall = .error (.notAnExpression ⟨.semicolon, ⟨2, 1⟩⟩) := by cbv
  obtain ⟨hs, hp, ha, _, hsource⟩ := parseTokens_progress twoStatements
  exact ⟨⟨hstatement, hs _ hstatement⟩, ⟨hpattern, hp _ hpattern⟩,
    ⟨hassignment, ha _ hassignment⟩, ⟨htwo, hread, (hsource _ htwo).1 _ hread⟩,
    hopen, hblamed, ((parseTokens_progress openCall).2.2.2.2 _ hopen).2 _ _ hblamed rfl⟩

end ArrayScript
