import ArrayScript.Proofs.Token.Tiling

/-!
Reading tokens back, whatever is written between them.

A `Spacing` says what is written around and between tokens: separators, which are a blank and
then any mix of blanks and closed comments.

* `Tiles.scan_eq`: a text that is tiled by tokens is scanned to them.
* `Spells.longest`, `Spells.not_opensComment`: before a blank or the end of the text, a spelling
  is the longest one that stands there, and no comment starts there.
* `Spacing.write_tiles`: tokens that are written out tile the text.
* `tokenize_write`: whatever the spacing, the tokens that are written are read back.
-/

namespace ArrayScript

/-! ### Tiled texts are scanned -/

/-- A line ends with the first line end after it. -/
lemma takeWhile_line {body cs : List Char} (hbody : '\n' ∉ body)
    (hend : ∀ c ∈ cs.head?, c = '\n') :
    (body ++ cs).takeWhile (· ≠ '\n') = body ∧ (body ++ cs).dropWhile (· ≠ '\n') = cs := by
  have hall : ∀ c ∈ body, decide (c ≠ '\n') = true := fun c hc =>
    decide_eq_true fun h => hbody (h ▸ hc)
  rw [List.takeWhile_append_of_pos hall, List.dropWhile_append_of_pos hall]
  cases cs with
  | nil => exact ⟨List.append_nil _, rfl⟩
  | cons c cs =>
      obtain rfl := hend c rfl
      exact ⟨List.append_nil _, rfl⟩

/-- Blanks and comments are passed over. -/
lemma scan_gap {gap rest : List Char} (h : Gap gap rest) (before : List Char) :
    scan (.behind before) (gap ++ rest) = scan (.behind (before ++ gap)) rest := by
  induction h generalizing before with
  | nil rest => rw [List.append_nil, List.nil_append]
  | @blank c gap rest hc _ ih =>
      have hslash : c ≠ '/' := by rintro rfl; exact absurd hc (by decide)
      have hstep : (Position.behind before).step c = .behind (before ++ [c]) :=
        Position.behind_after before [c]
      rw [List.cons_append, scan, if_pos hc, hstep, ih, List.append_assoc]
      · rfl
      · exact fun _ h _ => hslash h
      · exact fun _ h _ => hslash h
  | line hbody hend _ ih =>
      obtain ⟨htake, hdrop⟩ := takeWhile_line hbody hend
      rw [List.cons_append, List.cons_append, List.append_assoc, scan, htake, hdrop,
        Position.behind_after, ih]
      simp only [List.append_assoc, List.cons_append]
  | @block body gap rest hbody _ ih =>
      have hclose := closeComment?_text hbody (gap ++ rest)
      simp only [List.cons_append, List.append_assoc]
      rw [scan]
      split
      next hnone => rw [hclose] at hnone; cases hnone
      next text' rest' hsome =>
        obtain ⟨rfl, rfl⟩ := Prod.mk.inj (Option.some.inj (hclose.symm.trans hsome))
        rw [Position.behind_after, ih]
        simp only [List.append_assoc, List.cons_append, List.nil_append]

/-- Where the lexer splits something off, scanning goes on after it. -/
lemma scan_lexeme {c : Char} {cs : List Char} {l : Lexeme} (hc : Text.isWhiteSpace c = false)
    (hopens : ¬OpensComment (c :: cs)) (hl : lexeme? (c :: cs) = some l) (p : Position) :
    scan p (c :: cs) = (scan (p.after l.text) l.rest).map (⟨l.kind, p⟩ :: ·) := by
  rw [scan, if_neg (by simp [hc])]
  · split
    next hnone => rw [hl] at hnone; cases hnone
    next l' hsome =>
      obtain rfl := Option.some.inj (hl.symm.trans hsome)
      cases scan (p.after l.text) l.rest <;> rfl
  · rintro body rfl rfl
    exact hopens (.inl ⟨body, rfl⟩)
  · rintro body rfl rfl
    exact hopens (.inr ⟨body, rfl⟩)

/-- The longest spelling at the head of a text is scanned to its token. -/
lemma scan_spelling {kind : TokenKind} {text cs : List Char} (h : Spells kind text)
    (hopens : ¬OpensComment (text ++ cs))
    (hlongest : ∀ kind' text', Spells kind' text' → text' <+: text ++ cs →
      text'.length ≤ text.length) (before : List Char) :
    scan (.behind before) (text ++ cs) =
      (scan (.behind (before ++ text)) cs).map (⟨kind, .behind before⟩ :: ·) := by
  obtain ⟨l, hl, more, htext, hkind⟩ := h.lexeme?_append cs
  have hrest := lexeme?_append hl
  have hle := hlongest _ _ (lexeme?_spells hl) ⟨l.rest, hrest⟩
  obtain rfl : more = [] := by
    rw [htext, List.length_append] at hle
    exact List.length_eq_zero_iff.mp (by omega)
  rw [List.append_nil] at htext
  rw [htext] at hrest
  obtain rfl := List.append_cancel_left hrest
  obtain ⟨c, text', rfl⟩ := List.exists_cons_of_ne_nil h.ne_nil
  have hc : Text.isWhiteSpace c = false := h.not_blank c List.mem_cons_self
  rw [List.cons_append] at hopens hl ⊢
  rw [scan_lexeme hc hopens hl, htext, hkind rfl, Position.behind_after]

/-- A text that is tiled to its end is scanned to the tokens that tile it. -/
theorem Tiles.scan_eq {before cs rest : List Char} {tokens : List Token}
    (h : Tiles before cs tokens rest) (hrest : rest = []) :
    scan (.behind before) cs = .ok (tokens ++ [⟨.eof, .behind (before ++ cs)⟩]) := by
  induction h with
  | gap hgap =>
      subst hrest
      rw [scan_gap hgap, List.append_nil]
      simp only [scan, List.nil_append]
  | token hgap hspells _ hopens hlongest _ ih =>
      rw [scan_gap hgap, scan_spelling hspells hopens hlongest, List.append_assoc, ih hrest]
      simp only [Except.map, List.append_assoc, List.cons_append]

/-! ### Spacings -/

/-- Something to be passed over: a blank, a comment with the line end after it, or a closed
comment. -/
inductive Filler : Type
  | blank (c : Char) (h : Text.isWhiteSpace c = true)
  | line (body : List Char) (h : '\n' ∉ body)
  | block (body : List Char) (h : ¬['*', '/'] <:+: body)

/-- The characters of a filler. -/
def Filler.text : Filler → List Char
  | .blank c _ => [c]
  | .line body _ => '/' :: '/' :: (body ++ ['\n'])
  | .block body _ => '/' :: '*' :: (body ++ ['*', '/'])

/-- A blank and any fillers after it. -/
structure Separator where
  blank : Char
  fillers : List Filler
  isWhiteSpace : Text.isWhiteSpace blank = true

/-- The characters of a separator. -/
def Separator.text (s : Separator) : List Char :=
  s.blank :: s.fillers.flatMap Filler.text

/-- A kind of token with a way to spell it. -/
structure Spelling where
  kind : TokenKind
  text : List Char
  spells : Spells kind text

/-- What stands around and between tokens: perhaps a separator before the first and after the
last, and one before each other token, `between i` before the token at place `i`. -/
structure Spacing where
  lead : Option Separator
  between : ℕ → Separator
  trail : Option Separator

namespace Spacing

/-- What stands before the token at a place. -/
def before (s : Spacing) (i : ℕ) : List Char :=
  if i = 0 then [] else (s.between i).text

/-- The text of the tokens with what stands around and between them. -/
def write (s : Spacing) (tokens : List Spelling) : List Char :=
  (s.lead.map Separator.text).getD [] ++
    ((tokens.mapIdx fun i t => s.before i ++ t.text).flatten ++
      (s.trail.map Separator.text).getD [])

end Spacing

/-- A filler is passed over, whatever comes after it. -/
lemma Filler.gap (f : Filler) (rest : List Char) : Gap f.text rest := by
  cases f with
  | blank c h => exact .blank h (.nil rest)
  | line body h =>
      refine .line h ?_ (.blank (by decide) (.nil rest))
      rintro c ⟨⟩
      rfl
  | block body h => exact .block h (.nil rest)

lemma Filler.gap_flatMap (fillers : List Filler) (rest : List Char) :
    Gap (fillers.flatMap Filler.text) rest := by
  induction fillers with
  | nil => exact .nil rest
  | cons f fillers ih => exact (f.gap _).append ih

/-- A separator is passed over, whatever comes after it. -/
lemma Separator.gap (s : Separator) (rest : List Char) : Gap s.text rest :=
  .blank s.isWhiteSpace (Filler.gap_flatMap s.fillers rest)

lemma Separator.gap_option (s : Option Separator) (rest : List Char) :
    Gap ((s.map text).getD []) rest := by
  cases s with
  | none => exact .nil rest
  | some s => exact s.gap rest

/-! ### Tokens apart -/

/-- A text that is empty or starts with a blank, so that no token before it goes on in it. -/
def StartsBlank (cs : List Char) : Prop :=
  ∀ c ∈ cs.head?, Text.isWhiteSpace c = true

/-- Where a comment starts, only its first slash would be split off. -/
lemma lexeme?_slash {m : Char} {body : List Char} {l : Lexeme} (hm : m ≠ '=')
    (hl : lexeme? ('/' :: m :: body) = some l) : l.text = ['/'] := by
  have hslash : ∀ p ∈ Lexeme.punctuation, p.1.head? = some '/' →
      p.1 = ['/'] ∨ p.1 = ['/', '='] := by decide
  have happend := lexeme?_append hl
  obtain ⟨c, text, htext⟩ := List.exists_cons_of_ne_nil (lexeme?_text_ne_nil hl)
  have hhead : l.text.head? = some '/' := by
    rw [htext] at happend ⊢
    exact congrArg some (List.cons.inj happend).1
  have hnumeral : Lexeme.startsNumeral ('/' :: m :: body) = false :=
    Lexeme.startsNumeral_of_not_isDigit (by decide) (by decide)
  rw [Lexeme.lexeme?_symbol hnumeral (by decide +kernel)] at hl
  refine (hslash _ (Lexeme.symbol?_text_mem hl) hhead).resolve_right fun htext => ?_
  rw [show l.text = ['/', '='] from htext] at happend
  exact hm (List.cons.inj (List.cons.inj happend).2).1.symm

namespace Spells

variable {kind : TokenKind} {text cs : List Char}

/-- No longer spelling stands where a text is followed by a blank. -/
lemma longest (hcs : StartsBlank cs) (h : Spells kind text) {text' : List Char}
    (hstarts : text <+: text' ++ cs) : text.length ≤ text'.length := by
  by_contra hlonger
  obtain ⟨more, rfl⟩ := List.prefix_of_prefix_length_le (List.prefix_append text' cs) hstarts
    (Nat.le_of_not_le hlonger)
  obtain ⟨rest, hrest⟩ := hstarts
  rw [List.append_assoc] at hrest
  obtain rfl := List.append_cancel_left hrest
  cases more with
  | nil => simp at hlonger
  | cons c more =>
      have hblank := hcs c rfl
      rw [h.not_blank c (by simp)] at hblank
      cases hblank

/-- No comment starts where a spelling is followed by a blank. -/
lemma not_opensComment (h : Spells kind text) (hcs : StartsBlank cs) :
    ¬OpensComment (text ++ cs) := by
  have hslash : ∀ m body, '/' :: m :: body = text ++ cs → m ≠ '=' →
      Text.isWhiteSpace m = true := by
    intro m body hbody hm
    obtain ⟨l, hl, more, hmore, _⟩ := h.lexeme?_append cs
    have htext : text ++ more = ['/'] := hmore ▸ lexeme?_slash hm (hbody ▸ hl)
    obtain rfl : text = ['/'] := by
      refine ((List.append_eq_singleton_iff.mp htext).resolve_left ?_).1
      exact fun hnil => h.ne_nil hnil.1
    obtain rfl : m :: body = cs := (List.cons.inj hbody).2
    exact hcs m rfl
  rintro (⟨body, hbody⟩ | ⟨body, hbody⟩)
  · exact absurd (hslash '/' body hbody (by decide)) (by decide)
  · exact absurd (hslash '*' body hbody (by decide)) (by decide)

end Spells

/-- A spelling with a gap before it and a blank after it tiles the text up to that blank. -/
lemma Spelling.tiles (t : Spelling) {before gap cs rest : List Char} {tokens : List Token}
    (hgap : ∀ rest, Gap gap rest) (hcs : StartsBlank cs)
    (h : Tiles (before ++ (gap ++ t.text)) cs tokens rest) :
    Tiles before (gap ++ (t.text ++ cs)) (⟨t.kind, .behind (before ++ gap)⟩ :: tokens) rest :=
  .token (hgap _) t.spells t.spells.ne_nil (t.spells.not_opensComment hcs)
    (fun _ _ h' => h'.longest hcs) h

namespace Spacing

/-- The text of tokens that come after others, with a separator before each. -/
def onward (between : ℕ → Separator) (trail : Option Separator) (tokens : List Spelling) :
    List Char :=
  (tokens.mapIdx fun i t => (between i).text ++ t.text).flatten ++
    (trail.map Separator.text).getD []

variable {between : ℕ → Separator} {trail : Option Separator} {tokens : List Spelling}

lemma onward_cons (t : Spelling) :
    onward between trail (t :: tokens) =
      (between 0).text ++ (t.text ++ onward (fun i => between (i + 1)) trail tokens) := by
  simp [onward, List.mapIdx_cons]

lemma onward_startsBlank : StartsBlank (onward between trail tokens) := by
  cases tokens with
  | nil =>
      cases trail with
      | none => exact fun c hc => by cases hc
      | some s =>
          rintro c ⟨⟩
          exact s.isWhiteSpace
  | cons t tokens =>
      rw [onward_cons]
      rintro c ⟨⟩
      exact (between 0).isWhiteSpace

/-- Tokens that come after others tile the text they are written in. -/
lemma onward_tiles (between : ℕ → Separator) (trail : Option Separator) (tokens : List Spelling)
    (before : List Char) : ∃ ts, Tiles before (onward between trail tokens) ts [] ∧
      ts.map Token.kind = tokens.map Spelling.kind := by
  induction tokens generalizing between before with
  | nil =>
      have htiles : Tiles before _ [] [] := .gap (Separator.gap_option trail [])
      exact ⟨[], by simpa [onward] using htiles, rfl⟩
  | cons t tokens ih =>
      obtain ⟨ts, htiles, hkinds⟩ := ih (fun i => between (i + 1)) _
      rw [onward_cons]
      exact ⟨_, t.tiles (between 0).gap onward_startsBlank htiles, by simp [hkinds]⟩

/-- The first token stands after the separator before it, if there is one. -/
lemma write_cons (s : Spacing) (t : Spelling) :
    s.write (t :: tokens) = (s.lead.map Separator.text).getD [] ++
      (t.text ++ onward (fun i => s.between (i + 1)) s.trail tokens) := by
  simp [write, before, onward, List.mapIdx_cons]

/-- Tokens tile the text they are written in. -/
lemma write_tiles (s : Spacing) (tokens : List Spelling) :
    ∃ ts, Tiles [] (s.write tokens) ts [] ∧ ts.map Token.kind = tokens.map Spelling.kind := by
  cases tokens with
  | nil =>
      have hgap := (Separator.gap_option s.lead _).append (Separator.gap_option s.trail [])
      have htiles : Tiles [] _ [] [] := .gap hgap
      exact ⟨[], by simpa [write] using htiles, rfl⟩
  | cons t tokens =>
      obtain ⟨ts, htiles, hkinds⟩ := onward_tiles (fun i => s.between (i + 1)) s.trail tokens _
      rw [write_cons]
      exact ⟨_, t.tiles (Separator.gap_option s.lead) onward_startsBlank htiles, by simp [hkinds]⟩

end Spacing

/-- **Reading undoes writing, whatever the spacing.** Tokens written in any of their spellings,
with a blank and any blanks and closed comments between them and perhaps around them, are read
back: their kinds with the values of the numbers, and the end after them. -/
theorem tokenize_write (s : Spacing) (tokens : List Spelling) :
    (tokenize (String.ofList (s.write tokens))).map (List.map Token.kind) =
      .ok (tokens.map Spelling.kind ++ [.eof]) := by
  obtain ⟨ts, htiles, hkinds⟩ := s.write_tiles tokens
  have hscan := htiles.scan_eq rfl
  rw [tokenize, String.toList_ofList, show Position.start = .behind [] from rfl, hscan]
  simp [Except.map, hkinds]

end ArrayScript
