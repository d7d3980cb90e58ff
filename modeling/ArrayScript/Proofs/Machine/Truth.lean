import ArrayScript.Proofs.Machine.Points

/-!
Truth values among operands.

A word is a truth value if it is the integer `0` or `1`. `Moves … before after code` says how
code changes the operands on top of the stack, while it keeps to a contract: where those
marked in `before` are truth values, so are afterwards those that are marked in `after`.

* `Moves.append`, `Moves.above`, `Moves.weaken`: the rules of sequences, of further operands
  below and of weaker marks.
* `moves_gives`: operations that give one word. Comparisons and the constants `0` and `1`
  give truth values.
* `moves_select`, `moves_localGet`, `moves_localSet` and so on: the other operations.
-/

namespace ArrayScript

/-- A word is a truth value. -/
def Word.IsTruth (w : Word) : Prop :=
  w = .i32 0 ∨ w = .i32 1

lemma Word.isTruth_ite (c : Prop) [Decidable c] : (Word.i32 (if c then 1 else 0)).IsTruth := by
  split
  · exact .inr rfl
  · exact .inl rfl

namespace Machine

/-- The number of operands from which an operation makes one word. -/
def operands? : Op → Option Nat
  | .i32Const _ | .f64Const _ => some 0
  | .i32Eqz | .f64Neg | .f64ConvertI32 | .i32TruncSatF64 | .load _ => some 1
  | .int _ | .float _ => some 2
  | _ => none

/-- Whether an operation always gives a truth value. -/
def givesTruth : Op → Bool
  | .i32Const n => n = 0 ∨ n = 1
  | .i32Eqz => true
  | .int .lt | .int .le | .int .gt | .int .ge | .int .eq | .int .ne => true
  | .float o => o.result = .i32
  | _ => false

/-- The marked ones among some words are truth values. -/
def Marked (marks : List Prop) (ws : List Word) : Prop :=
  List.Forall₂ (fun mark w => mark → w.IsTruth) marks ws

/-- Code turns operands on top of the stack into others and keeps to a contract. -/
def Moves (m : CodeModule) (k : Contract) (fuel depth : Nat) (f : CompiledFunction) (labels : Nat)
    (before after : List Prop) (code : Code) : Prop :=
  ∀ ws stack slots memory, Marked before ws → k.slots f slots →
    Upholds m k fuel depth f labels code ⟨ws ++ stack, slots, memory⟩ fun s =>
      ∃ ws', Marked after ws' ∧ s.stack = ws' ++ stack

variable {m : CodeModule} {k : Contract} {fuel depth labels : Nat} {f : CompiledFunction}
  {before middle after : List Prop} {mark mark' : Prop}

/-! ### Sequences -/

lemma Marked.append_inv {marks marks' : List Prop} {ws : List Word}
    (h : Marked (marks ++ marks') ws) :
    ∃ top rest, ws = top ++ rest ∧ Marked marks top ∧ Marked marks' rest := by
  refine ⟨ws.take marks.length, ws.drop marks.length, (List.take_append_drop _ _).symm, ?_, ?_⟩
  · simpa [Marked] using List.forall₂_take marks.length h
  · simpa [Marked] using List.forall₂_drop marks.length h

lemma marked_singleton {w : Word} (h : mark → w.IsTruth) : Marked [mark] [w] :=
  .cons h .nil

lemma Marked.nil_inv {ws : List Word} (h : Marked [] ws) : ws = [] :=
  List.forall₂_nil_left_iff.mp h

lemma Marked.cons_inv {marks : List Prop} {ws : List Word} (h : Marked (mark :: marks) ws) :
    ∃ w rest, ws = w :: rest ∧ (mark → w.IsTruth) ∧ Marked marks rest := by
  obtain ⟨w, rest, hw, hrest, rfl⟩ := List.forall₂_cons_left_iff.mp h
  exact ⟨w, rest, rfl, hw, hrest⟩

lemma Marked.singleton_inv {ws : List Word} (h : Marked [mark] ws) :
    ∃ w, ws = [w] ∧ (mark → w.IsTruth) := by
  obtain ⟨w, rest, rfl, hw, hrest⟩ := h.cons_inv
  exact ⟨w, by rw [hrest.nil_inv], hw⟩

lemma moves_nil : Moves m k fuel depth f labels before before [] :=
  fun _ _ _ _ hws hslots => upholds_nil hslots ⟨_, hws, rfl⟩

lemma Moves.append {c c' : Code} (h : Moves m k fuel depth f labels before middle c)
    (h' : Moves m k fuel depth f labels middle after c') :
    Moves m k fuel depth f labels before after (c ++ c') := by
  intro ws stack slots memory hws hslots
  refine (h _ _ _ _ hws hslots).append fun s hslots' hs => ?_
  obtain ⟨stack', slots', memory'⟩ := s
  obtain ⟨ws', hws', rfl⟩ := hs
  exact h' _ _ _ _ hws' hslots'

/-- Operands further below stay as they are. -/
lemma Moves.above {c : Code} (h : Moves m k fuel depth f labels before after c)
    (below : List Prop) : Moves m k fuel depth f labels (before ++ below) (after ++ below) c := by
  intro ws stack slots memory hws hslots
  obtain ⟨top, rest, rfl, htop, hrest⟩ := hws.append_inv
  rw [List.append_assoc]
  refine (h _ _ _ _ htop hslots).mono ?_
  rintro s ⟨ws', hws', hs⟩
  exact ⟨ws' ++ rest, List.rel_append hws' hrest, by rw [hs, List.append_assoc]⟩

/-- Fewer operands need be truth values in the end. -/
lemma Moves.weaken {c : Code} (h : Moves m k fuel depth f labels before [mark] c)
    (hmark : mark' → mark) : Moves m k fuel depth f labels before [mark'] c := by
  intro ws stack slots memory hws hslots
  refine (h _ _ _ _ hws hslots).mono ?_
  rintro s ⟨ws', hws', hs⟩
  obtain ⟨w, rfl, hw⟩ := hws'.singleton_inv
  exact ⟨[w], marked_singleton fun hm => hw (hmark hm), hs⟩

/-! ### Operations -/

lemma intOp_isTruth {o : IntOp} {a b n : Int32} (ho : givesTruth (.int o) = true)
    (h : intOp o a b = .ok n) : (Word.i32 n).IsTruth := by
  cases o <;> first | (cases h; exact Word.isTruth_ite _) | cases ho

lemma floatOp_isTruth {o : FloatOp} (ho : givesTruth (.float o) = true) (x y : Double) :
    (floatOp o x y).IsTruth := by
  cases o <;> first | exact Word.isTruth_ite _ | cases ho

/-- An operation that makes one word replaces its operands by it. -/
lemma plain_gives {op : Op} {stack rest : List Word} {slots : Array Word} {memory : Memory}
    (hop : operands? op = some stack.length) (hslots : k.slots f slots) :
    (plain op ⟨stack ++ rest, slots, memory⟩).Upholds k f labels fun s =>
      ∃ w, (givesTruth op = true → w.IsTruth) ∧ s.stack = w :: rest := by
  rcases stack with _ | ⟨b, _ | ⟨a, _ | ⟨_, _⟩⟩⟩
  · cases op with
    | i32Const n =>
        refine ⟨hslots, _, fun htruth => ?_, rfl⟩
        rcases of_decide_eq_true htruth with rfl | rfl
        · exact .inl rfl
        · exact .inr rfl
    | f64Const x => exact ⟨hslots, _, nofun, rfl⟩
    | _ => cases hop
  · cases op with
    | i32Eqz =>
        cases b with
        | i32 n => exact ⟨hslots, _, fun _ => Word.isTruth_ite _, rfl⟩
        | f64 x => trivial
    | f64Neg =>
        cases b with
        | i32 n => trivial
        | f64 x => exact ⟨hslots, _, nofun, rfl⟩
    | f64ConvertI32 =>
        cases b with
        | i32 n => exact ⟨hslots, _, nofun, rfl⟩
        | f64 x => trivial
    | i32TruncSatF64 =>
        cases b with
        | i32 n => trivial
        | f64 x => exact ⟨hslots, _, nofun, rfl⟩
    | load t =>
        cases b with
        | f64 x => trivial
        | i32 n =>
            rw [List.singleton_append]
            cases hload : memory.load? t (addressOf n) with
            | none =>
                rw [plain_load_outOfBounds hload]
                trivial
            | some w =>
                rw [plain_load hload]
                exact ⟨hslots, _, nofun, rfl⟩
    | _ => cases hop
  · cases op with
    | int o =>
        cases a <;> cases b <;> try trivial
        rename_i a b
        rw [List.cons_append, List.singleton_append, plain_int]
        cases hresult : intOp o a b with
        | ok n => exact ⟨hslots, _, fun htruth => intOp_isTruth htruth hresult, rfl⟩
        | error trap => trivial
    | float o =>
        cases a <;> cases b <;> try trivial
        exact ⟨hslots, _, fun htruth => floatOp_isTruth htruth _ _, rfl⟩
    | _ => cases hop
  · cases op <;> cases hop

/-- Operations that make one word. -/
lemma moves_gives {op : Op} (hop : operands? op = some before.length)
    (hmark : mark → givesTruth op = true) :
    Moves m k fuel depth f labels before [mark] (Lowering.plain [op]) := by
  intro ws stack slots memory hws hslots
  have hlength : before.length = ws.length := List.Forall₂.length_eq hws
  rw [hlength] at hop
  have hcall : isCall op = false := by
    cases op with
    | call => cases hop
    | _ => rfl
  refine upholds_op hcall hslots ((plain_gives hop hslots).mono ?_)
  rintro s ⟨w, hw, hs⟩
  exact ⟨[w], marked_singleton fun hm => hw (hmark hm), hs⟩

/-- A choice between two words. -/
lemma moves_select {condition : Prop} :
    Moves m k fuel depth f labels [condition, mark, mark'] [mark ∧ mark']
      (Lowering.plain [.select]) := by
  intro ws stack slots memory hws hslots
  obtain ⟨c, _, rfl, _, hws⟩ := hws.cons_inv
  obtain ⟨b, _, rfl, hb, hws⟩ := hws.cons_inv
  obtain ⟨a, rfl, ha⟩ := hws.singleton_inv
  refine upholds_op rfl hslots ?_
  cases c with
  | f64 x => trivial
  | i32 c =>
      refine ⟨hslots, [_], marked_singleton ?_, rfl⟩
      rintro ⟨hm, hm'⟩
      split
      · exact hb hm
      · exact ha hm'

/-- A variable is read. -/
lemma moves_localGet {slot : Nat}
    (h : mark → ∀ {slots : Array Word}, k.slots f slots → ∀ w ∈ slots[slot]?, w.IsTruth) :
    Moves m k fuel depth f labels [] [mark] (Lowering.plain [.localGet slot]) := by
  intro ws stack slots memory hws hslots
  obtain rfl := hws.nil_inv
  refine upholds_op rfl hslots ?_
  rw [plain.eq_def]
  dsimp only
  cases hslot : slots[slot]? with
  | none => trivial
  | some w => exact ⟨hslots, [w], marked_singleton fun hm => h hm hslots w hslot, rfl⟩

section

variable {slot : Nat} (h : ∀ {slots : Array Word} {w : Word}, k.slots f slots →
  (mark → w.IsTruth) → k.slots f (slots.setIfInBounds slot w))

include h

/-- A variable is written. -/
lemma moves_localSet :
    Moves m k fuel depth f labels [mark] [] (Lowering.plain [.localSet slot]) := by
  intro ws stack slots memory hws hslots
  obtain ⟨w, rfl, hw⟩ := hws.singleton_inv
  refine upholds_op rfl hslots ?_
  show (if slot < slots.size then _ else _ : Outcome).Upholds k f labels _
  split
  · exact ⟨h hslots hw, [], .nil, rfl⟩
  · trivial

/-- A variable is written, and the word stays. -/
lemma moves_localTee :
    Moves m k fuel depth f labels [mark] [mark] (Lowering.plain [.localTee slot]) := by
  intro ws stack slots memory hws hslots
  obtain ⟨w, rfl, hw⟩ := hws.singleton_inv
  refine upholds_op rfl hslots ?_
  show (if slot < slots.size then _ else _ : Outcome).Upholds k f labels _
  split
  · exact ⟨h hslots hw, [w], marked_singleton hw, rfl⟩
  · trivial

end

/-- A word is stored. -/
lemma moves_store {t : WordType} :
    Moves m k fuel depth f labels [mark, mark'] [] (Lowering.plain [.store t]) := by
  intro ws stack slots memory hws hslots
  obtain ⟨w, _, rfl, _, hws⟩ := hws.cons_inv
  obtain ⟨a, rfl, _⟩ := hws.singleton_inv
  refine upholds_op rfl hslots ?_
  cases a with
  | f64 x => trivial
  | i32 a =>
      show (if w.type = t then
        if memory.holds (addressOf a) t.width then .next _ else .trapped .outOfBounds memory
        else .stuck : Outcome).Upholds k f labels _
      split
      · split
        · exact ⟨hslots, [], .nil, rfl⟩
        · trivial
      · trivial

/-- A word is dropped. -/
lemma moves_drop : Moves m k fuel depth f labels [mark] [] (Lowering.plain [.drop]) := by
  intro ws stack slots memory hws hslots
  obtain ⟨w, rfl, _⟩ := hws.singleton_inv
  exact upholds_op rfl hslots ⟨hslots, [], .nil, rfl⟩

/-- The function is left with a result. -/
lemma moves_ret (h : ∀ w : Word, (mark → w.IsTruth) → k.result f w) :
    Moves m k fuel depth f labels [mark] after (Lowering.plain [.ret]) := by
  intro ws stack slots memory hws hslots
  obtain ⟨w, rfl, hw⟩ := hws.singleton_inv
  exact upholds_op rfl hslots (h w hw)

/-- A block is left. -/
lemma moves_br {target : Nat} (h : target < labels) :
    Moves m k fuel depth f labels before after (Lowering.plain [.br target]) :=
  fun _ _ _ _ _ hslots => upholds_op rfl hslots ⟨h, hslots⟩

/-- A block is left under a condition. -/
lemma moves_brIf {target : Nat} (h : target < labels) :
    Moves m k fuel depth f labels [mark] [] (Lowering.plain [.brIf target]) := by
  intro ws stack slots memory hws hslots
  obtain ⟨w, rfl, _⟩ := hws.singleton_inv
  refine upholds_op rfl hslots ?_
  cases w with
  | f64 x => trivial
  | i32 c =>
      rw [List.singleton_append, plain_brIf]
      split
      · exact ⟨hslots, [], .nil, rfl⟩
      · exact ⟨h, hslots⟩

/-! ### Blocks -/

section

variable {body : Code}

lemma moves_block (h : Moves m k fuel depth f (labels + 1) [] [] body) :
    Moves m k fuel depth f labels [] [] [.block body] := by
  intro ws stack slots memory hws hslots
  obtain rfl := hws.nil_inv
  exact upholds_block hslots (h _ _ _ _ .nil hslots) fun _ _ => ⟨[], .nil, rfl⟩

lemma moves_choice {other : Option Code} (h : Moves m k fuel depth f (labels + 1) [] [] body)
    (h' : ∀ c, other = some c → Moves m k fuel depth f (labels + 1) [] [] c) :
    Moves m k fuel depth f labels [mark] [] [.choice body other] := by
  intro ws stack slots memory hws hslots
  obtain ⟨w, rfl, _⟩ := hws.singleton_inv
  exact upholds_choice hslots (h _ _ _ _ .nil hslots) (fun c hc => h' c hc _ _ _ _ .nil hslots)
    fun _ _ => ⟨[], .nil, rfl⟩

lemma moves_loop (h : ∀ n ≤ fuel, Moves m k n depth f (labels + 1) [] [] body) :
    Moves m k fuel depth f labels [] [] [.loop body] := by
  intro ws stack slots memory hws hslots
  obtain rfl := hws.nil_inv
  exact upholds_loop (fun n hn _ _ hslots' => h n hn _ _ _ _ .nil hslots') le_rfl hslots
    fun _ _ => ⟨[], .nil, rfl⟩

end

end Machine

end ArrayScript
