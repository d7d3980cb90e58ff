import Mathlib.Tactic
import ArrayScript.Lowering.Selection
import ArrayScript.Machine.Run

/-!
How the machine follows code.

`exec_append` takes code apart: what comes second runs only if what comes first falls
through. `exec_plain` runs plain operations one after the other, `instr_block` and
`instr_choice` enter blocks, and `instr_loop` unfolds one round of a loop.
-/

namespace ArrayScript.Machine

variable {m : CodeModule} {fuel depth : Nat} {s : State}

/-- Goes on where code falls through. -/
def Outcome.andThen (o : Outcome) (k : State → Outcome) : Outcome :=
  match o with
  | .next s => k s
  | o => o

@[simp] lemma Outcome.andThen_next (s : State) (k : State → Outcome) :
    (Outcome.next s).andThen k = k s := rfl

/-- Three runs in a row are put together either way. -/
lemma Outcome.andThen_assoc (o : Outcome) (k k' : State → Outcome) :
    (o.andThen k).andThen k' = o.andThen fun s => (k s).andThen k' := by
  cases o <;> rfl

/-! ### Sequences -/

@[simp] lemma exec_nil : exec m fuel depth [] s = .next s := by
  rw [exec]

/-- Code runs its first instruction, and the others if that comes to its end. -/
lemma exec_cons (i : Instr) (rest : Code) :
    exec m fuel depth (i :: rest) s =
      (instr m fuel depth i s).andThen (exec m fuel depth rest) := by
  rw [exec]
  cases instr m fuel depth i s <;> rfl

lemma exec_singleton (i : Instr) : exec m fuel depth [i] s = instr m fuel depth i s := by
  rw [exec_cons]
  cases instr m fuel depth i s <;> simp [Outcome.andThen]

/-- What comes second runs if what comes first falls through. -/
lemma exec_append (c c' : Code) :
    exec m fuel depth (c ++ c') s =
      (exec m fuel depth c s).andThen (exec m fuel depth c') := by
  induction c generalizing s with
  | nil => simp
  | cons i rest ih =>
      rw [List.cons_append, exec_cons, exec_cons, Outcome.andThen_assoc]
      congr 1
      funext s'
      exact ih

/-! ### Plain operations -/

/-- Whether an operation is a call. -/
def isCall : Op → Bool
  | .call _ => true
  | _ => false

/-- An operation other than a call needs neither fuel nor the module. -/
lemma instr_plain {op : Op} (h : isCall op = false) :
    instr m fuel depth (.plain op) s = plain op s := by
  rw [instr.eq_def]
  cases op with
  | call => cases h
  | _ => rfl

/-- Runs plain operations one after the other. -/
def plainAll : List Op → State → Outcome
  | [], s => .next s
  | op :: rest, s => (plain op s).andThen (plainAll rest)

/-- So do operations one after another. -/
lemma exec_plain {ops : List Op} (h : ops.all (!isCall ·) = true) :
    exec m fuel depth (Lowering.plain ops) s = plainAll ops s := by
  induction ops generalizing s with
  | nil => exact exec_nil
  | cons op rest ih =>
      rw [List.all_cons, Bool.and_eq_true, Bool.not_eq_true'] at h
      rw [Lowering.plain, List.map_cons, exec_cons, instr_plain h.1, plainAll]
      congr 1
      funext s'
      exact ih h.2

lemma exec_op {op : Op} (h : isCall op = false) :
    exec m fuel depth (Lowering.plain [op]) s = plain op s := by
  rw [Lowering.plain, List.map_singleton, exec_singleton, instr_plain h]

section

variable {stack : List Word} {slots : Array Word} {memory : Memory}

/-- Two integers are replaced by the result, or the machine traps. -/
lemma plain_int (op : IntOp) (a b : Int32) :
    plain (.int op) ⟨.i32 b :: .i32 a :: stack, slots, memory⟩ =
      match intOp op a b with
      | .ok n => .next ⟨.i32 n :: stack, slots, memory⟩
      | .error trap => .trapped trap memory := rfl

lemma plain_i32Const (n : Int32) :
    plain (.i32Const n) ⟨stack, slots, memory⟩ = .next ⟨.i32 n :: stack, slots, memory⟩ := rfl

lemma plain_i32Eqz (n : Int32) :
    plain .i32Eqz ⟨.i32 n :: stack, slots, memory⟩ =
      .next ⟨.ofBool (n = 0) :: stack, slots, memory⟩ := rfl

/-- Of two words the first stays if the condition is not zero. -/
lemma plain_select (c : Int32) (a b : Word) :
    plain .select ⟨.i32 c :: b :: a :: stack, slots, memory⟩ =
      .next ⟨(if c = 0 then b else a) :: stack, slots, memory⟩ := rfl

/-- A slot that is there is read. -/
lemma plain_localGet {slot : Nat} {w : Word} (h : slots[slot]? = some w) :
    plain (.localGet slot) ⟨stack, slots, memory⟩ = .next ⟨w :: stack, slots, memory⟩ := by
  rw [plain.eq_def]
  dsimp only
  rw [h]

/-- A slot that is there is written, and the word is taken. -/
lemma plain_localSet {slot : Nat} (h : slot < slots.size) (w : Word) :
    plain (.localSet slot) ⟨w :: stack, slots, memory⟩ =
      .next ⟨stack, slots.setIfInBounds slot w, memory⟩ :=
  if_pos h

/-- A slot that is there is written, and the word stays. -/
lemma plain_localTee {slot : Nat} (h : slot < slots.size) (w : Word) :
    plain (.localTee slot) ⟨w :: stack, slots, memory⟩ =
      .next ⟨w :: stack, slots.setIfInBounds slot w, memory⟩ :=
  if_pos h

/-- A word inside memory is read. -/
lemma plain_load {t : WordType} {a : Int32} {w : Word}
    (h : memory.load? t (addressOf a) = some w) :
    plain (.load t) ⟨.i32 a :: stack, slots, memory⟩ = .next ⟨w :: stack, slots, memory⟩ := by
  rw [plain.eq_def]
  dsimp only
  rw [h]

/-- Reading past the end of memory traps. -/
lemma plain_load_outOfBounds {t : WordType} {a : Int32}
    (h : memory.load? t (addressOf a) = none) :
    plain (.load t) ⟨.i32 a :: stack, slots, memory⟩ = .trapped .outOfBounds memory := by
  rw [plain.eq_def]
  dsimp only
  rw [h]

/-- A word is written inside memory; past its end the machine traps and memory stays. -/
lemma plain_store (w : Word) (a : Int32) :
    plain (.store w.type) ⟨w :: .i32 a :: stack, slots, memory⟩ =
      if memory.holds (addressOf a) w.type.width then
        .next ⟨stack, slots, memory.store (addressOf a) w⟩
      else .trapped .outOfBounds memory :=
  if_pos rfl

/-- A branch is taken if the condition is not zero. -/
lemma plain_brIf (depth : Nat) (c : Int32) :
    plain (.brIf depth) ⟨.i32 c :: stack, slots, memory⟩ =
      if c = 0 then .next ⟨stack, slots, memory⟩ else .branch depth ⟨stack, slots, memory⟩ := rfl

end

/-! ### Blocks -/

/-- A block runs its body on a stack of its own. -/
lemma instr_block (body : Code) (stack : List Word) (slots : Array Word) (memory : Memory) :
    instr m fuel depth (.block body) ⟨stack, slots, memory⟩ =
      leave stack (exec m fuel depth body ⟨[], slots, memory⟩) := by
  rw [instr]

/-- One of the two branches runs on a stack of its own; a missing one is empty. -/
lemma instr_choice (consequent : Code) (alternate : Option Code) (c : Int32)
    (stack : List Word) (slots : Array Word) (memory : Memory) :
    instr m fuel depth (.choice consequent alternate) ⟨.i32 c :: stack, slots, memory⟩ =
      if c ≠ 0 then leave stack (exec m fuel depth consequent ⟨[], slots, memory⟩)
      else leave stack (exec m fuel depth (alternate.getD []) ⟨[], slots, memory⟩) := by
  rw [instr.eq_def]
  cases alternate with
  | none => rw [Option.getD_none, exec_nil]; rfl
  | some body => rfl

/-- What follows a branch back to the start of a loop. -/
def nextRound (m : CodeModule) (fuel depth : Nat) (body : Code) (s : State) : Outcome :=
  match fuel with
  | 0 => .outOfFuel
  | fuel + 1 => instr m fuel depth (.loop body) s

/-- What follows the body of a loop: a branch to its label starts it again. -/
def afterRound (next : State → Outcome) (stack : List Word) : Outcome → Outcome
  | .branch 0 ⟨_, slots, memory⟩ => next ⟨stack, slots, memory⟩
  | outcome => leave stack outcome

/-- One round of a loop and what follows it. -/
lemma instr_loop (body : Code) (stack : List Word) (slots : Array Word) (memory : Memory) :
    instr m fuel depth (.loop body) ⟨stack, slots, memory⟩ =
      afterRound (nextRound m fuel depth body) stack
        (exec m fuel depth body ⟨[], slots, memory⟩) := by
  rw [instr]
  cases exec m fuel depth body ⟨[], slots, memory⟩ with
  | branch k s => cases k <;> cases fuel <;> rfl
  | _ => rfl

/-- A call runs the function on the operands it takes. -/
lemma instr_call {index : Nat} {f : CompiledFunction} {arguments stack : List Word}
    {slots : Array Word} {memory : Memory} (hf : m.functions[index]? = some f)
    (hlength : arguments.length = f.params.length) :
    instr m fuel depth (.plain (.call index)) ⟨arguments.reverse ++ stack, slots, memory⟩ =
      match fuel with
      | 0 => .outOfFuel
      | fuel + 1 => resume stack slots (invoke m fuel depth f arguments memory) := by
  rw [instr.eq_def]
  simp only [hf]
  have hlength' : arguments.reverse.length = f.params.length := by simpa using hlength
  split
  · rfl
  · rw [← hlength', List.take_left, List.drop_left, List.reverse_reverse, hlength', if_pos hlength]

end ArrayScript.Machine
