import ArrayScript.Proofs.Lowering.Derivation
import ArrayScript.Proofs.Machine.Execution
import ArrayScript.Proofs.Semantics.Evaluation

/-!
The machine keeps up with an evaluation.

* `Runs o r post`: the outcome `o` of the machine answers the result `r` of an
  evaluation: both end in the same trap, or both run out of fuel, or `post` relates
  what was evaluated to `o`. An evaluation that is stuck is answered by nothing.
* `FallsThrough post`: the machine fell through to a state as `post` says.
* `Runs.andThen`: code after code answers evaluation after evaluation.
* `Holds`: slots hold the values of variables. `Frame`: slots of variables, and those
  that are held, did not change.

The values of conversions, tests and operators are compared here once and for all.
-/

namespace ArrayScript

open Machine Lowering Evaluation

/-! ### Outcomes and results -/

section

variable {α β : Type} {o : Outcome} {post : α → Memory → Outcome → Prop}

/-- The outcome of the machine answers the result of an evaluation. -/
def Runs (o : Outcome) (r : Except Halt (α × Memory)) (post : α → Memory → Outcome → Prop) :
    Prop :=
  match r with
  | .ok (a, memory) => post a memory o
  | .error (.trap t memory) => o = .trapped t memory
  | .error .outOfFuel => o = .outOfFuel
  | .error .stuck => False

/-- The machine fell through to a state as `post` says. -/
def FallsThrough (post : α → Memory → State → Prop) (a : α) (memory : Memory) (o : Outcome) :
    Prop :=
  ∃ s, o = .next s ∧ post a memory s

/-- What is made of an outcome answers what an evaluation goes on with, where traps and
the end of fuel are passed on. -/
lemma Runs.through {x : Eval α} {f : α → Eval β} {memory : Memory}
    {post' : β → Memory → Outcome → Prop} (after : Outcome → Outcome)
    (htrap : ∀ t memory, after (.trapped t memory) = .trapped t memory)
    (hfuel : after .outOfFuel = .outOfFuel) (hx : Runs o (x memory) post)
    (hf : ∀ a memory', post a memory' o → Runs (after o) (f a memory') post') :
    Runs (after o) ((x >>= f) memory) post' := by
  show Runs (after o) (Except.bind (x memory) fun p => f p.1 p.2) post'
  unfold Runs at hx
  split at hx
  · rename_i a memory' hr
    rw [hr]
    exact hf a memory' hx
  · rename_i hr
    rw [hr, hx, htrap]
    exact rfl
  · rename_i hr
    rw [hr, hx, hfuel]
    exact rfl
  · exact hx.elim

/-- Code after code answers evaluation after evaluation. -/
lemma Runs.andThen {x : Eval α} {f : α → Eval β} {k : State → Outcome} {memory : Memory}
    {mid : α → Memory → State → Prop} {post : β → Memory → Outcome → Prop}
    (hx : Runs o (x memory) (FallsThrough mid))
    (hf : ∀ a memory' s, mid a memory' s → Runs (k s) (f a memory') post) :
    Runs (o.andThen k) ((x >>= f) memory) post := by
  refine Runs.through (·.andThen k) (fun _ _ => rfl) rfl hx ?_
  rintro a memory' ⟨s, rfl, hmid⟩
  exact hf a memory' s hmid

/-- Code after code, where the second belongs to no evaluation of its own. -/
lemma Runs.andThen_next {r : Except Halt (α × Memory)} {k : State → Outcome}
    {mid post : α → Memory → State → Prop} (hx : Runs o r (FallsThrough mid))
    (hk : ∀ a memory s, mid a memory s → ∃ s', k s = .next s' ∧ post a memory s') :
    Runs (o.andThen k) r (FallsThrough post) := by
  unfold Runs at hx ⊢
  split at hx
  · obtain ⟨s, rfl, hmid⟩ := hx
    exact hk _ _ _ hmid
  · rw [hx]
    rfl
  · rw [hx]
    rfl
  · exact hx

lemma Runs.weaken {r : Except Halt (α × Memory)} {post' : α → Memory → Outcome → Prop}
    (h : Runs o r post) (hpost : ∀ a memory, post a memory o → post' a memory o) :
    Runs o r post' := by
  unfold Runs at h ⊢
  split at h
  · exact hpost _ _ h
  all_goals exact h

/-- An evaluation that only goes on with what it has. -/
lemma Runs.map {x : Eval α} {g : α → β} {memory : Memory} {post : β → Memory → Outcome → Prop}
    (hx : Runs o (x memory) fun a memory' o => post (g a) memory' o) :
    Runs o ((x >>= fun a => pure (g a)) memory) post := by
  show Runs o (Except.bind (x memory) fun p => .ok (g p.1, p.2)) post
  unfold Runs at hx
  split at hx
  all_goals
    rename_i hr
    rw [hr]
    exact hx

end

/-! ### Variables and slots -/

/-- The slots hold the values of the variables, which have the types found for them. -/
structure Holds (cx : LoweringContext) (size : Nat) (vars : Variables) (slots : Array Word) :
    Prop where
  size_eq : slots.size = size
  value : ∀ {name slot t}, IsVariable cx name slot t →
    slots[slot]? = some (vars name).word ∧ (vars name).type = t

/-- Slots of variables and those that are held did not change. -/
structure Frame (cx : LoweringContext) (held : List Nat) (slots slots' : Array Word) : Prop where
  size_eq : slots'.size = slots.size
  kept : ∀ k, k < cx.names.length ∨ k ∈ held → slots'[k]? = slots[k]?

variable {cx : LoweringContext} {size : Nat} {held : List Nat} {vars : Variables}
  {slots slots' slots'' : Array Word}

lemma Frame.refl (slots : Array Word) : Frame cx held slots slots :=
  ⟨rfl, fun _ _ => rfl⟩

lemma Frame.trans (h : Frame cx held slots slots') (h' : Frame cx held slots' slots'') :
    Frame cx held slots slots'' :=
  ⟨h'.size_eq.trans h.size_eq, fun k hk => (h'.kept k hk).trans (h.kept k hk)⟩

lemma Frame.mono {held' : List Nat} (h : Frame cx held' slots slots') (hsub : held ⊆ held') :
    Frame cx held slots slots' :=
  ⟨h.size_eq, fun k hk => h.kept k (hk.imp_right fun hmem => hsub hmem)⟩

/-- A scratch variable that is not held may be written. -/
lemma Frame.scratch {slot : Nat} (h : IsScratch cx size held slot) (slots : Array Word)
    (w : Word) : Frame cx held slots (slots.setIfInBounds slot w) := by
  refine ⟨Array.size_setIfInBounds, fun k hk => ?_⟩
  refine Array.getElem?_setIfInBounds_ne fun heq => ?_
  subst heq
  rcases hk with hlt | hmem
  · exact absurd h.le (by omega)
  · exact h.free hmem

/-- What is not written keeps the values of variables. -/
lemma Holds.frame (h : Holds cx size vars slots) (hframe : Frame cx held slots slots') :
    Holds cx size vars slots' where
  size_eq := hframe.size_eq.trans h.size_eq
  value hvariable := by
    rw [hframe.kept _ (.inl hvariable.slot_lt)]
    exact h.value hvariable

/-! ### Values on the stack -/

variable {m : CodeModule} {fuel depth : Nat} {stack : List Word} {memory : Memory}

/-- The machine is at the given operands with one more on top, which stands for a value
of the given type. -/
def Leaves (cx : LoweringContext) (held : List Nat) (stack : List Word) (slots : Array Word)
    (t : ValueType) (word : Datum → Word) (d : Datum) (memory : Memory) (s : State) : Prop :=
  d.type = t ∧ ∃ slots', s = ⟨word d :: stack, slots', memory⟩ ∧ Frame cx held slots slots'

/-- Code that replaces the word on top. -/
lemma Runs.replace {c c' : Code} {s : State} {r : Except Halt (Datum × Memory)} {t : ValueType}
    {word word' : Datum → Word}
    (h : Runs (exec m fuel depth c s) r (FallsThrough (Leaves cx held stack slots t word)))
    (hc : ∀ d slots' memory, d.type = t → exec m fuel depth c' ⟨word d :: stack, slots', memory⟩
      = .next ⟨word' d :: stack, slots', memory⟩) :
    Runs (exec m fuel depth (c ++ c') s) r
      (FallsThrough (Leaves cx held stack slots t word')) := by
  rw [exec_append]
  refine h.andThen_next ?_
  rintro d memory' _ ⟨htype, slots', rfl, hframe⟩
  exact ⟨_, hc d slots' memory' htype, htype, slots', rfl, hframe⟩

/-- Code that makes another value of the one on top. -/
lemma Runs.turn {c c' : Code} {s : State} {x : Eval Datum} {g : Datum → Datum} {t t' : ValueType}
    {word : Datum → Word} {stack' : List Word}
    (h : Runs (exec m fuel depth c s) (x memory)
      (FallsThrough (Leaves cx held stack' slots t word)))
    (hc : ∀ d slots' memory', d.type = t → (g d).type = t' ∧
      exec m fuel depth c' ⟨word d :: stack', slots', memory'⟩
        = .next ⟨(g d).word :: stack, slots', memory'⟩) :
    Runs (exec m fuel depth (c ++ c') s) ((x >>= fun d => pure (g d)) memory)
      (FallsThrough (Leaves cx held stack slots t' Datum.word)) := by
  rw [exec_append]
  refine h.andThen ?_
  rintro d memory' _ ⟨htype, slots', rfl, hframe⟩
  obtain ⟨htype', hexec⟩ := hc d slots' memory' htype
  exact ⟨_, hexec, htype', slots', rfl, hframe⟩

/-- The word of a test: it is zero exactly if the value is. -/
def Datum.condition : Datum → Int32
  | int n | boolean n | ints n | doubles n => n
  | double x => Machine.truth (!x.eq Double.zero)

lemma Datum.condition_ne_zero (d : Datum) : d.condition ≠ 0 ↔ d.isTrue = true := by
  cases d with
  | double x => cases h : x.eq Double.zero <;> simp [condition, isTrue, Machine.truth, h]
  | _ => simp [condition, isTrue]

lemma exec_isNonzeroDouble (x : Double) :
    exec m fuel depth isNonzeroDouble ⟨.f64 x :: stack, slots, memory⟩ =
      .next ⟨.i32 (Machine.truth (!x.eq Double.zero)) :: stack, slots, memory⟩ := by
  rw [isNonzeroDouble, exec_plain rfl]
  rfl

/-- Converting a word brings its value to a type. -/
lemma exec_convert (d : Datum) (t : ValueType) :
    exec m fuel depth (convert d.type t) ⟨d.word :: stack, slots, memory⟩ =
      .next ⟨(d.coerce t).word :: stack, slots, memory⟩ := by
  cases d <;> cases t <;>
    first
    | exact exec_nil
    | exact exec_isNonzeroDouble _
    | exact exec_plain rfl

/-- The end of the code of a condition. -/
def conditionTest (t : ValueType) : Code :=
  if t.isFloat then isNonzeroDouble else []

lemma exec_conditionTest (d : Datum) :
    exec m fuel depth (conditionTest d.type) ⟨d.word :: stack, slots, memory⟩ =
      .next ⟨.i32 d.condition :: stack, slots, memory⟩ := by
  cases d with
  | double x => exact exec_isNonzeroDouble x
  | _ => exact exec_nil

/-- The end of the code of a truth value. -/
def truthTest : ValueType → Code
  | .boolean => []
  | .float64 => isNonzeroDouble
  | _ => Lowering.plain [.i32Const 0, .int .ne]

lemma exec_truthTest (d : Datum) :
    exec m fuel depth (truthTest d.type) ⟨d.word :: stack, slots, memory⟩ =
      .next ⟨.i32 d.truth :: stack, slots, memory⟩ := by
  cases d with
  | boolean n => exact exec_nil
  | double x => exact exec_isNonzeroDouble x
  | _ =>
      rw [Datum.type, truthTest, exec_plain rfl] <;>
        simp [plainAll, plain_i32Const, plain_int, intOp, Datum.word, Datum.truth, Datum.isTrue,
          Machine.truth]

lemma Runs.as {x : Operand} {s : State} {r : Except Halt (Datum × Memory)} (t : ValueType)
    (h : Runs (exec m fuel depth x.code s) r
      (FallsThrough (Leaves cx held stack slots x.type Datum.word))) :
    Runs (exec m fuel depth (x.as t) s) r
      (FallsThrough (Leaves cx held stack slots x.type fun d => (d.coerce t).word)) := by
  refine h.replace fun d slots' memory htype => ?_
  rw [← htype]
  exact exec_convert d t

lemma Runs.condition {x : Operand} {s : State} {r : Except Halt (Datum × Memory)}
    (h : Runs (exec m fuel depth x.code s) r
      (FallsThrough (Leaves cx held stack slots x.type Datum.word))) :
    Runs (exec m fuel depth x.condition s) r
      (FallsThrough (Leaves cx held stack slots x.type fun d => .i32 d.condition)) := by
  have hcode : x.condition = x.code ++ conditionTest x.type := by
    rw [Operand.condition, conditionTest]
    split <;> simp
  rw [hcode]
  refine h.replace fun d slots' memory htype => ?_
  rw [← htype]
  exact exec_conditionTest d

lemma Runs.truth {x : Operand} {s : State} {r : Except Halt (Datum × Memory)}
    (h : Runs (exec m fuel depth x.code s) r
      (FallsThrough (Leaves cx held stack slots x.type Datum.word))) :
    Runs (exec m fuel depth x.truth s) r
      (FallsThrough (Leaves cx held stack slots x.type fun d => .i32 d.truth)) := by
  have hcode : x.truth = x.code ++ truthTest x.type := by
    obtain ⟨code, t⟩ := x
    cases t <;> simp [Operand.truth, truthTest]
  rw [hcode]
  refine h.replace fun d slots' memory htype => ?_
  rw [← htype]
  exact exec_truthTest d

/-! ### Operators -/

/-- The machine is at the given operands with one more on top and changed nothing
else. -/
def Gives (stack : List Word) (slots : Array Word) (memory : Memory) (t : ValueType) (d : Datum)
    (memory' : Memory) (s : State) : Prop :=
  d.type = t ∧ s = ⟨d.word :: stack, slots, memory⟩ ∧ memory' = memory

/-- The instruction of an operator between integers. -/
lemma intOperation_runs {op : BinaryOp} {i : Op} {t : ValueType}
    (h : instruction op false = .ok (i, t)) (a b : Int32) :
    Runs (exec m fuel depth (Lowering.plain [i]) ⟨.i32 b :: .i32 a :: stack, slots, memory⟩)
      (intOperation op a b memory) (FallsThrough (Gives stack slots memory t)) := by
  cases op <;> cases h <;> rw [exec_op rfl]
  case div =>
      simp only [plain_int, intOp, intOperation]
      by_cases hzero : b = 0
      · simp only [if_pos hzero]
        exact rfl
      · by_cases hmin : a = Int32.minValue ∧ b = -1
        · simp only [if_neg hzero, if_pos hmin]
          exact rfl
        · simp only [if_neg hzero, if_neg hmin]
          exact ⟨_, rfl, rfl, rfl, rfl⟩
  case rem =>
      simp only [plain_int, intOp, intOperation]
      by_cases hzero : b = 0
      · simp only [if_pos hzero]
        exact rfl
      · simp only [if_neg hzero]
        exact ⟨_, rfl, rfl, rfl, rfl⟩
  all_goals exact ⟨_, rfl, rfl, rfl, rfl⟩

/-- The instruction of an operator between doubles. -/
lemma doubleOperation_runs {op : BinaryOp} {i : Op} {t : ValueType}
    (h : instruction op true = .ok (i, t)) (x y : Double) :
    Runs (exec m fuel depth (Lowering.plain [i]) ⟨.f64 y :: .f64 x :: stack, slots, memory⟩)
      (doubleOperation op x y memory) (FallsThrough (Gives stack slots memory t)) := by
  cases op <;> cases h <;> rw [exec_plain rfl] <;> exact ⟨_, rfl, rfl, rfl, rfl⟩

/-- The instruction of an operator, on operands that were brought to its type. -/
lemma operate_runs {op : BinaryOp} {i : Op} {t : ValueType} {x y : Datum}
    (h : instruction op (x.type.isFloat || y.type.isFloat) = .ok (i, t)) :
    Runs (exec m fuel depth (Lowering.plain [i])
        ⟨(y.coerce (operandType (x.type.isFloat || y.type.isFloat))).word ::
          (x.coerce (operandType (x.type.isFloat || y.type.isFloat))).word :: stack,
          slots, memory⟩)
      (operate op x y memory) (FallsThrough (Gives stack slots memory t)) := by
  rw [operate]
  cases hfloat : (x.type.isFloat || y.type.isFloat) with
  | true =>
      rw [hfloat] at h
      exact doubleOperation_runs h x.toDouble y.toDouble
  | false =>
      rw [hfloat] at h
      exact intOperation_runs h x.toInt32 y.toInt32

end ArrayScript
