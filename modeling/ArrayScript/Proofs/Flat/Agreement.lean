import ArrayScript.Proofs.Flat.Discipline
import ArrayScript.Proofs.Lowering.Operations

/-!
An emitter emits what lowering builds.

* `Mirrors y x s post`: an emitting computation `y`, started in `s`, does what the lowering
  computation `x` does. They fail for the same reason or use the same scratch variables.
* `Wrote code pushed s s'`: between two states a flat form of `code` was appended, and types
  were put on the stack.
* `expression_mirrors`, `statement_mirrors`: emitting an expression or a statement mirrors
  lowering it.
* `generate_ofLowering`: so an emitter makes of a function the flat form of what lowering
  makes of it.
-/

namespace ArrayScript.Flat

open Lowering (Lower Operand plain)
open Code (listingList_append listingList_plain)

variable {α β γ δ : Type} {cx : LoweringContext}

/-! ### Two computations side by side -/

/-- An emitting computation, started in `s`, does what a lowering computation does. -/
def Mirrors (y : Emit β) (x : Lower α) (s : Emitter) (post : α → β → Emitter → Prop) : Prop :=
  match x s.scratch with
  | .ok (a, scratch) => ∃ b s', y s = .ok (b, s') ∧ s'.scratch = scratch ∧ post a b s'
  | .error e => y s = .error (.program e)

namespace Mirrors

variable {y : Emit β} {x : Lower α} {f : α → Lower γ} {g : β → Emit δ} {s s' : Emitter}
  {mid : α → β → Emitter → Prop} {post : γ → δ → Emitter → Prop}

/-- Both return. -/
lemma pure {a : α} {b : β} (h : mid a b s) : Mirrors (Pure.pure b) (Pure.pure a) s mid :=
  ⟨b, s, rfl, rfl, h⟩

/-- Both go on, from results that belong together. -/
lemma bind (h : Mirrors y x s mid) (hf : ∀ a b s', mid a b s' → Mirrors (g b) (f a) s' post) :
    Mirrors (y >>= g) (x >>= f) s post := by
  rw [Mirrors] at h
  show match Except.bind (x s.scratch) fun (a, scratch) => f a scratch with
    | .ok (c, scratch) => ∃ d s', Except.bind (y s) (fun (b, s') => g b s') = .ok (d, s') ∧
      s'.scratch = scratch ∧ post c d s'
    | .error e => Except.bind (y s) (fun (b, s') => g b s') = .error (.program e)
  cases hx : x s.scratch with
  | ok p =>
      obtain ⟨a, scratch⟩ := p
      rw [hx] at h
      obtain ⟨b, s', hy, rfl, hmid⟩ := h
      rw [hy]
      exact hf a b s' hmid
  | error e =>
      rw [hx] at h
      rw [h]
      rfl

/-- Less may be said of the results. -/
lemma weaken {post : α → β → Emitter → Prop} (h : Mirrors y x s mid)
    (hpost : ∀ a b s', mid a b s' → post a b s') : Mirrors y x s post := by
  rw [Mirrors] at h ⊢
  split at h
  · obtain ⟨b, s', hy, hscratch, hmid⟩ := h
    exact ⟨b, s', hy, hscratch, hpost _ _ _ hmid⟩
  · exact h

/-- A step of the emitter alone. -/
lemma step {b : β} {post : α → δ → Emitter → Prop} (h : Mirrors (g b) x s' post)
    (hy : y s = .ok (b, s')) (hscratch : s'.scratch = s.scratch) :
    Mirrors (y >>= g) x s post := by
  have hg : (y >>= g) s = g b s' := by
    show Except.bind (y s) _ = _
    rw [hy]
    rfl
  rw [Mirrors, hscratch] at h
  rw [Mirrors, hg]
  exact h

/-- What the emitter does last, and lowering does not. -/
lemma last {post : α → δ → Emitter → Prop} (h : Mirrors y x s mid)
    (hg : ∀ a b s', mid a b s' → ∃ d s'', g b s' = .ok (d, s'') ∧ s''.scratch = s'.scratch ∧
      post a d s'') : Mirrors (y >>= g) x s post := by
  rw [← bind_pure x]
  refine h.bind fun a b s' hmid => ?_
  obtain ⟨d, s'', hg, hscratch, hpost⟩ := hg a b s' hmid
  exact ⟨d, s'', hg, hscratch, hpost⟩

/-- Lowering may return last what it has. -/
lemma of_bind_pure {post : α → β → Emitter → Prop} (h : Mirrors y (x >>= Pure.pure) s post) :
    Mirrors y x s post := by
  rwa [bind_pure] at h

/-- Both make the same look-up: if it fails, it fails for both. -/
lemma attempt_bind {ε : Except CompileError α} {g : α → Emit δ}
    (h : ∀ a, ε = .ok a → Mirrors (g a) (f a) s post) :
    Mirrors (attempt ε >>= g) (liftM ε >>= f) s post := by
  cases ε with
  | ok a => exact h a rfl
  | error e => exact rfl

/-- Both fail. -/
lemma fails {e : CompileError} {mid : α → β → Emitter → Prop} :
    Mirrors (attempt (.error e)) (throw e : Lower α) s mid :=
  rfl

end Mirrors

/-! ### What was written -/

/-- Between two states the flat form of some code was appended, and types were put on the
stack. -/
structure Wrote (code : Code) (pushed : List ValueType) (s s' : Emitter) : Prop where
  marks : s'.marks = s.marks ++ Instr.listingList code
  stack : s'.stack = pushed ++ s.stack
  control : s'.control = s.control

namespace Wrote

variable {code code' : Code} {pushed pushed' : List ValueType} {s s' s'' : Emitter}

/-- Nothing was written. -/
lemma same (hmarks : s'.marks = s.marks) (hstack : s'.stack = s.stack)
    (hcontrol : s'.control = s.control) : Wrote [] [] s s' :=
  ⟨by rw [hmarks, Instr.listingList, List.append_nil], hstack, hcontrol⟩

/-- Nothing was written. -/
lemma nil (s : Emitter) : Wrote [] [] s s :=
  same rfl rfl rfl

/-- Code was written behind code, and operands were pushed above operands. -/
lemma trans (h : Wrote code pushed s s') (h' : Wrote code' pushed' s' s'') :
    Wrote (code ++ code') (pushed' ++ pushed) s s'' := by
  refine ⟨?_, ?_, h'.control.trans h.control⟩
  · rw [h'.marks, h.marks, listingList_append, List.append_assoc]
  · rw [h'.stack, h.stack, List.append_assoc]

lemma eq {d : Code} {p : List ValueType} (h : Wrote code pushed s s') (hcode : code = d)
    (hpushed : pushed = p) : Wrote d p s s' :=
  hcode ▸ hpushed ▸ h

end Wrote

/-! ### Steps of the emitter -/

section Steps

variable {code : Code} {pushed : List ValueType} {s₀ s : Emitter} {x : Lower α}
  {post : α → δ → Emitter → Prop} {t : ValueType} {op : Op}

/-- The emitter writes an operation. -/
lemma emit_then {g : Unit → Emit δ} (h : Wrote code pushed s₀ s)
    (hg : ∀ s, Wrote (code ++ plain [op]) pushed s₀ s → Mirrors (g ()) x s post) :
    Mirrors (emit (.op op) >>= g) x s post := by
  refine .step (hg { s with marks := s.marks ++ [.op op] } ⟨?_, h.stack, h.control⟩) rfl rfl
  show s.marks ++ [.op op] = _
  rw [h.marks, listingList_append, listingList_plain, List.append_assoc]
  rfl

/-- The emitter notes that there is one more operand. -/
lemma push_then {g : Unit → Emit δ} (h : Wrote code pushed s₀ s)
    (hg : ∀ s, Wrote code (t :: pushed) s₀ s → Mirrors (g ()) x s post) :
    Mirrors (push t >>= g) x s post :=
  .step (hg { s with stack := t :: s.stack } ⟨h.marks, congrArg (t :: ·) h.stack, h.control⟩)
    rfl rfl

/-- The emitter notes that the top operand was taken. -/
lemma pop_then {g : ValueType → Emit δ} (h : Wrote code (t :: pushed) s₀ s)
    (hg : ∀ s, Wrote code pushed s₀ s → Mirrors (g t) x s post) :
    Mirrors (pop >>= g) x s post := by
  refine .step (hg { s with stack := pushed ++ s₀.stack } ⟨h.marks, rfl, h.control⟩) ?_ rfl
  rw [pop, h.stack]
  rfl

/-- The emitter looks at the type of the top operand. -/
lemma top_then {g : ValueType → Emit δ} (h : Wrote code (t :: pushed) s₀ s)
    (hg : Mirrors (g t) x s post) : Mirrors (top >>= g) x s post := by
  refine .step hg ?_ rfl
  rw [top, h.stack]
  rfl

lemma top_last {a : α} {post : α → ValueType → Emitter → Prop} (h : Wrote code (t :: pushed) s₀ s)
    (hpost : post a t s) : Mirrors top (pure a) s post := by
  rw [← bind_pure top]
  exact top_then h (.pure hpost)

/-- The emitter writes a constant and notes its type. -/
lemma pushWord_then {g : Unit → Emit δ} {n : Int32} (h : Wrote code pushed s₀ s)
    (hg : ∀ s, Wrote (code ++ plain [.i32Const n]) (.int32 :: pushed) s₀ s →
      Mirrors (g ()) x s post) :
    Mirrors (pushWord n >>= g) x s post := by
  rw [pushWord, bind_assoc]
  exact emit_then h fun _ h => push_then h hg

/-- The emitter notes that several operands were taken. -/
lemma popTimes_then {g : Unit → Emit δ} (taken : List ValueType) {s : Emitter}
    (h : Wrote code (taken ++ pushed) s₀ s)
    (hg : ∀ s, Wrote code pushed s₀ s → Mirrors (g ()) x s post) :
    Mirrors (popTimes taken.length >>= g) x s post := by
  induction taken generalizing s with
  | nil => exact hg s h
  | cons t rest ih =>
      rw [List.length_cons, popTimes, bind_assoc]
      exact pop_then h fun _ h => ih h

/-- An operation takes its operands and leaves a result. -/
lemma emitOp_then {g : Unit → Emit δ} (taken : List ValueType)
    (h : Wrote code (taken ++ pushed) s₀ s)
    (hg : ∀ s, Wrote (code ++ plain [op]) (t :: pushed) s₀ s → Mirrors (g ()) x s post) :
    Mirrors (emitOp op taken.length t >>= g) x s post := by
  rw [emitOp, bind_assoc]
  refine popTimes_then taken h fun _ h => ?_
  rw [bind_assoc]
  exact emit_then h fun _ h => push_then h hg

/-- A conversion is written, which is nothing at all between types of one word. -/
lemma convert_then {g : Unit → Emit δ} (source target : ValueType) (h : Wrote code pushed s₀ s)
    (hg : ∀ s, Wrote (code ++ Lowering.convert source target) pushed s₀ s →
      Mirrors (g ()) x s post) :
    Mirrors (convert source target >>= g) x s post := by
  cases hs : source.isFloat with
  | true =>
      cases target <;> simp only [convert, Lowering.convert, hs] at hg ⊢
      · exact emit_then h hg
      · exact hg s (h.eq (List.append_nil _).symm rfl)
      · rw [bind_assoc]
        exact emit_then h fun _ h => emit_then h fun s h =>
          hg s (h.eq (List.append_assoc _ _ _) rfl)
      · exact emit_then h hg
      · exact emit_then h hg
  | false =>
      cases target <;> simp only [convert, Lowering.convert, hs] at hg ⊢
      case float64 => exact emit_then h hg
      all_goals exact hg s (h.eq (List.append_nil _).symm rfl)

/-- The top operand is converted, from the type that was noted for it. -/
lemma coerceTop_then {g : Unit → Emit δ} (target : ValueType) (h : Wrote code (t :: pushed) s₀ s)
    (hg : ∀ s, Wrote (code ++ Lowering.convert t target) (target :: pushed) s₀ s →
      Mirrors (g ()) x s post) :
    Mirrors (coerceTop target >>= g) x s post := by
  rw [coerceTop, bind_assoc]
  refine pop_then h fun _ h => ?_
  rw [bind_assoc]
  exact convert_then t target h fun _ h => push_then h hg

end Steps

/-! ### Parts of expressions -/

/-- An emitting computation writes the value that a lowering computation finds. -/
def Says (value : Emit ValueType) (lowered : Lower Operand) : Prop :=
  ∀ s, Mirrors value lowered s fun x t s' => t = x.type ∧ Wrote x.code [x.type] s s'

section Parts

variable {code : Code} {pushed : List ValueType} {s₀ s : Emitter}
  {value object position : Emit ValueType}
  {lowered array index : Lower Operand}

/-- A value that is written behind some other code. -/
lemma Says.andThen {f : Operand → Lower γ} {g : ValueType → Emit δ} {post : γ → δ → Emitter → Prop}
    (hv : Says value lowered) (h : Wrote code pushed s₀ s)
    (hg : ∀ x s, Wrote (code ++ x.code) (x.type :: pushed) s₀ s → Mirrors (g x.type) (f x) s post) :
    Mirrors (value >>= g) (lowered >>= f) s post := by
  refine (hv s).bind fun x t s' ⟨ht, h'⟩ => ?_
  subst ht
  exact hg x s' (h.trans h')

lemma compareWithZero_last {a : α} {t : ValueType} {post : α → Unit → Emitter → Prop}
    (h : Wrote code (t :: pushed) s₀ s)
    (hpost : ∀ s, Wrote (code ++ Lowering.isNonzeroDouble) (.boolean :: pushed) s₀ s →
      post a () s) :
    Mirrors compareWithZero (pure a) s post := by
  rw [compareWithZero]
  refine emit_then h fun _ h => push_then h fun _ h => ?_
  rw [← bind_pure (emitOp _ _ _)]
  exact emitOp_then [.float64, t] h fun _ h =>
    .pure (hpost _ (h.eq (List.append_assoc _ _ _) rfl))

/-- An expression as a condition. -/
lemma condition_mirrors (hv : Says value lowered) (s : Emitter) :
    Mirrors (condition value) lowered s fun x _ s' => ∃ t, Wrote x.condition [t] s s' := by
  rw [condition, ← bind_pure lowered]
  refine hv.andThen (.nil s) fun x s h => top_then h ?_
  split
  · refine compareWithZero_last h fun _ h => ⟨_, h.eq ?_ rfl⟩
    rw [Operand.condition, if_pos ‹_›, List.nil_append]
  · refine .pure ⟨_, h.eq ?_ rfl⟩
    rw [Operand.condition, if_neg ‹_›, List.nil_append]

/-- An expression as a truth value. -/
lemma truth_mirrors (hv : Says value lowered) (s₀ : Emitter) :
    Mirrors (truth value) lowered s₀ fun x _ s' => ∃ t, Wrote x.truth [t] s₀ s' := by
  rw [truth, ← bind_pure lowered]
  refine hv.andThen (.nil s₀) fun x s h => top_then h ?_
  have hword (htruth : x.truth = x.code ++ plain [.i32Const 0, .int .ne]) :
      Mirrors (do pushWord 0; emitOp (.int .ne) 2 .boolean) (pure x) s fun x _ s' =>
        ∃ t, Wrote x.truth [t] s₀ s' := by
    refine pushWord_then h fun _ h => ?_
    rw [← bind_pure (emitOp _ _ _)]
    refine emitOp_then [.int32, x.type] h fun _ h => .pure ⟨_, h.eq ?_ rfl⟩
    rw [htruth, List.append_assoc]
    rfl
  cases hx : x.type with
  | boolean =>
      refine .pure ⟨_, h.eq ?_ rfl⟩
      rw [Operand.truth, hx, List.nil_append]
  | float64 =>
      rw [hx] at h
      refine compareWithZero_last h fun _ h => ⟨_, h.eq ?_ rfl⟩
      rw [Operand.truth, hx, List.nil_append]
  | int32 | int32Array | float64Array => exact hword (by rw [Operand.truth, hx])

/-- The two values that `&&` and `||` choose between, one of them the right operand. -/
lemma choices_mirrors {op : LogicalOp} (hv : Says value lowered) (s₀ : Emitter) :
    Mirrors (choices op value) lowered s₀ fun x _ s' =>
      ∃ t u, Wrote (Lowering.logicalChoices op x) [t, u] s₀ s' := by
  cases op with
  | and =>
      rw [choices, ← bind_pure lowered]
      refine (truth_mirrors hv s₀).bind fun x _ s hx => ?_
      obtain ⟨t, h⟩ := hx
      rw [← bind_pure (pushWord _)]
      exact pushWord_then h fun _ h => .pure ⟨_, _, h⟩
  | or =>
      rw [choices]
      refine pushWord_then (.nil s₀) fun s h => ?_
      refine (truth_mirrors hv s).weaken fun x _ s' hx => ?_
      obtain ⟨t, h'⟩ := hx
      exact ⟨_, _, h.trans h'⟩

/-- The address of an element: the object, the subscript, and their sum. -/
lemma address_then {f : Operand → Lower γ} {g : ValueType → Emit δ} {post : γ → δ → Emitter → Prop}
    (hobject : Says object array) (hposition : Says position index) (h : Wrote code pushed s₀ s)
    (hg : ∀ x s, Wrote (code ++ x.code) (.int32 :: pushed) s₀ s → Mirrors (g x.type) (f x) s post) :
    Mirrors (address object position >>= g)
      (array >>= fun x => index >>= fun y => f (Lowering.address x y)) s post := by
  rw [address, bind_assoc]
  refine hobject.andThen h fun x _ h => ?_
  rw [bind_assoc]
  refine hposition.andThen h fun y _ h => ?_
  rw [bind_assoc]
  refine coerceTop_then .int32 h fun _ h => ?_
  rw [bind_assoc]
  refine pushWord_then h fun _ h => ?_
  rw [bind_assoc]
  refine emitOp_then [.int32, .int32] h fun _ h => ?_
  rw [bind_assoc]
  refine emitOp_then [.int32, x.type] h fun _ h => ?_
  rw [pure_bind]
  refine hg (Lowering.address x y) _ (h.eq ?_ rfl)
  simp [Lowering.address, Operand.as, plain]

/-- A binary operator behind its left operand. The type of the right one is looked up before
it is written. -/
lemma operator_then {op : BinaryOp} {right : Expr} {left : Operand} {f : Operand → Lower γ}
    {g : Unit → Emit δ} {post : γ → δ → Emitter → Prop} (hv : Says value lowered)
    (h : Wrote left.code (left.type :: pushed) s₀ s)
    (hg : ∀ x s, Wrote x.code (x.type :: pushed) s₀ s → Mirrors (g ()) (f x) s post) :
    Mirrors (operator (.ofLowering cx) op right value >>= g)
      (do
        let rightType ← cx.typing.expressionType right.id
        let x ← Lowering.combine op left rightType lowered
        f x) s post := by
  simp only [operator, Lowering.combine, bind_assoc, pure_bind]
  refine top_then h (.attempt_bind fun rightType _ => .attempt_bind fun chosen _ => ?_)
  obtain ⟨i, result⟩ := chosen
  refine coerceTop_then _ h fun _ h => hv.andThen h fun y _ h => coerceTop_then _ h fun _ h => ?_
  refine emitOp_then [_, _] h fun _ h => hg ⟨_, _⟩ _ (h.eq ?_ rfl)
  simp [Operand.as]

end Parts

/-! ### Expressions -/

/-- The slot of a name is found in the same way. -/
lemma slot_ofLowering (name : String) :
    slot (.ofLowering cx) name = Lowering.slot cx name := by
  have hslot : (EmitterContext.ofLowering cx).slotOf name = cx.names.idxOf? name := cx.get?_eq name
  rw [slot, Lowering.slot_eq, hslot]
  rfl

/-- Both have the same scratch slots free. -/
lemma acquire_mirrors (s : Emitter) :
    Mirrors (acquire (.ofLowering cx)) (Lowering.acquire cx) s fun k k' s' =>
      k' = k ∧ Wrote [] [] s s' := by
  rw [Mirrors, Lowering.acquire, acquire]
  cases hfree : s.scratch.free with
  | nil => exact ⟨_, _, rfl, by simp only [hfree], rfl, .same rfl rfl rfl⟩
  | cons slot rest => exact ⟨_, _, rfl, rfl, rfl, .same rfl rfl rfl⟩

/-- Both give the same scratch slot back. -/
lemma release_mirrors (k : Nat) (s : Emitter) :
    Mirrors (release k) (Lowering.release k) s fun _ _ s' => Wrote [] [] s s' :=
  ⟨(), _, rfl, rfl, .same rfl rfl rfl⟩

mutual

/-- Emitting an expression mirrors lowering it. -/
theorem expression_mirrors : ∀ e : Expr,
    Says (expression (.ofLowering cx) e) (Lowering.expression cx e)
  | .number id x => by
      intro s
      rw [expression, Lowering.expression]
      refine .attempt_bind fun t _ => ?_
      refine emit_then (.nil s) fun _ h => push_then h fun _ h => top_last h ⟨rfl, h⟩
  | .boolean id b => by
      intro s
      rw [expression, Lowering.expression]
      exact emit_then (.nil s) fun _ h => push_then h fun _ h => top_last h ⟨rfl, h⟩
  | .identifier id name => by
      intro s
      rw [expression, Lowering.expression, slot_ofLowering]
      refine .attempt_bind fun k _ => .attempt_bind fun t _ => ?_
      exact emit_then (.nil s) fun _ h => push_then h fun _ h => top_last h ⟨rfl, h⟩
  | .unary id .not a => by
      intro s
      rw [expression, Lowering.expression]
      refine (condition_mirrors (expression_mirrors a) s).bind fun x _ _ ⟨t, h⟩ => ?_
      exact emitOp_then [t] h fun _ h => top_last h ⟨rfl, h⟩
  | .unary id .minus a => by
      intro s
      rw [expression, Lowering.expression]
      refine .attempt_bind fun t _ => ?_
      split
      · refine (expression_mirrors a).andThen (.nil s) fun x _ h => ?_
        exact emitOp_then [x.type] h fun _ h => top_last h ⟨rfl, h⟩
      · refine pushWord_then (.nil s) fun _ h => ?_
        refine (expression_mirrors a).andThen h fun x _ h => coerceTop_then .int32 h fun _ h => ?_
        refine emitOp_then [.int32, .int32] h fun _ h => top_last h ⟨rfl, h.eq ?_ rfl⟩
        simp [Operand.as]
  | .unary id .plus a => by
      intro s
      rw [expression, Lowering.expression]
      refine (expression_mirrors a).andThen (.nil s) fun x _ h => ?_
      exact coerceTop_then _ h fun _ h => top_last h ⟨rfl, h⟩
  | .binary id op a b => by
      intro s
      rw [expression, Lowering.expression]
      refine (expression_mirrors a).andThen (.nil s) fun x _ h => ?_
      refine .of_bind_pure ?_
      rw [bind_assoc]
      exact operator_then (expression_mirrors b) h fun z _ h => top_last h ⟨rfl, h⟩
  | .logical id op a b => by
      intro s
      rw [expression, Lowering.expression]
      refine (truth_mirrors (expression_mirrors a) s).bind fun x _ _ ⟨t, h⟩ => ?_
      refine (acquire_mirrors _).bind fun k k' _ ⟨hk, h'⟩ => ?_
      subst hk
      -- the truth of the left operand waits in the scratch variable
      refine emit_then (h.trans h') fun _ h => pop_then h fun _ h => ?_
      refine (choices_mirrors (expression_mirrors b) _).bind fun y _ _ ⟨u, v, hchoices⟩ => ?_
      refine emit_then (h.trans hchoices) fun _ h => push_then h fun _ h => ?_
      refine (release_mirrors k' _).bind fun _ _ _ h' => ?_
      have hstack : [] ++ .boolean :: ([u, v] ++ []) = [.boolean, u, v] ++ [] := rfl
      refine emitOp_then [.boolean, u, v] ((h.trans h').eq rfl hstack) fun _ h =>
        top_last h ⟨rfl, h.eq ?_ rfl⟩
      cases op <;> simp [Lowering.logicalChoices, plain]
  | .index id object position => by
      intro s
      rw [expression, Lowering.expression]
      refine address_then
        (f := fun x => (pure ⟨x.code ++ plain [.load x.type.wordType], x.type⟩ : Lower Operand))
        (expression_mirrors object) (expression_mirrors position) (.nil s) fun x _ h => ?_
      exact emitOp_then [.int32] h fun _ h => top_last h ⟨rfl, h⟩
  | .property id object name => by
      intro s
      rw [expression, Lowering.expression]
      split
      · refine (expression_mirrors object).andThen (.nil s) fun x _ h =>
          pushWord_then h fun _ h => ?_
        refine emitOp_then [.int32, x.type] h fun _ h => emitOp_then [.int32] h fun _ h =>
          top_last h ⟨rfl, h.eq ?_ rfl⟩
        simp [Lowering.length, plain]
      · exact .fails
  | .call id callee arguments => by
      intro s
      rw [expression, Lowering.expression]
      cases callee.identifier? with
      | none => exact .fails
      | some name =>
          have hindices : (EmitterContext.ofLowering cx).indices = cx.indices := rfl
          dsimp only
          rw [hindices]
          cases cx.indices.find? name with
          | none => exact .fails
          | some index =>
              refine .attempt_bind fun signature _ => ?_
              by_cases harity : signature.arity ≠ arguments.length
              · rw [if_pos harity, if_pos harity]
                exact .fails
              · rw [if_neg harity, if_neg harity]
                -- the operands that the call takes are those of its arguments
                have hlength : arguments.length = signature.parameters.reverse.length := by
                  rw [List.length_reverse]
                  exact (not_not.mp harity).symm
                refine (callArguments_mirrors arguments signature.parameters s
                  (not_not.mp harity).symm).bind fun code _ _ h => ?_
                rw [hlength]
                exact emitOp_then _ (h.eq rfl (List.append_nil _).symm) fun _ h =>
                  top_last h ⟨rfl, h⟩
  | .array id elements => by
      intro s
      rw [expression, Lowering.expression]
      exact .fails
  | .assign _ _ _ _ | .update _ _ _ _ => by
      intro s
      rw [expression, Lowering.expression]
      exact .fails

/-- The arguments of a call are written as they are lowered. -/
theorem callArguments_mirrors : ∀ (es : List Expr) (types : List ValueType) (s : Emitter),
    es.length = types.length →
    Mirrors (callArguments (.ofLowering cx) es types) (Lowering.callArguments cx es types) s
      fun code _ s' => Wrote code types.reverse s s'
  | [], _, s, hlength => by
      obtain rfl := List.length_eq_zero_iff.mp hlength.symm
      rw [callArguments, Lowering.callArguments]
      · exact .pure (.nil s)
      all_goals simp
  | e :: es, t :: types, s, hlength => by
      rw [callArguments, Lowering.callArguments]
      refine (expression_mirrors e).andThen (.nil s) fun x _ h => coerceTop_then t h fun s' h => ?_
      rw [← bind_pure (callArguments _ es types)]
      refine (callArguments_mirrors es types s' (Nat.succ.inj hlength)).bind fun code _ _ h' =>
        .pure ((h.trans h').eq ?_ ?_)
      · simp [Operand.as]
      · rw [List.reverse_cons]

end

/-! ### Assignments -/

section Assignments

variable {code : Code} {pushed : List ValueType} {s₀ s : Emitter} {t u : ValueType} {k : Nat}

/-- A variable is written last, from the top operand. -/
lemma setVariable_last {d : Code} (h : Wrote code (t :: pushed) s₀ s)
    (hd : d = code ++ plain [.localSet k]) :
    Mirrors (do emit (.op (.localSet k)); let _ ← pop) (pure d) s fun d _ s' =>
      Wrote d pushed s₀ s' :=
  emit_then h fun _ h => pop_then h fun _ h => .pure (h.eq hd.symm rfl)

/-- An element is written last, from the two top operands. -/
lemma storeElement_last {d : Code} {element : ValueType} (h : Wrote code (t :: u :: pushed) s₀ s)
    (hd : d = code ++ plain [.store element.wordType]) :
    Mirrors (storeElement element) (pure d) s fun d _ s' => Wrote d pushed s₀ s' := by
  rw [storeElement, ← bind_pure (emit _)]
  exact pop_then h fun _ h => pop_then h fun _ h => emit_then h fun _ h => .pure (h.eq hd.symm rfl)

/-- An assignment is written as it is lowered, and leaves no operands. -/
lemma assign_mirrors (op : AssignOp) (target e : Expr) (s : Emitter) :
    Mirrors (assign (.ofLowering cx) op target e) (Lowering.assign cx op target e) s
      fun code _ s' => Wrote code [] s s' := by
  cases target with
  | identifier id name =>
      rw [assign, Lowering.assign, slot_ofLowering]
      refine .attempt_bind fun k _ => .attempt_bind fun t _ => ?_
      cases op.binaryOp? with
      | none =>
          simp only [variableValue, bind_assoc, pure_bind]
          refine (expression_mirrors e).andThen (.nil s) fun x _ h => ?_
          refine coerceTop_then t h fun _ h => ?_
          exact setVariable_last h (by simp [Operand.as])
      | some op =>
          simp only [variableValue, bind_assoc]
          refine emit_then (.nil s) fun _ h => push_then h fun _ h => ?_
          refine operator_then (expression_mirrors e) h fun x _ h => ?_
          refine coerceTop_then t h fun _ h => ?_
          exact setVariable_last h (by simp [Operand.as])
  | index id object position =>
      rw [assign, Lowering.assign]
      cases op.binaryOp? with
      | none =>
          refine address_then
            (f := fun x => do
              let new ← Lowering.expression cx e
              pure (x.code ++ new.as x.type ++ plain [.store x.type.wordType]))
            (expression_mirrors object) (expression_mirrors position) (.nil s) fun x _ h => ?_
          simp only [elementValue, bind_assoc, pure_bind]
          refine (expression_mirrors e).andThen h fun y _ h => ?_
          refine coerceTop_then _ h fun _ h => ?_
          exact storeElement_last h (by simp [Operand.as])
      | some op =>
          refine address_then
            (f := fun x => do
              let scratch ← Lowering.acquire cx
              let rightType ← cx.typing.expressionType e.id
              let new ← Lowering.combine op
                ⟨plain [.localGet scratch, .load x.type.wordType], x.type⟩ rightType
                (Lowering.expression cx e)
              Lowering.release scratch
              pure (x.code ++ plain [.localTee scratch] ++ new.as x.type ++
                plain [.store x.type.wordType]))
            (expression_mirrors object) (expression_mirrors position) (.nil s) fun x _ h => ?_
          simp only [elementValue, bind_assoc]
          refine (acquire_mirrors _).bind fun k k' _ ⟨hk, h'⟩ => ?_
          subst hk
          refine emit_then (h.trans h') fun s₁ h => ?_
          refine emit_then (.nil s₁) fun _ h₁ => push_then h₁ fun _ h₁ => ?_
          refine emitOp_then [.int32] h₁ fun _ h₁ => ?_
          refine operator_then (expression_mirrors e) h₁ fun y _ h₁ => ?_
          refine (release_mirrors k' _).bind fun _ _ _ h₂ => ?_
          refine coerceTop_then _ (h.trans (h₁.trans h₂)) fun _ h => ?_
          exact storeElement_last h (by simp [Operand.as])
  | _ => exact .fails

/-- The step of an update, between constants and stores. -/
lemma update_mirrors (op : UpdateOp) (target : Expr) (s : Emitter) :
    Mirrors (update (.ofLowering cx) op target) (Lowering.update cx op target) s
      fun code _ s' => Wrote code [] s s' := by
  cases target with
  | identifier id name =>
      rw [update, Lowering.update, slot_ofLowering]
      refine .attempt_bind fun k _ => .attempt_bind fun t _ => ?_
      simp only [pushOne, bind_assoc]
      refine emit_then (.nil s) fun _ h => push_then h fun _ h => ?_
      refine emit_then h fun _ h => push_then h fun _ h => .attempt_bind fun step _ => ?_
      refine emitOp_then [t, t] h fun _ h => ?_
      exact setVariable_last h (by simp [plain])
  | index id object position =>
      rw [update, Lowering.update]
      refine address_then
        (f := fun x => do
          let scratch ← Lowering.acquire cx
          let step ← Lowering.arithmetic op.binaryOp x.type.isFloat
          Lowering.release scratch
          pure (x.code ++ plain [.localTee scratch, .localGet scratch, .load x.type.wordType,
            Lowering.one x.type, step, .store x.type.wordType]))
        (expression_mirrors object) (expression_mirrors position) (.nil s) fun x _ h => ?_
      simp only [pushOne, bind_assoc]
      refine (acquire_mirrors _).bind fun k k' _ ⟨hk, h'⟩ => ?_
      subst hk
      refine emit_then (h.trans h') fun _ h => emit_then h fun _ h => push_then h fun _ h => ?_
      refine emitOp_then [.int32] h fun _ h => emit_then h fun _ h => push_then h fun _ h => ?_
      refine .attempt_bind fun step _ => emitOp_then [x.type, x.type] h fun _ h => ?_
      refine (release_mirrors k' _).bind fun _ _ _ h' => ?_
      exact storeElement_last (h.trans h') (by simp [plain])
  | _ => exact .fails

/-- An expression that is there for its effect leaves no operands: its value is dropped. -/
lemma effect_mirrors (e : Expr) (s : Emitter) :
    Mirrors (effect (.ofLowering cx) e) (Lowering.effect cx e) s fun code _ s' =>
      Wrote code [] s s' := by
  have hdropped : Mirrors
      (do let _ ← expression (.ofLowering cx) e; emit (.op .drop); let _ ← pop)
      (do let x ← Lowering.expression cx e; return x.code ++ plain [.drop]) s fun code _ s' =>
      Wrote code [] s s' :=
    (expression_mirrors e).andThen (.nil s) fun _ _ h =>
      emit_then h fun _ h => pop_then h fun _ h => .pure h
  cases e with
  | assign id op target value => exact assign_mirrors op target value s
  | update id op leading target => exact update_mirrors op target s
  | _ => exact hdropped

end Assignments

/-! ### Statements -/

/-- An emitting computation writes the code that a lowering computation finds, and leaves
the stack as it was. -/
def Writes (x : Emit Unit) (lowered : Lower Code) : Prop :=
  ∀ s, Mirrors x lowered s fun code _ s' => Wrote code [] s s'

section Statements

variable {x y : Emit Unit} {lowered lowered' : Lower Code}

/-- What is written inside a level of control flow, the marks around it apart. -/
lemma Writes.level {kind : String} (hx : Writes x lowered) : Writes (level kind x) lowered := by
  intro s
  show Mirrors (x >>= fun _ => get >>= fun s' =>
    if s'.stack.length ≠ s.stack.length then
      throw (.internal (.uneven kind s'.stack.length s.stack.length))
    else pure ()) lowered s _
  refine (hx s).last fun code _ s' h => ⟨(), s', ?_, rfl, h⟩
  show (if s'.stack.length ≠ s.stack.length then
    throw (.internal (.uneven kind s'.stack.length s.stack.length)) else pure () : Emit Unit) s' = _
  have hlength : s'.stack.length = s.stack.length := congrArg List.length h.stack
  rw [if_neg (not_not.mpr hlength)]
  rfl

/-- Declarators are written as they are lowered. -/
lemma declarators_writes (ds : List Declarator) :
    Writes (declarators (.ofLowering cx) ds) (Lowering.declarators cx ds) := by
  intro s
  induction ds generalizing s with
  | nil => exact .pure (.nil s)
  | cons d ds ih =>
      obtain ⟨target, init⟩ := d
      rw [declarators, Lowering.declarators]
      dsimp only
      cases target.identifier? with
      | none => exact .fails
      | some name =>
          cases init with
          | none => exact ih s
          | some init =>
              dsimp only
              rw [slot_ofLowering]
              refine .attempt_bind fun k _ => .attempt_bind fun t _ => ?_
              refine (expression_mirrors init).andThen (.nil s) fun x _ h => ?_
              refine coerceTop_then t h fun _ h => emit_then h fun _ h => pop_then h fun s' h => ?_
              rw [← bind_pure (declarators _ ds)]
              refine (ih s').bind fun code _ _ h' => .pure ((h.trans h').eq ?_ rfl)
              simp [Operand.as]

/-- The test of a loop branches to the label of the block around the loop. -/
lemma loopExit_mirrors {s : Emitter} {label : String} {control : List (Option String)}
    (hcontrol : s.control = some label :: control) (test : Option Expr) :
    Mirrors (loopExit (.ofLowering cx) label test) (Lowering.loopExit cx test) s
      fun code _ s' => Wrote code [] s s' := by
  cases test with
  | none => exact .pure (.nil s)
  | some test =>
      rw [loopExit, Lowering.loopExit]
      refine (condition_mirrors (expression_mirrors test) s).bind fun x _ _ ⟨t, h⟩ => ?_
      refine emitOp_then [t] h fun s' h => ?_
      have hdepth : depthOf label s' = .ok (0, s') := by
        rw [depthOf, h.control, hcontrol, List.idxOf?_cons, if_pos (beq_self_eq_true _)]
      refine .step ?_ hdepth rfl
      refine emit_then h fun _ h => pop_then h fun _ h => .pure (h.eq ?_ rfl)
      simp [plain]

/-- What is done between two rounds is written as it is lowered. -/
lemma loopStep_writes (step : Option Expr) :
    Writes (loopStep (.ofLowering cx) step) (Lowering.loopStep cx step) := by
  intro s
  cases step with
  | none => exact .pure (.nil s)
  | some e => exact effect_mirrors e s

/-- Emitting a loop mirrors lowering one whose body is the same. -/
lemma loop_writes (hx : Writes x lowered) (test step : Option Expr) :
    Writes (loop (.ofLowering cx) test x step)
      (do
        let exit ← Lowering.loopExit cx test
        let body ← lowered
        let step ← Lowering.loopStep cx step
        return Lowering.roundAndRound exit body step) := by
  intro s
  let finish := "label_" ++ toString s.nextLabel
  let begin' := "label_" ++ toString (s.nextLabel + 1)
  show Mirrors (do
      loopExit (.ofLowering cx) finish test
      x
      loopStep (.ofLowering cx) step
      emit (.op (.br (← depthOf begin')))
      closeBlock
      closeBlock) _
    { s with
      marks := s.marks ++ [.loop] ++ [.block]
      control := some finish :: some begin' :: s.control
      nextLabel := s.nextLabel + 1 + 1 } _
  refine (loopExit_mirrors rfl test).bind fun exit _ s₁ h₁ => ?_
  refine (hx s₁).bind fun body _ s₂ h₂ => ?_
  refine (loopStep_writes step s₂).bind fun step _ s₃ h₃ => ?_
  have h := h₁.trans (h₂.trans h₃)
  have hdepth : depthOf begin' s₃ = .ok (1, s₃) := by
    rw [depthOf, h.control]
    dsimp only
    rw [idxOf?_labels]
  refine .step ?_ hdepth rfl
  refine ⟨(), { s₃ with
    marks := s₃.marks ++ [.op (.br 1)] ++ [.endMark] ++ [.endMark]
    control := s₃.control.tail.tail }, rfl, rfl, ?_, h.stack, ?_⟩
  · show s₃.marks ++ [.op (.br 1)] ++ [.endMark] ++ [.endMark] = _
    rw [h.marks]
    simp [Lowering.roundAndRound, Instr.listingList, Instr.listing, listingList_append,
      listingList_plain]
  · show s₃.control.tail.tail = _
    rw [h.control]
    rfl

/-- Emitting a choice mirrors lowering one whose parts are the same. -/
lemma choice_mirrors {e : Expr} {other : Lower (Option Code)} (hx : Writes x lowered)
    (hy : ∀ s, Mirrors y other s fun code _ s' =>
      s'.marks = s.marks ++ Instr.listingElse code ∧ s'.stack = s.stack ∧ s'.control = s.control)
    (s : Emitter) :
    Mirrors (do
        condition (expression (.ofLowering cx) e)
        let _ ← pop
        openBlock .ifMark none
        x
        y
        closeBlock)
      (do
        let value ← Lowering.expression cx e
        let consequent ← lowered
        let alternate ← other
        return value.condition ++ [.choice consequent alternate]) s
      fun code _ s' => Wrote code [] s s' := by
  refine (condition_mirrors (expression_mirrors e) s).bind fun value _ _ ⟨t, h⟩ => ?_
  refine pop_then h fun s₁ h => ?_
  show Mirrors (do x; y; closeBlock) _ { s₁ with
    marks := s₁.marks ++ [.ifMark]
    control := none :: s₁.control } _
  refine (hx _).bind fun consequent _ s₂ h₂ => (hy s₂).bind fun alternate _ s₃ h₃ => ?_
  obtain ⟨hmarks, hstack, hcontrol⟩ := h₃
  refine ⟨(), { s₃ with
    marks := s₃.marks ++ [.endMark]
    control := s₃.control.tail }, rfl, rfl, ?_, ?_, ?_⟩
  · show s₃.marks ++ [.endMark] = _
    rw [hmarks, h₂.marks, h.marks]
    simp [Instr.listingList, Instr.listing, listingList_append]
  · show s₃.stack = _
    rw [hstack, h₂.stack]
    exact h.stack
  · show s₃.control.tail = _
    rw [hcontrol, h₂.control]
    exact h.control

mutual

/-- Emitting a statement mirrors lowering it. -/
theorem statement_writes : ∀ b : Statement,
    Writes (statement (.ofLowering cx) b) (Lowering.statement cx b)
  | .function _ _ _ _ => by
      rw [statement, Lowering.statement]
      exact Writes.level fun _ => .fails
  | .declare _ ds => by
      rw [statement, Lowering.statement]
      exact Writes.level (declarators_writes ds)
  | .expression e => by
      rw [statement, Lowering.statement]
      exact Writes.level (effect_mirrors e)
  | .ret none => by
      rw [statement, Lowering.statement]
      refine Writes.level fun s => ?_
      simp only [pushZero, bind_assoc]
      refine emit_then (.nil s) fun _ h => push_then h fun _ h => emit_then h fun _ h => ?_
      exact pop_then h fun _ h => .pure h
  | .ret (some e) => by
      rw [statement, Lowering.statement]
      refine Writes.level fun s => (expression_mirrors e).andThen (.nil s) fun x _ h => ?_
      refine coerceTop_then _ h fun _ h => emit_then h fun _ h => pop_then h fun _ h => ?_
      exact .pure (h.eq (by simp [Operand.as]; rfl) rfl)
  | .conditional test consequent alternate => by
      rw [statement, Lowering.statement]
      exact Writes.level
        (choice_mirrors (statement_writes consequent) (alternative_mirrors alternate))
  | .whileLoop test body => by
      rw [statement, Lowering.statement]
      exact Writes.level (loop_writes (statement_writes body) (some test) none)
  | .forLoop init test update body => by
      rw [statement, Lowering.statement]
      refine Writes.level fun s => (initial_writes init s).bind fun first _ s' h => ?_
      have hloop : Mirrors
          (loop (.ofLowering cx) test (statement (.ofLowering cx) body) update >>= pure)
          ((do
            let exit ← Lowering.loopExit cx test
            let body ← Lowering.statement cx body
            let step ← Lowering.loopStep cx update
            return Lowering.roundAndRound exit body step) >>= fun code => pure (first ++ code)) s'
          fun code _ s'' => Wrote code [] s s'' :=
        (loop_writes (statement_writes body) test update s').bind fun _ _ _ h' =>
          .pure (h.trans h')
      simpa only [bind_assoc, pure_bind, bind_pure] using hloop
  | .block body => by
      rw [statement, Lowering.statement]
      exact Writes.level (statements_writes body)
  | .empty => by
      rw [statement, Lowering.statement]
      exact Writes.level fun s => .pure (.nil s)

/-- An alternate is written behind its mark, if there is one. -/
theorem alternative_mirrors : ∀ (b : Option Statement) (s : Emitter),
    Mirrors (alternative (.ofLowering cx) b) (Lowering.alternative cx b) s fun code _ s' =>
      s'.marks = s.marks ++ Instr.listingElse code ∧ s'.stack = s.stack ∧ s'.control = s.control
  | none, s => by
      rw [alternative, Lowering.alternative]
      exact .pure ⟨(List.append_nil _).symm, rfl, rfl⟩
  | some b, s => by
      rw [alternative, Lowering.alternative]
      have hbody := statement_writes b { s with marks := s.marks ++ [.elseMark] }
      rw [← bind_pure (statement _ b)]
      refine .step (hbody.bind fun code _ _ h => .pure ⟨?_, h.stack, h.control⟩) rfl rfl
      rw [h.marks, List.append_assoc]
      rfl

/-- What a `for` starts with is written as it is lowered. -/
theorem initial_writes : ∀ b : Option Statement,
    Writes (initial (.ofLowering cx) b) (Lowering.initial cx b)
  | none => by
      rw [initial, Lowering.initial]
      exact fun s => .pure (.nil s)
  | some b => by
      rw [initial, Lowering.initial]
      exact statement_writes b

/-- Statements are written one after another. -/
theorem statements_writes : ∀ body : List Statement,
    Writes (statements (.ofLowering cx) body) (Lowering.statements cx body)
  | [] => by
      rw [statements, Lowering.statements]
      exact fun s => .pure (.nil s)
  | b :: rest => by
      intro s
      rw [statements, Lowering.statements]
      refine (statement_writes b s).bind fun code _ s' h => ?_
      rw [← bind_pure (statements _ rest)]
      exact (statements_writes rest s').bind fun _ _ _ h' => .pure (h.trans h')

end

end Statements

/-! ### Functions -/

/-- A function with its code laid out flat. -/
def EmittedFunction.ofCompiled (f : CompiledFunction) : EmittedFunction where
  name := f.name
  params := f.params
  result := f.result
  locals := f.locals
  localNames := f.localNames
  marks := f.body.listing

/-- A whole function: the emitter starts with nothing and ends with the code that lowering
gives. -/
lemma emitFunction_mirrors (cx : LoweringContext) :
    Mirrors (emitFunction (.ofLowering cx)) (Lowering.body cx) {} fun code f s => f = {
      name := cx.function.displayName
      params := cx.signature.parameters.map ValueType.wordType
      result := cx.signature.returnType.wordType
      locals := Lowering.localTypes cx ++ List.replicate s.scratch.count .i32
      localNames := cx.names ++ Lowering.scratchNames s.scratch.count
      marks := Code.listing code } := by
  rw [emitFunction, Lowering.body]
  refine (statements_writes cx.function.body {}).bind fun code _ s h => ?_
  refine ⟨_, { s with
    marks := s.marks ++ [.op (Lowering.zero cx.signature.returnType)] ++ [.endMark] }, ?_, rfl, rfl⟩
  show finish (.ofLowering cx) { s with
    marks := s.marks ++ [.op (Lowering.zero cx.signature.returnType)] ++ [.endMark] } = _
  have hlisting : s.marks ++ [.op (Lowering.zero cx.signature.returnType)] ++ [.endMark]
      = Code.listing (code ++ plain [Lowering.zero cx.signature.returnType]) := by
    rw [h.marks, Code.listing, listingList_append, listingList_plain]
    rfl
  rw [finish, if_neg (by simp [h.stack, h.control]), hlisting]
  rfl

/-- An emitter makes of a function the flat form of what lowering makes of it, or fails for
the same reason. -/
theorem generate_ofLowering (cx : LoweringContext) :
    generate (.ofLowering cx) = (cx.lower.map EmittedFunction.ofCompiled).mapError .program := by
  have hbody := emitFunction_mirrors cx
  rw [Mirrors] at hbody
  rw [generate_eq, LoweringContext.lower]
  show _ = (Except.map EmittedFunction.ofCompiled (Except.bind (Lowering.body cx {}) _)).mapError _
  cases hlowered : Lowering.body cx {} with
  | error e =>
      rw [hlowered] at hbody
      rw [hbody]
      rfl
  | ok p =>
      rw [hlowered] at hbody
      obtain ⟨f, s, hrun, hscratch, rfl⟩ := hbody
      rw [hrun, hscratch]
      rfl

/-! ### Discipline -/

/-- What is emitted for a function is well nested but for one last end; before that end
stands a value, and before this the statements of the body, which leave the height as it
was and whose loops branch to themselves. -/
structure Disciplined (cx : EmitterContext) (f : EmittedFunction) : Prop where
  nested : ∃ inside, f.marks = inside ++ [.endMark] ∧ Nested inside
  laid : ∃ code, f.marks = code ++ [.op (Lowering.zero cx.signature.returnType), .endMark] ∧
    LaidList cx.function.body [] code ∧ ∀ names h, heights cx.table code
      (Statement.calledNamesList cx.function.body ++ names, h) = some (names, h)

/-- Whatever slots, types and indices it is given, an emitter never fails by a fault of its
own. The code of a function is well nested and its loops branch to themselves; the code of
every expression raises the height by one and that of every statement leaves it as it was,
without taking what was there before. And it is the code that lowering builds. -/
theorem generate_disciplined (cx : EmitterContext) :
    (∀ fault, generate cx ≠ .error (.internal fault)) ∧
    (∀ f, generate cx = .ok f → Disciplined cx f) ∧
    (∀ e s t s', expression cx e s = .ok (t, s') → ∃ code, s'.marks = s.marks ++ code ∧
      Nested code ∧
      ∀ names h, heights cx.table code (e.calledNames ++ names, h) = some (names, h + 1)) ∧
    (∀ b s s', statement cx b s = .ok ((), s') → ∃ code, s'.marks = s.marks ++ code ∧
      Nested code ∧ Laid b s.marks code ∧
      ∀ names h, heights cx.table code (b.calledNames ++ names, h) = some (names, h)) ∧
    ∀ lowering : LoweringContext, generate (.ofLowering lowering)
      = (lowering.lower.map EmittedFunction.ofCompiled).mapError .program := by
  -- what the emitter does with a whole function says all of the first two
  have hmeets := emitFunction_meets cx
  refine ⟨fun fault h => ?_, fun f h => ?_, fun e s t s' h => ?_, fun b s s' h => ?_,
    generate_ofLowering⟩
  · rw [generate_eq] at h
    cases hrun : emitFunction cx {} with
    | ok p =>
        rw [hrun] at h
        cases h
    | error e =>
        obtain ⟨reason, rfl⟩ := hmeets.of_error hrun
        rw [hrun] at h
        cases h
  · rw [generate_eq] at h
    cases hrun : emitFunction cx {} with
    | error e =>
        rw [hrun] at h
        cases h
    | ok p =>
        rw [hrun] at h
        obtain rfl := Except.ok.inj h
        obtain ⟨code, hmarks, hlaid, hheights⟩ := hmeets.of_ok hrun
        refine ⟨⟨code ++ [.op (Lowering.zero cx.signature.returnType)], ?_, ?_⟩,
          code, hmarks, hlaid, hheights⟩
        · rw [hmarks, List.append_assoc]
          rfl
        · exact hlaid.nested.append (.op _)
  · have hgiven := (expression_gives e s.stack [] 0 s rfl).of_ok h
    obtain ⟨-, -, code, hmarks, hstraight, hheights⟩ := hgiven
    exact ⟨code, hmarks, hstraight.nested, heights_value hheights⟩
  · obtain ⟨-, -, code, hmarks, hlaid, hheights⟩ := (statement_lays b s).of_ok h
    exact ⟨code, hmarks, hlaid.nested, hlaid, hheights⟩

/-- `function f(n) { while (n) for (; f(n); ) if (n) n = 1; }`, with types that do not fit it
and with an index for `f` that no module has. -/
def nestedLoops : LoweringContext where
  function := ⟨some "f", [⟨.identifier "n", none⟩], none,
    [.whileLoop (.identifier 0 "n")
      (.forLoop none (some (.call 1 (.identifier 2 "f") [.identifier 3 "n"])) none
        (.conditional (.identifier 4 "n")
          (.expression (.assign 5 .assign (.identifier 6 "n") (.boolean 7 true))) none))]⟩
  signature := ⟨[.int32], .float64⟩
  table := Table.ofList [("f", ⟨[.int32], .float64⟩)]
  mapping := (VariableMapping.startingAt 0).declareAll ["n"]
  firstSlot_eq := rfl
  typing := {
    variableTypes := Table.ofList [("n", .float64)]
    expressionTypes := Table.ofList [(0, .int32), (3, .float64), (4, .boolean)] }
  indices := Table.ofList [("f", 7)]

theorem nestedLoops_disciplined :
    ∃ f, generate (.ofLowering nestedLoops) = .ok f ∧
      (f.marks.filter fun m => m = .loop ∨ m = .op (.brIf 0) ∨ m = .op (.br 1)) =
        [.loop, .op (.brIf 0), .loop, .op (.brIf 0), .op (.br 1), .op (.br 1)] ∧
      Disciplined (.ofLowering nestedLoops) f := by
  refine ⟨_, (generate_ofLowering nestedLoops).trans rfl, rfl, ?_⟩
  exact (generate_disciplined (.ofLowering nestedLoops)).2.1 _
    ((generate_ofLowering nestedLoops).trans rfl)

end ArrayScript.Flat
