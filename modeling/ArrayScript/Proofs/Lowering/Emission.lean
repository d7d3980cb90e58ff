import ArrayScript.Proofs.Lowering.Derivation
import ArrayScript.Proofs.Syntax.Walk

/-!
Lowering emits code that belongs to the syntax, or refuses for a stated reason.

* `Refusal`: the reasons for which a function whose variables have slots and whose
  expressions have types can still be refused.
* `Valid`: the discipline of scratch variables. Those that are held and those that are
  free are all different and lie in the range that was reserved.
* `Consistent`: the slots, the types and the roots of a function fit together.
* `expression_emits`: what `expression` does with a typed expression. Any code it
  gives belongs to the expression and has its type, and the scratch variables it uses
  are free again.
* `lower_cases`: the same for a whole function.
-/

namespace ArrayScript.Lowering

open Typing

variable {cx : LoweringContext}

/-! ### Refusals -/

/-- What can be stored to. -/
def IsTarget : Expr → Prop
  | .identifier _ _ | .index _ _ _ => True
  | _ => False

/-- The reasons for which a function can be refused although its variables have slots
and its expressions have types. Each names an error together with what must occur in
the function for it. -/
inductive Refusal (cx : LoweringContext) : CompileError → Prop
  | nestedFunction {f : FunctionDeclaration} (occurs : .function f ∈ cx.function.visits) :
      Refusal cx (.nestedFunction f.displayName)
  | arrayLiteral {id : ExprId} {elements : List Expr}
      (occurs : .array id elements ∈ cx.function.expressions) : Refusal cx .arrayLiteral
  | usedAsValue {e : Expr} (occurs : e ∈ cx.function.expressions) (effect : e.isEffect = true) :
      Refusal cx (.usedAsValue e.kindName)
  | assignTarget {id : ExprId} {op : AssignOp} {target value : Expr}
      (occurs : .assign id op target value ∈ cx.function.expressions)
      (invalid : ¬ IsTarget target) : Refusal cx .invalidTarget
  | updateTarget {id : ExprId} {op : UpdateOp} {leading : Bool} {target : Expr}
      (occurs : .update id op leading target ∈ cx.function.expressions)
      (invalid : ¬ IsTarget target) : Refusal cx .invalidTarget
  | remainderOfDoubles {id : ExprId} {a b : Expr}
      (occurs : .binary id .rem a b ∈ cx.function.expressions)
      (double : cx.typing.expressionType id = .ok .float64) :
      Refusal cx (.unsupportedOperator BinaryOp.rem.symbol true)
  | unknownFunction {id i : ExprId} {name : String} {arguments : List Expr}
      (occurs : .call id (.identifier i name) arguments ∈ cx.function.expressions)
      (missing : cx.indices.find? name = none) : Refusal cx (.unknownFunction name)
  | callArity {id i : ExprId} {name : String} {arguments : List Expr} {signature : Signature}
      (occurs : .call id (.identifier i name) arguments ∈ cx.function.expressions)
      (callee : cx.table.find? name = some signature)
      (mismatch : signature.arity ≠ arguments.length) :
      Refusal cx (.callArity name signature.arity arguments.length)

/-! ### The discipline of scratch variables -/

/-- Whether a slot was reserved for scratch. -/
def Reserved (cx : LoweringContext) (s : Scratch) (slot : Nat) : Prop :=
  cx.names.length ≤ slot ∧ slot < cx.names.length + s.count

/-- The scratch variables that are held and those that are free are different and were
reserved. -/
structure Valid (cx : LoweringContext) (held : List Nat) (s : Scratch) : Prop where
  free_reserved : ∀ slot ∈ s.free, Reserved cx s slot
  held_reserved : ∀ slot ∈ held, Reserved cx s slot
  distinct : (held ++ s.free).Nodup

lemma valid_start : Valid cx [] {} :=
  ⟨by simp, by simp, by simp⟩

/-- A scratch variable that is acquired was not held, and is held from then on. -/
lemma acquire_valid {held : List Nat} {s : Scratch} (h : Valid cx held s) :
    ∃ slot s', acquire cx s = .ok (slot, s') ∧ slot ∉ held ∧ Valid cx (slot :: held) s' ∧
      s.count ≤ s'.count := by
  rw [acquire, cx.len_mapping]
  obtain ⟨hfree, hheld, hdistinct⟩ := h
  split
  · rename_i slot rest hs
    rw [hs] at hfree hdistinct
    have hmoved : (slot :: (held ++ rest)).Nodup :=
      (List.perm_middle.nodup_iff).mp hdistinct
    refine ⟨slot, _, rfl, ?_, ⟨fun k hk => ?_, fun k hk => ?_, hmoved⟩, le_rfl⟩
    · exact fun hmem => (List.nodup_cons.mp hmoved).1 (List.mem_append_left _ hmem)
    · exact hfree k (List.mem_cons_of_mem _ hk)
    · rcases List.mem_cons.mp hk with rfl | hk
      · exact hfree k List.mem_cons_self
      · exact hheld k hk
  · rename_i hs
    rw [hs, List.append_nil] at hdistinct
    -- a new slot lies past all that were reserved before
    have hnew : cx.names.length + s.count ∉ held := fun hmem => by
      have := (hheld _ hmem).2
      omega
    refine ⟨_, _, rfl, hnew, ⟨fun k hk => ?_, fun k hk => ?_, ?_⟩, Nat.le_succ _⟩
    · rw [hs] at hk
      cases hk
    · rcases List.mem_cons.mp hk with rfl | hk
      · exact ⟨by omega, by simp⟩
      · have := hheld k hk
        exact ⟨this.1, by simp only; have := this.2; omega⟩
    · rw [hs, List.append_nil, List.nodup_cons]
      exact ⟨hnew, hdistinct⟩

/-- A scratch variable that is released is free from then on. -/
lemma release_valid {held : List Nat} {slot : Nat} {s : Scratch}
    (h : Valid cx (slot :: held) s) : Valid cx held { s with free := slot :: s.free } := by
  obtain ⟨hfree, hheld, hdistinct⟩ := h
  refine ⟨fun k hk => ?_, fun k hk => hheld k (List.mem_cons_of_mem _ hk), ?_⟩
  · rcases List.mem_cons.mp hk with rfl | hk
    · exact hheld k List.mem_cons_self
    · exact hfree k hk
  · exact (List.perm_middle.nodup_iff).mpr hdistinct

/-! ### Emission -/

/-- Started with some scratch variables held, a computation is refused for a stated
reason, or it ends with others held and with a result as `post` says for every number
of slots that is large enough. -/
def Emits {α : Type} (cx : LoweringContext) (held held' : List Nat) (x : Lower α)
    (post : Nat → α → Prop) : Prop :=
  ∀ s, Valid cx held s → Meets (Refusal cx) x s fun a s' =>
    Valid cx held' s' ∧ s.count ≤ s'.count ∧
      ∀ size, cx.names.length + s'.count ≤ size → post size a

namespace Emits

variable {α β : Type} {held held' held'' : List Nat} {x : Lower α} {f : α → Lower β}
  {post : Nat → α → Prop}

lemma pure {a : α} (h : ∀ size, post size a) : Emits cx held held (Pure.pure a) post :=
  fun _ hs => Meets.pure ⟨hs, le_rfl, fun size _ => h size⟩

lemma throw {e : CompileError} (h : Refusal cx e) : Emits cx held held' (throw e : Lower α) post :=
  fun _ _ => Meets.throw h

lemma ok_bind {a : α} {post : Nat → β → Prop} (h : Emits cx held held' (f a) post) :
    Emits cx held held' ((liftM (Except.ok a : Except CompileError α) : Lower α) >>= f) post :=
  h

/-- A choice that does not concern scratch variables. -/
lemma lift {y : Except CompileError α} (hok : ∀ a, y = .ok a → ∀ size, post size a)
    (herror : ∀ e, y = .error e → Refusal cx e) :
    Emits cx held held (liftM y : Lower α) post :=
  fun _ hs => Meets.lift (fun a ha => ⟨hs, le_rfl, fun size _ => hok a ha size⟩) herror

lemma weaken {mid : Nat → α → Prop} (h : Emits cx held held' x mid)
    (hpost : ∀ size a, mid size a → post size a) : Emits cx held held' x post :=
  fun s hs => (h s hs).weaken fun _ _ ⟨hv, hle, hp⟩ => ⟨hv, hle, fun size hsize =>
    hpost size _ (hp size hsize)⟩

/-- One step after another. What the first gives holds for some number of slots when
the second is started, and for every large enough one at the end. -/
lemma bind {mid : Nat → α → Prop} {post : Nat → β → Prop} (hx : Emits cx held held' x mid)
    (hf : ∀ a size₀, mid size₀ a →
      Emits cx held' held'' (f a) fun size b => mid size a → post size b) :
    Emits cx held held'' (x >>= f) post := by
  intro s hs
  refine (hx s hs).bind fun a s₁ ⟨hv, hle, hmid⟩ => ?_
  refine (hf a _ (hmid _ le_rfl) s₁ hv).weaken fun b s₂ ⟨hv', hle', hpost⟩ => ?_
  refine ⟨hv', hle.trans hle', fun size hsize => hpost size hsize (hmid size ?_)⟩
  omega

/-- A computation that begins by taking a scratch variable. -/
lemma acquire {f : Nat → Lower β} {post : Nat → β → Prop}
    (hf : ∀ slot, Emits cx (slot :: held) held' (f slot) fun size b =>
      IsScratch cx size held slot → post size b) :
    Emits cx held held' (acquire cx >>= f) post := by
  intro s hs
  obtain ⟨slot, s₁, hacquire, hfree, hv, hle⟩ := acquire_valid hs
  have hx : Meets (Refusal cx) (Lowering.acquire cx) s fun k s' => k = slot ∧ s' = s₁ := by
    rw [Meets, hacquire]
    exact ⟨rfl, rfl⟩
  refine hx.bind fun k s' hks => ?_
  obtain ⟨rfl, rfl⟩ := hks
  refine (hf k s' hv).weaken fun b s₂ hb => ?_
  obtain ⟨hv', hle', hpost⟩ := hb
  refine ⟨hv', hle.trans hle', fun size hsize => ?_⟩
  have hreserved := hv.held_reserved k List.mem_cons_self
  refine hpost size hsize ⟨hreserved.1, ?_, hfree⟩
  have := hreserved.2
  omega

/-- A computation that begins by giving a scratch variable back. -/
lemma release {slot : Nat} {f : Unit → Lower β} {post : Nat → β → Prop}
    (hf : Emits cx held held' (f ()) post) :
    Emits cx (slot :: held) held' (release slot >>= f) post :=
  fun _ hs => Meets.modify_bind (hf _ (release_valid hs))

end Emits

/-! ### Expressions -/

/-- The slots, the types and the roots of a function fit together. -/
structure Consistent (cx : LoweringContext) : Prop where
  slotted : ∀ {name t}, cx.typing.variableTypes.find? name = some t → name ∈ cx.names
  roots_typed : ∀ r ∈ cx.function.roots, RootTyped cx.table cx.typing r

lemma expressionType_eq {τ : Typing} {id : ExprId} {t : ValueType}
    (h : τ.expressionTypes.find? id = some t) : τ.expressionType id = .ok t := by
  rw [Typing.expressionType, h]

lemma IsVariable.variableType {name : String} {slot : Nat} {t : ValueType}
    (h : IsVariable cx name slot t) : cx.typing.variableType name = .ok t := by
  rw [Typing.variableType, h.type_eq]

/-- A variable that has a type has a slot. -/
lemma Consistent.isVariable (hc : Consistent cx) {name : String} {t : ValueType}
    (h : cx.typing.variableTypes.find? name = some t) :
    ∃ k, slot cx name = .ok k ∧ IsVariable cx name k t := by
  have hmem := hc.slotted h
  obtain ⟨k, hk⟩ := Option.isSome_iff_exists.mp (List.isSome_idxOf?.mpr hmem)
  refine ⟨k, ?_, hk, h⟩
  rw [slot_eq, hk]

/-- Among the operators that have a type, only remainders of doubles have no
instruction. -/
lemma instruction_eq_error {op : BinaryOp} {float : Bool} {e : CompileError}
    (hop : op.isComparison = true ∨ op.isArithmetic = true)
    (h : instruction op float = .error e) :
    op = .rem ∧ float = true ∧ e = .unsupportedOperator BinaryOp.rem.symbol true := by
  have hcomparison : op.isComparison = false := by
    by_contra hne
    rw [instruction, if_pos (by simpa using hne)] at h
    cases h
  rw [instruction, if_neg (by simp [hcomparison])] at h
  cases op <;> cases float <;> simp_all [arithmetic, BinaryOp.isArithmetic]

/-- The type of an operator's result. -/
lemma instruction_type {op : BinaryOp} {float : Bool} {i : Op} {t : ValueType}
    (h : instruction op float = .ok (i, t)) :
    t = if op.isComparison then .boolean else operandType float := by
  rw [instruction] at h
  split at h
  · rw [if_pos ‹_›]
    cases h
    rfl
  · rw [if_neg ‹_›]
    obtain ⟨i', _, h⟩ := bind_eq_ok.mp h
    cases h
    rfl

lemma Combines.type_eq {op : BinaryOp} {x y z : Operand} (h : Combines op x y z) :
    z.type = if op.isComparison then .boolean else x.type.arithmetic y.type := by
  obtain ⟨hfloat, hchosen⟩ := h
  subst hfloat
  exact instruction_type hchosen

lemma combine_emits {held held' : List Nat} {op : BinaryOp} {left : Operand}
    {rightType : ValueType} {lowerRight : Lower Operand} {mid : Nat → Operand → Prop}
    (hrefused : ∀ e, instruction op (left.type.isFloat || rightType.isFloat) = .error e →
      Refusal cx e)
    (hright : Emits cx held held' lowerRight mid)
    (htype : ∀ size y, mid size y → y.type = rightType) :
    Emits cx held held' (combine op left rightType lowerRight) fun size z =>
      ∃ y, mid size y ∧ Combines op left y z := by
  rw [combine]
  have hchosen : Emits cx held held (liftM (instruction op (left.type.isFloat ||
      rightType.isFloat)) : Lower (Op × ValueType)) fun _ r =>
      instruction op (left.type.isFloat || rightType.isFloat) = .ok r :=
    Emits.lift (fun a ha _ => ha) hrefused
  refine hchosen.bind fun r _ hr => ?_
  refine hright.bind fun y size₀ hy => Emits.pure fun size hmid _ => ⟨y, hmid, ?_⟩
  obtain rfl := htype size₀ y hy
  exact ⟨rfl, hr⟩

mutual

/-- What lowering does with a typed expression of the function. -/
theorem expression_emits (hc : Consistent cx) : ∀ (e : Expr) {t : ValueType} {held : List Nat},
    e.preorder ⊆ cx.function.expressions → HasType cx.table cx.typing e t →
    Emits cx held held (expression cx e) fun size x => x.type = t ∧ Lowers cx size held e x
  | .number id x, t, held, _, h => by
      cases h with | number recorded => ?_
      rw [expression, expressionType_eq recorded]
      exact Emits.ok_bind (Emits.pure fun _ => ⟨rfl, .number⟩)
  | .boolean id b, t, held, _, h => by
      cases h
      rw [expression]
      exact Emits.pure fun _ => ⟨rfl, .boolean⟩
  | .identifier id name, t, held, _, h => by
      cases h with | identifier recorded variable_type => ?_
      obtain ⟨k, hk, hvariable⟩ := hc.isVariable variable_type
      rw [expression, hk, expressionType_eq recorded]
      exact Emits.ok_bind (Emits.ok_bind (Emits.pure fun _ => ⟨rfl, .identifier hvariable⟩))
  | .array id elements, t, held, hin, h => by
      rw [Expr.preorder, List.cons_subset] at hin
      rw [expression]
      exact Emits.throw (.arrayLiteral hin.1)
  | .unary id .not a, t, held, hin, h => by
      rw [Expr.preorder, List.cons_subset] at hin
      cases h with
      | sign _ op_ne _ => exact absurd rfl op_ne
      | not _ part =>
          rw [expression]
          exact (expression_emits hc a hin.2 part).bind fun x _ _ => Emits.pure fun _ hx =>
            ⟨rfl, .not hx.2⟩
  | .unary id .minus a, t, held, hin, h => by
      rw [Expr.preorder, List.cons_subset] at hin
      cases h with | @sign _ _ _ t _ _ part => ?_
      rw [expression, part.expressionType]
      refine Emits.ok_bind ?_
      cases hfloat : t.isFloat with
      | true =>
          refine (expression_emits hc a hin.2 part).bind fun x _ _ => Emits.pure fun _ hx => ?_
          exact ⟨by simp [ValueType.numeric, hfloat], .minusFloat hx.2 (by rw [hx.1, hfloat])⟩
      | false =>
          refine (expression_emits hc a hin.2 part).bind fun x _ _ => Emits.pure fun _ hx => ?_
          exact ⟨by simp [ValueType.numeric, hfloat], .minusWord hx.2 (by rw [hx.1, hfloat])⟩
  | .unary id .plus a, t, held, hin, h => by
      rw [Expr.preorder, List.cons_subset] at hin
      cases h with | sign _ _ part => ?_
      rw [expression]
      exact (expression_emits hc a hin.2 part).bind fun x _ _ => Emits.pure fun _ hx =>
        ⟨by rw [hx.1], .plus hx.2⟩
  | .binary id op a b, t, held, hin, h => by
      rw [Expr.preorder, List.cons_subset, List.append_subset] at hin
      obtain ⟨u, v, hleft, hright, hop, ht⟩ := h.binary
      rw [expression, hright.expressionType]
      refine (expression_emits hc a hin.2.1 hleft).bind fun x _ hx => Emits.ok_bind ?_
      refine (combine_emits (fun e he => ?_) (expression_emits hc b hin.2.2 hright)
        fun _ _ hy => hy.1).weaken ?_
      · obtain ⟨rfl, hfloat, rfl⟩ := instruction_eq_error hop he
        have hrecorded : cx.typing.expressionTypes.find? id = some t := h.recorded
        refine .remainderOfDoubles hin.1 ?_
        rw [expressionType_eq hrecorded, ht, ValueType.arithmetic, ← hx.1, hfloat]
        rfl
      · rintro size z ⟨y, hy, hz⟩ hx'
        exact ⟨by rw [hz.type_eq, hx.1, hy.1, ht], .binary hx'.2 hy.2 hz⟩
  | .logical id op a b, t, held, hin, h => by
      rw [Expr.preorder, List.cons_subset, List.append_subset] at hin
      cases h with | logical _ left right => ?_
      rw [expression]
      refine (expression_emits hc a hin.2.1 left).bind fun x _ _ => Emits.acquire fun slot => ?_
      -- the right operand is lowered while the scratch variable is held
      refine (expression_emits hc b hin.2.2 right).bind fun y _ _ => Emits.release ?_
      exact Emits.pure fun size hy hslot hx => ⟨rfl, .logical hx.2 hslot hy.2⟩
  | .index id object position, t, held, hin, h => by
      rw [Expr.preorder, List.cons_subset, List.append_subset] at hin
      cases h with | index _ object_type object_array position_type => ?_
      rw [expression]
      refine (expression_emits hc object hin.2.1 object_type).bind fun x _ _ => ?_
      refine (expression_emits hc position hin.2.2 position_type).bind fun y _ _ => Emits.pure ?_
      intro size hy hx
      refine ⟨?_, .index ⟨_, hin.1, rfl⟩ hx.2 (by rw [hx.1, object_array]) hy.2⟩
      rw [address, hx.1]
  | .property id object name, t, held, hin, h => by
      rw [Expr.preorder, List.cons_subset] at hin
      cases h with | length _ object_type object_array => ?_
      rw [expression, if_pos rfl]
      refine (expression_emits hc object hin.2 object_type).bind fun x _ _ => ?_
      refine Emits.pure fun _ hx => ⟨rfl, ?_⟩
      exact .length ⟨_, hin.1, rfl⟩ hx.2 (by rw [hx.1, object_array])
  | .call id callee arguments, t, held, hin, h => by
      rw [Expr.preorder, List.cons_subset, List.append_subset] at hin
      cases h with | @call _ _ name _ signature _ callee_name callee_signature parts => ?_
      obtain ⟨i, rfl⟩ := Expr.eq_of_identifier? callee_name
      rw [expression]
      simp only [callee_name, SignatureTable.require, callee_signature]
      split
      · rename_i index hindex
        refine Emits.ok_bind ?_
        split
        · exact fun _ _ => Meets.throw_bind (.callArity hin.1 callee_signature ‹_›)
        · rename_i harity
          rw [not_not] at harity
          refine (callArguments_emits hc arguments signature.parameters harity.symm hin.2.2
            parts).bind fun code _ _ => Emits.pure fun _ hcode => ⟨rfl, ?_⟩
          exact .call callee_name hindex callee_signature harity hcode
      · rename_i hnone
        exact Emits.throw (.unknownFunction hin.1 (Option.eq_none_iff_forall_ne_some.mpr hnone))
  | .assign id op target value, t, held, hin, h => by
      rw [Expr.preorder, List.cons_subset] at hin
      rw [expression]
      exact Emits.throw (.usedAsValue hin.1 rfl)
  | .update id op leading a, t, held, hin, h => by
      rw [Expr.preorder, List.cons_subset] at hin
      rw [expression]
      exact Emits.throw (.usedAsValue hin.1 rfl)

/-- What lowering does with typed arguments of the right number. -/
theorem callArguments_emits (hc : Consistent cx) : ∀ (es : List Expr) (types : List ValueType)
    {held : List Nat}, es.length = types.length →
    Expr.preorderList es ⊆ cx.function.expressions → HaveTypes cx.table cx.typing es →
    Emits cx held held (callArguments cx es types) fun size code =>
      LowersArguments cx size held es types code
  | [], [], held, _, _, _ => by
      rw [callArguments]
      · exact Emits.pure fun _ => .nil
      · simp
  | e :: rest, t :: types, held, hlength, hin, h => by
      rw [Expr.preorderList, List.append_subset] at hin
      cases h with | cons head tail => ?_
      rw [callArguments]
      refine (expression_emits hc e hin.1 head).bind fun x _ _ => ?_
      refine (callArguments_emits hc rest types (by simpa using hlength) hin.2 tail).bind
        fun code _ _ => Emits.pure fun _ hcode hx => .cons hx.2 hcode
  | [], _ :: _, _, hlength, _, _ => by simp at hlength
  | _ :: _, [], _, hlength, _, _ => by simp at hlength

end

/-! ### Assignments -/

lemma binaryOp?_eq_none {op : AssignOp} (h : op.binaryOp? = none) : op = .assign := by
  cases op <;> simp_all [AssignOp.binaryOp?]

/-- Every operator that an assignment with a type is combined with has an instruction. -/
lemma instruction_compound {op : AssignOp} {o : BinaryOp} (hop : op ≠ .remAssign)
    (h : op.binaryOp? = some o) (float : Bool) : ∃ r, instruction o float = .ok r := by
  cases op <;> cases float <;> simp_all [AssignOp.binaryOp?] <;> subst h <;> exact ⟨_, _, rfl⟩

/-- Steps by one have an instruction. -/
lemma arithmetic_update (op : UpdateOp) (float : Bool) :
    ∃ step, arithmetic op.binaryOp float = .ok step := by
  cases op <;> cases float <;> exact ⟨_, rfl⟩

lemma combine_compound_emits {held held' : List Nat} {op : AssignOp} {o : BinaryOp}
    {left : Operand} {rightType : ValueType} {lowerRight : Lower Operand}
    {mid : Nat → Operand → Prop} (hop : op ≠ .remAssign) (hcompound : op.binaryOp? = some o)
    (hright : Emits cx held held' lowerRight mid)
    (htype : ∀ size y, mid size y → y.type = rightType) :
    Emits cx held held' (combine o left rightType lowerRight) fun size z =>
      ∃ y, mid size y ∧ Combines o left y z := by
  refine combine_emits (fun e he => ?_) hright htype
  obtain ⟨r, hr⟩ := instruction_compound hop hcompound (left.type.isFloat || rightType.isFloat)
  rw [hr] at he
  cases he

lemma assign_emits (hc : Consistent cx) {id : ExprId} {op : AssignOp} {target value : Expr}
    {t u : ValueType} (hin : (Expr.assign id op target value).preorder ⊆ cx.function.expressions)
    (hop : op ≠ .remAssign) (hvalue : HasType cx.table cx.typing value t)
    (htarget : HasType cx.table cx.typing target u) :
    Emits cx [] [] (assign cx op target value) fun size code =>
      Acts cx size (.assign id op target value) code := by
  rw [Expr.preorder, List.cons_subset, List.append_subset] at hin
  obtain ⟨hself, hintarget, hinvalue⟩ := hin
  unfold assign
  split
  · rename_i i name
    cases htarget with | identifier recorded variable_type => ?_
    obtain ⟨k, hk, hvariable⟩ := hc.isVariable variable_type
    simp only [hk, hvariable.variableType, hvalue.expressionType]
    refine Emits.ok_bind (Emits.ok_bind ?_)
    split
    · rename_i hplain
      obtain rfl := binaryOp?_eq_none hplain
      refine (expression_emits hc value hinvalue hvalue).bind fun x _ _ => ?_
      exact Emits.pure fun _ hx => .assignVariable hvariable hx.2
    · rename_i o hcompound
      refine Emits.ok_bind ((combine_compound_emits hop hcompound
        (expression_emits hc value hinvalue hvalue) fun _ _ hy => hy.1).bind fun z _ _ => ?_)
      refine Emits.pure fun _ hz => ?_
      obtain ⟨y, hy, hz⟩ := hz
      exact .combineVariable hcompound hvariable hy.2 hz
  · rename_i i object position
    rw [Expr.preorder, List.cons_subset, List.append_subset] at hintarget
    cases htarget with | index _ object_type object_array position_type => ?_
    refine (expression_emits hc object hintarget.2.1 object_type).bind fun x _ hx₀ => ?_
    refine (expression_emits hc position hintarget.2.2 position_type).bind fun y _ _ => ?_
    have harray : x.type.isArray = true := by rw [hx₀.1, object_array]
    have hparts : TakesParts cx := ⟨_, hintarget.1, rfl⟩
    dsimp only
    split
    · rename_i hplain
      obtain rfl := binaryOp?_eq_none hplain
      refine (expression_emits hc value hinvalue hvalue).bind fun z _ _ => ?_
      exact Emits.pure fun _ hz hy hx => .assignElement hparts hx.2 harray hy.2 hz.2
    · rename_i o hcompound
      refine Emits.acquire fun slot => ?_
      rw [hvalue.expressionType]
      refine Emits.ok_bind ((combine_compound_emits hop hcompound
        (expression_emits hc value hinvalue hvalue) fun _ _ hy => hy.1).bind fun w _ _ => ?_)
      refine Emits.release (Emits.pure fun _ hw hslot hy hx => ?_)
      obtain ⟨z, hz, hw⟩ := hw
      exact .combineElement hcompound hparts hx.2 harray hy.2 hslot hz.2 hw
  · rename_i hidentifier hindex
    refine Emits.throw (.assignTarget hself fun htarget' => ?_)
    unfold IsTarget at htarget'
    split at htarget'
    · exact hidentifier _ _ rfl
    · exact hindex _ _ _ rfl
    · exact htarget'

lemma update_emits (hc : Consistent cx) {id : ExprId} {op : UpdateOp} {leading : Bool}
    {target : Expr} {t : ValueType}
    (hin : (Expr.update id op leading target).preorder ⊆ cx.function.expressions)
    (htarget : HasType cx.table cx.typing target t) :
    Emits cx [] [] (update cx op target) fun size code =>
      Acts cx size (.update id op leading target) code := by
  rw [Expr.preorder, List.cons_subset] at hin
  obtain ⟨hself, hintarget⟩ := hin
  unfold update
  split
  · rename_i i name
    cases htarget with | identifier recorded variable_type => ?_
    obtain ⟨k, hk, hvariable⟩ := hc.isVariable variable_type
    obtain ⟨step, hstep⟩ := arithmetic_update op t.isFloat
    simp only [hk, hvariable.variableType]
    refine Emits.ok_bind (Emits.ok_bind ?_)
    rw [hstep]
    exact Emits.ok_bind (Emits.pure fun _ => .updateVariable hvariable hstep)
  · rename_i i object position
    rw [Expr.preorder, List.cons_subset, List.append_subset] at hintarget
    cases htarget with | index _ object_type object_array position_type => ?_
    refine (expression_emits hc object hintarget.2.1 object_type).bind fun x _ hx₀ => ?_
    refine (expression_emits hc position hintarget.2.2 position_type).bind fun y _ _ => ?_
    obtain ⟨step, hstep⟩ := arithmetic_update op (address x y).type.isFloat
    refine Emits.acquire fun slot => ?_
    simp only [hstep]
    refine Emits.ok_bind (Emits.release (Emits.pure fun _ hslot hy hx => ?_))
    exact .updateElement ⟨_, hintarget.1, rfl⟩ hx.2 (by rw [hx₀.1, object_array]) hy.2 hslot hstep
  · rename_i hidentifier hindex
    refine Emits.throw (.updateTarget hself fun htarget' => ?_)
    unfold IsTarget at htarget'
    split at htarget'
    · exact hidentifier _ _ rfl
    · exact hindex _ _ _ rfl
    · exact htarget'

/-- What lowering does with a typed expression that is run for what it does. -/
theorem effect_emits (hc : Consistent cx) {e : Expr} {t : ValueType}
    (hin : e.preorder ⊆ cx.function.expressions) (h : HasType cx.table cx.typing e t) :
    Emits cx [] [] (effect cx e) fun size code => Acts cx size e code := by
  unfold effect
  split
  · cases h with | assign _ op_ne value_type target_type => ?_
    exact assign_emits hc hin op_ne value_type target_type
  · cases h with | update _ part => ?_
    exact update_emits hc hin part
  · rename_i hassign hupdate
    refine (expression_emits hc e hin h).bind fun x _ _ => Emits.pure fun _ hx => ?_
    refine .value ?_ hx.2
    cases e with
    | assign => exact absurd rfl (hassign _ _ _ _)
    | update => exact absurd rfl (hupdate _ _ _ _)
    | _ => rfl

/-! ### Statements -/

/-- An expression that is a root of the function. -/
lemma Consistent.expression_root (hc : Consistent cx) {e : Expr}
    (h : .expression e ∈ cx.function.roots) :
    e.preorder ⊆ cx.function.expressions ∧ ∃ t, HasType cx.table cx.typing e t :=
  ⟨fun _ he => cx.function.rootExpressions_sublist.subset (List.mem_flatMap.mpr ⟨_, h, he⟩),
    hc.roots_typed _ h⟩

lemma declarators_emits (hc : Consistent cx) (ds : List Declarator)
    (h : ds.map Root.declarator ⊆ cx.function.roots) :
    Emits cx [] [] (declarators cx ds) fun size code => Declares cx size ds code := by
  induction ds with
  | nil => exact Emits.pure fun _ => .nil
  | cons d rest ih =>
      rw [List.map_cons, List.cons_subset] at h
      obtain ⟨target, init⟩ := d
      obtain ⟨name, hname, hinit⟩ := hc.roots_typed _ h.1
      have hrest := ih h.2
      rw [declarators]
      simp only at hname hinit
      cases init with
      | none =>
          simp only [hname]
          exact hrest.weaken fun _ _ hcode => .bare hname hcode
      | some init =>
          obtain ⟨t, u, ht, hu⟩ := hinit init rfl
          obtain ⟨k, hk, hvariable⟩ := hc.isVariable hu
          have hin : init.preorder ⊆ cx.function.expressions := fun _ he =>
            cx.function.rootExpressions_sublist.subset (List.mem_flatMap.mpr ⟨_, h.1, he⟩)
          simp only [hname, hk, hvariable.variableType]
          refine Emits.ok_bind (Emits.ok_bind ?_)
          refine (expression_emits hc init hin ht).bind fun x _ _ => hrest.bind fun code _ _ => ?_
          exact Emits.pure fun _ hcode hx => .bound hname hvariable hx.2 hcode

lemma loopExit_emits (hc : Consistent cx) (test : Option Expr)
    (h : Root.ofOption test ⊆ cx.function.roots) :
    Emits cx [] [] (loopExit cx test) fun size code => Exits cx size test code := by
  cases test with
  | none => exact Emits.pure fun _ => .never
  | some e =>
      obtain ⟨hin, t, ht⟩ := hc.expression_root (h List.mem_cons_self)
      exact (expression_emits hc e hin ht).bind fun x _ _ => Emits.pure fun _ hx => .tested hx.2

lemma loopStep_emits (hc : Consistent cx) (step : Option Expr)
    (h : Root.ofOption step ⊆ cx.function.roots) :
    Emits cx [] [] (loopStep cx step) fun size code => Steps cx size step code := by
  cases step with
  | none => exact Emits.pure fun _ => .none
  | some e =>
      obtain ⟨hin, t, ht⟩ := hc.expression_root (h List.mem_cons_self)
      exact (effect_emits hc hin ht).weaken fun _ _ hcode => .some hcode

mutual

/-- What lowering does with a statement of the function. -/
theorem statement_emits (hc : Consistent cx) : ∀ s : Statement,
    s.visits ⊆ cx.function.visits → s.roots ⊆ cx.function.roots →
    Emits cx [] [] (statement cx s) fun size code => LowersStatement cx size s code
  | .function name _ _ _, hv, _ => by
      simp only [Statement.visits, List.cons_subset] at hv
      rw [statement]
      exact Emits.throw (.nestedFunction hv.2.1)
  | .declare kind ds, _, h => by
      rw [Statement.roots] at h
      rw [statement]
      exact (declarators_emits hc ds h).weaken fun _ _ hcode => .declare hcode
  | .expression e, _, h => by
      rw [Statement.roots, List.cons_subset] at h
      rw [statement]
      obtain ⟨hin, t, ht⟩ := hc.expression_root h.1
      exact (effect_emits hc hin ht).weaken fun _ _ hcode => .expression hcode
  | .ret none, _, _ => by
      rw [statement]
      exact Emits.pure fun _ => .retZero
  | .ret (some e), _, h => by
      rw [Statement.roots, Root.ofOption, List.cons_subset] at h
      rw [statement]
      obtain ⟨hin, t, ht⟩ := hc.expression_root h.1
      exact (expression_emits hc e hin ht).bind fun x _ _ => Emits.pure fun _ hx => .ret hx.2
  | .conditional test consequent alternate, hv, h => by
      simp only [Statement.visits, List.cons_subset, List.append_subset] at hv
      rw [Statement.roots, List.cons_subset, List.append_subset] at h
      obtain ⟨_, ⟨_, hvfirst⟩, hvsecond⟩ := hv
      obtain ⟨htest, hfirst, hsecond⟩ := h
      obtain ⟨hin, t, ht⟩ := hc.expression_root htest
      rw [statement]
      refine (expression_emits hc test hin ht).bind fun x _ _ => ?_
      refine (statement_emits hc consequent hvfirst hfirst).bind fun code _ _ => ?_
      refine (alternative_emits hc alternate hvsecond hsecond).bind fun other _ _ => ?_
      exact Emits.pure fun _ hother hcode hx => .conditional hx.2 hcode hother
  | .whileLoop test body, hv, h => by
      simp only [Statement.visits, List.cons_subset, List.append_subset] at hv
      rw [Statement.roots, List.cons_subset] at h
      rw [statement]
      refine (loopExit_emits hc (some test) ?_).bind fun exit _ _ => ?_
      · simpa [Root.ofOption] using h.1
      refine (statement_emits hc body hv.2.2 h.2).bind fun code _ _ => ?_
      exact Emits.pure fun _ hcode hexit => .whileLoop hexit hcode
  | .forLoop init test update body, hv, h => by
      simp only [Statement.visits, List.cons_subset, List.append_subset] at hv
      simp only [Statement.roots, List.append_subset] at h
      obtain ⟨_, ⟨⟨hvinit, _⟩, _⟩, hvbody⟩ := hv
      obtain ⟨⟨⟨hinit, htest⟩, hupdate⟩, hbody⟩ := h
      rw [statement]
      refine (initial_emits hc init hvinit hinit).bind fun first _ _ => ?_
      refine (loopExit_emits hc test htest).bind fun exit _ _ => ?_
      refine (statement_emits hc body hvbody hbody).bind fun code _ _ => ?_
      refine (loopStep_emits hc update hupdate).bind fun step _ _ => ?_
      exact Emits.pure fun _ hstep hcode hexit hfirst => .forLoop hfirst hexit hcode hstep
  | .block body, hv, h => by
      rw [Statement.visits, List.cons_subset] at hv
      rw [statement]
      exact (statements_emits hc body hv.2 h).weaken fun _ _ hcode => .block hcode
  | .empty, _, _ => by
      rw [statement]
      exact Emits.pure fun _ => .empty

theorem alternative_emits (hc : Consistent cx) : ∀ s : Option Statement,
    Statement.visitsOption s ⊆ cx.function.visits →
    Statement.rootsOption s ⊆ cx.function.roots →
    Emits cx [] [] (alternative cx s) fun size code => LowersAlternative cx size s code
  | none, _, _ => by
      rw [alternative]
      exact Emits.pure fun _ => .none
  | some s, hv, h => by
      rw [alternative]
      exact (statement_emits hc s hv h).bind fun code _ _ => Emits.pure fun _ hcode => .some hcode

theorem initial_emits (hc : Consistent cx) : ∀ s : Option Statement,
    Statement.visitsOption s ⊆ cx.function.visits →
    Statement.rootsOption s ⊆ cx.function.roots →
    Emits cx [] [] (initial cx s) fun size code => LowersInitial cx size s code
  | none, _, _ => by
      rw [initial]
      exact Emits.pure fun _ => .none
  | some s, hv, h => by
      rw [initial]
      exact (statement_emits hc s hv h).weaken fun _ _ hcode => .some hcode

theorem statements_emits (hc : Consistent cx) : ∀ ss : List Statement,
    Statement.visitsList ss ⊆ cx.function.visits →
    Statement.rootsList ss ⊆ cx.function.roots →
    Emits cx [] [] (statements cx ss) fun size code => LowersStatements cx size ss code
  | [], _, _ => by
      rw [statements]
      exact Emits.pure fun _ => .nil
  | s :: rest, hv, h => by
      rw [Statement.visitsList, List.append_subset] at hv
      rw [Statement.rootsList, List.append_subset] at h
      rw [statements]
      refine (statement_emits hc s hv.1 h.1).bind fun code _ _ => ?_
      refine (statements_emits hc rest hv.2 h.2).bind fun tail _ _ => ?_
      exact Emits.pure fun _ htail hcode => .cons hcode htail

end

/-! ### Functions -/

/-- Lowering a consistent function is refused for a stated reason, or gives code that
belongs to the body. -/
theorem lower_cases (hc : Consistent cx) :
    (∃ e, cx.lower = .error e ∧ Refusal cx e) ∨
    ∃ code count, LowersStatements cx (cx.names.length + count) cx.function.body code ∧
      cx.lower = .ok {
        name := cx.function.displayName
        params := cx.signature.parameters.map ValueType.wordType
        result := cx.signature.returnType.wordType
        locals := localTypes cx ++ List.replicate count .i32
        localNames := cx.names ++ scratchNames count
        body := code ++ plain [zero cx.signature.returnType] } := by
  have h := statements_emits hc cx.function.body (List.Subset.refl _) (List.Subset.refl _) {}
    valid_start
  rw [LoweringContext.lower, body]
  simp only [StateT.run, Bind.bind, StateT.bind]
  cases hrun : statements cx cx.function.body {} with
  | error e => exact .inl ⟨e, rfl, h.of_error hrun⟩
  | ok r =>
      obtain ⟨code, scratch⟩ := r
      exact .inr ⟨code, scratch.count, (h.of_ok hrun).2.2 _ le_rfl, rfl⟩

/-- A function with slots and types is consistent. -/
theorem consistent_of_analyses {slots : Slots} (hslots : Slots.resolve cx.function = .ok slots)
    (hτ : Typing.ofFunction cx.function cx.signature cx.table = .ok cx.typing)
    (hnames : cx.names = slots.names) (hids : (cx.function.expressions.map Expr.id).Nodup) :
    Consistent cx where
  slotted h := by
    rw [hnames]
    exact Slots.mem_names_of_typed hslots hτ h
  roots_typed := by
    refine ofFunction_rootTyped (hids.sublist ?_) hτ
    exact cx.function.rootExpressions_sublist.map _

end ArrayScript.Lowering
