import ArrayScript.Proofs.Lowering.Emission
import ArrayScript.Proofs.Typing.Bindings

/-!
Slots, types and code agree.

Names are resolved to slots, expressions are given types and code is emitted by three
walks through a function, in different orders. `analyses_agree` says that what the
first two find is all that the third one asks for: a function with slots and types is
refused only for something that occurs in it and that the first two do not look at,
and the type of every operand is the type that was found for its expression.
-/

namespace ArrayScript

open Lowering Typing

namespace Typing

variable {table : SignatureTable} {τ : Typing}

/-! ### The parts of typed expressions -/

/-- Within an expression, only the names of called functions have no type. -/
def TypedOrCallee (table : SignatureTable) (τ : Typing) (e : Expr) : Prop :=
  (∃ t, HasType table τ e t) ∨ ∃ name, e.identifier? = some name

lemma HasType.parts_typed {e : Expr} {t : ValueType} (h : HasType table τ e t) :
    ∀ part ∈ e.preorder, TypedOrCallee table τ part := by
  intro part hpart
  rcases List.mem_append.mp (h.parted.perm.mem_iff.mp hpart) with hvalue | hcallee
  · exact .inl (h.parted.typed part hvalue)
  · exact .inr (h.parted.called part hcallee)

lemma RootTyped.parts_typed {r : Root} (h : RootTyped table τ r) :
    ∀ part ∈ r.expressions, TypedOrCallee table τ part := by
  cases r with
  | expression e =>
      obtain ⟨t, ht⟩ := h
      exact ht.parts_typed
  | declarator d =>
      obtain ⟨target, init⟩ := d
      obtain ⟨_, _, hinit⟩ := h
      cases init with
      | none => simp [Root.expressions]
      | some init =>
          obtain ⟨t, _, ht, _⟩ := hinit init rfl
          exact ht.parts_typed

end Typing

/-! ### The types of operands -/

/-- However many scratch variables there are, the operand of a typed expression has its
type. -/
theorem Lowering.expression_type {cx : LoweringContext} : ∀ (e : Expr) {t : ValueType}
    (s : Scratch), HasType cx.table cx.typing e t →
    Meets (fun _ => True) (expression cx e) s fun x _ => x.type = t
  | .number id x, t, s, h => by
      cases h with | number recorded => ?_
      rw [expression, expressionType_eq recorded]
      exact rfl
  | .boolean id b, t, s, h => by
      cases h
      rw [expression]
      exact rfl
  | .identifier id name, t, s, h => by
      cases h with | identifier recorded _ => ?_
      rw [expression, expressionType_eq recorded]
      exact Meets.any.bind fun _ _ _ => rfl
  | .array _ _, t, s, h => by
      rw [expression]
      exact Meets.throw trivial
  | .unary id .not a, t, s, h => by
      cases h with
      | sign _ op_ne _ => exact absurd rfl op_ne
      | not _ part =>
          rw [expression]
          exact Meets.any.bind fun _ _ _ => rfl
  | .unary id .minus a, t, s, h => by
      cases h with | @sign _ _ _ t _ _ part => ?_
      rw [expression, part.expressionType, ValueType.numeric]
      show Meets _ (if t.isFloat = true then _ else _) s _
      split
      all_goals exact Meets.any.bind fun _ _ _ => rfl
  | .unary id .plus a, t, s, h => by
      cases h with | sign _ _ part => ?_
      rw [expression]
      exact (expression_type a s part).bind fun x _ hx => congrArg ValueType.numeric hx
  | .binary id op a b, t, s, h => by
      obtain ⟨u, v, hleft, hright, _, ht⟩ := h.binary
      rw [expression, hright.expressionType]
      refine (expression_type a s hleft).bind fun x s₁ hx => ?_
      have hchosen : Meets (fun _ => True) (liftM (instruction op (x.type.isFloat || v.isFloat)) :
          Lower (Op × ValueType)) s₁ fun r _ =>
          instruction op (x.type.isFloat || v.isFloat) = .ok r :=
        Meets.lift (fun r hr => hr) fun _ _ => trivial
      show Meets _ (combine op x v (expression cx b)) s₁ _
      rw [combine]
      refine hchosen.bind fun r s₂ hr => Meets.any.bind fun y s₃ _ => ?_
      show r.2 = t
      rw [instruction_type hr, ht, hx]
      rfl
  | .logical id op a b, t, s, h => by
      cases h
      rw [expression]
      refine Meets.any.bind fun _ _ _ => Meets.any.bind fun _ _ _ => ?_
      exact Meets.any.bind fun _ _ _ => rfl
  | .index id object position, t, s, h => by
      cases h with | index _ object_type _ _ => ?_
      rw [expression]
      refine (expression_type object s object_type).bind fun x _ hx => ?_
      exact Meets.any.bind fun _ _ _ => congrArg ValueType.elementType hx
  | .property id object name, t, s, h => by
      cases h
      rw [expression, if_pos rfl]
      exact Meets.any.bind fun _ _ _ => rfl
  | .call id callee arguments, t, s, h => by
      cases h with | call _ callee_name callee_signature _ => ?_
      rw [expression]
      simp only [callee_name, SignatureTable.require, callee_signature]
      split
      · show Meets _ (if _ then _ else _) s _
        split
        · exact Meets.throw_bind trivial
        · exact Meets.any.bind fun _ _ _ => rfl
      · exact Meets.throw trivial
  | .assign _ _ _ _, t, s, h => by
      rw [expression]
      exact Meets.throw trivial
  | .update _ _ _ _, t, s, h => by
      rw [expression]
      exact Meets.throw trivial

/-! ### Agreement -/

/-- An identifier is lowered with the type that was recorded for it. -/
lemma Lowering.identifier_type {cx : LoweringContext} {e : Expr} {name : String}
    (he : e.identifier? = some name) {s s' : Scratch} {x : Operand}
    (h : expression cx e s = .ok (x, s')) : cx.typing.expressionType e.id = .ok x.type := by
  obtain ⟨i, rfl⟩ := Expr.eq_of_identifier? he
  rw [expression] at h
  cases hk : slot cx name with
  | error e =>
      rw [hk] at h
      cases h
  | ok k =>
      cases ht : cx.typing.expressionType i with
      | error e =>
          rw [hk, ht] at h
          cases h
      | ok t =>
          rw [hk, ht] at h
          cases h
          exact ht

/-- The code of a function with slots and types is refused only for something that
occurs in it, and every operand has the type that was found for its expression. -/
theorem analyses_agree {f : FunctionDeclaration} {signature : Signature} {table : SignatureTable}
    {slots : Slots} {τ : Typing} (indices : Table String Nat)
    (hids : (f.expressions.map Expr.id).Nodup) (hslots : Slots.resolve f = .ok slots)
    (hτ : Typing.ofFunction f signature table = .ok τ) :
    let cx : LoweringContext :=
      ⟨f, signature, table, slots.merged, slots.merged_firstSlot, τ, indices⟩
    (∀ e, cx.lower = .error e → Refusal cx e) ∧
      ∀ e ∈ f.rootExpressions, ∀ (s s' : Scratch) (x : Operand),
        expression cx e s = .ok (x, s') → τ.expressionType e.id = .ok x.type := by
  intro cx
  have hc : Consistent cx := consistent_of_analyses hslots hτ rfl hids
  refine ⟨fun e he => ?_, fun e he s s' x hx => ?_⟩
  · rcases lower_cases hc with ⟨e', he', hrefusal⟩ | ⟨code, count, _, hok⟩
    · rw [he', Except.error.injEq] at he
      exact he ▸ hrefusal
    · rw [hok] at he
      cases he
  · obtain ⟨r, hr, her⟩ := List.mem_flatMap.mp he
    rcases (hc.roots_typed r hr).parts_typed e her with ⟨t, ht⟩ | ⟨name, hname⟩
    · exact ((expression_type e s ht).of_ok hx) ▸ ht.expressionType
    · exact identifier_type hname hx

/-- `function f(a, i) { a[i] += g(i) && i; return a.length % i; }` -/
def callingFunction : FunctionDeclaration :=
  ⟨some "f", [⟨.identifier "a", none⟩, ⟨.identifier "i", none⟩], none,
    [.expression (.assign 0 .addAssign (.index 1 (.identifier 2 "a") (.identifier 3 "i"))
      (.logical 4 .and (.call 5 (.identifier 6 "g") [.identifier 7 "i"]) (.identifier 8 "i"))),
     .ret (some (.binary 9 .rem (.property 10 (.identifier 11 "a") "length")
      (.identifier 12 "i")))]⟩

theorem callingFunction_agrees :
    ∃ slots τ, Slots.resolve callingFunction = .ok slots ∧
      Typing.ofFunction callingFunction ⟨[.float64Array, .int32], .int32⟩
        (Table.ofList [("g", ⟨[.int32], .boolean⟩)]) = .ok τ ∧
      ∀ indices e, LoweringContext.lower ⟨callingFunction, ⟨[.float64Array, .int32], .int32⟩,
          Table.ofList [("g", ⟨[.int32], .boolean⟩)], slots.merged, slots.merged_firstSlot, τ,
          indices⟩ = .error e →
        Refusal ⟨callingFunction, ⟨[.float64Array, .int32], .int32⟩,
          Table.ofList [("g", ⟨[.int32], .boolean⟩)], slots.merged, slots.merged_firstSlot, τ,
          indices⟩ e :=
  ⟨_, _, rfl, rfl, fun indices => (analyses_agree indices (by decide) rfl rfl).1⟩

end ArrayScript
