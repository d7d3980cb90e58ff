import ArrayScript.Proofs.Compilation.Origin

/-!
What lowering builds, whatever it is told.

`Builds cx size held e x` says that the operand `x` is built by the rule for the
expression `e` from operands that are built from its parts. It differs from `Lowers` in
that nothing is asked of the types in the context: they need not fit each other, nor the
slots, nor the syntax. So it holds of all code that lowering gives, also where the
context did not come about by the analyses.

* `BuildsAct`, `BuildsDeclarators` and `BuildsStatement` say the same of expressions that
  are run for what they do, of declarators and of statements.
* `Ends`: a computation ended with its scratch variables in order.
* `expression_builds` … `statements_builds`: what lowering gives is built.
* `lower_eq_ok`: the same for a whole function.
-/

namespace ArrayScript.Lowering

/-! ### Rules -/

/-- The operand that an operator makes of two others, the right one of which was
announced with a type. -/
inductive Joins (op : BinaryOp) (left : Operand) (announced : ValueType) (right : Operand) :
    Operand → Prop
  | intro {float i t} (float_eq : float = (left.type.isFloat || announced.isFloat))
      (chosen : instruction op float = .ok (i, t)) :
      Joins op left announced right
        ⟨left.as (operandType float) ++ right.as (operandType float) ++ plain [i], t⟩

/-- The constant of a numeric literal that counts as of a type. -/
def constant (t : ValueType) (x : Double) : Op :=
  if t.isFloat then .f64Const x else .i32Const x.toInt32Saturating

mutual

/-- An operand is built from an expression. -/
inductive Builds (cx : LoweringContext) (size : Nat) : List Nat → Expr → Operand → Prop
  | number {held id x t} : Builds cx size held (.number id x) ⟨plain [constant t x], t⟩
  | boolean {held id b} :
      Builds cx size held (.boolean id b) ⟨plain [.i32Const (if b then 1 else 0)], .boolean⟩
  | identifier {held id name slot t} (name_slot : cx.names.idxOf? name = some slot) :
      Builds cx size held (.identifier id name) ⟨plain [.localGet slot], t⟩
  | not {held id a x} (part : Builds cx size held a x) :
      Builds cx size held (.unary id .not a) ⟨x.condition ++ plain [.i32Eqz], .boolean⟩
  | minusFloat {held id a x} (part : Builds cx size held a x) :
      Builds cx size held (.unary id .minus a) ⟨x.code ++ plain [.f64Neg], .float64⟩
  | minusWord {held id a x} (part : Builds cx size held a x) :
      Builds cx size held (.unary id .minus a)
        ⟨plain [.i32Const 0] ++ x.as .int32 ++ plain [.int .sub], .int32⟩
  | plus {held id a x} (part : Builds cx size held a x) :
      Builds cx size held (.unary id .plus a) ⟨x.as x.type.numeric, x.type.numeric⟩
  | binary {held id op a b x t y z} (left : Builds cx size held a x)
      (right : Builds cx size held b y) (result : Joins op x t y z) :
      Builds cx size held (.binary id op a b) z
  | logical {held id op a b x y slot} (left : Builds cx size held a x)
      (scratch : IsScratch cx size held slot) (right : Builds cx size (slot :: held) b y) :
      Builds cx size held (.logical id op a b)
        ⟨x.truth ++ plain [.localSet slot] ++ logicalChoices op y ++
          plain [.localGet slot, .select], .boolean⟩
  | index {held id object position x y} (array : Builds cx size held object x)
      (at' : Builds cx size held position y) :
      Builds cx size held (.index id object position)
        ⟨(address x y).code ++ plain [.load (address x y).type.wordType], (address x y).type⟩
  | length {held id object x} (array : Builds cx size held object x) :
      Builds cx size held (.property id object "length") (length x)
  | call {held id callee name arguments index signature code}
      (callee_name : callee.identifier? = some name)
      (callee_index : cx.indices.find? name = some index)
      (callee_signature : cx.table.find? name = some signature)
      (arity : signature.arity = arguments.length)
      (inputs : BuildsArguments cx size held arguments signature.parameters code) :
      Builds cx size held (.call id callee arguments)
        ⟨code ++ plain [.call index], signature.returnType⟩

/-- Code is built from arguments that are converted to the given types. -/
inductive BuildsArguments (cx : LoweringContext) (size : Nat) :
    List Nat → List Expr → List ValueType → Code → Prop
  | nil {held} : BuildsArguments cx size held [] [] []
  | cons {held e rest t types x code} (head : Builds cx size held e x)
      (tail : BuildsArguments cx size held rest types code) :
      BuildsArguments cx size held (e :: rest) (t :: types) (x.as t ++ code)

end

/-- Code is built from an expression that is run for what it does. -/
inductive BuildsAct (cx : LoweringContext) (size : Nat) : Expr → Code → Prop
  | assignVariable {id i name value slot t x} (name_slot : cx.names.idxOf? name = some slot)
      (new : Builds cx size [] value x) :
      BuildsAct cx size (.assign id .assign (.identifier i name) value)
        (x.as t ++ plain [.localSet slot])
  | combineVariable {id op o i name value slot t u x y} (compound : op.binaryOp? = some o)
      (name_slot : cx.names.idxOf? name = some slot) (right : Builds cx size [] value x)
      (new : Joins o ⟨plain [.localGet slot], t⟩ u x y) :
      BuildsAct cx size (.assign id op (.identifier i name) value)
        (y.as t ++ plain [.localSet slot])
  | assignElement {id i object position value x y z} (array : Builds cx size [] object x)
      (at' : Builds cx size [] position y) (new : Builds cx size [] value z) :
      BuildsAct cx size (.assign id .assign (.index i object position) value)
        ((address x y).code ++ z.as (address x y).type ++
          plain [.store (address x y).type.wordType])
  | combineElement {id op o i object position value u x y z w slot}
      (compound : op.binaryOp? = some o) (array : Builds cx size [] object x)
      (at' : Builds cx size [] position y) (scratch : IsScratch cx size [] slot)
      (right : Builds cx size [slot] value z)
      (new : Joins o ⟨plain [.localGet slot, .load (address x y).type.wordType],
        (address x y).type⟩ u z w) :
      BuildsAct cx size (.assign id op (.index i object position) value)
        ((address x y).code ++ plain [.localTee slot] ++ w.as (address x y).type ++
          plain [.store (address x y).type.wordType])
  | updateVariable {id op leading i name slot t step}
      (name_slot : cx.names.idxOf? name = some slot)
      (chosen : arithmetic op.binaryOp t.isFloat = .ok step) :
      BuildsAct cx size (.update id op leading (.identifier i name))
        (plain [.localGet slot, one t, step, .localSet slot])
  | updateElement {id op leading i object position x y slot step}
      (array : Builds cx size [] object x) (at' : Builds cx size [] position y)
      (scratch : IsScratch cx size [] slot)
      (chosen : arithmetic op.binaryOp (address x y).type.isFloat = .ok step) :
      BuildsAct cx size (.update id op leading (.index i object position))
        ((address x y).code ++ plain [.localTee slot, .localGet slot,
          .load (address x y).type.wordType, one (address x y).type, step,
          .store (address x y).type.wordType])
  | value {e x} (part : Builds cx size [] e x) : BuildsAct cx size e (x.code ++ plain [.drop])

/-- Code is built from declarators. -/
inductive BuildsDeclarators (cx : LoweringContext) (size : Nat) : List Declarator → Code → Prop
  | nil : BuildsDeclarators cx size [] []
  | bare {target rest code} (tail : BuildsDeclarators cx size rest code) :
      BuildsDeclarators cx size (⟨target, none⟩ :: rest) code
  | bound {target init rest name slot t x code} (target_name : target.identifier? = some name)
      (name_slot : cx.names.idxOf? name = some slot) (new : Builds cx size [] init x)
      (tail : BuildsDeclarators cx size rest code) :
      BuildsDeclarators cx size (⟨target, some init⟩ :: rest)
        (x.as t ++ plain [.localSet slot] ++ code)

/-- Code is built from the test of a loop. -/
inductive BuildsExit (cx : LoweringContext) (size : Nat) : Option Expr → Code → Prop
  | never : BuildsExit cx size none []
  | tested {e x} (test : Builds cx size [] e x) :
      BuildsExit cx size (some e) (x.condition ++ plain [.i32Eqz, .brIf 0])

/-- Code is built from the step of a loop. -/
inductive BuildsStep (cx : LoweringContext) (size : Nat) : Option Expr → Code → Prop
  | none : BuildsStep cx size none []
  | some {e code} (part : BuildsAct cx size e code) : BuildsStep cx size (some e) code

mutual

/-- Code is built from a statement. -/
inductive BuildsStatement (cx : LoweringContext) (size : Nat) : Statement → Code → Prop
  | declare {kind ds code} (parts : BuildsDeclarators cx size ds code) :
      BuildsStatement cx size (.declare kind ds) code
  | expression {e code} (part : BuildsAct cx size e code) :
      BuildsStatement cx size (.expression e) code
  | retZero : BuildsStatement cx size (.ret none) (plain [zero cx.signature.returnType, .ret])
  | ret {e x} (part : Builds cx size [] e x) :
      BuildsStatement cx size (.ret (some e)) (x.as cx.signature.returnType ++ plain [.ret])
  | conditional {test consequent alternate x code other} (condition : Builds cx size [] test x)
      (first : BuildsStatement cx size consequent code)
      (second : BuildsAlternative cx size alternate other) :
      BuildsStatement cx size (.conditional test consequent alternate)
        (x.condition ++ [.choice code other])
  | whileLoop {test body exit code} (leaving : BuildsExit cx size (some test) exit)
      (round : BuildsStatement cx size body code) :
      BuildsStatement cx size (.whileLoop test body) (roundAndRound exit code [])
  | forLoop {init test update body first exit code step}
      (before : BuildsInitial cx size init first) (leaving : BuildsExit cx size test exit)
      (round : BuildsStatement cx size body code) (stepping : BuildsStep cx size update step) :
      BuildsStatement cx size (.forLoop init test update body)
        (first ++ roundAndRound exit code step)
  | block {body code} (parts : BuildsStatements cx size body code) :
      BuildsStatement cx size (.block body) code
  | empty : BuildsStatement cx size .empty []

/-- Code is built from the second branch of a conditional. -/
inductive BuildsAlternative (cx : LoweringContext) (size : Nat) :
    Option Statement → Option Code → Prop
  | none : BuildsAlternative cx size none none
  | some {s code} (part : BuildsStatement cx size s code) :
      BuildsAlternative cx size (some s) (some code)

/-- Code is built from what stands before a loop. -/
inductive BuildsInitial (cx : LoweringContext) (size : Nat) : Option Statement → Code → Prop
  | none : BuildsInitial cx size none []
  | some {s code} (part : BuildsStatement cx size s code) : BuildsInitial cx size (some s) code

/-- Code is built from statements in order. -/
inductive BuildsStatements (cx : LoweringContext) (size : Nat) : List Statement → Code → Prop
  | nil : BuildsStatements cx size [] []
  | cons {s rest code tail} (first : BuildsStatement cx size s code)
      (others : BuildsStatements cx size rest tail) :
      BuildsStatements cx size (s :: rest) (code ++ tail)

end

/-! ### Successful computations -/

section

variable {α β : Type} {s s' : Scratch} {a : α}

lemma lower_bind {x : Lower α} {f : α → Lower β} {b : β} :
    (x >>= f) s = .ok (b, s') ↔ ∃ a t, x s = .ok (a, t) ∧ f a t = .ok (b, s') := by
  show Except.bind (x s) (fun p => f p.1 p.2) = _ ↔ _
  cases x s with
  | error e => simp [Except.bind]
  | ok p => exact ⟨fun h => ⟨p.1, p.2, rfl, h⟩, fun ⟨_, _, hp, h⟩ => (Except.ok.inj hp) ▸ h⟩

lemma lower_pure {b : α} : (pure a : Lower α) s = .ok (b, s') ↔ a = b ∧ s = s' := by
  show Except.ok (a, s) = _ ↔ _
  simp

lemma lower_lift {y : Except CompileError α} :
    (liftM y : Lower α) s = .ok (a, s') ↔ y = .ok a ∧ s = s' := by
  cases y with
  | ok b => exact lower_pure.trans (by simp)
  | error e =>
      constructor
      · intro h
        cases h
      · rintro ⟨h, _⟩
        cases h

lemma lower_throw {e : CompileError} : ¬ (throw e : Lower α) s = .ok (a, s') := by
  intro h
  cases h

lemma lower_release {slot : Nat} {u : Unit} :
    release slot s = .ok (u, s') ↔ s' = { s with free := slot :: s.free } := by
  show Except.ok ((), { s with free := slot :: s.free }) = _ ↔ _
  simp [eq_comm]

end

/-- A computation that was started in `s` ended in `s'`, with scratch variables in order,
and what it gave is as said for every number of slots that is large enough. -/
structure Ends (cx : LoweringContext) (held : List Nat) (s s' : Scratch) (built : Nat → Prop) :
    Prop where
  valid : Valid cx held s'
  grows : s.count ≤ s'.count
  built : ∀ size, cx.names.length + s'.count ≤ size → built size

variable {cx : LoweringContext} {held : List Nat} {s s' : Scratch}

lemma acquire_ends {slot : Nat} (hs : Valid cx held s) (h : acquire cx s = .ok (slot, s')) :
    Ends cx (slot :: held) s s' fun size => IsScratch cx size held slot := by
  obtain ⟨slot', t, hacquire, hfree, hvalid, hle⟩ := acquire_valid hs
  obtain ⟨rfl, rfl⟩ := Prod.mk.inj (Except.ok.inj (h.symm.trans hacquire))
  have hreserved := hvalid.held_reserved slot List.mem_cons_self
  exact ⟨hvalid, hle, fun size hsize => ⟨hreserved.1, hreserved.2.trans_le hsize, hfree⟩⟩

lemma slot_eq_ok {name : String} {k : Nat} (h : slot cx name = .ok k) :
    cx.names.idxOf? name = some k := by
  rw [slot_eq] at h
  split at h
  · rename_i hk
    rw [hk, Except.ok.inj h]
  · split at h <;> cases h

/-! ### Expressions -/

/-- The result of an operator between operands that are built. -/
lemma combine_joins {held' : List Nat} {op : BinaryOp} {left z : Operand} {t : ValueType}
    {lowerRight : Lower Operand} {built : Nat → Operand → Prop}
    (hright : ∀ y s', lowerRight s = .ok (y, s') → Ends cx held' s s' fun size => built size y)
    (h : combine op left t lowerRight s = .ok (z, s')) :
    ∃ y, Joins op left t y z ∧ Ends cx held' s s' fun size => built size y := by
  rw [combine] at h
  simp only [lower_bind, lower_lift, lower_pure] at h
  obtain ⟨⟨i, u⟩, _, ⟨hchosen, rfl⟩, y, t', hy, rfl, rfl⟩ := h
  exact ⟨y, ⟨rfl, hchosen⟩, hright y t' hy⟩

mutual

/-- What lowering makes of an expression is built from it. -/
theorem expression_builds : ∀ (e : Expr) {held : List Nat} {s s' : Scratch} {x : Operand},
    Valid cx held s → expression cx e s = .ok (x, s') →
    Ends cx held s s' fun size => Builds cx size held e x
  | .number id v, held, s, s', x, hs, h => by
      rw [expression] at h
      simp only [lower_bind, lower_lift, lower_pure] at h
      obtain ⟨t, _, ⟨_, rfl⟩, rfl, rfl⟩ := h
      exact ⟨hs, le_rfl, fun size _ => .number⟩
  | .boolean id b, held, s, s', x, hs, h => by
      rw [expression, lower_pure] at h
      obtain ⟨rfl, rfl⟩ := h
      exact ⟨hs, le_rfl, fun size _ => .boolean⟩
  | .identifier id name, held, s, s', x, hs, h => by
      rw [expression] at h
      simp only [lower_bind, lower_lift, lower_pure] at h
      obtain ⟨k, _, ⟨hk, rfl⟩, t, _, ⟨_, rfl⟩, rfl, rfl⟩ := h
      exact ⟨hs, le_rfl, fun size _ => .identifier (slot_eq_ok hk)⟩
  | .array id elements, held, s, s', x, hs, h => by
      rw [expression] at h
      exact (lower_throw h).elim
  | .unary id .not a, held, s, s', x, hs, h => by
      rw [expression] at h
      simp only [lower_bind, lower_pure] at h
      obtain ⟨y, _, hy, rfl, rfl⟩ := h
      obtain ⟨hvalid, hle, hbuilt⟩ := expression_builds a hs hy
      exact ⟨hvalid, hle, fun size hsize => .not (hbuilt size hsize)⟩
  | .unary id .minus a, held, s, s', x, hs, h => by
      rw [expression] at h
      simp only [lower_bind, lower_lift] at h
      obtain ⟨t, _, ⟨_, rfl⟩, h⟩ := h
      split at h
      · simp only [lower_bind, lower_pure] at h
        obtain ⟨y, _, hy, rfl, rfl⟩ := h
        obtain ⟨hvalid, hle, hbuilt⟩ := expression_builds a hs hy
        exact ⟨hvalid, hle, fun size hsize => .minusFloat (hbuilt size hsize)⟩
      · simp only [lower_bind, lower_pure] at h
        obtain ⟨y, _, hy, rfl, rfl⟩ := h
        obtain ⟨hvalid, hle, hbuilt⟩ := expression_builds a hs hy
        exact ⟨hvalid, hle, fun size hsize => .minusWord (hbuilt size hsize)⟩
  | .unary id .plus a, held, s, s', x, hs, h => by
      rw [expression] at h
      simp only [lower_bind, lower_pure] at h
      obtain ⟨y, _, hy, rfl, rfl⟩ := h
      obtain ⟨hvalid, hle, hbuilt⟩ := expression_builds a hs hy
      exact ⟨hvalid, hle, fun size hsize => .plus (hbuilt size hsize)⟩
  | .binary id op a b, held, s, s', x, hs, h => by
      rw [expression] at h
      simp only [lower_bind, lower_lift] at h
      obtain ⟨left, _, hleft, t, _, ⟨_, rfl⟩, h⟩ := h
      obtain ⟨hvalid, hle, hbuilt⟩ := expression_builds a hs hleft
      obtain ⟨right, hjoins, hvalid', hle', hbuilt'⟩ :=
        combine_joins (fun y s' hy => expression_builds b hvalid hy) h
      exact ⟨hvalid', hle.trans hle', fun size hsize =>
        .binary (hbuilt size (by omega)) (hbuilt' size hsize) hjoins⟩
  | .logical id op a b, held, s, s', x, hs, h => by
      rw [expression] at h
      simp only [lower_bind, lower_pure, lower_release] at h
      obtain ⟨left, _, hleft, slot, _, hslot, right, _, hright, _, _, rfl, rfl, rfl⟩ := h
      obtain ⟨hvalid, hle, hbuilt⟩ := expression_builds a hs hleft
      -- the right operand is lowered while the scratch variable is held
      obtain ⟨hvalid₁, hle₁, hscratch⟩ := acquire_ends hvalid hslot
      obtain ⟨hvalid₂, hle₂, hbuilt₂⟩ := expression_builds b hvalid₁ hright
      refine ⟨release_valid hvalid₂, (hle.trans hle₁).trans hle₂, fun size hsize => ?_⟩
      exact .logical (hbuilt size (by simp only at hsize; omega))
        (hscratch size (by simp only at hsize; omega)) (hbuilt₂ size hsize)
  | .index id object position, held, s, s', x, hs, h => by
      rw [expression] at h
      simp only [lower_bind, lower_pure] at h
      obtain ⟨array, _, harray, at', _, hat, rfl, rfl⟩ := h
      obtain ⟨hvalid, hle, hbuilt⟩ := expression_builds object hs harray
      obtain ⟨hvalid', hle', hbuilt'⟩ := expression_builds position hvalid hat
      exact ⟨hvalid', hle.trans hle', fun size hsize =>
        .index (hbuilt size (by omega)) (hbuilt' size hsize)⟩
  | .property id object name, held, s, s', x, hs, h => by
      rw [expression] at h
      split at h
      · rename_i hname
        subst hname
        simp only [lower_bind, lower_pure] at h
        obtain ⟨array, _, harray, rfl, rfl⟩ := h
        obtain ⟨hvalid, hle, hbuilt⟩ := expression_builds object hs harray
        exact ⟨hvalid, hle, fun size hsize => .length (hbuilt size hsize)⟩
      · exact (lower_throw h).elim
  | .call id callee arguments, held, s, s', x, hs, h => by
      rw [expression] at h
      cases hname : callee.identifier? with
      | none =>
          simp only [hname] at h
          exact (lower_throw h).elim
      | some name =>
      cases hindex : cx.indices.find? name with
      | none =>
          simp only [hname, hindex] at h
          exact (lower_throw h).elim
      | some index =>
          simp only [hname, hindex, lower_bind, lower_lift] at h
          obtain ⟨signature, _, ⟨hsignature, rfl⟩, h⟩ := h
          by_cases harity : signature.arity = arguments.length
          · simp only [harity, ne_eq, not_true_eq_false, if_false, lower_bind, lower_pure] at h
            obtain ⟨code, _, hcode, rfl, rfl⟩ := h
            obtain ⟨hvalid, hle, hbuilt⟩ := callArguments_builds arguments signature.parameters
              harity.symm hs hcode
            refine ⟨hvalid, hle, fun size hsize => ?_⟩
            exact .call hname hindex (SignatureTable.require_eq_ok hsignature) harity
              (hbuilt size hsize)
          · simp only [ne_eq, harity, not_false_eq_true, if_true, lower_bind, lower_throw,
              false_and, exists_false] at h
  | .assign id op target value, held, s, s', x, hs, h => by
      rw [expression] at h
      exact (lower_throw h).elim
  | .update id op leading a, held, s, s', x, hs, h => by
      rw [expression] at h
      exact (lower_throw h).elim

/-- What lowering makes of arguments of the right number is built from them. -/
theorem callArguments_builds : ∀ (es : List Expr) (types : List ValueType) {held : List Nat}
    {s s' : Scratch} {code : Code}, es.length = types.length →
    Valid cx held s → callArguments cx es types s = .ok (code, s') →
    Ends cx held s s' fun size => BuildsArguments cx size held es types code
  | [], [], held, s, s', code, _, hs, h => by
      rw [callArguments, lower_pure] at h
      · obtain ⟨rfl, rfl⟩ := h
        exact ⟨hs, le_rfl, fun size _ => .nil⟩
      · simp
  | e :: rest, t :: types, held, s, s', code, hlength, hs, h => by
      rw [callArguments] at h
      simp only [lower_bind, lower_pure] at h
      obtain ⟨x, _, hx, tail, _, htail, rfl, rfl⟩ := h
      obtain ⟨hvalid, hle, hbuilt⟩ := expression_builds e hs hx
      obtain ⟨hvalid', hle', hbuilt'⟩ :=
        callArguments_builds rest types (by simpa using hlength) hvalid htail
      exact ⟨hvalid', hle.trans hle', fun size hsize =>
        .cons (hbuilt size (by omega)) (hbuilt' size hsize)⟩
  | [], _ :: _, _, _, _, _, hlength, _, _ => by simp at hlength
  | _ :: _, [], _, _, _, _, hlength, _, _ => by simp at hlength

end

/-! ### Effects -/

lemma assign_builds {id : ExprId} {op : AssignOp} {target value : Expr} {code : Code}
    (hs : Valid cx [] s) (h : assign cx op target value s = .ok (code, s')) :
    Ends cx [] s s' fun size => BuildsAct cx size (.assign id op target value) code := by
  unfold assign at h
  split at h
  · rename_i i name
    simp only [lower_bind, lower_lift] at h
    obtain ⟨k, _, ⟨hk, rfl⟩, t, _, ⟨_, rfl⟩, h⟩ := h
    cases hop : op.binaryOp? with
    | none =>
        obtain rfl := binaryOp?_eq_none hop
        simp only [hop, lower_bind, lower_pure] at h
        obtain ⟨new, _, hnew, rfl, rfl⟩ := h
        obtain ⟨hvalid, hle, hbuilt⟩ := expression_builds value hs hnew
        exact ⟨hvalid, hle, fun size hsize => .assignVariable (slot_eq_ok hk) (hbuilt size hsize)⟩
    | some o =>
        simp only [hop, lower_bind, lower_lift, lower_pure] at h
        obtain ⟨u, _, ⟨_, rfl⟩, new, _, hnew, rfl, rfl⟩ := h
        obtain ⟨x, hjoins, hvalid, hle, hbuilt⟩ :=
          combine_joins (fun y s' hy => expression_builds value hs hy) hnew
        exact ⟨hvalid, hle, fun size hsize =>
          .combineVariable hop (slot_eq_ok hk) (hbuilt size hsize) hjoins⟩
  · rename_i i object position
    simp only [lower_bind] at h
    obtain ⟨array, _, harray, at', _, hat, h⟩ := h
    obtain ⟨hvalid, hle, hbuilt⟩ := expression_builds object hs harray
    obtain ⟨hvalid₁, hle₁, hbuilt₁⟩ := expression_builds position hvalid hat
    cases hop : op.binaryOp? with
    | none =>
        obtain rfl := binaryOp?_eq_none hop
        simp only [hop, lower_bind, lower_pure] at h
        obtain ⟨new, _, hnew, rfl, rfl⟩ := h
        obtain ⟨hvalid₂, hle₂, hbuilt₂⟩ := expression_builds value hvalid₁ hnew
        exact ⟨hvalid₂, by omega, fun size hsize => .assignElement (hbuilt size (by omega))
          (hbuilt₁ size (by omega)) (hbuilt₂ size hsize)⟩
    | some o =>
        simp only [hop, lower_bind, lower_lift, lower_release, lower_pure] at h
        obtain ⟨k, _, hk, u, _, ⟨_, rfl⟩, new, _, hnew, _, _, rfl, rfl, rfl⟩ := h
        obtain ⟨hvalid₂, hle₂, hscratch⟩ := acquire_ends hvalid₁ hk
        obtain ⟨z, hjoins, hvalid₃, hle₃, hbuilt₃⟩ :=
          combine_joins (fun y s' hy => expression_builds value hvalid₂ hy) hnew
        refine ⟨release_valid hvalid₃, by simp only; omega, fun size hsize => ?_⟩
        simp only at hsize
        exact .combineElement hop (hbuilt size (by omega)) (hbuilt₁ size (by omega))
          (hscratch size (by omega)) (hbuilt₃ size hsize) hjoins
  · exact (lower_throw h).elim

lemma update_builds {id : ExprId} {op : UpdateOp} {leading : Bool} {target : Expr} {code : Code}
    (hs : Valid cx [] s) (h : update cx op target s = .ok (code, s')) :
    Ends cx [] s s' fun size => BuildsAct cx size (.update id op leading target) code := by
  unfold update at h
  split at h
  · rename_i i name
    simp only [lower_bind, lower_lift, lower_pure] at h
    obtain ⟨k, _, ⟨hk, rfl⟩, t, _, ⟨_, rfl⟩, step, _, ⟨hstep, rfl⟩, rfl, rfl⟩ := h
    exact ⟨hs, le_rfl, fun size _ => .updateVariable (slot_eq_ok hk) hstep⟩
  · rename_i i object position
    simp only [lower_bind, lower_lift, lower_release, lower_pure] at h
    obtain ⟨array, _, harray, at', _, hat, k, _, hk, step, _, ⟨hstep, rfl⟩, _, _, rfl, rfl,
      rfl⟩ := h
    obtain ⟨hvalid, hle, hbuilt⟩ := expression_builds object hs harray
    obtain ⟨hvalid₁, hle₁, hbuilt₁⟩ := expression_builds position hvalid hat
    obtain ⟨hvalid₂, hle₂, hscratch⟩ := acquire_ends hvalid₁ hk
    refine ⟨release_valid hvalid₂, by simp only; omega, fun size hsize => ?_⟩
    simp only at hsize
    exact .updateElement (hbuilt size (by omega)) (hbuilt₁ size (by omega)) (hscratch size hsize)
      hstep
  · exact (lower_throw h).elim

/-- What lowering makes of an expression that is run for what it does is built from it. -/
theorem effect_builds {e : Expr} {code : Code} (hs : Valid cx [] s)
    (h : effect cx e s = .ok (code, s')) :
    Ends cx [] s s' fun size => BuildsAct cx size e code := by
  unfold effect at h
  split at h
  · exact assign_builds hs h
  · exact update_builds hs h
  · simp only [lower_bind, lower_pure] at h
    obtain ⟨x, _, hx, rfl, rfl⟩ := h
    obtain ⟨hvalid, hle, hbuilt⟩ := expression_builds e hs hx
    exact ⟨hvalid, hle, fun size hsize => .value (hbuilt size hsize)⟩

/-! ### Statements -/

lemma declarators_builds (ds : List Declarator) {s s' : Scratch} {code : Code}
    (hs : Valid cx [] s) (h : declarators cx ds s = .ok (code, s')) :
    Ends cx [] s s' fun size => BuildsDeclarators cx size ds code := by
  induction ds generalizing s s' code with
  | nil =>
      rw [declarators, lower_pure] at h
      obtain ⟨rfl, rfl⟩ := h
      exact ⟨hs, le_rfl, fun size _ => .nil⟩
  | cons d rest ih =>
      obtain ⟨target, init⟩ := d
      rw [declarators] at h
      cases hname : target.identifier? with
      | none =>
          simp only [hname] at h
          exact (lower_throw h).elim
      | some name =>
      cases init with
      | none =>
          simp only [hname] at h
          obtain ⟨hvalid, hle, hbuilt⟩ := ih hs h
          exact ⟨hvalid, hle, fun size hsize => .bare (hbuilt size hsize)⟩
      | some e =>
          simp only [hname, lower_bind, lower_lift, lower_pure] at h
          obtain ⟨k, _, ⟨hk, rfl⟩, t, _, ⟨_, rfl⟩, x, _, hx, tail, _, htail, rfl, rfl⟩ := h
          obtain ⟨hvalid, hle, hbuilt⟩ := expression_builds e hs hx
          obtain ⟨hvalid₁, hle₁, hbuilt₁⟩ := ih hvalid htail
          exact ⟨hvalid₁, hle.trans hle₁, fun size hsize =>
            .bound hname (slot_eq_ok hk) (hbuilt size (by omega)) (hbuilt₁ size hsize)⟩

lemma loopExit_builds {test : Option Expr} {code : Code} (hs : Valid cx [] s)
    (h : loopExit cx test s = .ok (code, s')) :
    Ends cx [] s s' fun size => BuildsExit cx size test code := by
  cases test with
  | none =>
      rw [loopExit, lower_pure] at h
      obtain ⟨rfl, rfl⟩ := h
      exact ⟨hs, le_rfl, fun size _ => .never⟩
  | some e =>
      rw [loopExit] at h
      simp only [lower_bind, lower_pure] at h
      obtain ⟨x, _, hx, rfl, rfl⟩ := h
      obtain ⟨hvalid, hle, hbuilt⟩ := expression_builds e hs hx
      exact ⟨hvalid, hle, fun size hsize => .tested (hbuilt size hsize)⟩

lemma loopStep_builds {step : Option Expr} {code : Code} (hs : Valid cx [] s)
    (h : loopStep cx step s = .ok (code, s')) :
    Ends cx [] s s' fun size => BuildsStep cx size step code := by
  cases step with
  | none =>
      rw [loopStep, lower_pure] at h
      obtain ⟨rfl, rfl⟩ := h
      exact ⟨hs, le_rfl, fun size _ => .none⟩
  | some e =>
      obtain ⟨hvalid, hle, hbuilt⟩ := effect_builds hs h
      exact ⟨hvalid, hle, fun size hsize => .some (hbuilt size hsize)⟩

mutual

/-- What lowering makes of a statement is built from it. -/
theorem statement_builds : ∀ (st : Statement) {s s' : Scratch} {code : Code},
    Valid cx [] s → statement cx st s = .ok (code, s') →
    Ends cx [] s s' fun size => BuildsStatement cx size st code
  | .function name _ _ _, s, s', code, hs, h => by
      rw [statement] at h
      exact (lower_throw h).elim
  | .declare kind ds, s, s', code, hs, h => by
      rw [statement] at h
      obtain ⟨hvalid, hle, hbuilt⟩ := declarators_builds ds hs h
      exact ⟨hvalid, hle, fun size hsize => .declare (hbuilt size hsize)⟩
  | .expression e, s, s', code, hs, h => by
      rw [statement] at h
      obtain ⟨hvalid, hle, hbuilt⟩ := effect_builds hs h
      exact ⟨hvalid, hle, fun size hsize => .expression (hbuilt size hsize)⟩
  | .ret none, s, s', code, hs, h => by
      rw [statement, lower_pure] at h
      obtain ⟨rfl, rfl⟩ := h
      exact ⟨hs, le_rfl, fun size _ => .retZero⟩
  | .ret (some e), s, s', code, hs, h => by
      rw [statement] at h
      simp only [lower_bind, lower_pure] at h
      obtain ⟨x, _, hx, rfl, rfl⟩ := h
      obtain ⟨hvalid, hle, hbuilt⟩ := expression_builds e hs hx
      exact ⟨hvalid, hle, fun size hsize => .ret (hbuilt size hsize)⟩
  | .conditional test consequent alternate, s, s', code, hs, h => by
      rw [statement] at h
      simp only [lower_bind, lower_pure] at h
      obtain ⟨x, _, hx, first, _, hfirst, second, _, hsecond, rfl, rfl⟩ := h
      obtain ⟨hvalid, hle, hbuilt⟩ := expression_builds test hs hx
      obtain ⟨hvalid₁, hle₁, hbuilt₁⟩ := statement_builds consequent hvalid hfirst
      obtain ⟨hvalid₂, hle₂, hbuilt₂⟩ := alternative_builds alternate hvalid₁ hsecond
      exact ⟨hvalid₂, by omega, fun size hsize => .conditional (hbuilt size (by omega))
        (hbuilt₁ size (by omega)) (hbuilt₂ size hsize)⟩
  | .whileLoop test body, s, s', code, hs, h => by
      rw [statement] at h
      simp only [lower_bind, lower_pure] at h
      obtain ⟨exit, _, hexit, round, _, hround, rfl, rfl⟩ := h
      obtain ⟨hvalid, hle, hbuilt⟩ := loopExit_builds hs hexit
      obtain ⟨hvalid₁, hle₁, hbuilt₁⟩ := statement_builds body hvalid hround
      exact ⟨hvalid₁, by omega, fun size hsize =>
        .whileLoop (hbuilt size (by omega)) (hbuilt₁ size hsize)⟩
  | .forLoop init test update body, s, s', code, hs, h => by
      rw [statement] at h
      simp only [lower_bind, lower_pure] at h
      obtain ⟨first, _, hfirst, exit, _, hexit, round, _, hround, step, _, hstep, rfl, rfl⟩ := h
      obtain ⟨hvalid, hle, hbuilt⟩ := initial_builds init hs hfirst
      obtain ⟨hvalid₁, hle₁, hbuilt₁⟩ := loopExit_builds hvalid hexit
      obtain ⟨hvalid₂, hle₂, hbuilt₂⟩ := statement_builds body hvalid₁ hround
      obtain ⟨hvalid₃, hle₃, hbuilt₃⟩ := loopStep_builds hvalid₂ hstep
      exact ⟨hvalid₃, by omega, fun size hsize => .forLoop (hbuilt size (by omega))
        (hbuilt₁ size (by omega)) (hbuilt₂ size (by omega)) (hbuilt₃ size hsize)⟩
  | .block body, s, s', code, hs, h => by
      rw [statement] at h
      obtain ⟨hvalid, hle, hbuilt⟩ := statements_builds body hs h
      exact ⟨hvalid, hle, fun size hsize => .block (hbuilt size hsize)⟩
  | .empty, s, s', code, hs, h => by
      rw [statement, lower_pure] at h
      obtain ⟨rfl, rfl⟩ := h
      exact ⟨hs, le_rfl, fun size _ => .empty⟩

theorem alternative_builds : ∀ (st : Option Statement) {s s' : Scratch} {code : Option Code},
    Valid cx [] s → alternative cx st s = .ok (code, s') →
    Ends cx [] s s' fun size => BuildsAlternative cx size st code
  | none, s, s', code, hs, h => by
      rw [alternative, lower_pure] at h
      obtain ⟨rfl, rfl⟩ := h
      exact ⟨hs, le_rfl, fun size _ => .none⟩
  | some st, s, s', code, hs, h => by
      rw [alternative] at h
      simp only [lower_bind, lower_pure] at h
      obtain ⟨part, _, hpart, rfl, rfl⟩ := h
      obtain ⟨hvalid, hle, hbuilt⟩ := statement_builds st hs hpart
      exact ⟨hvalid, hle, fun size hsize => .some (hbuilt size hsize)⟩

theorem initial_builds : ∀ (st : Option Statement) {s s' : Scratch} {code : Code},
    Valid cx [] s → initial cx st s = .ok (code, s') →
    Ends cx [] s s' fun size => BuildsInitial cx size st code
  | none, s, s', code, hs, h => by
      rw [initial, lower_pure] at h
      obtain ⟨rfl, rfl⟩ := h
      exact ⟨hs, le_rfl, fun size _ => .none⟩
  | some st, s, s', code, hs, h => by
      rw [initial] at h
      obtain ⟨hvalid, hle, hbuilt⟩ := statement_builds st hs h
      exact ⟨hvalid, hle, fun size hsize => .some (hbuilt size hsize)⟩

theorem statements_builds : ∀ (sts : List Statement) {s s' : Scratch} {code : Code},
    Valid cx [] s → statements cx sts s = .ok (code, s') →
    Ends cx [] s s' fun size => BuildsStatements cx size sts code
  | [], s, s', code, hs, h => by
      rw [statements, lower_pure] at h
      obtain ⟨rfl, rfl⟩ := h
      exact ⟨hs, le_rfl, fun size _ => .nil⟩
  | st :: rest, s, s', code, hs, h => by
      rw [statements] at h
      simp only [lower_bind, lower_pure] at h
      obtain ⟨first, _, hfirst, others, _, hothers, rfl, rfl⟩ := h
      obtain ⟨hvalid, hle, hbuilt⟩ := statement_builds st hs hfirst
      obtain ⟨hvalid₁, hle₁, hbuilt₁⟩ := statements_builds rest hvalid hothers
      exact ⟨hvalid₁, by omega, fun size hsize =>
        .cons (hbuilt size (by omega)) (hbuilt₁ size hsize)⟩

end

/-! ### Functions -/

/-- A function that is lowered, in any context, has code that is built from its body. -/
theorem lower_eq_ok {f : CompiledFunction} (h : cx.lower = .ok f) :
    ∃ code count, BuildsStatements cx (cx.names.length + count) cx.function.body code ∧ f = {
      name := cx.function.displayName
      params := cx.signature.parameters.map ValueType.wordType
      result := cx.signature.returnType.wordType
      locals := localTypes cx ++ List.replicate count .i32
      localNames := cx.names ++ scratchNames count
      body := code ++ plain [zero cx.signature.returnType] } := by
  rw [LoweringContext.lower] at h
  obtain ⟨⟨whole, scratch⟩, hbody, h⟩ := bind_eq_ok.mp h
  obtain rfl := Except.ok.inj h
  have hrun : body cx {} = .ok (whole, scratch) := hbody
  rw [body] at hrun
  simp only [lower_bind, lower_pure] at hrun
  obtain ⟨code, _, hcode, rfl, rfl⟩ := hrun
  obtain ⟨_, _, hbuilt⟩ := statements_builds cx.function.body valid_start hcode
  exact ⟨code, _, hbuilt _ le_rfl, rfl⟩

end ArrayScript.Lowering
