import ArrayScript.Proofs.Semantics.Simulation

/-!
The code of an expression computes its value.

`Computes … x r` says that wherever the variables are in their slots, the code of the
operand `x` answers the evaluation `r` and leaves its value on the stack, writing to no
slot of a variable and to none that is held. `Lowers.computes` proves it of every
operand that belongs to an expression, provided that calls are answered
(`CallsAgree`).
-/

namespace ArrayScript

open Machine Lowering Evaluation

variable {cx : LoweringContext} {size : Nat} {held : List Nat} {vars : Variables}
  {m : CodeModule} {fuel depth : Nat}

/-- The code of an operand leaves the value of an evaluation on the stack. -/
def Computes (m : CodeModule) (fuel depth : Nat) (cx : LoweringContext) (size : Nat)
    (vars : Variables) (held : List Nat) (x : Operand) (r : Eval Datum) : Prop :=
  ∀ stack slots memory, Holds cx size vars slots →
    Runs (exec m fuel depth x.code ⟨stack, slots, memory⟩) (r memory)
      (FallsThrough (Leaves cx held stack slots x.type Datum.word))

/-- Calling a function by its index answers calling it by its name. -/
def CallsAgree (m : CodeModule) (fuel depth : Nat) (cx : LoweringContext)
    (call : String → List Datum → Eval Datum) : Prop :=
  ∀ {name index signature} (ds : List Datum) (stack : List Word) (slots : Array Word)
    (memory : Memory), cx.indices.find? name = some index →
    cx.table.find? name = some signature → ds.length = signature.arity →
    Runs (instr m fuel depth (.plain (.call index))
        ⟨((ds.zipWith Datum.coerce signature.parameters).map Datum.word).reverse ++ stack,
          slots, memory⟩)
      (call name ds memory)
      (FallsThrough fun d memory' s =>
        d.type = signature.returnType ∧ s = ⟨d.word :: stack, slots, memory'⟩)

/-! ### Operands one after the other -/

/-- A value in a test or a subscript. -/
lemma word_eq_i32 {d : Datum} (h : d.type.isFloat = false) : d.word = .i32 d.toInt32 := by
  cases d <;> first | rfl | cases h

lemma not_isFloat_of_isArray {t : ValueType} (h : t.isArray = true) : t.isFloat = false := by
  cases t <;> first | rfl | cases h

/-- Code that answers no evaluation of its own computes what is already there. -/
lemma computes_pure {x : Operand} {d : Datum} (htype : d.type = x.type)
    (h : ∀ stack slots memory, Holds cx size vars slots →
      exec m fuel depth x.code ⟨stack, slots, memory⟩ = .next ⟨d.word :: stack, slots, memory⟩) :
    Computes m fuel depth cx size vars held x (pure d) :=
  fun stack slots memory hslots =>
    ⟨_, h stack slots memory hslots, htype, slots, rfl, Frame.refl slots⟩

/-- After the code of the left side, the code of an operator computes its value. -/
lemma Combines.runs {op : BinaryOp} {x y z : Operand} {ex ey : Eval Datum} {stack : List Word}
    {slots : Array Word} {memory : Memory} (h : Combines op x y z)
    (hslots : Holds cx size vars slots)
    (hx : Runs (exec m fuel depth x.code ⟨stack, slots, memory⟩) (ex memory)
      (FallsThrough (Leaves cx held stack slots x.type Datum.word)))
    (hy : Computes m fuel depth cx size vars held y ey) :
    Runs (exec m fuel depth z.code ⟨stack, slots, memory⟩)
      ((do
        let a ← ex
        let b ← ey
        operate op a b : Eval Datum) memory)
      (FallsThrough (Leaves cx held stack slots z.type Datum.word)) := by
  obtain ⟨hfloat, hchosen⟩ := h
  rw [exec_append, exec_append, Outcome.andThen_assoc]
  refine (hx.as _).andThen ?_
  rintro a memory₁ _ ⟨ha, slots₁, rfl, hframe₁⟩
  refine ((hy _ slots₁ memory₁ (hslots.frame hframe₁)).as _).andThen ?_
  rintro b memory₂ _ ⟨hb, slots₂, rfl, hframe₂⟩
  subst hfloat
  rw [← ha, ← hb] at hchosen ⊢
  refine (operate_runs hchosen).weaken ?_
  rintro d _ ⟨s, hs, hd, rfl, rfl⟩
  exact ⟨_, hs, hd, slots₂, rfl, hframe₁.trans hframe₂⟩

/-- The address of an element as an integer. -/
def elementWord (array position : Datum) : Int32 :=
  array.toInt32 + position.toInt32 * Int32.ofNat array.type.elementSize

/-- After the code of an address, its value is on the stack. -/
lemma address_runs {β : Type} {x y : Operand} {ex ey : Eval Datum} {f : Datum → Datum → Eval β}
    {k : State → Outcome} {post : β → Memory → Outcome → Prop} {stack : List Word}
    {slots : Array Word} {memory : Memory} (harray : x.type.isArray = true)
    (hx : Computes m fuel depth cx size vars held x ex)
    (hy : Computes m fuel depth cx size vars held y ey) (hslots : Holds cx size vars slots)
    (hk : ∀ array position slots' memory', array.type = x.type → Frame cx held slots slots' →
      Runs (k ⟨.i32 (elementWord array position) :: stack, slots', memory'⟩)
        (f array position memory') post) :
    Runs ((exec m fuel depth (address x y).code ⟨stack, slots, memory⟩).andThen k)
      ((do
        let array ← ex
        let position ← ey
        f array position : Eval β) memory) post := by
  rw [address, exec_append, exec_append, Outcome.andThen_assoc, Outcome.andThen_assoc]
  refine (hx stack slots memory hslots).andThen ?_
  rintro array memory₁ _ ⟨ha, slots₁, rfl, hframe₁⟩
  refine ((hy _ slots₁ memory₁ (hslots.frame hframe₁)).as .int32).andThen ?_
  rintro position memory₂ _ ⟨hp, slots₂, rfl, hframe₂⟩
  have hword : array.word = .i32 array.toInt32 :=
    word_eq_i32 (by rw [ha, not_isFloat_of_isArray harray])
  have hscale : exec m fuel depth (Lowering.plain [.i32Const (Int32.ofNat x.type.elementSize),
        .int .mul, .int .add])
        ⟨(position.coerce .int32).word :: array.word :: stack, slots₂, memory₂⟩
      = .next ⟨.i32 (elementWord array position) :: stack, slots₂, memory₂⟩ := by
    rw [exec_plain rfl, hword, elementWord, ha]
    rfl
  rw [hscale]
  exact hk array position slots₂ memory₂ ha (hframe₁.trans hframe₂)

/-! ### Memory -/

/-- A word of a type stands for a value of that type. -/
lemma Datum.ofWord_spec {t : ValueType} {w : Word} (h : w.type = t.wordType) :
    (Datum.ofWord t w).word = w ∧ (Datum.ofWord t w).type = t := by
  cases t <;> cases w <;> first | exact ⟨rfl, rfl⟩ | cases h

/-- A load answers reading a value of its type. -/
lemma load_runs (t : ValueType) (n : Int32) (stack : List Word) (slots : Array Word)
    (memory : Memory) :
    Runs (exec m fuel depth (Lowering.plain [.load t.wordType]) ⟨.i32 n :: stack, slots, memory⟩)
      (load t (addressOf n) memory) (FallsThrough (Gives stack slots memory t)) := by
  rw [exec_op rfl]
  cases hload : memory.load? t.wordType (addressOf n) with
  | none =>
      rw [plain_load_outOfBounds hload, load, hload]
      exact rfl
  | some w =>
      rw [plain_load hload, load, hload]
      obtain ⟨hword, htype⟩ := Datum.ofWord_spec (Memory.load?_type hload)
      refine ⟨_, rfl, htype, ?_, rfl⟩
      rw [hword]

lemma Datum.type_word (d : Datum) : d.word.type = d.type.wordType := by
  cases d <;> rfl

/-- A store answers writing a value. -/
lemma store_runs (d : Datum) (n : Int32) (stack : List Word) (slots : Array Word)
    (memory : Memory) :
    Runs (exec m fuel depth (Lowering.plain [.store d.type.wordType])
        ⟨d.word :: .i32 n :: stack, slots, memory⟩)
      (store (addressOf n) d memory)
      (FallsThrough fun _ memory' s => s = ⟨stack, slots, memory'⟩) := by
  rw [exec_op rfl, ← d.type_word, plain_store, store, ← d.type_word]
  by_cases hholds : memory.holds (addressOf n) d.word.type.width = true
  · rw [if_pos hholds, if_pos hholds]
    exact ⟨_, rfl, rfl⟩
  · rw [if_neg hholds, if_neg hholds]
    exact rfl

/-! ### Expressions -/

lemma literalType_eq (x : Double) : x.literalType = .int32 ∨ x.literalType = .float64 := by
  rw [Double.literalType]
  split
  · split
    · exact .inl rfl
    · exact .inr rfl
  · exact .inr rfl

lemma literal_computes (x : Double) :
    Computes m fuel depth cx size vars held ⟨Lowering.plain [literal x], x.literalType⟩
      (pure (if x.literalType.isFloat then .double x else .int x.toInt32Saturating)) := by
  rw [literal]
  rcases literalType_eq x with h | h <;> rw [h]
  all_goals
    refine computes_pure rfl fun stack slots memory _ => ?_
    exact exec_plain rfl

lemma variable_computes {name : String} {slot : Nat} {t : ValueType}
    (h : IsVariable cx name slot t) :
    Computes m fuel depth cx size vars held ⟨Lowering.plain [.localGet slot], t⟩
      (pure (vars name)) := by
  intro stack slots memory hslots
  obtain ⟨hvalue, htype⟩ := hslots.value h
  refine ⟨_, ?_, htype, slots, rfl, Frame.refl slots⟩
  rw [exec_op rfl, plain_localGet hvalue]

/-- The operands of a choice, the top first. -/
def choiceWords (op : LogicalOp) (d : Datum) : List Word :=
  match op with
  | .and => [.i32 0, .i32 d.truth]
  | .or => [.i32 d.truth, .i32 1]

lemma logicalChoices_runs {y : Operand} {ey : Eval Datum} (op : LogicalOp)
    (hy : Computes m fuel depth cx size vars held y ey) (stack : List Word) (slots : Array Word)
    (memory : Memory) (hslots : Holds cx size vars slots) :
    Runs (exec m fuel depth (logicalChoices op y) ⟨stack, slots, memory⟩) (ey memory)
      (FallsThrough fun d memory' s => ∃ slots',
        s = ⟨choiceWords op d ++ stack, slots', memory'⟩ ∧ Frame cx held slots slots') := by
  cases op with
  | and =>
      rw [logicalChoices, exec_append]
      refine (hy stack slots memory hslots).truth.andThen_next ?_
      rintro d memory' _ ⟨_, slots', rfl, hframe⟩
      exact ⟨_, exec_plain rfl, slots', rfl, hframe⟩
  | or =>
      have hone : exec m fuel depth (Lowering.plain [.i32Const 1]) ⟨stack, slots, memory⟩ =
          .next ⟨.i32 1 :: stack, slots, memory⟩ := exec_plain rfl
      rw [logicalChoices, exec_append, hone]
      refine (hy _ slots memory hslots).truth.weaken ?_
      rintro d memory' ⟨s, hs, _, slots', rfl, hframe⟩
      exact ⟨_, hs, slots', rfl, hframe⟩

/-- A scratch variable keeps the left side of a logical operator while the right side is
computed. -/
lemma logical_computes {x y : Operand} {ex ey : Eval Datum} {slot : Nat} (op : LogicalOp)
    (hscratch : IsScratch cx size held slot)
    (hx : Computes m fuel depth cx size vars held x ex)
    (hy : Computes m fuel depth cx size vars (slot :: held) y ey) :
    Computes m fuel depth cx size vars held
      ⟨x.truth ++ Lowering.plain [.localSet slot] ++ logicalChoices op y ++
        Lowering.plain [.localGet slot, .select], .boolean⟩ (do
      let a ← ex
      let b ← ey
      return logical op a b) := by
  intro stack slots memory hslots
  simp only [exec_append, Outcome.andThen_assoc]
  refine (hx stack slots memory hslots).truth.andThen ?_
  rintro a memory₁ _ ⟨_, slots₁, rfl, hframe₁⟩
  have hslots₁ := hslots.frame hframe₁
  have hlt : slot < slots₁.size := by rw [hslots₁.size_eq]; exact hscratch.lt
  have hset : exec m fuel depth (Lowering.plain [.localSet slot])
      ⟨.i32 a.truth :: stack, slots₁, memory₁⟩
      = .next ⟨stack, slots₁.setIfInBounds slot (.i32 a.truth), memory₁⟩ := by
    rw [exec_op rfl, plain_localSet hlt]
  rw [hset, Outcome.andThen_next]
  have hframe₂ := Frame.scratch hscratch slots₁ (.i32 a.truth)
  refine (logicalChoices_runs op hy _ _ _ (hslots₁.frame hframe₂)).andThen ?_
  rintro b memory₃ _ ⟨slots₃, rfl, hframe₃⟩
  -- the right side does not write to the scratch variable
  have hsaved : slots₃[slot]? = some (.i32 a.truth) := by
    rw [hframe₃.kept slot (.inr List.mem_cons_self)]
    exact Array.getElem?_setIfInBounds_self_of_lt hlt
  have hselect : exec m fuel depth (Lowering.plain [.localGet slot, .select])
      ⟨choiceWords op b ++ stack, slots₃, memory₃⟩
      = .next ⟨(logical op a b).word :: stack, slots₃, memory₃⟩ := by
    rw [exec_plain rfl]
    cases op <;>
      simp [plainAll, plain_localGet hsaved, plain_select, choiceWords, logical, Datum.word] <;>
      split <;> rfl
  refine ⟨_, hselect, ?_, slots₃, rfl, hframe₁.trans (hframe₂.trans ?_)⟩
  · cases op <;> rfl
  · exact hframe₃.mono (List.subset_cons_self _ _)

lemma index_computes {x y : Operand} {ex ey : Eval Datum} (harray : x.type.isArray = true)
    (hx : Computes m fuel depth cx size vars held x ex)
    (hy : Computes m fuel depth cx size vars held y ey) :
    Computes m fuel depth cx size vars held
      ⟨(address x y).code ++ Lowering.plain [.load (address x y).type.wordType],
        (address x y).type⟩ (do
      let array ← ex
      let position ← ey
      load array.type.elementType (elementAddress array position)) := by
  intro stack slots memory hslots
  rw [exec_append]
  refine address_runs harray hx hy hslots ?_
  intro array position slots' memory' htype hframe
  rw [htype]
  refine (load_runs _ (elementWord array position) stack slots' memory').weaken ?_
  rintro d _ ⟨s, hs, hd, rfl, rfl⟩
  exact ⟨_, hs, hd, slots', rfl, hframe⟩

lemma length_computes {x : Operand} {ex : Eval Datum} (harray : x.type.isArray = true)
    (hx : Computes m fuel depth cx size vars held x ex) :
    Computes m fuel depth cx size vars held (length x) (do
      let array ← ex
      load .int32 (lengthAddress array)) := by
  intro stack slots memory hslots
  rw [length, exec_append]
  refine (hx stack slots memory hslots).andThen ?_
  rintro array memory' _ ⟨htype, slots', rfl, hframe⟩
  have hword : array.word = .i32 array.toInt32 :=
    word_eq_i32 (by rw [htype, not_isFloat_of_isArray harray])
  have hcode : Lowering.plain [.i32Const (Int32.ofNat x.type.elementSize), .int .sub, .load .i32]
      = Lowering.plain [.i32Const (Int32.ofNat x.type.elementSize), .int .sub] ++
        Lowering.plain [.load ValueType.int32.wordType] := rfl
  have hsub : exec m fuel depth (Lowering.plain [.i32Const (Int32.ofNat x.type.elementSize),
        .int .sub]) ⟨array.word :: stack, slots', memory'⟩
      = .next ⟨.i32 (array.toInt32 - Int32.ofNat array.type.elementSize) :: stack, slots',
        memory'⟩ := by
    rw [exec_plain rfl, hword, htype]
    rfl
  rw [hcode, exec_append, hsub]
  refine (load_runs .int32 _ stack slots' memory').weaken ?_
  rintro d _ ⟨s, hs, hd, rfl, rfl⟩
  exact ⟨_, hs, hd, slots', rfl, hframe⟩

mutual

/-- The code that belongs to an expression computes its value. -/
theorem Lowering.Lowers.computes {call : String → List Datum → Eval Datum}
    (hcalls : CallsAgree m fuel depth cx call) :
    ∀ {held : List Nat} {e : Expr} {x : Operand}, Lowers cx size held e x →
    Computes m fuel depth cx size vars held x (Evaluation.expression call vars e)
  | _, _, _, .number => by
      rw [Evaluation.expression]
      exact literal_computes _
  | _, _, _, .boolean => by
      rw [Evaluation.expression]
      refine computes_pure rfl fun stack slots memory _ => ?_
      exact exec_plain rfl
  | _, _, _, .identifier name_variable => by
      rw [Evaluation.expression]
      exact variable_computes name_variable
  | _, _, _, .not part => by
      rw [Evaluation.expression]
      intro stack slots memory hslots
      refine (part.computes hcalls stack slots memory hslots).condition.turn ?_
      intro d slots' memory' _
      refine ⟨rfl, ?_⟩
      have hcondition := d.condition_ne_zero
      rw [exec_op rfl, plain_i32Eqz]
      cases htrue : d.isTrue <;>
        simp_all [Datum.word, Datum.ofBool, Word.ofBool]
  | _, _, _, .minusFloat part float => by
      rw [Evaluation.expression]
      intro stack slots memory hslots
      refine (part.computes hcalls stack slots memory hslots).turn ?_
      intro d slots' memory' htype
      rw [← htype] at float
      cases d with
      | double x => exact ⟨rfl, exec_plain rfl⟩
      | _ => cases float
  | _, _, _, .minusWord part word => by
      rw [Evaluation.expression]
      intro stack slots memory hslots
      have hzero : exec m fuel depth (Lowering.plain [.i32Const 0]) ⟨stack, slots, memory⟩ =
          .next ⟨.i32 0 :: stack, slots, memory⟩ := exec_plain rfl
      dsimp only
      rw [List.append_assoc, exec_append, hzero, Outcome.andThen_next]
      refine ((part.computes hcalls _ slots memory hslots).as .int32).turn ?_
      intro d slots' memory' htype
      rw [← htype] at word
      cases d with
      | double x => cases word
      | _ => exact ⟨rfl, exec_plain rfl⟩
  | _, _, _, .plus part => by
      rw [Evaluation.expression]
      intro stack slots memory hslots
      refine (part.computes hcalls stack slots memory hslots).turn ?_
      intro d slots' memory' htype
      rw [← htype]
      refine ⟨?_, exec_convert d _⟩
      cases d <;> rfl
  | _, _, _, .binary left right result => by
      rw [Evaluation.expression]
      intro stack slots memory hslots
      exact Combines.runs result hslots (left.computes hcalls stack slots memory hslots)
        (right.computes hcalls)
  | _, _, _, .logical left scratch right => by
      rw [Evaluation.expression]
      exact logical_computes _ scratch (left.computes hcalls) (right.computes hcalls)
  | _, _, _, .index _ array is_array at' => by
      rw [Evaluation.expression]
      exact index_computes is_array (array.computes hcalls) (at'.computes hcalls)
  | _, _, _, .length _ array is_array => by
      rw [Evaluation.expression, if_pos rfl]
      exact length_computes is_array (array.computes hcalls)
  | _, _, _, .call callee_name callee_index callee_signature arity inputs => by
      rw [Evaluation.expression]
      intro stack slots memory hslots
      simp only [callee_name]
      rw [exec_append]
      refine (inputs.computes hcalls stack slots memory hslots).andThen ?_
      rintro ds memory' _ ⟨hlength, slots', rfl, hframe⟩
      show Runs (exec m fuel depth [_] _) _ _
      rw [exec_singleton]
      refine (hcalls ds stack slots' memory' callee_index callee_signature ?_).weaken ?_
      · rw [hlength, arity]
      · rintro d memory'' ⟨s, hs, hd, rfl⟩
        exact ⟨_, hs, hd, slots', rfl, hframe⟩

/-- The code that belongs to arguments computes their values, each brought to the type
of its parameter. -/
theorem Lowering.LowersArguments.computes {call : String → List Datum → Eval Datum}
    (hcalls : CallsAgree m fuel depth cx call) :
    ∀ {held : List Nat} {es : List Expr} {types : List ValueType} {code : Code},
    LowersArguments cx size held es types code →
    ∀ stack slots memory, Holds cx size vars slots →
      Runs (exec m fuel depth code ⟨stack, slots, memory⟩)
        (Evaluation.arguments call vars es memory)
        (FallsThrough fun ds memory' s => ds.length = es.length ∧ ∃ slots',
          s = ⟨((ds.zipWith Datum.coerce types).map Datum.word).reverse ++ stack, slots',
            memory'⟩ ∧ Frame cx held slots slots')
  | _, _, _, _, .nil => fun stack slots memory _ => by
      rw [Evaluation.arguments]
      exact ⟨_, exec_nil, rfl, slots, rfl, Frame.refl slots⟩
  | _, _, _, _, .cons head tail => fun stack slots memory hslots => by
      rw [Evaluation.arguments, exec_append]
      refine ((head.computes hcalls stack slots memory hslots).as _).andThen ?_
      rintro d memory₁ _ ⟨_, slots₁, rfl, hframe₁⟩
      refine Runs.map ((tail.computes hcalls _ slots₁ memory₁ (hslots.frame hframe₁)).weaken ?_)
      rintro ds memory₂ ⟨s, hs, hlength, slots₂, rfl, hframe₂⟩
      refine ⟨_, hs, by simp [hlength], slots₂, ?_, hframe₁.trans hframe₂⟩
      simp

end

end ArrayScript
