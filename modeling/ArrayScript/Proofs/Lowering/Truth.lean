import ArrayScript.Proofs.Compilation.Origin
import ArrayScript.Proofs.Machine.Truth
import ArrayScript.Proofs.Semantics.Expressions

/-!
Code that keeps truth values proper.

A value is brought to another type where it is bound, assigned, passed or returned. The code
for this compares doubles with zero if they are to be truth values, but takes integers and
addresses as they are. `Typing.conversions` lists the types of all such places, and
`KeepsTruth` says that none of them makes a truth value of anything but a truth value or a
double.

`Proper` slots hold proper truth values in all variables of that type. In a function that
keeps truth

* `Lowers.moves`: the code of an operand puts one word on the stack, a truth value if its
  type says so, and leaves the slots proper all the way;
* `LowersStatement.moves`: so does the code of statements, whatever they assign, and they
  return a truth value if the function should.
-/

namespace ArrayScript

open Machine

/-! ### Conversions -/

/-- Whether values of one type are truth values after they were brought to another, if the
other is the type of truth values. -/
def ValueType.keepsTruth (source target : ValueType) : Bool :=
  target ≠ .boolean ∨ source = .boolean ∨ source = .float64

namespace Typing

/-- A value of one type is brought to another, if both types are known. -/
def conversion (source target : Option ValueType) : List (ValueType × ValueType) :=
  match source, target with
  | some source, some target => [(source, target)]
  | _, _ => []

/-- The types between which values are converted at one stop of a walk through a function
that gives results of the given type. -/
def conversions (τ : Typing) (table : SignatureTable) (result : ValueType) :
    Visit → List (ValueType × ValueType)
  | .statement (.ret (some e)) => conversion (τ.expressionTypes.find? e.id) (some result)
  | .declarator ⟨target, some init⟩ =>
    conversion (τ.expressionTypes.find? init.id)
      (target.identifier?.bind (τ.variableTypes.find? ·))
  | .expression (.assign _ .assign (.identifier _ name) value) =>
    conversion (τ.expressionTypes.find? value.id) (τ.variableTypes.find? name)
  | .expression (.assign _ _ (.identifier _ name) value) =>
    let old := τ.variableTypes.find? name
    conversion (old.bind fun t => (τ.expressionTypes.find? value.id).map t.arithmetic) old
  | .expression (.update _ _ _ (.identifier _ name)) =>
    let old := τ.variableTypes.find? name
    conversion (old.map fun t => t.arithmetic t) old
  | .expression (.call _ callee arguments) =>
    match callee.identifier?.bind (table.find? ·) with
    | none => []
    | some signature => (arguments.zip signature.parameters).flatMap fun (e, t) =>
        conversion (τ.expressionTypes.find? e.id) (some t)
  | _ => []

end Typing

namespace Lowering

open Typing

/-- No place of a function makes a truth value of an integer or an address. -/
def KeepsTruth (cx : LoweringContext) : Prop :=
  ∀ v ∈ cx.function.visits, ∀ c ∈ cx.typing.conversions cx.table cx.signature.returnType v,
    c.1.keepsTruth c.2 = true

instance (cx : LoweringContext) : Decidable (KeepsTruth cx) :=
  inferInstanceAs (Decidable (∀ v ∈ cx.function.visits,
    ∀ c ∈ cx.typing.conversions cx.table cx.signature.returnType v, c.1.keepsTruth c.2 = true))

/-- All variables that should hold truth values do. -/
def Proper (cx : LoweringContext) (slots : Array Word) : Prop :=
  ∀ name slot, IsVariable cx name slot .boolean → ∀ w ∈ slots[slot]?, w.IsTruth

/-- A contract asks of a function that its truth values are proper. -/
structure Governs (cx : LoweringContext) (k : Contract) (f : CompiledFunction) : Prop where
  slots_iff : ∀ {slots}, k.slots f slots ↔ Proper cx slots
  result_iff : ∀ {w : Word},
    k.result f w ↔ (cx.signature.returnType = .boolean → w.IsTruth)

/-- Calls keep to a contract: on truth values where the function takes such they give a truth
value if the function should. -/
def CallsMove (m : CodeModule) (k : Contract) (fuel depth : Nat) (f : CompiledFunction)
    (cx : LoweringContext) : Prop :=
  ∀ name index signature labels, cx.indices.find? name = some index →
    cx.table.find? name = some signature →
    Moves m k fuel depth f labels (signature.parameters.map (· = .boolean)).reverse
      [signature.returnType = .boolean] (plain [.call index])

/-- A function that keeps truth, under a contract that asks for this, where calls keep to the
contract. -/
structure Careful (m : CodeModule) (k : Contract) (fuel depth : Nat) (f : CompiledFunction)
    (cx : LoweringContext) : Prop where
  governs : Governs cx k f
  keeps : KeepsTruth cx
  consistent : Consistent cx
  calls : ∀ n ≤ fuel, CallsMove m k n depth f cx

variable {cx : LoweringContext} {size : Nat} {held : List Nat} {m : CodeModule} {k : Contract}
  {fuel depth labels : Nat} {f : CompiledFunction}

/-- With less fuel, less is asked of the calls. -/
lemma Careful.mono {n : Nat} (h : Careful m k fuel depth f cx) (hn : n ≤ fuel) :
    Careful m k n depth f cx :=
  { h with calls := fun j hj => h.calls j (hj.trans hn) }

/-! ### Variables -/

/-- A word is written that is a truth value if the variable is of that type. -/
lemma Proper.set {slots : Array Word} {slot : Nat} {w : Word} (h : Proper cx slots)
    (hw : ∀ {name}, IsVariable cx name slot .boolean → w.IsTruth) :
    Proper cx (slots.setIfInBounds slot w) := by
  intro name slot' hvariable w' hw'
  rw [Array.getElem?_setIfInBounds] at hw'
  split at hw'
  · rename_i heq
    subst heq
    split at hw'
    · obtain rfl := Option.some.inj hw'
      exact hw hvariable
    · cases hw'
  · exact h name slot' hvariable w' hw'

/-- A variable that should hold a truth value does. -/
lemma moves_variable {name : String} {slot : Nat} {t : ValueType} (hk : Governs cx k f)
    (h : IsVariable cx name slot t) :
    Moves m k fuel depth f labels [] [t = .boolean] (plain [.localGet slot]) := by
  refine moves_localGet ?_
  rintro rfl slots hslots
  exact hk.slots_iff.mp hslots name slot h

/-- Such a variable is set to truth values only. -/
lemma moves_setVariable {name : String} {slot : Nat} {t : ValueType} (hk : Governs cx k f)
    (h : IsVariable cx name slot t) :
    Moves m k fuel depth f labels [t = .boolean] [] (plain [.localSet slot]) := by
  refine moves_localSet fun hslots hw => hk.slots_iff.mpr ?_
  refine (hk.slots_iff.mp hslots).set fun {name'} hvariable => hw ?_
  obtain rfl : name' = name :=
    Option.some.inj (hvariable.getElem?_eq.symm.trans h.getElem?_eq)
  exact Option.some.inj (h.type_eq.symm.trans hvariable.type_eq)

/-- Scratch variables are of no type. -/
lemma Governs.scratch (hk : Governs cx k f) {slot : Nat} (h : IsScratch cx size held slot)
    {slots : Array Word} (w : Word) (hslots : k.slots f slots) :
    k.slots f (slots.setIfInBounds slot w) := by
  refine hk.slots_iff.mpr ((hk.slots_iff.mp hslots).set fun hvariable => ?_)
  exact absurd hvariable.slot_lt (not_lt_of_ge h.le)

/-! ### Parts that do not depend on the function -/

/-- Whatever the double, the test of it is a truth value. -/
lemma moves_isNonzeroDouble {mark : Prop} :
    Moves m k fuel depth f labels [mark] [True] isNonzeroDouble := by
  have hzero : Moves m k fuel depth f labels [] [False] (plain [.f64Const Double.zero]) :=
    moves_gives rfl nofun
  have hne : Moves m k fuel depth f labels [False, mark] [True] (plain [.float .ne]) :=
    moves_gives rfl fun _ => rfl
  exact (hzero.above [mark]).append hne

/-- A value that is brought to a type. -/
lemma moves_convert {source target : ValueType} (h : source.keepsTruth target = true) :
    Moves m k fuel depth f labels [source = .boolean] [target = .boolean]
      (convert source target) := by
  have hsource : target = .boolean → source = .boolean ∨ source = .float64 := fun ht =>
    (of_decide_eq_true h).resolve_left fun hne => hne ht
  unfold convert
  split
  · exact moves_isNonzeroDouble.weaken fun _ => trivial
  · exact moves_nil.weaken nofun
  · refine moves_gives rfl ?_
    rintro rfl
    simp_all
  · exact moves_gives rfl nofun
  · rename_i hword _
    refine moves_nil.weaken fun ht => (hsource ht).resolve_right ?_
    rintro rfl
    cases hword

/-- Nothing is asked of a constant. -/
lemma moves_constant (n : Int32) :
    Moves m k fuel depth f labels [] [False] (plain [.i32Const n]) :=
  moves_gives rfl False.elim

lemma moves_get (slot : Nat) : Moves m k fuel depth f labels [] [False] (plain [.localGet slot]) :=
  moves_localGet False.elim

section

variable {x y z : Operand}

lemma keepsTruth_of_ne {source target : ValueType} (h : target ≠ .boolean) :
    source.keepsTruth target = true :=
  decide_eq_true (.inl h)

/-- What is brought to a Boolean is a truth value, if the conversion keeps truth. -/
lemma moves_as {t : ValueType} (h : Moves m k fuel depth f labels [] [x.type = .boolean] x.code)
    (ht : x.type.keepsTruth t = true) :
    Moves m k fuel depth f labels [] [t = .boolean] (x.as t) :=
  h.append (moves_convert ht)

/-- A value that is brought to the type of an operator's operands. -/
lemma moves_asNumber (h : Moves m k fuel depth f labels [] [x.type = .boolean] x.code)
    {t : ValueType} (ht : t ≠ .boolean) : Moves m k fuel depth f labels [] [False] (x.as t) :=
  (moves_as h (keepsTruth_of_ne ht)).weaken False.elim

/-- A condition is used as a condition only, so it need not be a truth value. -/
lemma moves_condition (h : Moves m k fuel depth f labels [] [x.type = .boolean] x.code) :
    Moves m k fuel depth f labels [] [False] x.condition := by
  rw [Operand.condition]
  split
  · exact (h.append moves_isNonzeroDouble).weaken False.elim
  · exact h.weaken False.elim

/-- Whatever its type, an operand of a logical operator is made a truth value. -/
lemma moves_truth (h : Moves m k fuel depth f labels [] [x.type = .boolean] x.code) :
    Moves m k fuel depth f labels [] [True] x.truth := by
  have htest : Moves m k fuel depth f labels [x.type = .boolean] [True]
      (plain [.i32Const 0, .int .ne]) := by
    have hne : Moves m k fuel depth f labels [False, x.type = .boolean] [True]
        (plain [.int .ne]) := moves_gives rfl fun _ => rfl
    exact ((moves_constant 0).above [x.type = .boolean]).append hne
  rw [Operand.truth]
  split
  · rename_i htype
    exact h.weaken fun _ => htype
  · exact h.append moves_isNonzeroDouble
  · exact h.append htest

lemma moves_zero (t : ValueType) :
    Moves m k fuel depth f labels [] [t = .boolean] (plain [zero t]) := by
  cases t
  all_goals first | exact moves_gives rfl fun _ => rfl | exact moves_gives rfl nofun

/-- Both values that a logical operator chooses from are truth values. -/
lemma moves_logicalChoices (op : LogicalOp)
    (h : Moves m k fuel depth f labels [] [y.type = .boolean] y.code) :
    Moves m k fuel depth f labels [] [True, True] (logicalChoices op y) := by
  have hconst : ∀ n : Int32, givesTruth (.i32Const n) = true →
      Moves m k fuel depth f labels [] [True] (plain [.i32Const n]) :=
    fun n hn => moves_gives rfl fun _ => hn
  cases op with
  | and => exact (moves_truth h).append ((hconst 0 rfl).above [True])
  | or => exact (hconst 1 rfl).append ((moves_truth h).above [True])

/-- A comparison gives a truth value. -/
lemma instruction_givesTruth {op : BinaryOp} {float : Bool} {i : Op}
    (h : instruction op float = .ok (i, .boolean)) : givesTruth i = true := by
  cases op <;> cases float <;> cases h <;> rfl

lemma instruction_operands {op : BinaryOp} {float : Bool} {i : Op} {t : ValueType}
    (h : instruction op float = .ok (i, t)) : operands? i = some 2 := by
  cases op <;> cases float <;> cases h <;> rfl

/-- Operators work on numbers. -/
lemma operandType_ne (float : Bool) : operandType float ≠ .boolean := by
  cases float <;> nofun

/-- Of two operands an operator makes a number, or a truth value by a comparison. -/
lemma Combines.moves {op : BinaryOp} (h : Combines op x y z)
    (hx : Moves m k fuel depth f labels [] [x.type = .boolean] x.code)
    (hy : Moves m k fuel depth f labels [] [y.type = .boolean] y.code) :
    Moves m k fuel depth f labels [] [z.type = .boolean] z.code := by
  obtain @⟨float, i, t, _, hchosen⟩ := h
  have hx' := moves_asNumber hx (operandType_ne float)
  have hy' := (moves_asNumber hy (operandType_ne float)).above [False]
  refine (hx'.append hy').append (moves_gives (instruction_operands hchosen) ?_)
  rintro rfl
  exact instruction_givesTruth hchosen

/-- An address is a number, and only its parts are computed before it. -/
lemma moves_address (hx : Moves m k fuel depth f labels [] [x.type = .boolean] x.code)
    (hy : Moves m k fuel depth f labels [] [y.type = .boolean] y.code) :
    Moves m k fuel depth f labels [] [False] (address x y).code := by
  have hmul : Moves m k fuel depth f labels [False, False] [False] (plain [.int .mul]) :=
    moves_gives rfl False.elim
  have hadd : Moves m k fuel depth f labels [False, False] [False] (plain [.int .add]) :=
    moves_gives rfl False.elim
  have hscale := ((moves_constant (Int32.ofNat x.type.elementSize)).above
    [False, False]).append ((hmul.above [False]).append hadd)
  have hparts := (hx.weaken False.elim).append
    ((moves_asNumber hy (t := .int32) nofun).above [False])
  exact hparts.append hscale

/-- Arrays hold numbers. -/
lemma elementType_ne (t : ValueType) : t.elementType ≠ .boolean := by
  cases t <;> nofun

end

/-! ### Expressions -/

/-- The types of operands are those that were found for the expressions. -/
lemma Lowers.type_eq : ∀ {held : List Nat} {e : Expr} {x : Operand} {t : ValueType},
    Lowers cx size held e x → HasType cx.table cx.typing e t → x.type = t
  | _, _, _, _, .number, .number _ => rfl
  | _, _, _, _, .boolean, .boolean _ => rfl
  | _, _, _, _, .identifier name_variable, .identifier _ variable_type =>
      Option.some.inj (name_variable.type_eq.symm.trans variable_type)
  | _, _, _, _, .not _, .not _ _ => rfl
  | _, _, _, _, .not _, .sign _ op_ne _ => absurd rfl op_ne
  | _, _, _, _, .minusFloat part float, .sign _ _ typed => by
      rw [part.type_eq typed] at float
      rw [ValueType.numeric, if_pos float]
  | _, _, _, _, .minusWord part word, .sign _ _ typed => by
      rw [part.type_eq typed] at word
      rw [ValueType.numeric, if_neg (by simp [word])]
  | _, _, _, _, .plus part, .sign _ _ typed => by rw [part.type_eq typed]
  | _, _, _, _, .binary left right result, typed => by
      obtain ⟨u, v, hleft, hright, _, rfl⟩ := typed.binary
      rw [result.type_eq, left.type_eq hleft, right.type_eq hright]
  | _, _, _, _, .logical _ _ _, .logical _ _ _ => rfl
  | _, _, _, _, .index _ array _ _, .index _ typed _ _ => by
      rw [address, array.type_eq typed]
  | _, _, _, _, .length _ _ _, .length _ _ _ => rfl
  | _, _, _, _, .call callee_name _ callee_signature _ _, .call _ name_eq signature_eq _ => by
      obtain rfl := Option.some.inj (callee_name.symm.trans name_eq)
      rw [Option.some.inj (callee_signature.symm.trans signature_eq)]

lemma mem_expressions {e : Expr} (h : e ∈ cx.function.expressions) :
    .expression e ∈ cx.function.visits := by
  obtain ⟨v, hv, he⟩ := List.mem_filterMap.mp h
  cases v <;> cases he
  exact hv

mutual

/-- The code of an operand of a function that keeps truth. -/
theorem Lowers.moves (hk : Careful m k fuel depth f cx) :
    ∀ {held : List Nat} {e : Expr} {x : Operand} {t : ValueType},
    Lowers cx size held e x → HasType cx.table cx.typing e t →
    e.preorder ⊆ cx.function.expressions →
    Moves m k fuel depth f labels [] [x.type = .boolean] x.code
  | _, .number _ x, _, _, .number, _, _ => by
      rw [literal]
      rcases literalType_eq x with h | h <;> rw [h]
      all_goals exact moves_gives rfl nofun
  | _, .boolean _ b, _, _, .boolean, _, _ => by
      refine moves_gives rfl fun _ => ?_
      cases b <;> rfl
  | _, _, _, _, .identifier name_variable, _, _ => moves_variable hk.governs name_variable
  | _, _, _, _, .not part, typed, hin => by
      rw [Expr.preorder, List.cons_subset] at hin
      cases typed with
      | sign _ op_ne _ => exact absurd rfl op_ne
      | not _ typed =>
          have hpart := moves_condition (part.moves hk typed hin.2)
          exact hpart.append (moves_gives rfl fun _ => rfl)
  | _, _, _, _, .minusFloat part _, typed, hin => by
      rw [Expr.preorder, List.cons_subset] at hin
      cases typed with | sign _ _ typed => ?_
      exact (part.moves hk typed hin.2).append (moves_gives rfl nofun)
  | _, _, _, _, .minusWord part _, typed, hin => by
      rw [Expr.preorder, List.cons_subset] at hin
      cases typed with | sign _ _ typed => ?_
      have hpart := moves_asNumber (part.moves hk typed hin.2) (t := .int32) nofun
      exact ((moves_constant 0).append (hpart.above [False])).append (moves_gives rfl nofun)
  | _, _, _, _, .plus part, typed, hin => by
      rw [Expr.preorder, List.cons_subset] at hin
      cases typed with | sign _ _ typed => ?_
      refine moves_as (part.moves hk typed hin.2) (keepsTruth_of_ne ?_)
      rw [ValueType.numeric]
      split <;> nofun
  | _, _, _, _, .binary left right result, typed, hin => by
      rw [Expr.preorder, List.cons_subset, List.append_subset] at hin
      obtain ⟨u, v, hleft, hright, _⟩ := typed.binary
      exact result.moves (left.moves hk hleft hin.2.1)
        (right.moves hk hright hin.2.2)
  | _, _, _, _, .logical left scratch right, typed, hin => by
      rename_i op _ _ _ _ slot
      rw [Expr.preorder, List.cons_subset, List.append_subset] at hin
      cases typed with | logical _ hleft hright => ?_
      have hx := moves_truth (left.moves hk hleft hin.2.1)
      have hset : Moves m k fuel depth f labels [True] [] (plain [.localSet slot]) :=
        moves_localSet fun {_ w} hslots _ => hk.governs.scratch scratch w hslots
      have hchoices := moves_logicalChoices op (right.moves hk hright hin.2.2)
      -- it does not matter which of the two operands is selected: both are truth values
      have hselect : Moves m k fuel depth f labels [True, True] [True ∧ True]
          (plain [.localGet slot, .select]) :=
        ((moves_get slot).above [True, True]).append moves_select
      exact (((hx.append hset).append hchoices).append hselect).weaken fun _ => ⟨trivial, trivial⟩
  | _, _, _, _, .index _ array _ at', typed, hin => by
      rw [Expr.preorder, List.cons_subset, List.append_subset] at hin
      cases typed with | index _ hobject _ hposition => ?_
      have haddress := moves_address (array.moves hk hobject hin.2.1)
        (at'.moves hk hposition hin.2.2)
      exact haddress.append (moves_gives rfl fun h => absurd h (elementType_ne _))
  | _, _, _, _, .length (x := x) _ array _, typed, hin => by
      rw [Expr.preorder, List.cons_subset] at hin
      cases typed with | length _ hobject _ => ?_
      have harray := (array.moves hk hobject hin.2).weaken False.elim
      have hsub : Moves m k fuel depth f labels [False, False] [False] (plain [.int .sub]) :=
        moves_gives rfl False.elim
      have hload : Moves m k fuel depth f labels [False] [ValueType.int32 = .boolean]
          (plain [.load .i32]) := moves_gives rfl nofun
      exact harray.append (((moves_constant _).above [False]).append (hsub.append hload))
  | _, _, _, _, .call callee_name callee_index callee_signature arity inputs, typed, hin => by
      rw [Expr.preorder, List.cons_subset, List.append_subset] at hin
      have hconversions := hk.keeps _ (mem_expressions hin.1)
      rw [conversions, callee_name, Option.bind_some, callee_signature] at hconversions
      cases typed with | call _ name_eq signature_eq parts => ?_
      refine (inputs.moves hk parts hin.2.2 fun e t u hmem hu => ?_).append
        (hk.calls _ le_rfl _ _ _ _ callee_index callee_signature)
      refine hconversions (u, t) (List.mem_flatMap.mpr ⟨(e, t), hmem, ?_⟩)
      dsimp only
      rw [hu]
      exact List.mem_singleton.mpr rfl

/-- The code of arguments puts them on the stack, the last one on top. -/
theorem LowersArguments.moves (hk : Careful m k fuel depth f cx) :
    ∀ {held : List Nat} {es : List Expr} {types : List ValueType} {code : Code},
    LowersArguments cx size held es types code →
    HaveTypes cx.table cx.typing es → Expr.preorderList es ⊆ cx.function.expressions →
    (∀ e t u, (e, t) ∈ es.zip types → cx.typing.expressionTypes.find? e.id = some u →
      u.keepsTruth t = true) →
    Moves m k fuel depth f labels [] (types.map (· = .boolean)).reverse code
  | _, _, _, _, .nil, _, _, _ => moves_nil
  | _, _, _, _, .cons head tail, .cons typed parts, hin, hconversions => by
      rename_i t types x code _
      rw [Expr.preorderList, List.append_subset] at hin
      rw [List.map_cons, List.reverse_cons]
      have hkept : x.type.keepsTruth t = true := by
        rw [head.type_eq typed]
        exact hconversions _ _ _ List.mem_cons_self typed.recorded
      have hhead := moves_as (head.moves hk typed hin.1) hkept
      have htail := tail.moves hk parts hin.2 fun e t u hmem hu =>
        hconversions e t u (List.mem_cons_of_mem _ hmem) hu
      exact hhead.append (htail.above [t = .boolean])

end

/-! ### Statements -/

lemma mem_conversion {source target : Option ValueType} {t u : ValueType}
    (hsource : source = some t) (htarget : target = some u) :
    (t, u) ∈ conversion source target := by
  rw [hsource, htarget]
  exact List.mem_singleton.mpr rfl

/-- What a compound assignment makes of a variable is brought to its type. -/
lemma conversions_compound {τ : Typing} {table : SignatureTable} {result : ValueType}
    {op : AssignOp} {o : BinaryOp} (h : op.binaryOp? = some o) {id i : ExprId} {name : String}
    {value : Expr} :
    τ.conversions table result (.expression (.assign id op (.identifier i name) value)) =
      conversion ((τ.variableTypes.find? name).bind fun t =>
        (τ.expressionTypes.find? value.id).map t.arithmetic) (τ.variableTypes.find? name) := by
  cases op with
  | assign => cases h
  | _ => rfl

lemma preorder_subset {e : Expr} (h : e.preorder.map .expression ⊆ cx.function.visits) :
    e.preorder ⊆ cx.function.expressions :=
  fun _ he => List.mem_filterMap.mpr ⟨_, h (List.mem_map_of_mem he), rfl⟩

lemma arithmetic_operands {op : BinaryOp} {float : Bool} {i : Op}
    (h : arithmetic op float = .ok i) : operands? i = some 2 := by
  cases op <;> cases float <;> cases h <;> rfl

/-- Nothing is asked of the number that an increment adds. -/
lemma moves_one (t : ValueType) : Moves m k fuel depth f labels [] [False] (plain [one t]) := by
  cases t <;> exact moves_gives rfl False.elim

section

variable (hk : Careful m k fuel depth f cx)

include hk

/-- The address of an element that is assigned. -/
lemma moves_target {id : ExprId} {object position : Expr} {t : ValueType} {x y : Operand}
    (array : Lowers cx size held object x)
    (at' : Lowers cx size held position y)
    (typed : HasType cx.table cx.typing (.index id object position) t)
    (hin : (Expr.index id object position).preorder ⊆ cx.function.expressions) :
    Moves m k fuel depth f labels [] [False] (address x y).code := by
  rw [Expr.preorder, List.cons_subset, List.append_subset] at hin
  cases typed with | index _ object_type _ position_type => ?_
  exact moves_address (array.moves hk object_type hin.2.1)
    (at'.moves hk position_type hin.2.2)

/-- The code of an expression that is run for what it does. -/
theorem Acts.moves {e : Expr} {code : Code} {t : ValueType} (h : Acts cx size e code)
    (typed : HasType cx.table cx.typing e t) (hin : e.preorder ⊆ cx.function.expressions) :
    Moves m k fuel depth f labels [] [] code := by
  cases h with
  | assignVariable name_variable new =>
      rw [Expr.preorder, List.cons_subset, List.append_subset] at hin
      cases typed with | assign _ _ value_type _ => ?_
      have hkept := hk.keeps _ (mem_expressions hin.1) (_, _)
        (mem_conversion value_type.recorded name_variable.type_eq)
      rw [← new.type_eq value_type] at hkept
      exact (moves_as (new.moves hk value_type hin.2.2) hkept).append
        (moves_setVariable hk.governs name_variable)
  | @combineVariable id op o i name value slot t x y compound name_variable right new =>
      rw [Expr.preorder, List.cons_subset, List.append_subset] at hin
      cases typed with | assign _ _ value_type _ => ?_
      -- the result of a compound operation is converted back to the type of the variable
      have hkept : y.type.keepsTruth t = true := by
        have htype : y.type = t.arithmetic x.type := by
          rw [new.type_eq, if_neg]
          cases op <;> cases compound <;> nofun
        have hvariable := name_variable.type_eq
        rw [htype, right.type_eq value_type]
        refine hk.keeps _ (mem_expressions hin.1) (t.arithmetic _, t) ?_
        rw [conversions_compound compound]
        refine mem_conversion ?_ hvariable
        rw [hvariable, Option.bind_some, value_type.recorded, Option.map_some]
      have hold : Moves m k fuel depth f labels [] [t = .boolean] (plain [.localGet slot]) :=
        moves_variable hk.governs name_variable
      have hnew := new.moves hold (right.moves hk value_type hin.2.2)
      exact (moves_as hnew hkept).append (moves_setVariable hk.governs name_variable)
  | @assignElement id i object position value x y z parts array is_array at' new =>
      rw [Expr.preorder, List.cons_subset, List.append_subset] at hin
      cases typed with | assign _ _ value_type target_type => ?_
      have haddress : Moves m k fuel depth f labels [] [False] (address x y).code :=
        moves_target hk array at' target_type hin.2.1
      have hnew : Moves m k fuel depth f labels [] [False] (z.as (address x y).type) :=
        moves_asNumber (new.moves hk value_type hin.2.2) (elementType_ne x.type)
      exact (haddress.append (hnew.above [False])).append moves_store
  | @combineElement id op o i object position value x y z w slot compound parts array is_array at'
      scratch right new =>
      rw [Expr.preorder, List.cons_subset, List.append_subset] at hin
      cases typed with | assign _ _ value_type target_type => ?_
      have haddress : Moves m k fuel depth f labels [] [False] (address x y).code :=
        moves_target hk array at' target_type hin.2.1
      have htee : Moves m k fuel depth f labels [False] [False] (plain [.localTee slot]) :=
        moves_localTee fun {_ w} hslots _ => hk.governs.scratch scratch w hslots
      have hload : Moves m k fuel depth f labels [False] [(address x y).type = .boolean]
          (plain [.load (address x y).type.wordType]) :=
        moves_gives rfl fun h => absurd h (elementType_ne x.type)
      have hnew := new.moves ((moves_get slot).append hload) (right.moves hk value_type hin.2.2)
      have hconverted := moves_asNumber hnew (elementType_ne x.type)
      exact ((haddress.append htee).append (hconverted.above [False])).append moves_store
  | @updateVariable id op leading i name slot t step name_variable chosen =>
      rw [Expr.preorder, List.cons_subset] at hin
      have hvariable := name_variable.type_eq
      have hkept : (t.arithmetic t).keepsTruth t = true := by
        refine hk.keeps _ (mem_expressions hin.1) (t.arithmetic t, t) (mem_conversion ?_ hvariable)
        rw [hvariable, Option.map_some]
      -- counting up a truth value would convert a number into one
      have hne : t ≠ .boolean := by
        rintro rfl
        cases hkept
      have hone := (moves_one t : Moves m k fuel depth f labels _ _ _).above [False]
      have hstep : Moves m k fuel depth f labels [False, False] [t = .boolean] (plain [step]) :=
        moves_gives (arithmetic_operands chosen) fun h => absurd h hne
      have hset := hstep.append (moves_setVariable hk.governs name_variable)
      exact (moves_get slot).append (hone.append hset)
  | @updateElement id op leading i object position x y slot step parts array is_array at' scratch
      chosen =>
      rw [Expr.preorder, List.cons_subset] at hin
      cases typed with | update _ target_type => ?_
      have haddress : Moves m k fuel depth f labels [] [False] (address x y).code :=
        moves_target hk array at' target_type hin.2
      have htee : Moves m k fuel depth f labels [False] [False] (plain [.localTee slot]) :=
        moves_localTee fun {_ w} hslots _ => hk.governs.scratch scratch w hslots
      have hload : Moves m k fuel depth f labels [False] [False]
          (plain [.load (address x y).type.wordType]) := moves_gives rfl False.elim
      have hone := (moves_one (address x y).type : Moves m k fuel depth f labels _ _ _).above
        [False]
      have hstep : Moves m k fuel depth f labels [False, False] [False] (plain [step]) :=
        moves_gives (arithmetic_operands chosen) False.elim
      have hnew := (moves_get slot).append (hload.append (hone.append hstep))
      exact haddress.append (htee.append ((hnew.above [False]).append moves_store))
  | value _ part => exact (part.moves hk typed hin).append moves_drop

/-- Each variable is declared with a truth value if it should hold one. -/
lemma Declares.moves {ds : List Declarator} {code : Code} (h : Declares cx size ds code)
    (hin : Declarator.visits ds ⊆ cx.function.visits)
    (hroots : ds.map Root.declarator ⊆ cx.function.roots) :
    Moves m k fuel depth f labels [] [] code := by
  induction h with
  | nil => exact moves_nil
  | bare _ _ ih =>
      simp only [Declarator.visits, List.cons_subset, List.append_subset] at hin
      rw [List.map_cons, List.cons_subset] at hroots
      exact ih hin.2.2 hroots.2
  | @bound target init rest name slot t x code target_name name_variable new _ ih =>
      simp only [Declarator.visits, List.cons_subset, List.append_subset] at hin
      rw [List.map_cons, List.cons_subset] at hroots
      obtain ⟨hself, hinit, hrest⟩ := hin
      obtain ⟨name', hname, htyped⟩ := hk.consistent.roots_typed _ hroots.1
      obtain ⟨u, _, init_type, _⟩ := htyped init rfl
      have hkept : u.keepsTruth t = true := by
        refine hk.keeps _ hself (_, _) (mem_conversion init_type.recorded ?_)
        rw [target_name, Option.bind_some]
        exact name_variable.type_eq
      rw [← new.type_eq init_type] at hkept
      have hnew : Moves m k fuel depth f labels [] [t = .boolean] (x.as t) :=
        moves_as (new.moves hk init_type (preorder_subset hinit)) hkept
      exact (hnew.append (moves_setVariable hk.governs name_variable)).append (ih hrest hroots.2)

/-- The test of a loop is taken by the branch out of it. -/
lemma Exits.moves {test : Option Expr} {code : Code} (h : Exits cx size test code)
    (hroots : Root.ofOption test ⊆ cx.function.roots)
    (hlabels : 0 < labels) : Moves m k fuel depth f labels [] [] code := by
  cases h with
  | never => exact moves_nil
  | @tested e x test =>
      obtain ⟨hin, t, typed⟩ := hk.consistent.expression_root (hroots List.mem_cons_self)
      have hcondition : Moves m k fuel depth f labels [] [False] x.condition :=
        moves_condition (test.moves hk typed hin)
      have heqz : Moves m k fuel depth f labels [False] [False] (plain [.i32Eqz]) :=
        moves_gives rfl False.elim
      exact hcondition.append (heqz.append (moves_brIf hlabels))

/-- The step of a loop leaves no value. -/
lemma Steps.moves {step : Option Expr} {code : Code} (h : Steps cx size step code)
    (hroots : Root.ofOption step ⊆ cx.function.roots) :
    Moves m k fuel depth f labels [] [] code := by
  cases h with
  | none => exact moves_nil
  | some part =>
      obtain ⟨hin, t, typed⟩ := hk.consistent.expression_root (hroots List.mem_cons_self)
      exact part.moves hk typed hin

omit hk in
/-- The rounds of a loop, which is left from inside of a block. -/
lemma moves_roundAndRound {exit body step : Code}
    (hexit : ∀ n ≤ fuel, Moves m k n depth f (labels + 2) [] [] exit)
    (hbody : ∀ n ≤ fuel, Moves m k n depth f (labels + 2) [] [] body)
    (hstep : ∀ n ≤ fuel, Moves m k n depth f (labels + 2) [] [] step) :
    Moves m k fuel depth f labels [] [] (roundAndRound exit body step) := by
  refine moves_loop fun n hn => moves_block ?_
  exact (((hexit n hn).append (hbody n hn)).append (hstep n hn)).append (moves_br (by omega))

end

mutual

/-- The code of a statement of a function that keeps truth. -/
theorem LowersStatement.moves : ∀ {s : Statement} {code : Code}, LowersStatement cx size s code →
    s.visits ⊆ cx.function.visits → s.roots ⊆ cx.function.roots →
    ∀ labels fuel, Careful m k fuel depth f cx → Moves m k fuel depth f labels [] [] code
  | _, _, .declare parts, hin, hroots, _, _, hk => by
      rw [Statement.visits, List.cons_subset] at hin
      exact parts.moves hk hin.2 hroots
  | _, _, .expression part, _, hroots, _, _, hk => by
      obtain ⟨hin, t, typed⟩ := hk.consistent.expression_root (hroots List.mem_cons_self)
      exact part.moves hk typed hin
  | _, _, .retZero, _, _, _, _, hk =>
      (moves_zero cx.signature.returnType).append (moves_ret fun _ => hk.governs.result_iff.mpr)
  | _, _, .ret part, hvisits, hroots, _, _, hk => by
      rw [Statement.visits, List.cons_subset] at hvisits
      obtain ⟨hin, t, typed⟩ := hk.consistent.expression_root (hroots List.mem_cons_self)
      have hkept := hk.keeps _ hvisits.1 (t, cx.signature.returnType)
        (mem_conversion typed.recorded rfl)
      rw [← part.type_eq typed] at hkept
      exact (moves_as (part.moves hk typed hin) hkept).append
        (moves_ret fun _ => hk.governs.result_iff.mpr)
  | _, _, .conditional condition first second, hvisits, hroots, labels, _, hk => by
      simp only [Statement.visits, List.cons_subset, List.append_subset] at hvisits
      rw [Statement.roots, List.cons_subset, List.append_subset] at hroots
      obtain ⟨_, ⟨_, hfirst⟩, hsecond⟩ := hvisits
      obtain ⟨hin, t, typed⟩ := hk.consistent.expression_root hroots.1
      exact (moves_condition (condition.moves hk typed hin)).append
        (moves_choice (first.moves hfirst hroots.2.1 _ _ hk) fun c hother =>
          second.moves hsecond hroots.2.2 _ _ hk c hother)
  | _, _, .whileLoop leaving round, hvisits, hroots, labels, _, hk => by
      simp only [Statement.visits, List.cons_subset, List.append_subset] at hvisits
      rw [Statement.roots, List.cons_subset] at hroots
      refine moves_roundAndRound (fun j hj => ?_) (fun j hj => ?_) fun j hj => moves_nil
      · refine leaving.moves (hk.mono hj) ?_ (by omega)
        simpa [Root.ofOption] using hroots.1
      · exact round.moves hvisits.2.2 hroots.2 _ j (hk.mono hj)
  | _, _, .forLoop before leaving round stepping, hvisits, hroots, labels, _, hk => by
      simp only [Statement.visits, List.cons_subset, List.append_subset] at hvisits
      simp only [Statement.roots, List.append_subset] at hroots
      obtain ⟨_, ⟨⟨hvinit, _⟩, _⟩, hvbody⟩ := hvisits
      obtain ⟨⟨⟨hinit, htest⟩, hupdate⟩, hbody⟩ := hroots
      refine (before.moves hvinit hinit _ _ hk).append
        (moves_roundAndRound (fun j hj => ?_) (fun j hj => ?_) fun j hj => ?_)
      · exact leaving.moves (hk.mono hj) htest (by omega)
      · exact round.moves hvbody hbody _ j (hk.mono hj)
      · exact stepping.moves (hk.mono hj) hupdate
  | _, _, .block parts, hvisits, hroots, labels, _, hk => by
      rw [Statement.visits, List.cons_subset] at hvisits
      exact parts.moves hvisits.2 hroots labels _ hk
  | _, _, .empty, _, _, _, _, _ => moves_nil

theorem LowersAlternative.moves : ∀ {s : Option Statement} {code : Option Code},
    LowersAlternative cx size s code → Statement.visitsOption s ⊆ cx.function.visits →
    Statement.rootsOption s ⊆ cx.function.roots → ∀ labels fuel, Careful m k fuel depth f cx →
    ∀ c, code = some c → Moves m k fuel depth f labels [] [] c
  | _, _, .none, _, _, _, _, _, _, h => by cases h
  | _, _, .some part, hvisits, hroots, labels, _, hk, _, h =>
      Option.some.inj h ▸ part.moves hvisits hroots labels _ hk

theorem LowersInitial.moves : ∀ {s : Option Statement} {code : Code},
    LowersInitial cx size s code → Statement.visitsOption s ⊆ cx.function.visits →
    Statement.rootsOption s ⊆ cx.function.roots → ∀ labels fuel, Careful m k fuel depth f cx →
    Moves m k fuel depth f labels [] [] code
  | _, _, .none, _, _, _, _, _ => moves_nil
  | _, _, .some part, hvisits, hroots, labels, _, hk => part.moves hvisits hroots labels _ hk

theorem LowersStatements.moves : ∀ {ss : List Statement} {code : Code},
    LowersStatements cx size ss code → Statement.visitsList ss ⊆ cx.function.visits →
    Statement.rootsList ss ⊆ cx.function.roots → ∀ labels fuel, Careful m k fuel depth f cx →
    Moves m k fuel depth f labels [] [] code
  | _, _, .nil, _, _, _, _, _ => moves_nil
  | _, _, .cons first others, hvisits, hroots, labels, _, hk => by
      rw [Statement.visitsList, List.append_subset] at hvisits
      rw [Statement.rootsList, List.append_subset] at hroots
      exact (first.moves hvisits.1 hroots.1 labels _ hk).append
        (others.moves hvisits.2 hroots.2 labels _ hk)

end

end Lowering

end ArrayScript
