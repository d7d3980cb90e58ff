import ArrayScript.Compilation
import ArrayScript.Proofs.Renaming.Analyses

/-!
Code does not depend on the names of variables.

* `Lowering.Tracks ρ x x'`: `x'` generates what `x` generates, with the same scratch
  variables, and its errors are renamed. It is closed under the steps of a lowering, so each
  function of the lowering has it by the recursion of its definition.
* `LoweringContext.lower_rename`: a function is lowered in the renamed context as it is in
  the context.
* `FunctionDeclaration.lowered_rename`: for slots, types and code together.

Nothing is assumed about slots and types in a context: only that the same new names are
given to the function, to its slots and to its types.
-/

namespace ArrayScript

/-- A function that is to be lowered, with new names for its variables. -/
def LoweringContext.rename (ρ : String → String) (cx : LoweringContext) : LoweringContext :=
  { cx with
    function := cx.function.rename ρ
    mapping := cx.mapping.rename ρ
    firstSlot_eq := VariableMapping.rename_firstSlot.trans cx.firstSlot_eq
    typing := cx.typing.rename ρ }

/-- The names with slots are the new ones, in the same order. -/
lemma LoweringContext.names_rename {ρ : String → String} (hρ : Function.Injective ρ)
    (cx : LoweringContext) : (cx.rename ρ).names = cx.names.map ρ :=
  VariableMapping.rename_names hρ

/-- A name is found where it was: different names stay different. -/
lemma idxOf?_map {ρ : String → String} (hρ : Function.Injective ρ) (names : List String)
    (name : String) : (names.map ρ).idxOf? (ρ name) = names.idxOf? name := by
  induction names with
  | nil => rfl
  | cons n rest ih =>
      simp only [List.map_cons, List.idxOf?_cons, beq_iff_eq, hρ.eq_iff, ih]

namespace Lowering

variable {ρ : String → String} {cx : LoweringContext}

/-- `x'` generates the code that `x` generates. -/
abbrev Tracks {α : Type} (ρ : String → String) (x x' : Lower α) : Prop :=
  Commutes ρ id id x x'

/-! ### The context -/

/-- A variable has the slot that it had; if it has none, the error names the new
variable. -/
lemma slot_rename (hρ : Function.Injective ρ) (name : String) :
    slot (cx.rename ρ) (ρ name) = renamed ρ id (slot cx name) := by
  have hcontains : (cx.rename ρ).typing.variableTypes.contains (ρ name)
      = cx.typing.variableTypes.contains name := by
    simp only [LoweringContext.rename, Typing.rename, Table.contains_mapKeys hρ]
  rw [slot_eq, slot_eq, cx.names_rename hρ, idxOf?_map hρ, hcontains]
  split
  · rfl
  · split <;> rfl

/-- The same as a step of lowering. -/
lemma slot_tracks (hρ : Function.Injective ρ) (name : String) :
    Tracks ρ (liftM (slot cx name)) (liftM (slot (cx.rename ρ) (ρ name))) :=
  .lift (slot_rename hρ name)

/-- A variable has the type that it had. -/
lemma variableType_tracks (hρ : Function.Injective ρ) (name : String) :
    Tracks ρ (liftM (cx.typing.variableType name))
      (liftM ((cx.rename ρ).typing.variableType (ρ name))) :=
  .lift (Typing.variableType_rename hρ cx.typing name)

/-- Types of expressions are found by id, and ids stay. -/
lemma expressionType_tracks (id : ExprId) :
    Tracks ρ (liftM (cx.typing.expressionType id))
      (liftM ((cx.rename ρ).typing.expressionType id)) := by
  refine .lift ?_
  rw [Typing.expressionType, Typing.expressionType, LoweringContext.rename, Typing.rename]
  cases cx.typing.expressionTypes.find? id <;> rfl

/-- Scratch slots lie behind all names, of which there are as many as before. -/
lemma acquire_tracks (hρ : Function.Injective ρ) :
    Tracks ρ (acquire cx) (acquire (cx.rename ρ)) := by
  intro s
  have hlength : (cx.rename ρ).mapping.len = cx.mapping.len := by
    rw [cx.len_mapping, (cx.rename ρ).len_mapping, cx.names_rename hρ, List.length_map]
  rw [acquire, acquire, hlength]
  obtain ⟨count, _ | ⟨slot, rest⟩⟩ := s <;> rfl

lemma release_tracks (slot : Nat) : Tracks ρ (release slot) (release slot) :=
  .modify fun _ => rfl

/-! ### Instructions -/

/-- The choice of an instruction sees no names. -/
lemma arithmetic_rename (op : BinaryOp) (float : Bool) :
    arithmetic op float = renamed ρ id (arithmetic op float) := by
  cases op <;> cases float <;> rfl

lemma instruction_rename (op : BinaryOp) (float : Bool) :
    instruction op float = renamed ρ id (instruction op float) := by
  cases op <;> cases float <;> rfl

/-- Two operands are put together as before. -/
lemma combine_tracks (op : BinaryOp) (left : Operand) (rightType : ValueType)
    {right right' : Lower Operand} (h : Tracks ρ right right') :
    Tracks ρ (combine op left rightType right) (combine op left rightType right') :=
  Commutes.bind (.lift (instruction_rename op _)) fun _ => h.bind fun _ => .pure _

/-! ### Expressions -/

mutual

/-- The code of an expression does not depend on names. -/
theorem expression_rename (hρ : Function.Injective ρ) :
    ∀ e : Expr, Tracks ρ (expression cx e) (expression (cx.rename ρ) (e.rename ρ))
  | .number id x => by
      rw [Expr.rename, expression, expression]
      exact (expressionType_tracks id).bind fun _ => .pure _
  | .boolean _ b => by
      rw [Expr.rename, expression, expression]
      exact .pure _
  | .identifier id name => by
      rw [Expr.rename, expression, expression]
      exact (slot_tracks hρ name).bind fun _ => (expressionType_tracks id).bind fun _ => .pure _
  | .unary _ .not a | .unary _ .plus a => by
      rw [Expr.rename, expression, expression]
      exact (expression_rename hρ a).bind fun _ => .pure _
  | .unary _ .minus a => by
      rw [Expr.rename, expression, expression, Expr.id_rename]
      refine (expressionType_tracks a.id).bind fun type => ?_
      dsimp only [id]
      split <;> exact (expression_rename hρ a).bind fun _ => .pure _
  | .binary _ op a b => by
      rw [Expr.rename, expression, expression, Expr.id_rename]
      exact (expression_rename hρ a).bind fun left =>
        (expressionType_tracks b.id).bind fun rightType =>
          combine_tracks op left rightType (expression_rename hρ b)
  | .logical _ op a b => by
      rw [Expr.rename, expression, expression]
      exact (expression_rename hρ a).bind fun _ => (acquire_tracks hρ).bind fun scratch =>
        (expression_rename hρ b).bind fun _ => (release_tracks scratch).bind fun _ => .pure _
  | .index _ object position => by
      rw [Expr.rename, expression, expression]
      exact (expression_rename hρ object).bind fun _ =>
        (expression_rename hρ position).bind fun _ => .pure _
  | .property _ object name => by
      rw [Expr.rename, expression, expression]
      split
      · exact (expression_rename hρ object).bind fun _ => .pure _
      · exact .throw
  | .call _ callee arguments => by
      rw [Expr.rename_call, expression, expression, Expr.identifier?_renameCallee,
        Expr.kindName_renameCallee]
      cases callee.identifier? with
      | none => exact .throw
      | some name =>
          have hindices : (cx.rename ρ).indices = cx.indices := rfl
          simp only [hindices]
          cases cx.indices.find? name with
          | none => exact .throw
          | some index =>
              refine Commutes.bind (.lift (Typing.require_rename cx.table name)) fun signature => ?_
              rw [Expr.length_renameAll]
              exact Commutes.orThrow
                ((callArguments_rename hρ arguments signature.parameters).bind fun _ => .pure _)
  | .array _ _ => by
      rw [Expr.rename, expression, expression]
      exact .throw
  | .assign _ _ _ _ | .update _ _ _ _ => by
      rw [Expr.rename, expression, expression]
      exact .throw

/-- Arguments are lowered as before. -/
theorem callArguments_rename (hρ : Function.Injective ρ) :
    ∀ (es : List Expr) (types : List ValueType),
      Tracks ρ (callArguments cx es types)
        (callArguments (cx.rename ρ) (Expr.renameAll ρ es) types)
  | [], _ => by
      rw [Expr.renameAll, callArguments, callArguments]
      · exact .pure _
      all_goals simp
  | e :: rest, [] => by
      rw [Expr.renameAll, callArguments, callArguments]
      · exact .pure _
      all_goals simp
  | e :: rest, type :: types => by
      rw [Expr.renameAll, callArguments, callArguments]
      exact (expression_rename hρ e).bind fun _ =>
        (callArguments_rename hρ rest types).bind fun _ => .pure _

end

/-! ### Statements -/

/-- An assignment is lowered as before. -/
lemma assign_rename (hρ : Function.Injective ρ) (op : AssignOp) (target value : Expr) :
    Tracks ρ (assign cx op target value)
      (assign (cx.rename ρ) op (target.rename ρ) (value.rename ρ)) := by
  cases target with
  | identifier id name =>
      rw [Expr.rename, assign, assign, Expr.id_rename]
      refine (slot_tracks hρ name).bind fun slot => (variableType_tracks hρ name).bind fun type =>
        ?_
      cases op.binaryOp? with
      | none => exact (expression_rename hρ value).bind fun _ => .pure _
      | some op =>
          exact (expressionType_tracks value.id).bind fun _ =>
            (combine_tracks op _ _ (expression_rename hρ value)).bind fun _ => .pure _
  | index id object position =>
      rw [Expr.rename, assign, assign, Expr.id_rename]
      refine (expression_rename hρ object).bind fun array =>
        (expression_rename hρ position).bind fun position => ?_
      cases op.binaryOp? with
      | none => exact (expression_rename hρ value).bind fun _ => .pure _
      | some op =>
          refine (acquire_tracks hρ).bind fun scratch => ?_
          refine (expressionType_tracks value.id).bind fun _ => ?_
          exact (combine_tracks op _ _ (expression_rename hρ value)).bind fun _ =>
            (release_tracks scratch).bind fun _ => .pure _
  | _ => exact .throw

/-- An increment or decrement is lowered as before. -/
lemma update_rename (hρ : Function.Injective ρ) (op : UpdateOp) (target : Expr) :
    Tracks ρ (update cx op target) (update (cx.rename ρ) op (target.rename ρ)) := by
  cases target with
  | identifier id name =>
      exact (slot_tracks hρ name).bind fun _ => (variableType_tracks hρ name).bind fun _ =>
        Commutes.bind (.lift (arithmetic_rename op.binaryOp _)) fun _ => .pure _
  | index id object position =>
      exact (expression_rename hρ object).bind fun _ =>
        (expression_rename hρ position).bind fun _ => (acquire_tracks hρ).bind fun scratch =>
          Commutes.bind (.lift (arithmetic_rename op.binaryOp _)) fun _ =>
            (release_tracks scratch).bind fun _ => .pure _
  | _ => exact .throw

/-- An expression that is lowered for its effect is lowered as before. -/
lemma effect_rename (hρ : Function.Injective ρ) (e : Expr) :
    Tracks ρ (effect cx e) (effect (cx.rename ρ) (e.rename ρ)) := by
  cases e with
  | assign id op target value => exact assign_rename hρ op target value
  | update id op leading target => exact update_rename hρ op target
  | _ => exact (expression_rename hρ _).bind fun _ => .pure _

/-- Declarators are lowered as before, and an error names the new variable. -/
lemma declarators_rename (hρ : Function.Injective ρ) (ds : List Declarator) :
    Tracks ρ (declarators cx ds) (declarators (cx.rename ρ) (ds.map (Declarator.rename ρ))) := by
  induction ds with
  | nil => exact .pure _
  | cons d rest ih =>
      obtain ⟨target, init⟩ := d
      rw [List.map_cons, declarators, declarators, Declarator.identifier?_rename]
      cases target.identifier? with
      | none => exact .throw
      | some name =>
          cases init with
          | none => exact ih
          | some init =>
              exact (slot_tracks hρ name).bind fun _ =>
                (variableType_tracks hρ name).bind fun _ =>
                  (expression_rename hρ init).bind fun _ => ih.bind fun _ => .pure _

/-- The test of a loop is lowered as before. -/
lemma loopExit_rename (hρ : Function.Injective ρ) (test : Option Expr) :
    Tracks ρ (loopExit cx test) (loopExit (cx.rename ρ) (test.map (Expr.rename ρ))) := by
  cases test with
  | none => exact .pure _
  | some test => exact (expression_rename hρ test).bind fun _ => .pure _

/-- What is done between two rounds is lowered as before. -/
lemma loopStep_rename (hρ : Function.Injective ρ) (step : Option Expr) :
    Tracks ρ (loopStep cx step) (loopStep (cx.rename ρ) (step.map (Expr.rename ρ))) := by
  cases step with
  | none => exact .pure _
  | some e => exact effect_rename hρ e

mutual

/-- The code of a statement does not depend on names. -/
theorem statement_rename (hρ : Function.Injective ρ) :
    ∀ s : Statement, Tracks ρ (statement cx s) (statement (cx.rename ρ) (s.rename ρ))
  | .function name params returnType body => by
      rw [Statement.rename, statement, statement]
      exact .throw
  | .declare kind ds => by
      rw [Statement.rename, statement, statement]
      exact declarators_rename hρ ds
  | .expression e => by
      rw [Statement.rename, statement, statement]
      exact effect_rename hρ e
  | .ret none => by
      rw [Statement.rename, Option.map_none, statement, statement]
      exact .pure _
  | .ret (some e) => by
      rw [Statement.rename, Option.map_some, statement, statement]
      exact (expression_rename hρ e).bind fun _ => .pure _
  | .conditional test consequent alternate => by
      rw [Statement.rename, statement, statement]
      exact (expression_rename hρ test).bind fun _ => (statement_rename hρ consequent).bind fun _ =>
        (alternative_rename hρ alternate).bind fun _ => .pure _
  | .whileLoop test body => by
      rw [Statement.rename, statement, statement]
      exact (loopExit_rename hρ (some test)).bind fun _ => (statement_rename hρ body).bind fun _ =>
        .pure _
  | .forLoop init test update body => by
      rw [Statement.rename, statement, statement]
      exact (initial_rename hρ init).bind fun _ => (loopExit_rename hρ test).bind fun _ =>
        (statement_rename hρ body).bind fun _ => (loopStep_rename hρ update).bind fun _ => .pure _
  | .block body => by
      rw [Statement.rename, statement, statement]
      exact statements_rename hρ body
  | .empty => by
      rw [Statement.rename, statement, statement]
      exact .pure _

/-- An alternate is lowered as before. -/
theorem alternative_rename (hρ : Function.Injective ρ) : ∀ s : Option Statement,
    Tracks ρ (alternative cx s) (alternative (cx.rename ρ) (Statement.renameOption ρ s))
  | none => by
      rw [Statement.renameOption, alternative, alternative]
      exact .pure _
  | some s => by
      rw [Statement.renameOption, alternative, alternative]
      exact (statement_rename hρ s).bind fun _ => .pure _

/-- What a `for` starts with is lowered as before. -/
theorem initial_rename (hρ : Function.Injective ρ) : ∀ s : Option Statement,
    Tracks ρ (initial cx s) (initial (cx.rename ρ) (Statement.renameOption ρ s))
  | none => by
      rw [Statement.renameOption, initial, initial]
      exact .pure _
  | some s => by
      rw [Statement.renameOption, initial, initial]
      exact statement_rename hρ s

/-- Statements one after another are lowered as before. -/
theorem statements_rename (hρ : Function.Injective ρ) : ∀ body : List Statement,
    Tracks ρ (statements cx body) (statements (cx.rename ρ) (Statement.renameAll ρ body))
  | [] => by
      rw [Statement.renameAll, statements, statements]
      exact .pure _
  | s :: rest => by
      rw [Statement.renameAll, statements, statements]
      exact (statement_rename hρ s).bind fun _ => (statements_rename hρ rest).bind fun _ => .pure _

end

/-! ### Functions -/

/-- The slots of the locals have the types that they had. -/
lemma localTypes_rename (hρ : Function.Injective ρ) (cx : LoweringContext) :
    localTypes (cx.rename ρ) = localTypes cx := by
  have hnames : (cx.rename ρ).names.drop (cx.rename ρ).signature.arity
      = (cx.names.drop cx.signature.arity).map ρ := by
    rw [cx.names_rename hρ, List.map_drop]
    rfl
  rw [localTypes, localTypes, hnames, List.map_map]
  refine List.map_congr_left fun name _ => ?_
  show (((cx.typing.variableTypes.mapKeys ρ).find? (ρ name)).map ValueType.wordType).getD .i32 = _
  rw [Table.find?_mapKeys hρ]

/-- The body of a function is lowered as before. -/
lemma body_rename (hρ : Function.Injective ρ) : Tracks ρ (body cx) (body (cx.rename ρ)) :=
  (statements_rename hρ cx.function.body).bind fun _ => .pure _

end Lowering

open Lowering in
/-- A context and the context with new names fail alike, or give functions that differ in
the names of the variables only. -/
lemma LoweringContext.lower_rename {ρ : String → String} (hρ : Function.Injective ρ)
    (cx : LoweringContext) :
    (∃ e, cx.lower = .error e ∧ (cx.rename ρ).lower = .error (e.rename ρ)) ∨
      ∃ g count, cx.lower = .ok g ∧ g.localNames = cx.names ++ scratchNames count ∧
        (cx.rename ρ).lower
          = .ok { g with localNames := cx.names.map ρ ++ scratchNames count } := by
  have hbody : body (cx.rename ρ) {} = renamed ρ (Prod.map id id) (body cx {}) := body_rename hρ {}
  cases hrun : body cx {} with
  | error e =>
      rw [hrun] at hbody
      refine .inl ⟨e, ?_, ?_⟩
      · rw [lower, StateT.run, hrun]
        rfl
      · rw [lower, StateT.run, hbody]
        rfl
  | ok found =>
      obtain ⟨code, scratch⟩ := found
      rw [hrun] at hbody
      have hlower : cx.lower = .ok ⟨cx.function.displayName,
          cx.signature.parameters.map ValueType.wordType, cx.signature.returnType.wordType,
          localTypes cx ++ List.replicate scratch.count .i32,
          cx.names ++ scratchNames scratch.count, code⟩ := by
        rw [lower, StateT.run, hrun]
        rfl
      refine .inr ⟨_, scratch.count, hlower, rfl, ?_⟩
      rw [lower, StateT.run, hbody, ← localTypes_rename hρ cx, ← cx.names_rename hρ]
      rfl

/-- The machine code of a function with the given signature: its variables get slots, then
types, and then its body is lowered. -/
def FunctionDeclaration.lowered (f : FunctionDeclaration) (signature : Signature)
    (table : SignatureTable) (indices : Table String Nat) :
    Except CompileError CompiledFunction := do
  let slots ← Slots.resolve f
  let typing ← Typing.ofFunction f signature table
  LoweringContext.lower {
    function := f
    signature := signature
    table := table
    mapping := slots.merged
    firstSlot_eq := slots.merged_firstSlot
    typing := typing
    indices := indices }

/-- A function of a program is lowered with the signature under its name. -/
lemma NamedFunction.compile_eq (table : SignatureTable) (indices : Table String Nat)
    (f : NamedFunction) :
    f.compile table indices
      = table.require f.name >>= fun s => f.declaration.lowered s table indices :=
  rfl

namespace FunctionDeclaration

/-- Once both analyses have succeeded, what is left is lowering. -/
lemma lowered_of_ok {f : FunctionDeclaration} {signature : Signature} {table : SignatureTable}
    {slots : Slots} {typing : Typing} (indices : Table String Nat)
    (hslots : Slots.resolve f = .ok slots)
    (htyping : Typing.ofFunction f signature table = .ok typing) :
    f.lowered signature table indices
      = LoweringContext.lower
        ⟨f, signature, table, slots.merged, slots.merged_firstSlot, typing, indices⟩ := by
  rw [lowered, hslots, htyping]
  rfl

/-- The steps one after another: an error of one of them is met under the new names as well,
and code is the same. -/
lemma lowered_cases {ρ : String → String} (hρ : Function.Injective ρ) (f : FunctionDeclaration)
    (signature : Signature) (table : SignatureTable) (indices : Table String Nat) :
    (∃ e, f.lowered signature table indices = .error e ∧
        (f.rename ρ).lowered signature table indices = .error (e.rename ρ)) ∨
      ∃ g slots count, f.lowered signature table indices = .ok g ∧ Slots.resolve f = .ok slots ∧
        g.localNames = slots.names ++ Lowering.scratchNames count ∧
        (f.rename ρ).lowered signature table indices
          = .ok { g with localNames := slots.names.map ρ ++ Lowering.scratchNames count } := by
  have hresolve := Slots.resolve_rename hρ f
  have hinfer := Typing.ofFunction_rename hρ f signature table
  cases hslots : Slots.resolve f with
  | error e =>
      rw [hslots] at hresolve
      refine .inl ⟨e, ?_, ?_⟩
      · rw [lowered, hslots]
        rfl
      · rw [lowered, hresolve]
        rfl
  | ok slots =>
      rw [hslots] at hresolve
      cases htyping : Typing.ofFunction f signature table with
      | error e =>
          rw [htyping] at hinfer
          refine .inl ⟨e, ?_, ?_⟩
          · rw [lowered, hslots, htyping]
            rfl
          · rw [lowered, hresolve, hinfer]
            rfl
      | ok typing =>
          rw [htyping] at hinfer
          rw [lowered_of_ok indices hslots htyping, lowered_of_ok indices hresolve hinfer]
          simp only [Slots.merged_rename hρ]
          rcases LoweringContext.lower_rename hρ
              ⟨f, signature, table, slots.merged, slots.merged_firstSlot, typing, indices⟩ with
            ⟨e, he⟩ | ⟨g, count, hg, hnames, hrenamed⟩
          · exact .inl ⟨e, he⟩
          · exact .inr ⟨g, slots, count, hg, rfl, hnames, hrenamed⟩

/-- **Names of variables do not matter.** A function whose parameters, declared names and
identifiers have new names is lowered exactly if the function itself is. The errors are the
same up to the new names. The results are equal in names, types and code, and differ in the
list of the variables, where the names of the source are new and those of scratch variables
stay. -/
theorem lowered_rename {ρ : String → String} (hρ : Function.Injective ρ)
    (f : FunctionDeclaration) (signature : Signature) (table : SignatureTable)
    (indices : Table String Nat) :
    ((∃ g, (f.rename ρ).lowered signature table indices = .ok g) ↔
        ∃ g, f.lowered signature table indices = .ok g) ∧
      (∀ e, f.lowered signature table indices = .error e →
        (f.rename ρ).lowered signature table indices = .error (e.rename ρ)) ∧
      ∀ g, f.lowered signature table indices = .ok g →
        ∃ slots count, Slots.resolve f = .ok slots ∧
          g.localNames = slots.names ++ Lowering.scratchNames count ∧
          (f.rename ρ).lowered signature table indices
            = .ok { g with localNames := slots.names.map ρ ++ Lowering.scratchNames count } := by
  rcases lowered_cases hρ f signature table indices with
    ⟨e, he, hrenamed⟩ | ⟨g, slots, count, hg, hslots, hnames, hrenamed⟩
  · rw [he, hrenamed]
    refine ⟨⟨fun ⟨_, h⟩ => (nomatch h), fun ⟨_, h⟩ => (nomatch h)⟩, fun e' h => ?_,
      fun _ h => (nomatch h)⟩
    rw [Except.error.inj h]
  · rw [hg, hrenamed]
    refine ⟨⟨fun _ => ⟨g, rfl⟩, fun _ => ⟨_, rfl⟩⟩, fun _ h => (nomatch h), fun g' h => ?_⟩
    rw [← Except.ok.inj h]
    exact ⟨slots, count, hslots, hnames, rfl⟩

end FunctionDeclaration

/-- A function with a parameter of its own name and a local variable with the name of a
scratch variable. -/
def callingItself : FunctionDeclaration :=
  ⟨some "f", [⟨.identifier "f", none⟩], none,
    [.declare .var [⟨.identifier "tmp0", some (.call 0 (.identifier 1 "f") [.identifier 2 "f"])⟩],
     .ret (some (.logical 3 .and (.identifier 4 "tmp0") (.identifier 5 "f")))]⟩

theorem callingItself_renamed :
    ∃ g, callingItself.lowered ⟨[.int32], .boolean⟩ (Table.ofList [("f", ⟨[.int32], .boolean⟩)])
          (Table.ofList [("f", 0)]) = .ok g ∧
      g.localNames = ["f", "tmp0", "tmp0"] ∧
      (callingItself.rename ("x" ++ ·)).lowered ⟨[.int32], .boolean⟩
          (Table.ofList [("f", ⟨[.int32], .boolean⟩)]) (Table.ofList [("f", 0)])
        = .ok { g with localNames := ["xf", "xtmp0", "tmp0"] } := by
  have hρ : Function.Injective (("x" ++ ·) : String → String) :=
    fun _ _ h => (String.append_right_inj "x").mp h
  refine ⟨_, rfl, rfl, ?_⟩
  have hresolve : Slots.resolve callingItself = .ok
      ⟨(VariableMapping.startingAt 0).declareAll ["f"],
        (VariableMapping.startingAt 1).declareAll ["tmp0"]⟩ := rfl
  obtain ⟨slots, count, hslots, hnames, hrenamed⟩ :=
    (FunctionDeclaration.lowered_rename hρ callingItself ⟨[.int32], .boolean⟩
      (Table.ofList [("f", ⟨[.int32], .boolean⟩)]) (Table.ofList [("f", 0)])).2.2 _ rfl
  obtain rfl := Except.ok.inj (hresolve.symm.trans hslots)
  have hlength : 3 = (["f", "tmp0"] ++ Lowering.scratchNames count).length :=
    congrArg List.length hnames
  obtain rfl : count = 1 := by simpa [Lowering.scratchNames] using hlength
  exact hrenamed

end ArrayScript
