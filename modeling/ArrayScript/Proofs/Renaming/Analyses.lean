import ArrayScript.Proofs.Renaming.Syntax
import ArrayScript.Proofs.Slots.Mapping

/-!
Slots and types do not depend on names.

* `CompileError.rename`: the variables that an error names get their new names.
* `Commutes ρ φ f x x'`: what `x'` does after the states were changed by `φ` is what `x` does
  before, its result changed by `f` and its errors renamed. This is closed under the steps of
  a computation.
* `Slots.resolve_rename`: the slots of a renamed function are those of the function, renamed.
* `Table.mapKeys`: a table with new keys; look-ups and insertions commute with it if no two
  keys become one.
* `Typing.infer_rename`, `Typing.ofFunction_rename`: so do the steps of inference, and the
  types of a renamed function are those of the function under the new names.
-/

namespace ArrayScript

/-! ### Errors and results -/

/-- An error with new names for the variables in it. Names of functions and properties
stay. -/
def CompileError.rename (ρ : String → String) : CompileError → CompileError
  | duplicateParameter function name => duplicateParameter function (ρ name)
  | unknownIdentifier name => unknownIdentifier (ρ name)
  | unresolvedSlot name => unresolvedSlot (ρ name)
  | untypedVariable name => untypedVariable (ρ name)
  | e => e

/-- A result that is changed, or an error with new names. -/
def renamed {α β : Type} (ρ : String → String) (f : α → β) (x : Except CompileError α) :
    Except CompileError β :=
  (x.map f).mapError (CompileError.rename ρ)

section Renamed

variable {α β γ δ : Type} {ρ : String → String}

/-- Two steps are renamed if each is. -/
lemma renamed_bind {f : α → γ} {g : β → δ} {x : Except CompileError α}
    {k : α → Except CompileError β} {k' : γ → Except CompileError δ}
    (hk : ∀ a, k' (f a) = renamed ρ g (k a)) :
    renamed ρ f x >>= k' = renamed ρ g (x >>= k) := by
  cases x with
  | ok a => exact hk a
  | error e => rfl

end Renamed

/-! ### Computations -/

/-- What `x'` does from a changed state is what `x` does, with result, state and errors
changed. -/
def Commutes {σ α β : Type} (ρ : String → String) (φ : σ → σ) (f : α → β)
    (x : StateT σ (Except CompileError) α) (x' : StateT σ (Except CompileError) β) : Prop :=
  ∀ s, x' (φ s) = renamed ρ (Prod.map f φ) (x s)

namespace Commutes

variable {σ α β γ δ : Type} {ρ : String → String} {φ : σ → σ} {f : α → γ} {g : β → δ}
  {x : StateT σ (Except CompileError) α} {x' : StateT σ (Except CompileError) γ}
  {k : α → StateT σ (Except CompileError) β} {k' : γ → StateT σ (Except CompileError) δ}

lemma pure (a : α) : Commutes ρ φ f (Pure.pure a) (Pure.pure (f a)) :=
  fun _ => rfl

lemma bind (hx : Commutes ρ φ f x x') (hk : ∀ a, Commutes ρ φ g (k a) (k' (f a))) :
    Commutes ρ φ g (x >>= k) (x' >>= k') := by
  intro s
  show Except.bind (x' (φ s)) (fun p => k' p.1 p.2)
    = renamed ρ _ (Except.bind (x s) fun p => k p.1 p.2)
  rw [hx s]
  exact renamed_bind fun p => hk p.1 p.2

/-- A step that keeps no state commutes if its outcome is the renamed one. -/
lemma lift {y : Except CompileError α} {y' : Except CompileError γ} (hy : y' = renamed ρ f y) :
    Commutes ρ φ f (liftM y) (liftM y') := by
  intro s
  subst hy
  cases y <;> rfl

lemma throw {e : CompileError} :
    Commutes ρ φ f (MonadExcept.throw e) (MonadExcept.throw (e.rename ρ)) :=
  fun _ => rfl

/-- Steps that are taken unless a condition that does not depend on names holds. -/
lemma orThrow {c : Prop} [Decidable c] {e : CompileError}
    {k : PUnit → StateT σ (Except CompileError) α} {k' : PUnit → StateT σ (Except CompileError) γ}
    (hk : Commutes ρ φ f (k ⟨⟩) (k' ⟨⟩)) :
    Commutes ρ φ f (if c then (MonadExcept.throw e : StateT σ (Except CompileError) PUnit) >>= k
        else k ⟨⟩)
      (if c then (MonadExcept.throw (e.rename ρ) : StateT σ (Except CompileError) PUnit) >>= k'
        else k' ⟨⟩) := by
  split
  · exact fun _ => rfl
  · exact hk

lemma modify {h h' : σ → σ} (hh : ∀ s, h' (φ s) = φ (h s)) :
    Commutes ρ φ id (modify h : StateT σ (Except CompileError) PUnit) (modify h') := by
  intro s
  show Except.ok (PUnit.unit, h' (φ s)) = Except.ok (PUnit.unit, φ (h s))
  rw [hh s]

end Commutes

/-! ### Slots -/

/-- A mapping in which new names have the same slots. -/
def VariableMapping.rename (ρ : String → String) (m : VariableMapping) : VariableMapping :=
  (startingAt m.firstSlot).declareAll (m.names.map ρ)

namespace VariableMapping

variable {ρ : String → String} {m : VariableMapping}

lemma rename_firstSlot : (m.rename ρ).firstSlot = m.firstSlot :=
  declareAll_firstSlot _ _

/-- Names that differ have new names that differ, so all are declared. -/
lemma rename_names (hρ : Function.Injective ρ) : (m.rename ρ).names = m.names.map ρ :=
  declareAll_names (m.nodup.map hρ)

/-- A mapping is a renamed one if its names are. -/
lemma eq_rename (hρ : Function.Injective ρ) {m' : VariableMapping}
    (hfirst : m'.firstSlot = m.firstSlot) (hnames : m'.names = m.names.map ρ) :
    m' = m.rename ρ :=
  ext_names (hfirst.trans rename_firstSlot.symm) (hnames.trans (rename_names hρ).symm)

/-- A new name is declared in the renamed mapping as the name is in the mapping. -/
lemma declare_rename (hρ : Function.Injective ρ) (name : String) :
    (m.rename ρ).declare (ρ name) = ((m.declare name).1, (m.declare name).2.rename ρ) := by
  have hmem : ρ name ∈ (m.rename ρ).names ↔ name ∈ m.names := by
    rw [rename_names hρ, List.mem_map_of_injective hρ]
  refine Prod.ext ?_ (eq_rename hρ ?_ ?_)
  · rw [Bool.eq_iff_iff, declare_fst, declare_fst, hmem]
  · rw [declare_firstSlot, declare_firstSlot, rename_firstSlot]
  · rw [declare_names, declare_names, rename_names hρ]
    simp only [List.mem_map_of_injective hρ]
    split
    · rfl
    · rw [List.map_append, List.map_singleton]

/-- No two names become one, so the names declared first are the same after the renaming. -/
lemma declareAll_rename (hρ : Function.Injective ρ) (names : List String) :
    (m.rename ρ).declareAll (names.map ρ) = (m.declareAll names).rename ρ := by
  induction names generalizing m with
  | nil => rfl
  | cons name rest ih =>
      rw [List.map_cons, declareAll, List.foldl_cons, declare_rename hρ]
      exact ih

end VariableMapping

/-- Slots with new names. -/
def Slots.rename (ρ : String → String) (s : Slots) : Slots :=
  ⟨s.parameters.rename ρ, s.locals.rename ρ⟩

namespace Slots

variable {ρ : String → String} {function : String}

/-- The mapping of all variables is renamed with those of parameters and locals. -/
lemma merged_rename (hρ : Function.Injective ρ) (s : Slots) :
    (s.rename ρ).merged = s.merged.rename ρ := by
  rw [merged, rename, VariableMapping.rename_names hρ, VariableMapping.rename_names hρ,
    ← List.map_append]
  exact VariableMapping.declareAll_rename (m := .startingAt 0) hρ _

/-- Parameters are refused at the same position, under the new name. -/
lemma declareParameters_rename (hρ : Function.Injective ρ) (position : Nat) (m : VariableMapping)
    (params : List Param) :
    declareParameters function position (m.rename ρ) (params.map (Param.rename ρ))
      = renamed ρ (VariableMapping.rename ρ) (declareParameters function position m params) := by
  induction params generalizing position m with
  | nil => rfl
  | cons p rest ih =>
      rw [List.map_cons, declareParameters, declareParameters, p.identifier?_rename ρ]
      cases p.pattern.identifier? with
      | none => rfl
      | some name =>
          simp only [Option.map_some, VariableMapping.declare_rename hρ]
          obtain ⟨new, m'⟩ := m.declare name
          cases new with
          | false => rfl
          | true => exact ih (position + 1) m'

/-- A root declares the names it declared, renamed. -/
lemma declared_rename (r : Root) :
    declared function (r.rename ρ) = renamed ρ (List.map ρ) (declared function r) := by
  cases r with
  | expression e => exact congrArg Except.ok (assigned_rename e)
  | declarator d =>
      obtain ⟨target, init⟩ := d
      have hinit : ((init.map (Expr.rename ρ)).map assigned).getD []
          = ((init.map assigned).getD []).map ρ := by
        cases init with
        | none => rfl
        | some e => exact assigned_rename e
      rw [Root.rename, declared, declared, Declarator.identifier?_rename]
      cases target.identifier? with
      | none => rfl
      | some name =>
          show Except.ok (ρ name :: ((init.map (Expr.rename ρ)).map assigned).getD []) = _
          rw [hinit]
          rfl

lemma mapM_declared_rename (roots : List Root) :
    (roots.map (Root.rename ρ)).mapM (declared function)
      = renamed ρ (List.map (List.map ρ)) (roots.mapM (declared function)) := by
  induction roots with
  | nil => rfl
  | cons r rest ih =>
      rw [List.map_cons, List.mapM_cons, List.mapM_cons, declared_rename, ih]
      exact renamed_bind fun names => renamed_bind fun _ => rfl

/-- A local is hidden by a parameter after the renaming exactly if it was before. -/
lemma foldl_declareLocal_rename (hρ : Function.Injective ρ) (parameters m : VariableMapping)
    (names : List String) :
    (names.map ρ).foldl (declareLocal (parameters.rename ρ)) (m.rename ρ)
      = (names.foldl (declareLocal parameters) m).rename ρ := by
  induction names generalizing m with
  | nil => rfl
  | cons name rest ih =>
      have hcontains : (parameters.rename ρ).contains (ρ name) = parameters.contains name := by
        rw [Bool.eq_iff_iff, VariableMapping.contains_iff, VariableMapping.contains_iff,
          VariableMapping.rename_names hρ, List.mem_map_of_injective hρ]
      have hdeclare : declareLocal (parameters.rename ρ) (m.rename ρ) (ρ name)
          = (declareLocal parameters m name).rename ρ := by
        rw [declareLocal, declareLocal, hcontains, VariableMapping.declare_rename hρ]
        split <;> rfl
      rw [List.map_cons, List.foldl_cons, List.foldl_cons, hdeclare, ih]

/-- The slots of a renamed function are those of the function, renamed. -/
theorem resolve_rename (hρ : Function.Injective ρ) (f : FunctionDeclaration) :
    resolve (f.rename ρ) = renamed ρ (Slots.rename ρ) (resolve f) := by
  have hparams : declareParameters f.displayName 0 (.startingAt 0) (f.params.map (Param.rename ρ))
      = renamed ρ (VariableMapping.rename ρ)
        (declareParameters f.displayName 0 (.startingAt 0) f.params) :=
    declareParameters_rename hρ 0 (.startingAt 0) f.params
  rw [resolve, resolve, FunctionDeclaration.roots_rename, mapM_declared_rename]
  show declareParameters f.displayName 0 _ (f.params.map (Param.rename ρ)) >>= _ = _
  rw [hparams]
  refine renamed_bind fun parameters => renamed_bind fun names => ?_
  have hlen : (parameters.rename ρ).len = parameters.len := by
    rw [VariableMapping.len, VariableMapping.rename_names hρ, List.length_map]
    rfl
  rw [← List.map_flatten, hlen]
  exact congrArg (fun locals => Except.ok (Slots.mk (parameters.rename ρ) locals))
    (foldl_declareLocal_rename hρ parameters (.startingAt parameters.len) names.flatten)

end Slots

/-! ### Tables -/

namespace Table

variable {κ α : Type} [DecidableEq κ] {ρ : κ → κ}

/-- A table with new keys. -/
def mapKeys (ρ : κ → κ) (t : Table κ α) : Table κ α :=
  ⟨t.entries.map (Prod.map ρ id)⟩

/-- The entry of a key is found under the new key. -/
lemma lookup_mapKeys (hρ : Function.Injective ρ) (k : κ) (entries : List (κ × α)) :
    lookup (ρ k) (entries.map (Prod.map ρ id)) = lookup k entries := by
  induction entries with
  | nil => rfl
  | cons p rest ih => simp only [List.map_cons, Prod.map, lookup, hρ.eq_iff, ih, id]

/-- An entry is written under the new key where it was written under the old one. -/
lemma put_mapKeys (hρ : Function.Injective ρ) (k : κ) (a : α) (entries : List (κ × α)) :
    put (ρ k) a (entries.map (Prod.map ρ id)) = (put k a entries).map (Prod.map ρ id) := by
  induction entries with
  | nil => rfl
  | cons p rest ih =>
      simp only [List.map_cons, Prod.map, put, hρ.eq_iff, ih, id]
      split <;> rfl

lemma find?_mapKeys (hρ : Function.Injective ρ) (t : Table κ α) (k : κ) :
    (t.mapKeys ρ).find? (ρ k) = t.find? k :=
  lookup_mapKeys hρ k t.entries

lemma contains_mapKeys (hρ : Function.Injective ρ) (t : Table κ α) (k : κ) :
    (t.mapKeys ρ).contains (ρ k) = t.contains k := by
  rw [contains, contains, find?_mapKeys hρ]

lemma insert_mapKeys (hρ : Function.Injective ρ) (t : Table κ α) (k : κ) (a : α) :
    (t.mapKeys ρ).insert (ρ k) a = (t.insert k a).mapKeys ρ :=
  congrArg Table.mk (put_mapKeys hρ k a t.entries)

lemma ofList_mapKeys (hρ : Function.Injective ρ) (pairs : List (κ × α)) :
    ofList (pairs.map (Prod.map ρ id)) = (ofList pairs).mapKeys ρ := by
  have key : ∀ t : Table κ α,
      (pairs.map (Prod.map ρ id)).foldl (fun t p => t.insert p.1 p.2) (t.mapKeys ρ)
        = (pairs.foldl (fun t p => t.insert p.1 p.2) t).mapKeys ρ := by
    induction pairs with
    | nil => exact fun _ => rfl
    | cons p rest ih =>
        intro t
        rw [List.map_cons, List.foldl_cons, List.foldl_cons, ← ih, ← insert_mapKeys hρ]
        rfl
  exact key empty

end Table

/-! ### Types -/

/-- Types of renamed variables. Types of expressions go by ids and stay. -/
def Typing.rename (ρ : String → String) (τ : Typing) : Typing :=
  ⟨τ.variableTypes.mapKeys ρ, τ.expressionTypes⟩

namespace Typing

variable {ρ : String → String} {table : SignatureTable} {function : String}

/-- A variable has its type under the new name, and one without a type is reported under
it. -/
lemma variableType_rename (hρ : Function.Injective ρ) (τ : Typing) (name : String) :
    (τ.rename ρ).variableType (ρ name) = renamed ρ id (τ.variableType name) := by
  rw [variableType, variableType, rename, Table.find?_mapKeys hρ]
  cases τ.variableTypes.find? name <;> rfl

lemma bind_rename (hρ : Function.Injective ρ) (τ : Typing) (name : String) (type : ValueType) :
    (τ.rename ρ).bind (ρ name) type = (τ.bind name type).rename ρ := by
  rw [bind, bind, rename, Table.contains_mapKeys hρ, Table.insert_mapKeys hρ]
  split <;> rfl

/-- What an assignment binds depends on the form of its target, which stays. -/
lemma bindTarget_rename (hρ : Function.Injective ρ) (op : AssignOp) (target : Expr)
    (type : ValueType) (τ : Typing) :
    bindTarget op (target.rename ρ) type (τ.rename ρ)
      = (bindTarget op target type τ).rename ρ := by
  cases op with
  | assign =>
      simp only [bindTarget, Expr.identifier?_rename]
      cases target.identifier? with
      | none => rfl
      | some name => exact bind_rename hρ τ name type
  | _ => rfl

/-- `x'`, started from renamed types, does what `x` does. -/
abbrev Tracks {α : Type} (ρ : String → String) (x x' : Infer α) : Prop :=
  Commutes ρ (Typing.rename ρ) id x x'

lemma Tracks.recorded {x x' : Infer ValueType} (id : ExprId) (h : Tracks ρ x x') :
    Tracks ρ (recorded id x) (Typing.recorded id x') :=
  h.bind fun type => Commutes.bind (.modify fun _ => rfl) fun _ => .pure type

/-- Reading the type of a variable, in the middle of the analysis. -/
lemma variableType_tracks (hρ : Function.Injective ρ) (name : String) :
    Tracks ρ (do (← get).variableType name) (do (← get).variableType (ρ name)) := by
  intro τ
  show Except.bind ((τ.rename ρ).variableType (ρ name)) _
    = renamed ρ _ (Except.bind (τ.variableType name) _)
  rw [variableType_rename hρ]
  cases τ.variableType name <;> rfl

/-- Functions keep their names. -/
lemma require_rename (table : SignatureTable) (name : String) :
    table.require name = renamed ρ id (table.require name) := by
  rw [SignatureTable.require]
  cases table.find? name <;> rfl

mutual

/-- An expression has the type that it has after a renaming. -/
theorem infer_rename (hρ : Function.Injective ρ) (table : SignatureTable) :
    ∀ e : Expr, Tracks ρ (infer table e) (infer table (e.rename ρ))
  | .number id x => by
      rw [Expr.rename, infer]
      exact .recorded id (.pure _)
  | .boolean id b => by
      rw [Expr.rename, infer]
      exact .recorded id (.pure _)
  | .identifier id name => by
      rw [Expr.rename, infer, infer]
      exact .recorded id (variableType_tracks hρ name)
  | .array id elements => by
      rw [Expr.rename, infer, infer]
      exact .recorded id ((inferList_rename hρ table elements).bind fun _ => .pure _)
  | .unary id op a => by
      rw [Expr.rename, infer, infer]
      exact .recorded id ((infer_rename hρ table a).bind fun _ => .pure _)
  | .binary id op a b => by
      rw [Expr.rename, infer, infer]
      exact .recorded id (Commutes.orThrow ((infer_rename hρ table a).bind fun _ =>
        (infer_rename hρ table b).bind fun _ => .pure _))
  | .logical id op a b => by
      rw [Expr.rename, infer, infer]
      exact .recorded id ((infer_rename hρ table a).bind fun _ =>
        (infer_rename hρ table b).bind fun _ => .pure _)
  | .update id op leading a => by
      rw [Expr.rename, infer, infer]
      exact .recorded id (infer_rename hρ table a)
  | .assign id op target value => by
      rw [Expr.rename, infer, infer]
      exact .recorded id (Commutes.orThrow ((infer_rename hρ table value).bind fun type =>
        Commutes.bind (.modify (bindTarget_rename hρ op target type)) fun _ =>
          (infer_rename hρ table target).bind fun _ => .pure type))
  | .call id callee arguments => by
      rw [Expr.rename_call, infer, infer, Expr.identifier?_renameCallee,
        Expr.kindName_renameCallee]
      refine .recorded id ?_
      cases callee.identifier? with
      | none => exact .throw
      | some name =>
          exact Commutes.bind (.lift (require_rename table name)) fun _ =>
            (inferList_rename hρ table arguments).bind fun _ => .pure _
  | .index id object position => by
      rw [Expr.rename, infer, infer]
      exact .recorded id ((infer_rename hρ table object).bind fun _ =>
        Commutes.orThrow ((infer_rename hρ table position).bind fun _ => .pure _))
  | .property id object name => by
      rw [Expr.rename, infer, infer]
      exact .recorded id ((infer_rename hρ table object).bind fun _ =>
        Commutes.orThrow (Commutes.orThrow (.pure _)))

theorem inferList_rename (hρ : Function.Injective ρ) (table : SignatureTable) :
    ∀ es : List Expr, Tracks ρ (inferList table es) (inferList table (Expr.renameAll ρ es))
  | [] => by
      rw [Expr.renameAll, inferList]
      exact .pure _
  | e :: rest => by
      rw [Expr.renameAll, inferList, inferList]
      exact (infer_rename hρ table e).bind fun _ => inferList_rename hρ table rest

end

lemma inferRoot_rename (hρ : Function.Injective ρ) (table : SignatureTable) (r : Root) :
    Tracks ρ (inferRoot function table r) (inferRoot function table (r.rename ρ)) := by
  cases r with
  | expression e => exact (infer_rename hρ table e).bind fun _ => .pure _
  | declarator d =>
      obtain ⟨target, init⟩ := d
      rw [Root.rename, inferRoot, inferRoot, Declarator.identifier?_rename]
      cases target.identifier? with
      | none => exact .throw
      | some name =>
          cases init with
          | none => exact .pure _
          | some init =>
              exact (infer_rename hρ table init).bind fun type =>
                .modify fun τ => bind_rename hρ τ name type

lemma inferRoots_rename (hρ : Function.Injective ρ) (table : SignatureTable) (roots : List Root) :
    Tracks ρ (roots.forM (inferRoot function table))
      ((roots.map (Root.rename ρ)).forM (inferRoot function table)) := by
  induction roots with
  | nil => exact .pure _
  | cons r rest ih =>
      exact (inferRoot_rename hρ table r).bind fun _ => ih

/-- The parameters are bound to the same types at the same positions. -/
lemma parameters_rename (position : Nat) (params : List (Param × ValueType)) :
    parameters function position (params.map (Prod.map (Param.rename ρ) id))
      = renamed ρ (List.map (Prod.map ρ id)) (parameters function position params) := by
  induction params generalizing position with
  | nil => rfl
  | cons p rest ih =>
      obtain ⟨p, type⟩ := p
      rw [List.map_cons, Prod.map, parameters, parameters, p.identifier?_rename ρ, ih]
      cases p.pattern.identifier? with
      | none => rfl
      | some name => exact renamed_bind fun _ => rfl

/-- The types of a renamed function are those of the function, under the new names. -/
theorem ofFunction_rename (hρ : Function.Injective ρ) (f : FunctionDeclaration)
    (signature : Signature) (table : SignatureTable) :
    ofFunction (f.rename ρ) signature table
      = renamed ρ (Typing.rename ρ) (ofFunction f signature table) := by
  have hname : (f.rename ρ).displayName = f.displayName := rfl
  have hlength : (f.rename ρ).params.length = f.params.length := List.length_map _
  have hzip : (f.rename ρ).params.zip signature.parameters
      = (f.params.zip signature.parameters).map (Prod.map (Param.rename ρ) id) :=
    List.zip_map_left ..
  rw [ofFunction, ofFunction, hname, hlength, hzip, parameters_rename,
    FunctionDeclaration.roots_rename]
  by_cases harity : signature.arity ≠ f.params.length
  · rw [if_pos harity, if_pos harity]
    rfl
  · rw [if_neg harity, if_neg harity]
    refine renamed_bind fun bound => ?_
    rw [Table.ofList_mapKeys hρ]
    show ((f.roots.map (Root.rename ρ)).forM (inferRoot f.displayName table))
        (Typing.rename ρ { variableTypes := Table.ofList bound }) >>= _ = _
    rw [inferRoots_rename hρ table f.roots]
    exact renamed_bind fun _ => rfl

end Typing

end ArrayScript
