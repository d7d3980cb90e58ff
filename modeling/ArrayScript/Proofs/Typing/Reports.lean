import ArrayScript.Signature.Derived
import ArrayScript.Proofs.Typing.Roots

/-!
Where typing fails.

The errors of `infer` do not say which expression they are about. `inferAt` types in the same
way, but reports every error together with the expression whose own rule is broken.

* `forget_inferAt`, `forget_ofFunctionAt`: without these expressions it is `infer` and
  `ofFunction`.
-/

namespace ArrayScript.Typing

/-- An error with the expression it is reported for, if it is about one. -/
structure Report where
  subject : Option Expr
  error : CompileError

/-- Computations that find types, or report why they do not. -/
abbrev Reporting := StateT Typing (Except Report)

/-- Reports an error of an expression. -/
def refuse {α : Type} (e : Expr) (error : CompileError) : Reporting α :=
  throw ⟨some e, error⟩

/-- Reports for an expression what goes wrong. -/
def onBehalf {α : Type} (e : Expr) (x : Except CompileError α) : Reporting α :=
  liftM (x.mapError (Report.mk (some e)))

/-- Records what is found as the type of the expression with the given id. -/
def recordedAt (id : ExprId) (find : Reporting ValueType) : Reporting ValueType := do
  let type ← find
  modify (·.record id type)
  return type

mutual

/-- The type of an expression, found as `infer` finds it. -/
def inferAt (table : SignatureTable) : Expr → Reporting ValueType
  | .number id x => recordedAt id (return x.literalType)
  | .boolean id _ => recordedAt id (return .boolean)
  | e@(.identifier id name) => recordedAt id do onBehalf e ((← get).variableType name)
  | .array id elements => recordedAt id do
    inferListAt table elements
    return .int32Array
  | .unary id op a => recordedAt id do
    let type ← inferAt table a
    return if op = .not then .boolean else type.numeric
  | e@(.binary id op a b) => recordedAt id do
    if op = .pow then refuse e (.unsupportedOperator op.symbol false)
    let left ← inferAt table a
    let right ← inferAt table b
    return if op.isComparison then .boolean else left.arithmetic right
  | .logical id _ a b => recordedAt id do
    let _ ← inferAt table a
    let _ ← inferAt table b
    return .boolean
  | .update id _ _ a => recordedAt id (inferAt table a)
  | e@(.assign id op target value) => recordedAt id do
    if op = .remAssign then refuse e (.unsupportedOperator op.symbol false)
    let type ← inferAt table value
    modify (bindTarget op target type)
    let _ ← inferAt table target
    return type
  | e@(.call id callee arguments) => recordedAt id do
    match callee.identifier? with
    | none => refuse e (.callThrough callee.kindName)
    | some name =>
      let signature ← onBehalf e (table.require name)
      inferListAt table arguments
      return signature.returnType
  | e@(.index id object position) => recordedAt id do
    let type ← inferAt table object
    if !type.isArray then refuse e (.notAnArray .index type)
    let _ ← inferAt table position
    return type.elementType
  | e@(.property id object name) => recordedAt id do
    let type ← inferAt table object
    if !type.isArray then refuse e (.notAnArray .property type)
    if name ≠ "length" then refuse e (.unknownProperty name)
    return .int32

/-- Types expressions in order. -/
def inferListAt (table : SignatureTable) : List Expr → Reporting Unit
  | [] => return
  | e :: rest => do
    let _ ← inferAt table e
    inferListAt table rest

end

/-- Types a root. -/
def inferRootAt (function : String) (table : SignatureTable) : Root → Reporting Unit
  | .expression e => do
    let _ ← inferAt table e
  | .declarator d => do
    match d.target.identifier?, d.init with
    | none, _ => throw ⟨none, .patternDeclarator function⟩
    | some _, none => return
    | some name, some init =>
      let type ← inferAt table init
      modify (·.bind name type)

/-- The types of a function, found as `ofFunction` finds them. -/
def ofFunctionAt (f : FunctionDeclaration) (signature : Signature) (table : SignatureTable) :
    Except Report Typing := do
  if signature.arity ≠ f.params.length then
    throw ⟨none, .signatureArity f.displayName signature.arity f.params.length⟩
  let bound ← (parameters f.displayName 0 (f.params.zip signature.parameters)).mapError (⟨none, ·⟩)
  let start : Typing := { variableTypes := Table.ofList bound }
  let (_, found) ← (f.roots.forM (inferRootAt f.displayName table)).run start
  return found

/-! ### The same types and the same errors -/

/-- What is found and what is reported, but not for which expression. -/
def forget {α : Type} (x : Reporting α) : Infer α :=
  fun τ => (x τ).mapError Report.error

variable {α β : Type} {table : SignatureTable}

@[simp] lemma forget_pure (a : α) : forget (pure a : Reporting α) = pure a := rfl

@[simp] lemma forget_throw (r : Report) : forget (throw r : Reporting α) = throw r.error := rfl

@[simp] lemma forget_refuse (e : Expr) (error : CompileError) :
    forget (refuse e error : Reporting α) = throw error := rfl

@[simp] lemma forget_modify (g : Typing → Typing) :
    forget (modify g : Reporting PUnit) = modify g := rfl

@[simp] lemma forget_get : forget (get : Reporting Typing) = get := rfl

@[simp] lemma forget_onBehalf (e : Expr) (x : Except CompileError α) :
    forget (onBehalf e x) = liftM x := by
  cases x <;> rfl

@[simp] lemma forget_bind (x : Reporting α) (f : α → Reporting β) :
    forget (x >>= f) = forget x >>= fun a => forget (f a) := by
  funext τ
  show Except.mapError Report.error (Except.bind (x τ) fun p => f p.1 p.2) =
    Except.bind ((x τ).mapError Report.error) fun p => (f p.1 p.2).mapError Report.error
  cases x τ <;> rfl

@[simp] lemma forget_map (g : α → β) (x : Reporting α) : forget (g <$> x) = g <$> forget x := by
  rw [map_eq_pure_bind, map_eq_pure_bind, forget_bind]
  rfl

@[simp] lemma forget_ite (p : Prop) [Decidable p] (x y : Reporting α) :
    forget (if p then x else y) = if p then forget x else forget y :=
  apply_ite forget p x y

@[simp] lemma forget_recordedAt (id : ExprId) (find : Reporting ValueType) :
    forget (recordedAt id find) = recorded id (forget find) := by
  simp [recordedAt, recorded]

mutual

/-- Typing with reports is typing. -/
theorem forget_inferAt : ∀ e : Expr, forget (inferAt table e) = infer table e
  | .number _ _ | .boolean _ _ | .identifier _ _ => by simp [inferAt, infer]
  | .array _ elements => by simp [inferAt, infer, forget_inferListAt elements]
  | .unary _ _ a | .update _ _ _ a | .property _ a _ => by
      simp [inferAt, infer, forget_inferAt a]
  | .binary _ _ a b | .logical _ _ a b | .assign _ _ a b | .index _ a b => by
      simp [inferAt, infer, forget_inferAt a, forget_inferAt b]
  | .call _ callee arguments => by
      rw [inferAt, infer, forget_recordedAt]
      cases callee.identifier? <;> simp [forget_inferListAt arguments]

/-- Typing expressions in order with reports is typing them in order. -/
theorem forget_inferListAt : ∀ es : List Expr, forget (inferListAt table es) = inferList table es
  | [] => rfl
  | e :: rest => by simp [inferListAt, inferList, forget_inferAt e, forget_inferListAt rest]

end

lemma forget_inferRootAt (function : String) (r : Root) :
    forget (inferRootAt function table r) = inferRoot function table r := by
  cases r with
  | expression e => simp [inferRootAt, inferRoot, forget_inferAt e]
  | declarator d =>
      obtain ⟨target, init⟩ := d
      rw [inferRootAt, inferRoot]
      cases target.identifier? <;> cases init <;> simp [forget_inferAt]

lemma forget_forM (function : String) (table : SignatureTable) (roots : List Root) :
    forget (roots.forM (inferRootAt function table)) =
      roots.forM (inferRoot function table) := by
  induction roots with
  | nil => rfl
  | cons r rest ih =>
      show forget (inferRootAt function table r >>= fun _ => rest.forM _) = _
      rw [forget_bind, forget_inferRootAt, ih]
      rfl

/-- What is reported for a function is what typing it says. -/
theorem forget_ofFunctionAt (f : FunctionDeclaration) (signature : Signature) :
    (ofFunctionAt f signature table).mapError Report.error = ofFunction f signature table := by
  rw [ofFunctionAt, ofFunction]
  dsimp only
  split
  · rfl
  cases parameters f.displayName 0 (f.params.zip signature.parameters) with
  | error e => rfl
  | ok bound =>
      have hrun := congrFun (forget_forM f.displayName table f.roots)
        { variableTypes := Table.ofList bound }
      rw [forget] at hrun
      show Except.mapError _ (Except.bind ((f.roots.forM (inferRootAt f.displayName table) :
          Reporting Unit) { variableTypes := Table.ofList bound }) _) =
        Except.bind ((f.roots.forM (inferRoot f.displayName table) : Infer Unit)
          { variableTypes := Table.ofList bound }) _
      rw [← hrun]
      cases (f.roots.forM (inferRootAt f.displayName table) : Reporting Unit)
        { variableTypes := Table.ofList bound } <;> rfl

/-- An error of typing is reported. -/
lemma exists_report {f : FunctionDeclaration} {signature : Signature} {e : CompileError}
    (h : ofFunction f signature table = .error e) :
    ∃ r, ofFunctionAt f signature table = .error r ∧ r.error = e := by
  rw [← forget_ofFunctionAt] at h
  cases hr : ofFunctionAt f signature table with
  | ok τ =>
      rw [hr] at h
      cases h
  | error r =>
      rw [hr] at h
      exact ⟨r, rfl, Except.error.inj h⟩

/-! ### What is never reported -/

/-- Variables that are known to be arrays. -/
def HoldsArrays (arrays : List String) (τ : Typing) : Prop :=
  ∀ name ∈ arrays, ∃ t, τ.variableTypes.find? name = some t ∧ t.isArray = true

/-- A report that does not blame the table of signatures. If it says that something is not an
array, it is for one of the given expressions, which takes a part of something else than a
variable that is known to be one. -/
structure Report.Warranted (table : SignatureTable) (arrays : List String) (es : List Expr)
    (r : Report) : Prop where
  spares : r.error.Spares table
  subject : ∀ access t, r.error = .notAnArray access t → ∃ e ∈ es, r.subject = some e ∧
    ∃ object, e.memberObject? = some object ∧ ∀ name ∈ arrays, object.identifier? ≠ some name

/-- What is known after an expression was typed: arrays are still arrays, and so is the
expression if it is one of them. -/
def Arrayed (arrays : List String) (e : Expr) (t : ValueType) (τ : Typing) : Prop :=
  HoldsArrays arrays τ ∧ ∀ name ∈ arrays, e.identifier? = some name → t.isArray = true

variable {arrays : List String} {es : List Expr} {τ τ' : Typing}

/-- Variables that are arrays are arrays when more was found. -/
lemma HoldsArrays.grows {ids : List ExprId} {names : List String} (h : HoldsArrays arrays τ)
    (g : Grows ids names τ τ') : HoldsArrays arrays τ' := fun name hname => by
  obtain ⟨t, ht, harray⟩ := h name hname
  exact ⟨t, g.keeps name t ht, harray⟩

/-- The type of an expression is recorded under its id, and no variable changes its type. -/
lemma recordedAt_meets {fault : Report → Prop} {id : ExprId} {find : Reporting ValueType}
    {e : Expr} (h : Meets fault find τ (Arrayed arrays e)) :
    Meets fault (recordedAt id find) τ (Arrayed arrays e) :=
  h.bind fun t τ' ⟨hτ', hname⟩ => ⟨hτ'.grows (Grows.record τ' id t), hname⟩

/-- A look-up for an expression, which its error is reported with. -/
lemma onBehalf_meets {fault : Report → Prop} {e : Expr} {x : Except CompileError α}
    {post : α → Typing → Prop} (hok : ∀ a, x = .ok a → post a τ)
    (herror : ∀ error, x = .error error → fault ⟨some e, error⟩) :
    Meets fault (onBehalf e x) τ post := by
  cases x with
  | ok a => exact hok a rfl
  | error error => exact herror error rfl

/-- An error that is neither about signatures nor about arrays. -/
lemma Report.warranted_of {r : Report} (hspares : r.error.Spares table)
    (harray : ∀ access t, r.error ≠ .notAnArray access t) : r.Warranted table arrays es :=
  ⟨hspares, fun access t h => absurd h (harray access t)⟩

/-- The report that an object is no array: it is none of the variables that are known to be
arrays. -/
lemma Report.warranted_of_notArray {e object : Expr} {t u : ValueType} {access : ArrayAccess}
    (he : e ∈ es) (hobject : e.memberObject? = some object) (h : Arrayed arrays object t τ)
    (ht : (!t.isArray) = true) :
    Report.Warranted table arrays es ⟨some e, .notAnArray access u⟩ := by
  refine ⟨trivial, fun _ _ _ => ⟨e, he, rfl, object, hobject, fun name hname hident => ?_⟩⟩
  rw [h.2 name hname hident] at ht
  cases ht

/-- A variable that is known to be an array has an array type. -/
lemma variableAt_meets (id : ExprId) (name : String) (hτ : HoldsArrays arrays τ) :
    Meets (Report.Warranted table arrays es)
      (onBehalf (.identifier id name) (τ.variableType name)) τ
      (Arrayed arrays (.identifier id name)) := by
  refine onBehalf_meets (fun t ht => ⟨hτ, fun other hother h => ?_⟩) fun error h => ?_
  · obtain rfl := Option.some.inj h
    obtain ⟨u, hu, harray⟩ := hτ name hother
    rw [variableType_eq_ok.mp ht] at hu
    obtain rfl := Option.some.inj hu
    exact harray
  · obtain rfl := variableType_eq_error h
    exact Report.warranted_of trivial nofun

/-- A signature is missed only if the table does not have it. -/
lemma requireAt_meets (e : Expr) (name : String) :
    Meets (Report.Warranted table arrays es) (onBehalf e (table.require name)) τ
      fun _ τ' => τ' = τ := by
  refine onBehalf_meets (fun _ _ => rfl) fun error h => ?_
  obtain ⟨rfl, hnone⟩ := SignatureTable.require_eq_error h
  exact Report.warranted_of hnone nofun

mutual

/-- While an expression is typed, all that may be reported is warranted. -/
theorem inferAt_meets : ∀ (e : Expr) (τ : Typing), e.preorder ⊆ es → HoldsArrays arrays τ →
    Meets (Report.Warranted table arrays es) (inferAt table e) τ (Arrayed arrays e)
  | .number _ _, τ, _, hτ | .boolean _ _, τ, _, hτ => by
      rw [inferAt]
      exact recordedAt_meets (Meets.pure ⟨hτ, nofun⟩)
  | .identifier id name, τ, _, hτ => by
      rw [inferAt]
      exact recordedAt_meets (variableAt_meets id name hτ)
  | .array id elements, τ, he, hτ => by
      rw [inferAt]
      rw [Expr.preorder, List.cons_subset] at he
      refine recordedAt_meets ((inferListAt_meets elements τ he.2 hτ).bind fun _ τ₁ h₁ => ?_)
      exact Meets.pure ⟨h₁, nofun⟩
  | .unary id op a, τ, he, hτ => by
      rw [inferAt]
      rw [Expr.preorder, List.cons_subset] at he
      refine recordedAt_meets ((inferAt_meets a τ he.2 hτ).bind fun _ τ₁ h₁ => ?_)
      exact Meets.pure ⟨h₁.1, nofun⟩
  | .binary id op a b, τ, he, hτ => by
      rw [inferAt]
      rw [Expr.preorder, List.cons_subset, List.append_subset] at he
      refine recordedAt_meets ?_
      dsimp only
      split
      · exact Meets.throw_bind (Report.warranted_of trivial nofun)
      refine (inferAt_meets a τ he.2.1 hτ).bind fun _ τ₁ h₁ => ?_
      refine (inferAt_meets b τ₁ he.2.2 h₁.1).bind fun _ τ₂ h₂ => ?_
      exact Meets.pure ⟨h₂.1, nofun⟩
  | .logical id op a b, τ, he, hτ => by
      rw [inferAt]
      rw [Expr.preorder, List.cons_subset, List.append_subset] at he
      refine recordedAt_meets ((inferAt_meets a τ he.2.1 hτ).bind fun _ τ₁ h₁ => ?_)
      refine (inferAt_meets b τ₁ he.2.2 h₁.1).bind fun _ τ₂ h₂ => ?_
      exact Meets.pure ⟨h₂.1, nofun⟩
  | .update id op leading a, τ, he, hτ => by
      rw [inferAt]
      rw [Expr.preorder, List.cons_subset] at he
      refine recordedAt_meets ((inferAt_meets a τ he.2 hτ).weaken fun _ τ₁ h₁ => ?_)
      exact ⟨h₁.1, nofun⟩
  | .assign id op target value, τ, he, hτ => by
      rw [inferAt]
      rw [Expr.preorder, List.cons_subset, List.append_subset] at he
      refine recordedAt_meets ?_
      dsimp only
      split
      · exact Meets.throw_bind (Report.warranted_of trivial nofun)
      refine (inferAt_meets value τ he.2.2 hτ).bind fun t τ₁ h₁ => Meets.modify_bind ?_
      have g : Grows [] target.identifier?.toList τ₁ (bindTarget op target t τ₁) :=
        Grows.bindTarget τ₁ t fun name _ hname => by simp [hname]
      refine (inferAt_meets target _ he.2.1 (h₁.1.grows g)).bind fun _ τ₂ h₂ => ?_
      exact Meets.pure ⟨h₂.1, nofun⟩
  | .call id callee arguments, τ, he, hτ => by
      rw [inferAt]
      rw [Expr.preorder, List.cons_subset, List.append_subset] at he
      refine recordedAt_meets ?_
      split
      · exact Meets.throw (Report.warranted_of trivial nofun)
      rename_i name _
      refine (requireAt_meets (.call id callee arguments) name).bind fun s τ' hτ' => ?_
      subst hτ'
      refine (inferListAt_meets arguments _ he.2.2 hτ).bind fun _ τ₂ h₂ => ?_
      exact Meets.pure ⟨h₂, nofun⟩
  | .index id object position, τ, he, hτ => by
      rw [inferAt]
      have hself := he List.mem_cons_self
      rw [Expr.preorder, List.cons_subset, List.append_subset] at he
      refine recordedAt_meets ((inferAt_meets object τ he.2.1 hτ).bind fun t τ₁ h₁ => ?_)
      dsimp only
      split
      · exact Meets.throw_bind (Report.warranted_of_notArray hself rfl h₁ ‹_›)
      refine (inferAt_meets position τ₁ he.2.2 h₁.1).bind fun _ τ₂ h₂ => ?_
      exact Meets.pure ⟨h₂.1, nofun⟩
  | .property id object name, τ, he, hτ => by
      rw [inferAt]
      have hself := he List.mem_cons_self
      rw [Expr.preorder, List.cons_subset] at he
      refine recordedAt_meets ((inferAt_meets object τ he.2 hτ).bind fun t τ₁ h₁ => ?_)
      dsimp only
      split
      · exact Meets.throw_bind (Report.warranted_of_notArray hself rfl h₁ ‹_›)
      split
      · exact Meets.throw_bind (Report.warranted_of trivial nofun)
      exact Meets.pure ⟨h₁.1, nofun⟩

theorem inferListAt_meets : ∀ (l : List Expr) (τ : Typing), Expr.preorderList l ⊆ es →
    HoldsArrays arrays τ → Meets (Report.Warranted table arrays es) (inferListAt table l) τ
      fun _ τ' => HoldsArrays arrays τ'
  | [], τ, _, hτ => Meets.pure hτ
  | e :: rest, τ, he, hτ => by
      rw [inferListAt]
      rw [Expr.preorderList, List.append_subset] at he
      refine (inferAt_meets e τ he.1 hτ).bind fun _ τ₁ h₁ => ?_
      exact inferListAt_meets rest τ₁ he.2 h₁.1

end

lemma inferRootAt_meets {function : String} (r : Root) (hr : r.expressions ⊆ es)
    (hτ : HoldsArrays arrays τ) :
    Meets (Report.Warranted table arrays es) (inferRootAt function table r) τ
      fun _ τ' => HoldsArrays arrays τ' := by
  cases r with
  | expression e =>
      exact (inferAt_meets e τ hr hτ).bind fun _ _ h => Meets.pure h.1
  | declarator d =>
      obtain ⟨target, init⟩ := d
      rw [inferRootAt]
      dsimp only
      split
      · exact Meets.throw (Report.warranted_of trivial fun _ _ h => by cases h)
      · exact Meets.pure hτ
      · rename_i name init hname
        refine (inferAt_meets init τ hr hτ).bind fun t τ₁ h => ?_
        exact Meets.modified (h.1.grows (Grows.bind τ₁ name t))

lemma forM_inferRootAt_meets (function : String) {roots : List Root}
    (hr : roots.flatMap Root.expressions ⊆ es) (hτ : HoldsArrays arrays τ) :
    Meets (Report.Warranted table arrays es) (roots.forM (inferRootAt function table)) τ
      fun _ τ' => HoldsArrays arrays τ' := by
  induction roots generalizing τ with
  | nil => exact Meets.pure hτ
  | cons r rest ih =>
      rw [List.flatMap_cons, List.append_subset] at hr
      exact (inferRootAt_meets r hr.1 hτ).bind fun _ _ h => ih hr.2 h

lemma parameters_eq_error {function : String} {position : Nat}
    {pairs : List (Param × ValueType)} {e : CompileError}
    (h : parameters function position pairs = .error e) :
    ∃ k, e = .patternParameter function k := by
  induction pairs generalizing position with
  | nil => cases h
  | cons p rest ih =>
      obtain ⟨p, t⟩ := p
      rw [parameters] at h
      split at h
      · exact ⟨position, (Except.error.inj h).symm⟩
      · rcases bind_eq_error.mp h with h | ⟨_, _, h⟩
        · exact ih h
        · cases h

/-- Typing starts from what the signature says of parameters. -/
lemma holdsArrays_parameters {f : FunctionDeclaration} {signature : Signature}
    {names : List String} {bound : List (String × ValueType)}
    (hbound : parameters f.displayName 0 (f.params.zip signature.parameters) = .ok bound)
    (hnames : List.Forall₂ (fun p name => p.pattern.identifier? = some name) f.params names)
    (hn : names.Nodup) (harity : signature.arity = f.params.length) :
    HoldsArrays (f.arrayParameters signature) { variableTypes := Table.ofList bound } := by
  intro name hname
  obtain ⟨⟨p, t⟩, hmem, hp⟩ := List.mem_filterMap.mp hname
  dsimp only at hp
  split at hp
  · rename_i harray
    have hpairs := parameters_eq_ok hbound
    obtain ⟨⟨name', t'⟩, hmem', hname', ht⟩ := exists_mem_of_forall₂ hpairs hmem
    obtain rfl : name = name' := Option.some.inj (hp.symm.trans hname')
    obtain rfl : t = t' := ht
    refine ⟨t, Table.find?_ofList_of_mem ?_ hmem', harray⟩
    rw [parameters_eq_zip hpairs hnames, List.map_fst_zip]
    · exact hn
    · rw [← hnames.length_eq, ← harity, Signature.arity]
  · cases hp

/-- What is reported for a function whose parameters are different names and as many as in its
signature. No report blames the table, and none says that a parameter that is an array is not
one. -/
theorem ofFunctionAt_warranted {f : FunctionDeclaration} {signature : Signature}
    {names : List String} {r : Report} (harity : signature.arity = f.params.length)
    (hnames : List.Forall₂ (fun p name => p.pattern.identifier? = some name) f.params names)
    (hn : names.Nodup) (h : ofFunctionAt f signature table = .error r) :
    r.Warranted table (f.arrayParameters signature) f.rootExpressions := by
  rw [ofFunctionAt] at h
  dsimp only at h
  rw [if_neg (not_not.mpr harity)] at h
  cases hbound : parameters f.displayName 0 (f.params.zip signature.parameters) with
  | error e =>
      rw [hbound] at h
      obtain ⟨k, rfl⟩ := parameters_eq_error hbound
      obtain rfl := Except.error.inj h
      exact Report.warranted_of trivial nofun
  | ok bound =>
      rw [hbound] at h
      have hstart := holdsArrays_parameters hbound hnames hn harity
      have hrun : Meets (Report.Warranted table _ _)
          (f.roots.forM (inferRootAt f.displayName table)) _ _ :=
        forM_inferRootAt_meets f.displayName (List.Subset.refl _) hstart
      change ((f.roots.forM (inferRootAt f.displayName table) : Reporting Unit).run
        { variableTypes := Table.ofList bound } >>= fun found => pure found.2) = _ at h
      rcases bind_eq_error.mp h with h | ⟨_, _, h⟩
      · exact hrun.of_error h
      · cases h

end ArrayScript.Typing
