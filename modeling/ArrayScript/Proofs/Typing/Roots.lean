import ArrayScript.Proofs.Slots.Mapping
import ArrayScript.Proofs.Table
import ArrayScript.Proofs.Typing.Judgement

/-!
The types of whole functions.

* `ofFunction_rootTyped`: in the typing that is found for a function with distinct
  ids, every root is typed by the rules.
* `ofFunction_parameter`: parameters have the types of the signature.
* `ofFunction_variable_mem`: a variable with a type is a parameter or is declared by
  some root.
* `Slots.mem_names_of_typed`: so it has a slot.
-/

namespace ArrayScript

/-- The names a root declares, in the order of a walk. -/
def Root.names : Root → List String
  | .expression e => Slots.assigned e
  | .declarator d => d.target.identifier?.toList ++ (d.init.map Slots.assigned).getD []

/-- The ids of the expressions inside a root. -/
def Root.ids (r : Root) : List ExprId :=
  r.expressions.map Expr.id

namespace Typing

variable {table : SignatureTable} {function : String} {τ τ' final : Typing}

/-- A root is typed: an expression has a type, and a declarator with an initial value
declares a variable that has one, as has the initial value. -/
def RootTyped (table : SignatureTable) (τ : Typing) : Root → Prop
  | .expression e => ∃ t, HasType table τ e t
  | .declarator d => ∃ name, d.target.identifier? = some name ∧ ∀ init, d.init = some init →
      ∃ t u, HasType table τ init t ∧ τ.variableTypes.find? name = some u

/-- After a variable was bound it has a type. -/
lemma bind_variable (τ : Typing) (name : String) (t : ValueType) :
    ∃ u, (τ.bind name t).variableTypes.find? name = some u := by
  by_cases hc : τ.variableTypes.contains name
  · rw [Typing.bind, if_pos hc]
    exact Option.isSome_iff_exists.mp hc
  · rw [Typing.bind, if_neg hc]
    exact ⟨t, by rw [Table.find?_insert, if_pos rfl]⟩

/-- What is known of a root after it was typed. -/
structure InferredRoot (table : SignatureTable) (τ : Typing) (r : Root) (τ' : Typing) : Prop where
  grows : Grows r.ids r.names τ τ'
  typed : r.ids.Nodup → ∀ final, Settled r.ids τ' final → RootTyped table final r

lemma inferRoot_meets (r : Root) (τ : Typing) :
    Meets (fun _ => True) (inferRoot function table r) τ fun _ τ' => InferredRoot table τ r τ' := by
  cases r with
  | expression e =>
      exact (infer_meets e τ).bind fun t τ₁ h => Meets.pure
        ⟨h.grows, fun hn final hs => ⟨t, h.typed hn final hs⟩⟩
  | declarator d =>
      obtain ⟨target, init⟩ := d
      rw [inferRoot]
      dsimp only
      split
      · exact Meets.throw trivial
      · rename_i name hname
        exact Meets.pure ⟨(Grows.refl τ).mono (by simp) (by simp), fun _ _ _ =>
          ⟨name, hname, fun _ h => by cases h⟩⟩
      · rename_i name init hname
        refine (infer_meets init τ).bind fun t τ₁ h => ?_
        have g := Grows.bind τ₁ name t
        refine Meets.modified ⟨(h.grows.trans g).mono
          (by simp [Root.ids, Root.expressions, Expr.ids]) (by simp [Root.names, hname]),
          fun hn final hs => ?_⟩
        obtain ⟨u, hu⟩ := bind_variable τ₁ name t
        refine ⟨name, hname, fun init' hinit => ?_⟩
        obtain rfl := Option.some.inj hinit
        exact ⟨t, u, h.typed hn final (hs.before g (fun _ hi => hi) (by simp)),
          hs.keeps name u hu⟩

/-- Roots that are typed one after the other. -/
lemma forM_inferRoot_meets (roots : List Root) (τ : Typing) :
    Meets (fun _ => True) (roots.forM (inferRoot function table)) τ fun _ τ' =>
      Grows (roots.flatMap Root.ids) (roots.flatMap Root.names) τ τ' ∧
      ((roots.flatMap Root.ids).Nodup → ∀ final, Settled (roots.flatMap Root.ids) τ' final →
        ∀ r ∈ roots, RootTyped table final r) := by
  induction roots generalizing τ with
  | nil => exact Meets.pure ⟨Grows.refl τ, by simp⟩
  | cons r rest ih =>
      refine (inferRoot_meets r τ).bind fun _ τ₁ h₁ => ?_
      refine (ih τ₁).weaken fun _ τ₂ ⟨g₂, h₂⟩ => ?_
      refine ⟨(h₁.grows.trans g₂).mono (by simp) (by simp), fun hn final hs => ?_⟩
      rw [List.flatMap_cons, List.nodup_append] at hn
      rw [List.flatMap_cons] at hs
      have hr : Settled r.ids τ₁ final :=
        hs.before g₂ (fun i hi => List.mem_append_left _ hi) fun i hi hi' => hn.2.2 i hi i hi' rfl
      have hrest : Settled (rest.flatMap Root.ids) τ₂ final :=
        ⟨hs.keeps, fun i hi => hs.expressions i (List.mem_append_right _ hi)⟩
      intro r' hr'
      rcases List.mem_cons.mp hr' with rfl | hr'
      · exact h₁.typed hn.1 final hr
      · exact h₂ hn.2.1 final hrest r' hr'

/-! ### Functions -/

lemma parameters_eq_ok {position : Nat} {pairs : List (Param × ValueType)}
    {bound : List (String × ValueType)} (h : parameters function position pairs = .ok bound) :
    List.Forall₂ (fun p b => p.1.pattern.identifier? = some b.1 ∧ p.2 = b.2) pairs bound := by
  induction pairs generalizing position bound with
  | nil =>
      rw [parameters, Except.ok.injEq] at h
      subst h
      exact .nil
  | cons p rest ih =>
      obtain ⟨p, t⟩ := p
      rw [parameters] at h
      split at h
      · cases h
      · rename_i name hname
        obtain ⟨tail, htail, hbound⟩ := bind_eq_ok.mp h
        rw [pure_eq_ok] at hbound
        subst hbound
        exact .cons ⟨hname, rfl⟩ (ih htail)

/-- What the typing of a function is made of. -/
lemma ofFunction_eq_ok {f : FunctionDeclaration} {signature : Signature}
    (h : ofFunction f signature table = .ok τ) :
    signature.arity = f.params.length ∧ ∃ bound,
      parameters f.displayName 0 (f.params.zip signature.parameters) = .ok bound ∧
      ∃ u, f.roots.forM (inferRoot f.displayName table) { variableTypes := Table.ofList bound }
        = .ok (u, τ) := by
  rw [ofFunction] at h
  dsimp only at h
  split at h
  · cases h
  rename_i harity
  refine ⟨by simpa using harity, ?_⟩
  obtain ⟨bound, hbound, h⟩ := bind_eq_ok.mp h
  obtain ⟨⟨u, found⟩, hrun, h⟩ := bind_eq_ok.mp h
  rw [pure_eq_ok] at h
  subst h
  exact ⟨bound, hbound, u, hrun⟩

/-- Every root of a function with distinct ids is typed by the rules. -/
theorem ofFunction_rootTyped {f : FunctionDeclaration} {signature : Signature}
    (hn : (f.rootExpressions.map Expr.id).Nodup) (h : ofFunction f signature table = .ok τ) :
    ∀ r ∈ f.roots, RootTyped table τ r := by
  obtain ⟨_, bound, _, u, hrun⟩ := ofFunction_eq_ok h
  have hids : f.rootExpressions.map Expr.id = f.roots.flatMap Root.ids := by
    rw [FunctionDeclaration.rootExpressions, List.map_flatMap]
    rfl
  rw [hids] at hn
  exact ((forM_inferRoot_meets f.roots _).of_ok hrun).2 hn τ ⟨fun _ _ h => h, fun _ _ => rfl⟩

/-- The names of parameters with the types of the signature, in order. -/
lemma parameters_eq_zip {params : List Param} {types : List ValueType} {names : List String}
    {bound : List (String × ValueType)}
    (hbound : List.Forall₂ (fun p b => p.1.pattern.identifier? = some b.1 ∧ p.2 = b.2)
      (params.zip types) bound)
    (hnames : List.Forall₂ (fun p name => p.pattern.identifier? = some name) params names) :
    bound = names.zip types := by
  induction hnames generalizing types bound with
  | nil => simpa using hbound
  | @cons p name params names hname _ ih =>
      cases types with
      | nil => simpa using hbound
      | cons t types =>
          rw [List.zip_cons_cons, List.forall₂_cons_left_iff] at hbound
          obtain ⟨b, rest, ⟨hb, ht⟩, hrest, rfl⟩ := hbound
          obtain ⟨b, u⟩ := b
          obtain rfl : t = u := ht
          obtain rfl : name = b := Option.some.inj (hname.symm.trans hb)
          rw [List.zip_cons_cons, ih hrest]

/-- Parameters have the types of the signature. -/
theorem ofFunction_parameter {f : FunctionDeclaration} {signature : Signature} {names : List String}
    (h : ofFunction f signature table = .ok τ)
    (hnames : List.Forall₂ (fun p name => p.pattern.identifier? = some name) f.params names)
    (hn : names.Nodup) :
    List.Forall₂ (fun name t => τ.variableTypes.find? name = some t) names
      signature.parameters := by
  obtain ⟨harity, bound, hbound, u, hrun⟩ := ofFunction_eq_ok h
  have hlength : names.length = signature.parameters.length := by
    rw [← hnames.length_eq, ← harity, Signature.arity]
  obtain rfl := parameters_eq_zip (parameters_eq_ok hbound) hnames
  rw [List.forall₂_iff_zip]
  refine ⟨hlength, fun {name t} hmem => ?_⟩
  refine ((forM_inferRoot_meets f.roots _).of_ok hrun).1.keeps name t ?_
  refine Table.find?_ofList_of_mem ?_ hmem
  rw [List.map_fst_zip hlength.le]
  exact hn

/-- A variable with a type is a parameter, or some root declares it. -/
theorem ofFunction_variable_mem {f : FunctionDeclaration} {signature : Signature}
    {names : List String} (h : ofFunction f signature table = .ok τ)
    (hnames : List.Forall₂ (fun p name => p.pattern.identifier? = some name) f.params names)
    {name : String} {t : ValueType} (ht : τ.variableTypes.find? name = some t) :
    name ∈ names ∨ ∃ r ∈ f.roots, name ∈ r.names := by
  obtain ⟨_, bound, hbound, u, hrun⟩ := ofFunction_eq_ok h
  obtain rfl := parameters_eq_zip (parameters_eq_ok hbound) hnames
  rcases ((forM_inferRoot_meets f.roots _).of_ok hrun).1.binds name t ht with hstart | hroot
  · exact .inl (List.of_mem_zip (Table.mem_of_find?_ofList hstart)).1
  · exact .inr (List.mem_flatMap.mp hroot)

end Typing

/-! ### Slots -/

namespace Slots

variable {function : String}

/-- Parameters are declared in order, and each has a name of its own. -/
lemma declareParameters_eq_ok {position : Nat} {m m' : VariableMapping} {params : List Param}
    (h : declareParameters function position m params = .ok m') :
    ∃ new, m'.names = m.names ++ new ∧ m'.firstSlot = m.firstSlot ∧
      List.Forall₂ (fun p name => p.pattern.identifier? = some name) params new := by
  induction params generalizing position m with
  | nil =>
      rw [declareParameters, Except.ok.injEq] at h
      exact ⟨[], by simp [h], by rw [h], .nil⟩
  | cons p rest ih =>
      rw [declareParameters] at h
      split at h
      · cases h
      rename_i name hname
      split at h
      · rename_i m₁ hdeclare
        obtain ⟨new, hnames, hfirst, hnew⟩ := ih h
        have hfresh : name ∉ m.names := VariableMapping.declare_fst.mp (by rw [hdeclare])
        obtain rfl : (m.declare name).2 = m₁ := by rw [hdeclare]
        refine ⟨name :: new, ?_, hfirst.trans (m.declare_firstSlot name), .cons hname hnew⟩
        rw [hnames, VariableMapping.declare_names, if_neg hfresh, List.append_assoc,
          List.singleton_append]
      · cases h

lemma declared_eq_ok {r : Root} {names : List String} (h : declared function r = .ok names) :
    names = r.names := by
  cases r with
  | expression e =>
      rw [declared, Except.ok.injEq] at h
      exact h.symm
  | declarator d =>
      rw [declared] at h
      split at h
      · cases h
      · rename_i name hname
        rw [← Except.ok.inj h, Root.names, hname]
        rfl

/-- What the slots of a function are made of. -/
theorem resolve_eq_ok {f : FunctionDeclaration} {slots : Slots} (h : resolve f = .ok slots) :
    List.Forall₂ (fun p name => p.pattern.identifier? = some name) f.params
        slots.parameters.names ∧
      slots.names = slots.parameters.names ++ slots.locals.names ∧
      ∀ r ∈ f.roots, ∀ name ∈ r.names, name ∈ slots.names := by
  obtain ⟨parameters, hparameters, h⟩ := bind_eq_ok.mp h
  obtain ⟨lists, hlists, h⟩ := bind_eq_ok.mp h
  rw [pure_eq_ok] at h
  subst h
  obtain ⟨new, hnew, _, hforall⟩ := declareParameters_eq_ok hparameters
  obtain rfl : parameters.names = new := hnew
  refine ⟨hforall, names_eq fun name hname => ?_, fun r hr name hname => ?_⟩
  · exact (mem_foldl_declareLocal.mp hname).elim (fun hmem => nomatch hmem) And.right
  · rw [mapM_eq_ok] at hlists
    obtain ⟨names, hnames, hdeclared⟩ := exists_mem_of_forall₂ hlists hr
    have hmem : name ∈ lists.flatten :=
      List.mem_flatten.mpr ⟨names, hnames, by rwa [declared_eq_ok hdeclared]⟩
    rw [mem_names, List.mem_append, mem_foldl_declareLocal]
    by_cases hparameter : name ∈ parameters.names
    · exact .inl hparameter
    · exact .inr (.inr ⟨hmem, hparameter⟩)

/-- Every variable with a type has a slot. -/
theorem mem_names_of_typed {f : FunctionDeclaration} {signature : Signature}
    {table : SignatureTable} {slots : Slots} {τ : Typing} (hslots : resolve f = .ok slots)
    (hτ : Typing.ofFunction f signature table = .ok τ) {name : String} {t : ValueType}
    (ht : τ.variableTypes.find? name = some t) : name ∈ slots.names := by
  obtain ⟨hparams, _, hroots⟩ := resolve_eq_ok hslots
  rcases Typing.ofFunction_variable_mem hτ hparams ht with hmem | ⟨r, hr, hmem⟩
  · exact mem_names.mpr (List.mem_append_left _ hmem)
  · exact hroots r hr name hmem

end Slots

end ArrayScript
