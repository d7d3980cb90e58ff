import ArrayScript.Proofs.Typing.Bindings

/-!
The types that are found for a function are complete and consistent.

* `Traced values bindings τ τ'`: between two typings types were recorded for the given
  values only, and names without a type got that of the first value bound to them.
* `infer_traced`, `forM_inferRoot_traced`: inference of an expression, and of the roots of
  a function, goes along the values and bindings in it.
* `ofFunction_complete`: the typing of a function has a type for each of its values and
  for nothing else; each parameter has the type of the signature and each other variable
  that of the first value bound to it; and every type obeys the rules.
-/

namespace ArrayScript

namespace Typing

variable {table : SignatureTable} {function : String} {τ τ' τ'' final : Typing}

/-! ### Types of names -/

/-- The type of the first value that is bound to a name and has a type. -/
def firstType (τ : Typing) (bindings : List (String × Expr)) (name : String) :
    Option ValueType :=
  bindings.findSome? fun b => if b.1 = name then τ.expressionTypes.find? b.2.id else none

lemma firstType_append (τ : Typing) (l r : List (String × Expr)) (name : String) :
    τ.firstType (l ++ r) name = (τ.firstType l name).or (τ.firstType r name) :=
  List.findSome?_append

/-- A name that has a type keeps it, and another one gets it. -/
lemma find?_bind (τ : Typing) (name : String) (t : ValueType) (n : String) :
    (τ.bind name t).variableTypes.find? n
      = (τ.variableTypes.find? n).or (if name = n then some t else none) := by
  by_cases hc : τ.variableTypes.contains name
  · obtain ⟨u, hu⟩ := Option.isSome_iff_exists.mp hc
    rw [Typing.bind, if_pos hc]
    by_cases hn : name = n
    · rw [← hn, hu, Option.some_or]
    · rw [if_neg hn, Option.or_none]
  · have hnone : τ.variableTypes.find? name = none := by simpa [Table.contains] using hc
    rw [Typing.bind, if_neg hc, Table.find?_insert]
    by_cases hn : name = n
    · rw [if_pos hn, if_pos hn, ← hn, hnone, Option.none_or]
    · rw [if_neg hn, if_neg hn, Option.or_none]

lemma find?_record (τ : Typing) (id : ExprId) (t : ValueType) :
    (τ.record id t).expressionTypes.find? id = some t := by
  rw [record, Table.find?_insert, if_pos rfl]

/-! ### What inference adds -/

/-- Types were recorded for the given values only, and the names without a type got that
of the first value bound to them. -/
structure Traced (values : List Expr) (bindings : List (String × Expr)) (τ τ' : Typing) :
    Prop where
  grows : ∃ names, Grows (values.map Expr.id) names τ τ'
  bound : ∀ b ∈ bindings, b.2 ∈ values
  binds : (values.map Expr.id).Nodup → ∀ final, Settled (values.map Expr.id) τ' final →
    ∀ name, τ'.variableTypes.find? name
      = (τ.variableTypes.find? name).or (final.firstType bindings name)

namespace Traced

variable {values values' : List Expr} {bindings bindings' : List (String × Expr)}

lemma nil (τ : Typing) : Traced [] [] τ τ :=
  ⟨⟨[], Grows.refl τ⟩, by simp, fun _ _ _ _ => (Option.or_none).symm⟩

lemma append (h : Traced values bindings τ τ') (h' : Traced values' bindings' τ' τ'') :
    Traced (values ++ values') (bindings ++ bindings') τ τ'' := by
  obtain ⟨names, g⟩ := h.grows
  obtain ⟨names', g'⟩ := h'.grows
  have gboth : Grows ((values ++ values').map Expr.id) (names ++ names') τ τ'' := by
    rw [List.map_append]
    exact g.trans g'
  have hbound : ∀ b ∈ bindings ++ bindings', b.2 ∈ values ++ values' := by
    rw [List.forall_mem_append]
    exact ⟨fun b hb => List.mem_append_left _ (h.bound b hb),
      fun b hb => List.mem_append_right _ (h'.bound b hb)⟩
  refine ⟨⟨_, gboth⟩, hbound, fun hn final hs name => ?_⟩
  rw [List.map_append] at hn hs
  obtain ⟨hleft, hright, hdisjoint⟩ := List.nodup_append.mp hn
  have hsleft : Settled (values.map Expr.id) τ' final :=
    hs.before g' (fun _ hi => List.mem_append_left _ hi) fun i hi hi' => hdisjoint i hi i hi' rfl
  have hsright : Settled (values'.map Expr.id) τ'' final :=
    ⟨hs.keeps, fun i hi => hs.expressions i (List.mem_append_right _ hi)⟩
  rw [h'.binds hright final hsright, h.binds hleft final hsleft, Option.or_assoc,
    firstType_append]

/-- The order in which values got their types does not matter. -/
lemma perm (h : Traced values bindings τ τ') (hp : values.Perm values') :
    Traced values' bindings τ τ' := by
  have hids := hp.map Expr.id
  obtain ⟨names, g⟩ := h.grows
  refine ⟨⟨names, g.mono (fun _ hi => hids.mem_iff.mp hi) (List.Subset.refl _)⟩,
    fun b hb => hp.mem_iff.mp (h.bound b hb),
    fun hn final hs => h.binds (hids.nodup_iff.mpr hn) final ?_⟩
  exact ⟨hs.keeps, fun i hi => hs.expressions i (hids.mem_iff.mp hi)⟩

lemma record {e : Expr} {t : ValueType} (h : Traced values bindings τ τ') :
    Traced (e :: values) bindings τ (τ'.record e.id t) := by
  obtain ⟨names, g⟩ := h.grows
  refine ⟨⟨names, (g.trans (Grows.record τ' e.id t)).mono (by simp) (by simp)⟩,
    fun b hb => List.mem_cons_of_mem _ (h.bound b hb), fun hn final hs => ?_⟩
  rw [List.map_cons, List.nodup_cons] at hn
  exact h.binds hn.2 final (hs.part hn.1)

/-- After a value got its type, a name is bound to it. -/
lemma bind {value : Expr} {t : ValueType} (h : Traced values bindings τ τ')
    (hvalue : value ∈ values) (ht : τ'.expressionTypes.find? value.id = some t) (name : String) :
    Traced values (bindings ++ [(name, value)]) τ (τ'.bind name t) := by
  obtain ⟨names, g⟩ := h.grows
  have gbind := Grows.bind τ' name t
  have hbound : ∀ b ∈ bindings ++ [(name, value)], b.2 ∈ values := by
    rw [List.forall_mem_append, List.forall_mem_singleton]
    exact ⟨h.bound, hvalue⟩
  refine ⟨⟨names ++ [name], (g.trans gbind).mono (by simp) (List.Subset.refl _)⟩, hbound,
    fun hn final hs n => ?_⟩
  have hs' : Settled (values.map Expr.id) τ' final :=
    hs.before gbind (fun _ hi => hi) (fun _ _ => List.not_mem_nil)
  have hfinal : final.expressionTypes.find? value.id = some t := by
    rw [hs'.expressions _ (List.mem_map_of_mem hvalue), ht]
  have hown : final.firstType [(name, value)] n = if name = n then some t else none := by
    simp only [firstType, List.findSome?_cons, List.findSome?_nil, hfinal]
    split <;> simp_all
  rw [find?_bind, h.binds hn final hs', Option.or_assoc, firstType_append, hown]

/-- A plain assignment binds its target, another one nothing. -/
lemma bindTarget {id : ExprId} {op : AssignOp} {target value : Expr} {t : ValueType}
    (h : Traced values bindings τ τ') (hvalue : value ∈ values)
    (ht : τ'.expressionTypes.find? value.id = some t) :
    Traced values (bindings ++ (Expr.assign id op target value).binding?.toList) τ
      (Typing.bindTarget op target t τ') := by
  cases op with
  | assign =>
      cases hname : target.identifier? with
      | none => simpa [Typing.bindTarget, Expr.binding?, hname] using h
      | some name =>
          simpa [Typing.bindTarget, Expr.binding?, hname] using h.bind hvalue ht name
  | _ => simpa [Typing.bindTarget, Expr.binding?] using h

end Traced

/-- What is recorded last is the type of the whole. -/
lemma recorded_traced {fault : CompileError → Prop} {id : ExprId} {find : Infer ValueType}
    {values : List Expr} {bindings : List (String × Expr)} (e : Expr) (hid : e.id = id)
    (hvalues : e.values = e :: values) (hbindings : e.bindings = bindings)
    (h : Meets fault find τ fun _ τ' => Traced values bindings τ τ') :
    Meets fault (recorded id find) τ fun t τ' =>
      Traced e.values e.bindings τ τ' ∧ τ'.expressionTypes.find? e.id = some t := by
  subst hid hbindings
  rw [hvalues]
  exact recorded_meets (h.weaken fun t τ' ht => ⟨ht.record, find?_record τ' e.id t⟩)

mutual

/-- Inference goes along the values and bindings in an expression, and records its type
last. -/
theorem infer_traced : ∀ (e : Expr) (τ : Typing),
    Meets (fun _ => True) (infer table e) τ fun t τ' =>
      Traced e.values e.bindings τ τ' ∧ τ'.expressionTypes.find? e.id = some t
  | .number id x, τ => by
      rw [infer]
      exact recorded_traced (.number id x) rfl rfl rfl (Meets.pure (.nil τ))
  | .boolean id b, τ => by
      rw [infer]
      exact recorded_traced (.boolean id b) rfl rfl rfl (Meets.pure (.nil τ))
  | .identifier id name, τ => by
      rw [infer]
      exact recorded_traced (.identifier id name) rfl rfl rfl
        (Meets.lift (fun _ _ => .nil τ) fun _ _ => trivial)
  | .array id elements, τ => by
      rw [infer]
      refine recorded_traced (.array id elements) rfl rfl rfl ?_
      exact (inferList_traced elements τ).bind fun _ _ h => Meets.pure h
  | .unary id op a, τ => by
      rw [infer]
      refine recorded_traced (.unary id op a) rfl rfl rfl ?_
      exact (infer_traced a τ).bind fun _ _ h => Meets.pure h.1
  | .binary id op a b, τ => by
      rw [infer]
      refine recorded_traced (.binary id op a b) rfl rfl rfl ?_
      dsimp only
      split
      · exact Meets.throw_bind trivial
      refine (infer_traced a τ).bind fun _ τ₁ h₁ => ?_
      exact (infer_traced b τ₁).bind fun _ _ h₂ => Meets.pure (h₁.1.append h₂.1)
  | .logical id op a b, τ => by
      rw [infer]
      refine recorded_traced (.logical id op a b) rfl rfl rfl ?_
      refine (infer_traced a τ).bind fun _ τ₁ h₁ => ?_
      exact (infer_traced b τ₁).bind fun _ _ h₂ => Meets.pure (h₁.1.append h₂.1)
  | .update id op leading a, τ => by
      rw [infer]
      refine recorded_traced (.update id op leading a) rfl rfl rfl ?_
      exact (infer_traced a τ).weaken fun _ _ h => h.1
  | .assign id op target value, τ => by
      rw [infer]
      refine recorded_traced (.assign id op target value) rfl rfl rfl ?_
      dsimp only
      split
      · exact Meets.throw_bind trivial
      refine (infer_traced value τ).bind fun t τ₁ h₁ => Meets.modify_bind ?_
      have hbound : Traced value.values
          (value.bindings ++ (Expr.assign id op target value).binding?.toList) τ
          (Typing.bindTarget op target t τ₁) := h₁.1.bindTarget value.mem_values_self h₁.2
      refine (infer_traced target _).bind fun _ _ h₂ => Meets.pure ?_
      rw [Expr.bindings, ← List.append_assoc]
      exact (hbound.append h₂.1).perm List.perm_append_comm
  | .call id callee arguments, τ => by
      rw [infer]
      cases hname : callee.identifier? with
      | none =>
          simp only
          exact recorded_meets (Meets.throw trivial)
      | some name =>
      obtain ⟨i, rfl⟩ := Expr.eq_of_identifier? hname
      refine recorded_traced (.call id (.identifier i name) arguments) rfl rfl rfl ?_
      refine (require_meets name τ fun _ => trivial).bind fun s τ₁ ⟨_, hτ⟩ => ?_
      subst hτ
      exact (inferList_traced arguments τ₁).bind fun _ _ h => Meets.pure h
  | .index id object position, τ => by
      rw [infer]
      refine recorded_traced (.index id object position) rfl rfl rfl ?_
      refine (infer_traced object τ).bind fun t τ₁ h₁ => ?_
      dsimp only
      split
      · exact Meets.throw_bind trivial
      · exact (infer_traced position τ₁).bind fun _ _ h₂ => Meets.pure (h₁.1.append h₂.1)
  | .property id object name, τ => by
      rw [infer]
      refine recorded_traced (.property id object name) rfl rfl rfl ?_
      refine (infer_traced object τ).bind fun t τ₁ h₁ => ?_
      dsimp only
      split
      · exact Meets.throw_bind trivial
      split
      · exact Meets.throw_bind trivial
      · exact Meets.pure h₁.1

theorem inferList_traced : ∀ (es : List Expr) (τ : Typing),
    Meets (fun _ => True) (inferList table es) τ fun _ τ' =>
      Traced (Expr.valuesList es) (Expr.bindingsList es) τ τ'
  | [], τ => by
      rw [inferList]
      exact Meets.pure (.nil τ)
  | e :: rest, τ => by
      rw [inferList]
      refine (infer_traced e τ).bind fun _ τ₁ h₁ => ?_
      exact (inferList_traced rest τ₁).weaken fun _ _ h₂ => h₁.1.append h₂

end

/-- Inference of a root goes along the values and bindings in it. -/
lemma inferRoot_traced (r : Root) (τ : Typing) :
    Meets (fun _ => True) (inferRoot function table r) τ fun _ τ' =>
      Traced r.values r.bindings τ τ' := by
  cases r with
  | expression e => exact (infer_traced e τ).bind fun _ _ h => Meets.pure h.1
  | declarator d =>
      obtain ⟨target, init⟩ := d
      rw [inferRoot]
      dsimp only
      split
      · exact Meets.throw trivial
      · exact Meets.pure (by simpa [Root.values, Root.bindings, Declarator.binding?] using .nil τ)
      · rename_i name init hname
        refine (infer_traced init τ).bind fun t τ₁ h => Meets.modified ?_
        simpa [Root.values, Root.bindings, Declarator.binding?, hname] using
          h.1.bind init.mem_values_self h.2 name

lemma forM_inferRoot_traced (roots : List Root) (τ : Typing) :
    Meets (fun _ => True) (roots.forM (inferRoot function table)) τ fun _ τ' =>
      Traced (roots.flatMap Root.values) (roots.flatMap Root.bindings) τ τ' := by
  induction roots generalizing τ with
  | nil => exact Meets.pure (.nil τ)
  | cons r rest ih =>
      exact (inferRoot_traced r τ).bind fun _ τ₁ h₁ => (ih τ₁).weaken fun _ _ h₂ => h₁.append h₂

/-! ### Functions -/

end Typing

/-- The names of the parameters that are plain names. -/
def FunctionDeclaration.parameterNames (f : FunctionDeclaration) : List String :=
  f.params.filterMap (·.pattern.identifier?)

namespace Typing

variable {table : SignatureTable} {τ : Typing}

/-- The parameters of a function that has a typing are plain names. -/
lemma ofFunction_parameterNames {f : FunctionDeclaration} {signature : Signature}
    (h : ofFunction f signature table = .ok τ) :
    List.Forall₂ (fun p name => p.pattern.identifier? = some name) f.params f.parameterNames := by
  obtain ⟨harity, bound, hbound, _⟩ := ofFunction_eq_ok h
  have hplain : ∀ p ∈ f.params, ∃ name, p.pattern.identifier? = some name := by
    intro p hp
    obtain ⟨k, hk⟩ := List.mem_iff_getElem?.mp hp
    have hlt : k < signature.parameters.length := by
      rw [← Signature.arity, harity]
      exact (List.getElem?_eq_some_iff.mp hk).1
    have hzip : (f.params.zip signature.parameters)[k]? = some (p, signature.parameters[k]) := by
      rw [List.getElem?_zip_eq_some]
      exact ⟨hk, List.getElem?_eq_getElem hlt⟩
    obtain ⟨b, _, hname, _⟩ := forall₂_getElem? (parameters_eq_ok hbound) hzip
    exact ⟨b.1, hname⟩
  rw [FunctionDeclaration.parameterNames]
  generalize f.params = params at hplain
  induction params with
  | nil => exact .nil
  | cons p rest ih =>
      rw [List.forall_mem_cons] at hplain
      obtain ⟨⟨name, hname⟩, hrest⟩ := hplain
      rw [List.filterMap_cons, hname]
      exact .cons hname (ih hrest)

/-- Two lists that match a third one element by element match each other through it. -/
lemma forall₂_comp {α β γ : Type} {R : α → β → Prop} {S : β → γ → Prop} {as : List α}
    {bs : List β} {cs : List γ} (h : List.Forall₂ R as bs) (h' : List.Forall₂ S bs cs) :
    List.Forall₂ (fun a c => ∃ b, R a b ∧ S b c) as cs := by
  induction h generalizing cs with
  | nil =>
      cases h'
      exact .nil
  | cons hab _ ih =>
      cases h' with
      | cons hbc hrest => exact .cons ⟨_, hab, hbc⟩ (ih hrest)

/-- What is traced between the types of the parameters and the typing of a function. -/
lemma ofFunction_traced {f : FunctionDeclaration} {signature : Signature}
    (h : ofFunction f signature table = .ok τ) :
    Traced (f.roots.flatMap Root.values) f.bindings
      { variableTypes := Table.ofList (f.parameterNames.zip signature.parameters) } τ := by
  obtain ⟨_, bound, hbound, u, hrun⟩ := ofFunction_eq_ok h
  obtain rfl := parameters_eq_zip (parameters_eq_ok hbound) (ofFunction_parameterNames h)
  exact (forM_inferRoot_traced f.roots _).of_ok hrun

/-- The type of the first value that has a type is that of the first value, where all
values have types. -/
lemma firstType_eq {bindings : List (String × Expr)}
    (h : ∀ b ∈ bindings, ∃ t, τ.expressionTypes.find? b.2.id = some t) (name : String) :
    τ.firstType bindings name = (bindings.find? fun b => b.1 = name).bind fun b =>
      τ.expressionTypes.find? b.2.id := by
  induction bindings with
  | nil => rfl
  | cons b rest ih =>
      rw [List.forall_mem_cons] at h
      obtain ⟨⟨t, ht⟩, hrest⟩ := h
      rw [firstType, List.findSome?_cons, List.find?_cons]
      by_cases hb : b.1 = name
      · simp [hb, ht]
      · simpa [hb, firstType] using ih hrest

/-- The expressions with a type are the values in the function. -/
lemma ofFunction_recorded {f : FunctionDeclaration} {signature : Signature}
    (h : ofFunction f signature table = .ok τ)
    (htyped : ∀ e ∈ f.roots.flatMap Root.values, ∃ t, HasType table τ e t) (id : ExprId) :
    (∃ t, τ.expressionTypes.find? id = some t) ↔
      id ∈ (f.roots.flatMap Root.values).map Expr.id := by
  obtain ⟨names, hgrows⟩ := (ofFunction_traced h).grows
  constructor
  · rintro ⟨t, ht⟩
    by_contra hid
    rw [hgrows.records id hid] at ht
    cases ht
  · intro hid
    obtain ⟨e, he, rfl⟩ := List.mem_map.mp hid
    obtain ⟨t, ht⟩ := htyped e he
    exact ⟨t, ht.recorded⟩

/-- A variable that is no parameter has the type of the first value bound to it. -/
lemma ofFunction_first {f : FunctionDeclaration} {signature : Signature}
    (h : ofFunction f signature table = .ok τ)
    (htyped : ∀ e ∈ f.roots.flatMap Root.values, ∃ t, HasType table τ e t)
    (hn : ((f.roots.flatMap Root.values).map Expr.id).Nodup) {name : String}
    (hname : name ∉ f.parameterNames) :
    τ.variableTypes.find? name = (f.firstValue? name).bind fun value =>
      τ.expressionTypes.find? value.id := by
  have htraced := ofFunction_traced h
  have hstart : (Table.ofList (f.parameterNames.zip signature.parameters)).find? name = none := by
    rw [Option.eq_none_iff_forall_ne_some]
    exact fun t ht => hname (List.of_mem_zip (Table.mem_of_find?_ofList ht)).1
  have hvalues : ∀ b ∈ f.bindings, ∃ t, τ.expressionTypes.find? b.2.id = some t := by
    intro b hb
    obtain ⟨t, ht⟩ := htyped b.2 (htraced.bound b hb)
    exact ⟨t, ht.recorded⟩
  rw [htraced.binds hn τ ⟨fun _ _ h => h, fun _ _ => rfl⟩, hstart, Option.none_or,
    firstType_eq hvalues, FunctionDeclaration.firstValue?, Option.bind_map]
  rfl

/-- A variable that is no parameter has a type exactly if a value is bound to it. -/
lemma ofFunction_bound {f : FunctionDeclaration} {signature : Signature}
    (h : ofFunction f signature table = .ok τ)
    (htyped : ∀ e ∈ f.roots.flatMap Root.values, ∃ t, HasType table τ e t)
    (hn : ((f.roots.flatMap Root.values).map Expr.id).Nodup) {name : String}
    (hname : name ∉ f.parameterNames) :
    (∃ t, τ.variableTypes.find? name = some t) ↔ ∃ value, (name, value) ∈ f.bindings := by
  rw [ofFunction_first h htyped hn hname, FunctionDeclaration.firstValue?]
  constructor
  · rintro ⟨t, ht⟩
    obtain ⟨value, hvalue, -⟩ := Option.bind_eq_some_iff.mp ht
    obtain ⟨b, hb, rfl⟩ := Option.map_eq_some_iff.mp hvalue
    obtain rfl : b.1 = name := by simpa using List.find?_some hb
    exact ⟨b.2, List.mem_of_find?_eq_some hb⟩
  · rintro ⟨value, hvalue⟩
    cases hfind : f.bindings.find? fun b => b.1 = name with
    | none => simpa using List.find?_eq_none.mp hfind _ hvalue
    | some b =>
        have hvalue := (ofFunction_traced h).bound b (List.mem_of_find?_eq_some hfind)
        obtain ⟨t, ht⟩ := htyped b.2 hvalue
        exact ⟨t, ht.recorded⟩

/-- A computation changes no type that a variable has. -/
def KeepsTypes {α : Type} (x : Infer α) : Prop :=
  ∀ τ a τ', x τ = .ok (a, τ') → ∀ name t, τ.variableTypes.find? name = some t →
    τ'.variableTypes.find? name = some t

/-- The typing of a function is complete and consistent. -/
structure Complete (f : FunctionDeclaration) (signature : Signature) (table : SignatureTable)
    (τ : Typing) : Prop where
  /-- the expressions with a type are those outside inner functions that are not called -/
  recorded : ∀ id, (∃ t, τ.expressionTypes.find? id = some t) ↔
    id ∈ (Visit.expressions f.ownVisits).map Expr.id ∧ id ∉ f.callees.map Expr.id
  /-- the variables with a type are the parameters, the names that are declared with an
  initial value and those that are plainly assigned -/
  bound : ∀ name, (∃ t, τ.variableTypes.find? name = some t) ↔ name ∈ f.parameterNames ∨
    (∃ target init, .declarator ⟨target, some init⟩ ∈ f.ownVisits ∧
      target.identifier? = some name) ∨
    ∃ id i value, .assign id .assign (.identifier i name) value ∈ Visit.expressions f.ownVisits
  /-- a parameter has the type of the signature -/
  parameters : List.Forall₂ (fun p t => ∃ name, p.pattern.identifier? = some name ∧
    τ.variableTypes.find? name = some t) f.params signature.parameters
  /-- another variable has the type of the first value bound to it -/
  first : ∀ name, name ∉ f.parameterNames →
    τ.variableTypes.find? name = (f.firstValue? name).bind fun value =>
      τ.expressionTypes.find? value.id
  /-- the types obey the rules -/
  typed : ∀ e ∈ Visit.expressions f.ownVisits, e.id ∉ f.callees.map Expr.id →
    ∃ t, HasType table τ e t
  /-- every occurrence of a variable has the type of the variable -/
  occurrences : ∀ i name, .identifier i name ∈ Visit.expressions f.ownVisits →
    i ∉ f.callees.map Expr.id → τ.expressionTypes.find? i = τ.variableTypes.find? name

/-- The typing that is found for a function with distinct ids and distinct parameters is
complete and consistent, and no type of a variable is changed on the way to it. -/
theorem ofFunction_complete {f : FunctionDeclaration} {signature : Signature}
    (hids : (f.expressions.map Expr.id).Nodup) (hparams : f.parameterNames.Nodup)
    (h : ofFunction f signature table = .ok τ) :
    Complete f signature table τ ∧ (∀ e, KeepsTypes (infer table e)) ∧
      ∀ r, KeepsTypes (inferRoot f.displayName table r) := by
  have hown : ((Visit.expressions f.ownVisits).map Expr.id).Nodup := by
    rw [f.expressions_ownVisits]
    exact (f.rootExpressions_sublist.map Expr.id).nodup hids
  have hparted := parted_of_rootTyped (ofFunction_rootTyped (f.expressions_ownVisits ▸ hown) h)
  have hvalues := hparted.mem_values_iff hown
  have hn := hparted.nodup_values hown
  have hnames := ofFunction_parameter h (ofFunction_parameterNames h) hparams
  have htyped : ∀ e ∈ Visit.expressions f.ownVisits, e.id ∉ f.callees.map Expr.id →
      ∃ t, HasType table τ e t := by
    intro e he hid
    rcases List.mem_append.mp (hparted.perm.mem_iff.mp he) with he | he
    · exact hparted.typed e he
    · exact absurd (List.mem_map_of_mem he) hid
  refine ⟨⟨fun id => ?_, fun name => ?_, ?_, fun name hname => ?_, htyped, fun i name hi hid => ?_⟩,
    fun e τ₁ t τ₂ hrun => ?_, fun r τ₁ u τ₂ hrun => ?_⟩
  · rw [ofFunction_recorded h hparted.typed, hvalues]
  · by_cases hname : name ∈ f.parameterNames
    · obtain ⟨t, -, ht⟩ := exists_mem_of_forall₂ hnames hname
      exact ⟨fun _ => .inl hname, fun _ => ⟨t, ht⟩⟩
    · rw [ofFunction_bound h hparted.typed hn hname]
      simp only [hname, false_or, FunctionDeclaration.mem_bindings, exists_or]
      rw [exists_comm]
      refine or_congr_right ?_
      exact ⟨fun ⟨v, id, i, hv⟩ => ⟨id, i, v, hv⟩, fun ⟨id, i, v, hv⟩ => ⟨v, id, i, hv⟩⟩
  · exact forall₂_comp (ofFunction_parameterNames h) hnames
  · exact ofFunction_first h hparted.typed hn hname
  · obtain ⟨t, ht⟩ := htyped _ hi hid
    cases ht with | identifier recorded variable_type => exact recorded.trans variable_type.symm
  · exact ((infer_meets e τ₁).of_ok hrun).grows.keeps
  · exact ((inferRoot_meets r τ₁).of_ok hrun).grows.keeps

end Typing

/-- `function f(a, n) { for (var i = (m = n); i < n; x = f(a, i)) { y = x; } function g() {} }`
-/
def assignedInUpdate : FunctionDeclaration :=
  ⟨some "f", [⟨.identifier "a", none⟩, ⟨.identifier "n", none⟩], none,
    [.forLoop
      (some (.declare .var [⟨.identifier "i", some (.assign 0 .assign (.identifier 1 "m")
        (.identifier 2 "n"))⟩]))
      (some (.binary 3 .lt (.identifier 4 "i") (.identifier 5 "n")))
      (some (.assign 6 .assign (.identifier 7 "x") (.call 8 (.identifier 9 "f")
        [.identifier 10 "a", .identifier 11 "i"])))
      (.block [.expression (.assign 12 .assign (.identifier 13 "y") (.identifier 14 "x"))]),
     .function (some "g") [] none []]⟩

/-- The type of `x` is found in the update of the loop, before the body is read. -/
theorem assignedInUpdate_complete :
    let signature : Signature := ⟨[.float64Array, .int32], .float64⟩
    let table : SignatureTable := Table.ofList [("f", signature)]
    ∃ τ, Typing.ofFunction assignedInUpdate signature table = .ok τ ∧
      τ.variableTypes.find? "y" = some .float64 ∧
      Typing.Complete assignedInUpdate signature table τ :=
  ⟨_, rfl, rfl, (Typing.ofFunction_complete (by decide) (by decide) rfl).1⟩

end ArrayScript
