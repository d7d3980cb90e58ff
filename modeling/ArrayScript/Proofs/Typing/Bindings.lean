import ArrayScript.Proofs.Syntax.Walk
import ArrayScript.Proofs.Typing.Roots

/-!
Which expressions have a value, and which values are bound to names.

* `Expr.values`: an expression and the expressions inside it, without the names of called
  functions. `HasType.parted` says that in a typed expression nothing else is left out, and
  that all of these are typed.
* `Expr.bindings`: the names that are bound inside an expression, each with the value
  bound to it, in the order in which types are found. `FunctionDeclaration.mem_bindings`
  says which bindings a function has.
-/

namespace ArrayScript

/-! ### Values and called names -/

namespace Expr

/-- What is called, if the expression is a call. -/
def callee? : Expr → Option Expr
  | call _ callee _ => some callee
  | _ => none

/-- What is called inside an expression. -/
def callees (e : Expr) : List Expr :=
  e.preorder.filterMap callee?

mutual

/-- The expression and all expressions inside it but for what is called. -/
def values : Expr → List Expr
  | e@(number _ _) | e@(boolean _ _) | e@(identifier _ _) => [e]
  | e@(array _ elements) => e :: valuesList elements
  | e@(unary _ _ a) | e@(update _ _ _ a) | e@(property _ a _) => e :: values a
  | e@(binary _ _ a b) | e@(logical _ _ a b) | e@(assign _ _ a b) | e@(index _ a b) =>
    e :: (values a ++ values b)
  | e@(call _ _ arguments) => e :: valuesList arguments

/-- The values in a list of expressions, one after the other. -/
def valuesList : List Expr → List Expr
  | [] => []
  | e :: rest => values e ++ valuesList rest

end

end Expr

lemma Expr.mem_values_self (e : Expr) : e ∈ e.values := by
  cases e <;> exact List.mem_cons_self

/-- What is called inside a root. -/
def Root.callees (r : Root) : List Expr :=
  r.expressions.filterMap Expr.callee?

/-- The values inside a root. -/
def Root.values : Root → List Expr
  | .expression e => e.values
  | .declarator d => (d.init.map Expr.values).getD []

/-- What is called in a function, inner functions left out. -/
def FunctionDeclaration.callees (f : FunctionDeclaration) : List Expr :=
  (Visit.expressions f.ownVisits).filterMap Expr.callee?

/-! ### Bindings -/

/-- The name that an expression itself binds, with the value. -/
def Expr.binding? : Expr → Option (String × Expr)
  | assign _ .assign target value => target.identifier?.map (·, value)
  | _ => none

namespace Expr

mutual

/-- The names bound inside an expression with their values, in the order in which types
are found: an assignment binds after its value and before its target. -/
def bindings : Expr → List (String × Expr)
  | number _ _ | boolean _ _ | identifier _ _ => []
  | array _ elements => bindingsList elements
  | unary _ _ a | update _ _ _ a | property _ a _ => bindings a
  | binary _ _ a b | logical _ _ a b | index _ a b => bindings a ++ bindings b
  | e@(assign _ _ target value) => bindings value ++ (e.binding?.toList ++ bindings target)
  | call _ callee arguments => bindings callee ++ bindingsList arguments

/-- The bindings in a list of expressions, one after the other. -/
def bindingsList : List Expr → List (String × Expr)
  | [] => []
  | e :: rest => bindings e ++ bindingsList rest

end

end Expr

/-- The name that a declarator binds, with the initial value. -/
def Declarator.binding? (d : Declarator) : Option (String × Expr) :=
  d.target.identifier?.bind fun name => d.init.map (name, ·)

/-- The bindings in a root; a declarator binds after its initial value was read. -/
def Root.bindings : Root → List (String × Expr)
  | .expression e => e.bindings
  | .declarator d => (d.init.map Expr.bindings).getD [] ++ d.binding?.toList

/-- The bindings of a function, in the order in which types are found. -/
def FunctionDeclaration.bindings (f : FunctionDeclaration) : List (String × Expr) :=
  f.roots.flatMap Root.bindings

/-- The value that is bound to a name first. -/
def FunctionDeclaration.firstValue? (f : FunctionDeclaration) (name : String) : Option Expr :=
  (f.bindings.find? fun b => b.1 = name).map (·.2)

/-! ### Which bindings there are -/

namespace Expr

mutual

/-- The order apart, the bindings are those of the plain assignments inside. -/
theorem bindings_perm : ∀ e : Expr, e.bindings.Perm (e.preorder.filterMap binding?)
  | number _ _ | boolean _ _ | identifier _ _ => .refl _
  | array _ elements => bindingsList_perm elements
  | unary _ _ a | update _ _ _ a | property _ a _ => bindings_perm a
  | binary _ _ a b | logical _ _ a b | index _ a b => by
      simpa [bindings, preorder, List.filterMap_cons, binding?] using
        (bindings_perm a).append (bindings_perm b)
  | assign id op target value => by
      have hparts := (List.Perm.refl (binding? (assign id op target value)).toList).append
        ((bindings_perm target).append (bindings_perm value))
      rw [bindings, preorder, List.filterMap_cons, List.filterMap_append]
      refine List.perm_append_comm.trans (((List.append_assoc _ _ _).symm ▸ hparts).trans ?_)
      cases binding? (assign id op target value) <;> rfl
  | call _ callee arguments => by
      simpa [bindings, preorder, List.filterMap_cons, binding?] using
        (bindings_perm callee).append (bindingsList_perm arguments)

theorem bindingsList_perm : ∀ es : List Expr,
    (bindingsList es).Perm ((preorderList es).filterMap binding?)
  | [] => .refl _
  | e :: rest => by
      rw [bindingsList, preorderList, List.filterMap_append]
      exact (bindings_perm e).append (bindingsList_perm rest)

end

lemma mem_bindings {e : Expr} {name : String} {value : Expr} :
    (name, value) ∈ e.bindings ↔
      ∃ id i, .assign id .assign (.identifier i name) value ∈ e.preorder := by
  rw [(bindings_perm e).mem_iff, List.mem_filterMap]
  constructor
  · rintro ⟨part, hpart, hb⟩
    unfold binding? at hb
    split at hb
    · rename_i id target value'
      obtain ⟨name', hname, heq⟩ := Option.map_eq_some_iff.mp hb
      obtain ⟨rfl, rfl⟩ := Prod.mk.inj heq
      obtain ⟨i, rfl⟩ := eq_of_identifier? hname
      exact ⟨id, i, hpart⟩
    · cases hb
  · rintro ⟨id, i, hpart⟩
    exact ⟨_, hpart, rfl⟩

end Expr

/-- The bindings of a function are those of declarators with an initial value and those of
plain assignments. -/
lemma FunctionDeclaration.mem_bindings {f : FunctionDeclaration} {name : String} {value : Expr} :
    (name, value) ∈ f.bindings ↔
      (∃ target, .declarator ⟨target, some value⟩ ∈ f.ownVisits ∧
        target.identifier? = some name) ∨
      ∃ id i, .assign id .assign (.identifier i name) value ∈ Visit.expressions f.ownVisits := by
  simp only [f.mem_ownVisits_declarator, f.expressions_ownVisits, bindings, rootExpressions,
    List.mem_flatMap]
  have hroot : ∀ r : Root, (name, value) ∈ r.bindings ↔
      (∃ target, r = .declarator ⟨target, some value⟩ ∧ target.identifier? = some name) ∨
      ∃ id i, .assign id .assign (.identifier i name) value ∈ r.expressions := by
    intro r
    cases r with
    | expression e => simp [Root.bindings, Root.expressions, Expr.mem_bindings]
    | declarator d =>
        obtain ⟨target, init⟩ := d
        cases init with
        | none => simp [Root.bindings, Root.expressions, Declarator.binding?]
        | some init =>
            have hown : (name, value) ∈ (Declarator.mk target (some init)).binding?.toList ↔
                value = init ∧ target.identifier? = some name := by
              cases h : target.identifier? <;> simp [Declarator.binding?, h, eq_comm, and_comm]
            rw [Root.bindings, List.mem_append, hown, or_comm]
            simp [Root.expressions, Expr.mem_bindings, eq_comm]
  simp only [hroot, and_or_left, exists_or]
  grind

/-! ### The parts of typed expressions -/

namespace Expr

/-- What is called in a list of expressions. -/
def calleesList (es : List Expr) : List Expr :=
  (preorderList es).filterMap callee?

lemma calleesList_cons (e : Expr) (rest : List Expr) :
    calleesList (e :: rest) = e.callees ++ calleesList rest := by
  rw [calleesList, preorderList, List.filterMap_append]
  rfl

end Expr

namespace Typing

variable {table : SignatureTable} {τ : Typing}

/-- Some expressions are values, which are typed, and names that are called. -/
structure Parted (table : SignatureTable) (τ : Typing) (parts values callees : List Expr) :
    Prop where
  perm : parts.Perm (values ++ callees)
  typed : ∀ e ∈ values, ∃ t, HasType table τ e t
  called : ∀ e ∈ callees, ∃ name, e.identifier? = some name

namespace Parted

variable {parts values callees parts' values' callees' : List Expr}

lemma nil : Parted table τ [] [] [] :=
  ⟨.refl _, by simp, by simp⟩

lemma cons {e : Expr} {t : ValueType} (h : Parted table τ parts values callees)
    (he : HasType table τ e t) : Parted table τ (e :: parts) (e :: values) callees :=
  ⟨h.perm.cons e, List.forall_mem_cons.mpr ⟨⟨t, he⟩, h.typed⟩, h.called⟩

lemma callee {e : Expr} {name : String} (h : Parted table τ parts values callees)
    (he : e.identifier? = some name) : Parted table τ (e :: parts) values (e :: callees) :=
  ⟨(h.perm.cons e).trans List.perm_middle.symm, h.typed,
    List.forall_mem_cons.mpr ⟨⟨name, he⟩, h.called⟩⟩

lemma append (h : Parted table τ parts values callees)
    (h' : Parted table τ parts' values' callees') :
    Parted table τ (parts ++ parts') (values ++ values') (callees ++ callees') where
  perm := by
    refine (h.perm.append h'.perm).trans ?_
    rw [List.append_assoc, List.append_assoc]
    refine List.Perm.append_left values ?_
    rw [← List.append_assoc, ← List.append_assoc]
    exact List.perm_append_comm.append_right callees'
  typed := List.forall_mem_append.mpr ⟨h.typed, h'.typed⟩
  called := List.forall_mem_append.mpr ⟨h.called, h'.called⟩

/-- If no id is repeated, the ids of the values are those that are not called. -/
lemma mem_values_iff (h : Parted table τ parts values callees) (hn : (parts.map Expr.id).Nodup)
    (id : ExprId) : id ∈ values.map Expr.id ↔
      id ∈ parts.map Expr.id ∧ id ∉ callees.map Expr.id := by
  have hperm := h.perm.map Expr.id
  rw [List.map_append] at hperm
  have hdisjoint := (List.nodup_append.mp (hperm.nodup_iff.mp hn)).2.2
  rw [hperm.mem_iff, List.mem_append]
  exact ⟨fun hid => ⟨.inl hid, fun hcallee => hdisjoint id hid id hcallee rfl⟩,
    fun hid => hid.1.resolve_right hid.2⟩

lemma nodup_values (h : Parted table τ parts values callees) (hn : (parts.map Expr.id).Nodup) :
    (values.map Expr.id).Nodup := by
  have hperm := h.perm.map Expr.id
  rw [List.map_append] at hperm
  exact (List.nodup_append.mp (hperm.nodup_iff.mp hn)).1

end Parted

mutual

/-- A typed expression is made of typed values and of names that are called. -/
theorem HasType.parted : ∀ {e : Expr} {t : ValueType}, HasType table τ e t →
    Parted table τ e.preorder e.values e.callees
  | .number _ _, _, h | .boolean _ _, _, h | .identifier _ _, _, h => Parted.nil.cons h
  | .array _ elements, _, h => by
      cases h with | array recorded parts => exact parts.parted.cons (.array recorded parts)
  | .unary _ _ a, _, h => by
      obtain ⟨u, hu⟩ : ∃ u, HasType table τ a u := by
        cases h with
        | not _ part => exact ⟨_, part⟩
        | sign _ _ part => exact ⟨_, part⟩
      exact hu.parted.cons h
  | .binary _ _ a b, _, h => by
      obtain ⟨_, _, left, right, _⟩ := h.binary
      simpa [Expr.preorder, Expr.values, Expr.callees, List.filterMap_cons, Expr.callee?] using
        (left.parted.append right.parted).cons h
  | .logical _ _ a b, _, h => by
      cases h with | logical recorded left right =>
        simpa [Expr.preorder, Expr.values, Expr.callees, List.filterMap_cons, Expr.callee?] using
          (left.parted.append right.parted).cons (.logical recorded left right)
  | .update _ _ _ a, _, h => by
      cases h with | update recorded part => exact part.parted.cons (.update recorded part)
  | .assign _ _ target value, _, h => by
      cases h with | assign recorded op_ne value_type target_type =>
        simpa [Expr.preorder, Expr.values, Expr.callees, List.filterMap_cons, Expr.callee?] using
          (target_type.parted.append value_type.parted).cons
            (.assign recorded op_ne value_type target_type)
  | .call _ callee arguments, _, h => by
      cases h with | call recorded callee_name callee_signature parts => ?_
      obtain ⟨i, rfl⟩ := Expr.eq_of_identifier? callee_name
      exact (parts.parted.callee callee_name).cons
        (.call recorded callee_name callee_signature parts)
  | .index _ object position, _, h => by
      cases h with | index recorded object_type object_array position_type =>
        simpa [Expr.preorder, Expr.values, Expr.callees, List.filterMap_cons, Expr.callee?] using
          (object_type.parted.append position_type.parted).cons
            (.index recorded object_type object_array position_type)
  | .property _ object _, _, h => by
      cases h with | length recorded object_type object_array =>
        exact object_type.parted.cons (.length recorded object_type object_array)

theorem HaveTypes.parted : ∀ {es : List Expr}, HaveTypes table τ es →
    Parted table τ (Expr.preorderList es) (Expr.valuesList es) (Expr.calleesList es)
  | [], _ => .nil
  | e :: rest, h => by
      rw [Expr.preorderList, Expr.valuesList, Expr.calleesList_cons]
      cases h with | cons head tail => exact head.parted.append tail.parted

end

lemma RootTyped.parted {r : Root} (h : RootTyped table τ r) :
    Parted table τ r.expressions r.values r.callees := by
  cases r with
  | expression e =>
      obtain ⟨t, ht⟩ := h
      exact ht.parted
  | declarator d =>
      obtain ⟨target, init⟩ := d
      obtain ⟨_, _, hinit⟩ := h
      cases init with
      | none => exact .nil
      | some init =>
          obtain ⟨t, _, ht, _⟩ := hinit init rfl
          exact ht.parted

/-- The expressions of a function whose roots are typed are typed values and names that
are called. -/
theorem parted_of_rootTyped {f : FunctionDeclaration} (h : ∀ r ∈ f.roots, RootTyped table τ r) :
    Parted table τ (Visit.expressions f.ownVisits) (f.roots.flatMap Root.values) f.callees := by
  rw [FunctionDeclaration.callees, f.expressions_ownVisits, FunctionDeclaration.rootExpressions,
    List.filterMap_flatMap]
  generalize f.roots = roots at h
  induction roots with
  | nil => exact .nil
  | cons r rest ih =>
      rw [List.forall_mem_cons] at h
      exact h.1.parted.append (ih h.2)

end Typing

end ArrayScript
