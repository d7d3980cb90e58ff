import ArrayScript.Proofs.Syntax.Ids

/-!
What stands where, without a walk.

An expression stands inside another if it is reached by going into parts, and inside a
statement if it stands in some part of it or of a statement in it. The walk meets exactly
these expressions, however deep they stand.

* `Expr.mem_preorder`: the expressions of a walk through an expression.
* `Statement.mem_visits`, `FunctionDeclaration.mem_expressions`: those of a walk through
  statements, inner functions included.
-/

namespace ArrayScript

/-! ### Expressions -/

namespace Expr

/-- The outermost expressions inside an expression. -/
def parts : Expr → List Expr
  | number _ _ | boolean _ _ | identifier _ _ => []
  | array _ elements => elements
  | unary _ _ a | update _ _ _ a | property _ a _ => [a]
  | binary _ _ a b | logical _ _ a b | assign _ _ a b | index _ a b => [a, b]
  | call _ f arguments => f :: arguments

/-- An expression stands inside another, or is the other. -/
inductive Within (x : Expr) : Expr → Prop
  | self : Within x x
  | part {e a : Expr} (ha : a ∈ e.parts) (h : Within x a) : Within x e

lemma mem_preorder_self (e : Expr) : e ∈ e.preorder := by
  cases e <;> exact List.mem_cons_self

/-- The walk goes into every part. -/
lemma preorder_eq (e : Expr) : e.preorder = e :: preorderList e.parts := by
  cases e <;> simp [preorder, parts, preorderList]

lemma mem_preorderList {x : Expr} {es : List Expr} :
    x ∈ preorderList es ↔ ∃ e ∈ es, x ∈ e.preorder := by
  induction es with
  | nil => simp [preorderList]
  | cons e rest ih => simp [preorderList, ih]

lemma sizeOf_lt_of_mem_parts {e a : Expr} (h : a ∈ e.parts) : sizeOf a < sizeOf e := by
  have hlist : ∀ es : List Expr, a ∈ es → sizeOf a < sizeOf es :=
    fun _ => List.sizeOf_lt_of_mem
  cases e <;> simp only [parts, List.mem_cons, List.not_mem_nil, or_false] at h
  case array elements =>
    have := hlist elements h
    simp only [array.sizeOf_spec]
    omega
  case call f arguments =>
    simp only [call.sizeOf_spec]
    rcases h with rfl | h
    · omega
    · have := hlist arguments h
      omega
  all_goals
    rcases h with rfl | rfl <;> simp <;> omega

/-- The walk through an expression meets what stands inside it. -/
theorem mem_preorder {x e : Expr} : x ∈ e.preorder ↔ x.Within e := by
  constructor
  · intro h
    rw [preorder_eq, List.mem_cons, mem_preorderList] at h
    rcases h with rfl | ⟨a, ha, h⟩
    · exact .self
    · have := sizeOf_lt_of_mem_parts ha
      exact .part ha (mem_preorder.mp h)
  · intro h
    induction h with
    | self => exact mem_preorder_self x
    | @part e a ha _ ih =>
        rw [preorder_eq, List.mem_cons, mem_preorderList]
        exact .inr ⟨a, ha, ih⟩
termination_by sizeOf e

lemma mem_visitsOption {x : Expr} {e : Option Expr} :
    x ∈ Visit.expressions (visitsOption e) ↔ ∃ e' ∈ e.toList, x ∈ e'.preorder := by
  cases e with
  | none => simp [visitsOption, Visit.expressions]
  | some e => simp [visitsOption]

end Expr

/-! ### Statements -/

namespace Statement

/-- The outermost expressions of a statement itself. -/
def ownExpressions : Statement → List Expr
  | function _ _ _ _ | block _ | empty => []
  | declare _ ds => ds.filterMap (·.init)
  | expression e => [e]
  | ret argument => argument.toList
  | conditional test _ _ | whileLoop test _ => [test]
  | forLoop _ test update _ => test.toList ++ update.toList

/-- The outermost statements inside a statement, the body of a function among them. -/
def inner : Statement → List Statement
  | declare _ _ | expression _ | ret _ | empty => []
  | function _ _ _ body | block body => body
  | conditional _ consequent alternate => consequent :: alternate.toList
  | whileLoop _ body => [body]
  | forLoop init _ _ body => init.toList ++ [body]

/-- An expression stands inside a statement. -/
inductive Holds (x : Expr) : Statement → Prop
  | own {s : Statement} {e : Expr} (he : e ∈ s.ownExpressions) (h : x.Within e) : Holds x s
  | inner {s s' : Statement} (hs : s' ∈ s.inner) (h : Holds x s') : Holds x s

lemma mem_visitsList {x : Expr} {ss : List Statement} :
    x ∈ Visit.expressions (visitsList ss) ↔ ∃ s ∈ ss, x ∈ Visit.expressions s.visits := by
  induction ss with
  | nil => simp [visitsList, Visit.expressions]
  | cons s rest ih => simp [visitsList, ih]

lemma mem_visitsOption {x : Expr} {s : Option Statement} :
    x ∈ Visit.expressions (visitsOption s) ↔ ∃ s' ∈ s.toList, x ∈ Visit.expressions s'.visits := by
  cases s with
  | none => simp [visitsOption, Visit.expressions]
  | some s => simp [visitsOption]

lemma mem_declarator_visits {x : Expr} {ds : List Declarator} :
    x ∈ Visit.expressions (Declarator.visits ds) ↔ ∃ e ∈ ds.filterMap (·.init), x ∈ e.preorder := by
  induction ds with
  | nil => simp [Declarator.visits, Visit.expressions]
  | cons d rest ih =>
      obtain ⟨target, init⟩ := d
      cases init <;> simp [Declarator.visits, Expr.mem_visitsOption, ih]

/-- The walk through a statement goes into its expressions and into its statements. -/
lemma mem_visits_step {x : Expr} (s : Statement) :
    x ∈ Visit.expressions s.visits ↔ (∃ e ∈ s.ownExpressions, x ∈ e.preorder) ∨
      ∃ s' ∈ s.inner, x ∈ Visit.expressions s'.visits := by
  cases s with
  | forLoop init test update body =>
      simp only [visits, ownExpressions, inner, Visit.expressions_statement,
        Visit.expressions_append, List.mem_append, mem_visitsOption, Expr.mem_visitsOption,
        List.mem_singleton, or_and_right, exists_or, exists_eq_left]
      grind
  | empty => simp [visits, ownExpressions, inner, Visit.expressions, Visit.expression?]
  | _ =>
      simp [visits, ownExpressions, inner, mem_visitsList, mem_visitsOption,
        Expr.mem_visitsOption, mem_declarator_visits]

lemma sizeOf_lt_of_mem_inner {s s' : Statement} (h : s' ∈ s.inner) : sizeOf s' < sizeOf s := by
  have hlist : ∀ ss : List Statement, s' ∈ ss → sizeOf s' < sizeOf ss :=
    fun _ => List.sizeOf_lt_of_mem
  cases s <;> simp only [inner, List.mem_cons, List.mem_append, Option.mem_toList,
    List.not_mem_nil, or_false] at h
  case function name params returnType body =>
    have := hlist body h
    simp only [function.sizeOf_spec]
    omega
  case block body =>
    have := hlist body h
    simp only [block.sizeOf_spec]
    omega
  case whileLoop test body =>
    subst h
    simp
  all_goals
    rcases h with h | h <;> subst h <;> simp <;> omega

/-- The walk through a statement meets what stands inside it. -/
theorem mem_visits {x : Expr} {s : Statement} :
    x ∈ Visit.expressions s.visits ↔ s.Holds x := by
  constructor
  · intro h
    rcases (mem_visits_step s).mp h with ⟨e, he, h⟩ | ⟨s', hs, h⟩
    · exact .own he (Expr.mem_preorder.mp h)
    · have := sizeOf_lt_of_mem_inner hs
      exact .inner hs (mem_visits.mp h)
  · intro h
    induction h with
    | own he h => exact (mem_visits_step _).mpr (.inl ⟨_, he, Expr.mem_preorder.mpr h⟩)
    | inner hs _ ih => exact (mem_visits_step _).mpr (.inr ⟨_, hs, ih⟩)
termination_by sizeOf s

end Statement

/-- The walk through the body of a function meets what stands inside its statements. -/
theorem FunctionDeclaration.mem_expressions {x : Expr} {f : FunctionDeclaration} :
    x ∈ f.expressions ↔ ∃ s ∈ f.body, s.Holds x := by
  simp only [← Statement.mem_visits, ← Statement.mem_visitsList]
  exact Iff.rfl

end ArrayScript
