import ArrayScript.Proofs.Typing.Judgement

/-!
Renaming the variables of a function.

`FunctionDeclaration.rename ρ` gives the parameters, the declared names and the identifiers
of a function new names. The names of functions stay, those that are called included, and
so do the names of properties. Ids are not touched.

* `Expr.identifier?_rename`, `Expr.kindName_rename`, `Expr.id_rename`: what is read off an
  expression.
* `Slots.assigned_rename`: the names that an expression assigns are renamed.
* `FunctionDeclaration.roots_rename`: the roots of a function are those of the function
  before, renamed.
-/

namespace ArrayScript

/-! ### Renaming -/

namespace Pattern

mutual

/-- The pattern with new names; the keys of objects stay. -/
def rename (ρ : String → String) : Pattern → Pattern
  | identifier name => identifier (ρ name)
  | array elements => array (renameAll ρ elements)
  | object keys => object keys

/-- Patterns with new names. -/
def renameAll (ρ : String → String) : List Pattern → List Pattern
  | [] => []
  | p :: rest => rename ρ p :: renameAll ρ rest

end

/-- A pattern that is a name is so afterwards, and is the new one. -/
lemma identifier?_rename (ρ : String → String) (p : Pattern) :
    (p.rename ρ).identifier? = p.identifier?.map ρ := by
  cases p <;> rfl

end Pattern

/-- A parameter with a new name. -/
def Param.rename (ρ : String → String) (p : Param) : Param :=
  { p with pattern := p.pattern.rename ρ }

/-- The name of a parameter is the new one. -/
lemma Param.identifier?_rename (ρ : String → String) (p : Param) :
    (p.rename ρ).pattern.identifier? = p.pattern.identifier?.map ρ :=
  p.pattern.identifier?_rename ρ

namespace Expr

mutual

/-- The expression with new names. The name of a called function is not a variable. -/
def rename (ρ : String → String) : Expr → Expr
  | number i x => number i x
  | boolean i b => boolean i b
  | identifier i name => identifier i (ρ name)
  | array i elements => array i (renameAll ρ elements)
  | unary i op a => unary i op (rename ρ a)
  | binary i op a b => binary i op (rename ρ a) (rename ρ b)
  | logical i op a b => logical i op (rename ρ a) (rename ρ b)
  | update i op leading a => update i op leading (rename ρ a)
  | assign i op a b => assign i op (rename ρ a) (rename ρ b)
  | call i callee arguments =>
    call i (if callee.identifier?.isSome then callee else rename ρ callee)
      (renameAll ρ arguments)
  | index i a b => index i (rename ρ a) (rename ρ b)
  | property i a name => property i (rename ρ a) name

/-- Expressions with new names. -/
def renameAll (ρ : String → String) : List Expr → List Expr
  | [] => []
  | e :: rest => rename ρ e :: renameAll ρ rest

end

/-- What is called, with new names inside it if it is no name itself. -/
def renameCallee (ρ : String → String) (callee : Expr) : Expr :=
  if callee.identifier?.isSome then callee else rename ρ callee

end Expr

/-- A declarator with a new name. -/
def Declarator.rename (ρ : String → String) (d : Declarator) : Declarator :=
  ⟨d.target.rename ρ, d.init.map (Expr.rename ρ)⟩

/-- The name that a declarator binds is the new one. -/
lemma Declarator.identifier?_rename (ρ : String → String) (d : Declarator) :
    (d.rename ρ).target.identifier? = d.target.identifier?.map ρ :=
  d.target.identifier?_rename ρ

namespace Statement

mutual

/-- The statement with new names; functions keep theirs. -/
def rename (ρ : String → String) : Statement → Statement
  | function name params returnType body =>
    function name (params.map (Param.rename ρ)) returnType (renameAll ρ body)
  | declare kind ds => declare kind (ds.map (Declarator.rename ρ))
  | expression e => expression (e.rename ρ)
  | ret e => ret (e.map (Expr.rename ρ))
  | conditional test consequent alternate =>
    conditional (test.rename ρ) (rename ρ consequent) (renameOption ρ alternate)
  | whileLoop test body => whileLoop (test.rename ρ) (rename ρ body)
  | forLoop init test update body =>
    forLoop (renameOption ρ init) (test.map (Expr.rename ρ)) (update.map (Expr.rename ρ))
      (rename ρ body)
  | block body => block (renameAll ρ body)
  | empty => empty

/-- An optional statement with new names. -/
def renameOption (ρ : String → String) : Option Statement → Option Statement
  | none => none
  | some s => some (rename ρ s)

/-- Statements with new names. -/
def renameAll (ρ : String → String) : List Statement → List Statement
  | [] => []
  | s :: rest => rename ρ s :: renameAll ρ rest

end

end Statement

/-- The function with new names for its variables. -/
def FunctionDeclaration.rename (ρ : String → String) (f : FunctionDeclaration) :
    FunctionDeclaration where
  name := f.name
  params := f.params.map (Param.rename ρ)
  returnType := f.returnType
  body := Statement.renameAll ρ f.body

/-- A root with new names. -/
def Root.rename (ρ : String → String) : Root → Root
  | .declarator d => .declarator (d.rename ρ)
  | .expression e => .expression (e.rename ρ)

/-! ### What is read off an expression -/

namespace Expr

variable {ρ : String → String}

/-- As many expressions as before, so counts of arguments stay. -/
lemma length_renameAll (es : List Expr) : (renameAll ρ es).length = es.length := by
  induction es with
  | nil => rfl
  | cons e rest ih => rw [renameAll, List.length_cons, ih, List.length_cons]

/-- A call and the thing that is called are renamed apart from each other: what is called is
a variable only inside a larger expression. -/
lemma rename_call (i : ExprId) (callee : Expr) (arguments : List Expr) :
    (call i callee arguments).rename ρ = call i (callee.renameCallee ρ) (renameAll ρ arguments) :=
  rfl

/-- Ids are not touched, so types that are recorded under ids are found as before. -/
@[simp] lemma id_rename (e : Expr) : (e.rename ρ).id = e.id := by
  cases e <;> rfl

/-- An expression is of the kind that it was, which is what an error names. -/
@[simp] lemma kindName_rename (e : Expr) : (e.rename ρ).kindName = e.kindName := by
  cases e <;> rfl

/-- An expression that is a name is so afterwards, and is the new one. -/
lemma identifier?_rename (e : Expr) : (e.rename ρ).identifier? = e.identifier?.map ρ := by
  cases e <;> rfl

/-- The name of a called function stays. -/
@[simp] lemma identifier?_renameCallee (callee : Expr) :
    (callee.renameCallee ρ).identifier? = callee.identifier? := by
  rw [renameCallee]
  cases h : callee.identifier? with
  | none => simp [identifier?_rename, h]
  | some name => simp [h]

/-- What is called is of the kind that it was. -/
@[simp] lemma kindName_renameCallee (callee : Expr) :
    (callee.renameCallee ρ).kindName = callee.kindName := by
  rw [renameCallee]
  split
  · rfl
  · exact kindName_rename callee

end Expr

namespace Slots

variable {ρ : String → String}

/-- The name that an expression itself assigns plainly is the new one. -/
lemma plainTarget?_rename (e : Expr) : plainTarget? (e.rename ρ) = (plainTarget? e).map ρ := by
  cases e with
  | assign i op a b => cases op <;> first | exact Expr.identifier?_rename a | rfl
  | _ => rfl

mutual

/-- What an expression assigns is renamed. -/
theorem assigned_rename : ∀ e : Expr, assigned (e.rename ρ) = (assigned e).map ρ
  | .number _ _ | .boolean _ _ | .identifier _ _ => rfl
  | .array _ elements => by
      rw [Expr.rename, assigned_array, assigned_array, assignedList_rename elements]
  | .unary _ _ a | .update _ _ _ a | .property _ a _ => by
      simp only [Expr.rename, assigned_unary, assigned_update, assigned_property,
        assigned_rename a]
  | .binary _ _ a b | .logical _ _ a b | .index _ a b => by
      simp only [Expr.rename, assigned_binary, assigned_logical, assigned_index,
        assigned_rename a, assigned_rename b, List.map_append]
  | .assign i op a b => by
      -- the name that the assignment itself binds
      have htarget : plainTarget? (.assign i op (a.rename ρ) (b.rename ρ))
          = (plainTarget? (.assign i op a b)).map ρ := plainTarget?_rename (.assign i op a b)
      rw [Expr.rename, assigned_assign, assigned_assign, htarget, assigned_rename a,
        assigned_rename b, List.map_append, List.map_append]
      cases plainTarget? (.assign i op a b) <;> rfl
  | .call i callee arguments => by
      rw [Expr.rename_call, assigned_call, assigned_call, List.map_append,
        assignedList_rename arguments, Expr.renameCallee]
      cases h : callee.identifier? with
      | none => rw [if_neg (by simp), assigned_rename callee]
      | some name =>
          rw [if_pos Option.isSome_some]
          -- a name that is called assigns nothing, renamed or not
          cases callee <;> first | rfl | cases h

/-- What expressions assign, one after another, is renamed. -/
theorem assignedList_rename : ∀ es : List Expr,
    (Expr.renameAll ρ es).flatMap assigned = (es.flatMap assigned).map ρ
  | [] => rfl
  | e :: rest => by
      rw [Expr.renameAll, List.flatMap_cons, List.flatMap_cons, List.map_append,
        assigned_rename e, assignedList_rename rest]

end

end Slots

/-! ### Roots -/

section Roots

variable {ρ : String → String}

/-- The root that an optional expression gives is renamed with it. -/
lemma Root.ofOption_rename (e : Option Expr) :
    Root.ofOption (e.map (Expr.rename ρ)) = (Root.ofOption e).map (Root.rename ρ) := by
  cases e <;> rfl

namespace Statement

mutual

/-- The roots of a statement are renamed with it, each in its place. -/
theorem roots_rename : ∀ s : Statement, (s.rename ρ).roots = s.roots.map (Root.rename ρ)
  | function _ _ _ _ | expression _ | empty => rfl
  | declare _ ds => by
      rw [rename, roots, roots, List.map_map, List.map_map]
      rfl
  | ret e => Root.ofOption_rename e
  | conditional test consequent alternate => by
      rw [rename, roots, roots, roots_rename consequent, rootsOption_rename alternate,
        List.map_cons, List.map_append]
      rfl
  | whileLoop test body => by
      rw [rename, roots, roots, roots_rename body, List.map_cons]
      rfl
  | forLoop init test update body => by
      rw [rename, roots, roots, rootsOption_rename init, roots_rename body,
        Root.ofOption_rename, Root.ofOption_rename]
      simp only [List.map_append]
  | block body => rootsList_rename body

/-- The roots of an optional statement are renamed with it. -/
theorem rootsOption_rename : ∀ s : Option Statement,
    rootsOption (renameOption ρ s) = (rootsOption s).map (Root.rename ρ)
  | none => rfl
  | some s => roots_rename s

/-- The roots of statements are renamed with them. -/
theorem rootsList_rename : ∀ body : List Statement,
    rootsList (renameAll ρ body) = (rootsList body).map (Root.rename ρ)
  | [] => rfl
  | s :: rest => by
      rw [renameAll, rootsList, rootsList, roots_rename s, rootsList_rename rest, List.map_append]

end

end Statement

/-- The roots of a function are renamed with it. Both analyses of variables walk these roots
and look no further into the statements. -/
lemma FunctionDeclaration.roots_rename (f : FunctionDeclaration) :
    (f.rename ρ).roots = f.roots.map (Root.rename ρ) :=
  Statement.rootsList_rename f.body

end Roots

end ArrayScript
