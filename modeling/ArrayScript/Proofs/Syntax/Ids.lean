import ArrayScript.Proofs.Computation
import ArrayScript.Syntax.Visit

/-!
The ids of expressions.

* `Program.renumber_ids`: after renumbering, the expressions of a program carry the
  ids `0, 1, 2, …` in the order of a walk.
* `Program.ids_nodup`: so no two expressions of one function of a
  renumbered program have the same id.
* `FunctionDeclaration.rootExpressions_sublist`: the expressions inside the roots of
  a function come, in this order, among all its expressions; those of inner functions
  are left out.
-/

namespace ArrayScript

/-- The ids of an expression and of all expressions inside it. -/
def Expr.ids (e : Expr) : List ExprId :=
  e.preorder.map Expr.id

/-- The ids of the expressions of a list. -/
def Expr.idsList (es : List Expr) : List ExprId :=
  (Expr.preorderList es).map Expr.id

namespace Expr

@[simp, grind =] lemma ids_number (i : ExprId) (x : Double) : (number i x).ids = [i] := rfl

@[simp, grind =] lemma ids_boolean (i : ExprId) (b : Bool) : (boolean i b).ids = [i] := rfl

@[simp, grind =] lemma ids_identifier (i : ExprId) (name : String) :
    (identifier i name).ids = [i] := rfl

@[simp, grind =] lemma ids_array (i : ExprId) (es : List Expr) :
    (array i es).ids = i :: idsList es := rfl

@[simp, grind =] lemma ids_unary (i : ExprId) (op : UnaryOp) (a : Expr) :
    (unary i op a).ids = i :: a.ids := rfl

@[simp, grind =] lemma ids_binary (i : ExprId) (op : BinaryOp) (a b : Expr) :
    (binary i op a b).ids = i :: (a.ids ++ b.ids) := by
  simp [ids, preorder, id]

@[simp, grind =] lemma ids_logical (i : ExprId) (op : LogicalOp) (a b : Expr) :
    (logical i op a b).ids = i :: (a.ids ++ b.ids) := by
  simp [ids, preorder, id]

@[simp, grind =] lemma ids_update (i : ExprId) (op : UpdateOp) (leading : Bool) (a : Expr) :
    (update i op leading a).ids = i :: a.ids := rfl

@[simp, grind =] lemma ids_assign (i : ExprId) (op : AssignOp) (a b : Expr) :
    (assign i op a b).ids = i :: (a.ids ++ b.ids) := by
  simp [ids, preorder, id]

@[simp, grind =] lemma ids_call (i : ExprId) (f : Expr) (es : List Expr) :
    (call i f es).ids = i :: (f.ids ++ idsList es) := by
  simp [ids, idsList, preorder, id]

@[simp, grind =] lemma ids_index (i : ExprId) (a b : Expr) :
    (index i a b).ids = i :: (a.ids ++ b.ids) := by
  simp [ids, preorder, id]

@[simp, grind =] lemma ids_property (i : ExprId) (a : Expr) (name : String) :
    (property i a name).ids = i :: a.ids := rfl

@[simp, grind =] lemma idsList_nil : idsList [] = [] := rfl

@[simp, grind =] lemma idsList_cons (e : Expr) (es : List Expr) :
    idsList (e :: es) = e.ids ++ idsList es := by
  simp [ids, idsList, preorderList]

end Expr

/-! ### Ids in order -/

/-- The numbers from `first` up to, but not including, `last`. -/
def Consecutive (first last : Nat) (ids : List ExprId) : Prop :=
  first ≤ last ∧ ids = List.range' first (last - first)

namespace Consecutive

variable {first mid last : Nat} {ids ids' : List ExprId}

/-- No numbers at all: the next one is still the first. -/
lemma nil (first : Nat) : Consecutive first first [] := by
  simp [Consecutive]

/-- Two runs of numbers that meet are one run. -/
lemma append (h : Consecutive first mid ids) (h' : Consecutive mid last ids') :
    Consecutive first last (ids ++ ids') := by
  obtain ⟨hle, rfl⟩ := h
  obtain ⟨hle', rfl⟩ := h'
  refine ⟨hle.trans hle', ?_⟩
  -- where the first run ends is where the second starts
  have hmid : mid = first + (mid - first) := by omega
  conv_lhs => rw [hmid, Nat.add_sub_cancel_left, List.range'_append_1]
  congr 1
  omega

/-- A number in front of the run that starts with the next one. -/
lemma cons (h : Consecutive (first + 1) last ids) : Consecutive first last (first :: ids) := by
  have hfirst : Consecutive first (first + 1) [first] := ⟨by omega, by simp⟩
  exact hfirst.append h

/-- A run of numbers has no repetitions. -/
lemma nodup (h : Consecutive first last ids) : ids.Nodup := by
  rw [h.2]
  exact List.nodup_range'

end Consecutive

namespace Expr

mutual

/-- The ids given out to an expression are those between the first and the next free
one, in the order of a walk. -/
theorem renumber_ids : ∀ (e : Expr) (next : ExprId),
    Consecutive next (e.renumber next).2 (e.renumber next).1.ids
  | number _ _, next | boolean _ _, next | identifier _ _, next =>
      (Consecutive.nil (next + 1)).cons
  | array _ elements, next => (renumberList_ids elements (next + 1)).cons
  | unary _ _ a, next | update _ _ _ a, next | property _ a _, next =>
      (renumber_ids a (next + 1)).cons
  | binary _ _ a b, next | logical _ _ a b, next | assign _ _ a b, next | index _ a b, next => by
      have h := (renumber_ids a (next + 1)).append (renumber_ids b (a.renumber (next + 1)).2)
      simpa [renumber] using h.cons
  | call _ f arguments, next => by
      have h := (renumber_ids f (next + 1)).append
        (renumberList_ids arguments (f.renumber (next + 1)).2)
      simpa [renumber] using h.cons

/-- The same for expressions one after another. -/
theorem renumberList_ids : ∀ (es : List Expr) (next : ExprId),
    Consecutive next (renumberList next es).2 (idsList (renumberList next es).1)
  | [], next => Consecutive.nil next
  | e :: rest, next => by
      have h := (renumber_ids e next).append (renumberList_ids rest (e.renumber next).2)
      simpa [renumberList] using h

end

end Expr

/-! ### Ids of statements -/

namespace Visit

/-- The expressions met on a walk. -/
def expressions (visits : List Visit) : List Expr :=
  visits.filterMap expression?

/-- The ids of the expressions met on a walk. -/
def ids (visits : List Visit) : List ExprId :=
  (expressions visits).map Expr.id

/-- Two walks, one after the other, meet the expressions of both. -/
@[simp] lemma expressions_append (l l' : List Visit) :
    expressions (l ++ l') = expressions l ++ expressions l' := by
  simp [expressions]

@[simp] lemma expressions_statement (s : Statement) (l : List Visit) :
    expressions (.statement s :: l) = expressions l := rfl

@[simp] lemma expressions_function (f : FunctionDeclaration) (l : List Visit) :
    expressions (.function f :: l) = expressions l := rfl

@[simp] lemma expressions_declarator (d : Declarator) (l : List Visit) :
    expressions (.declarator d :: l) = expressions l := rfl

/-- A walk over expressions alone meets these expressions. -/
@[simp] lemma expressions_map (es : List Expr) : expressions (es.map .expression) = es := by
  induction es with
  | nil => rfl
  | cons e rest ih =>
      show e :: expressions (rest.map .expression) = e :: rest
      rw [ih]

end Visit

/-- The ids given out to an optional expression are consecutive. -/
lemma Expr.renumberOption_ids (e : Option Expr) (next : ExprId) :
    Consecutive next (Expr.renumberOption next e).2
      (Visit.ids (Expr.visitsOption (Expr.renumberOption next e).1)) := by
  cases e with
  | none => exact Consecutive.nil next
  | some e =>
      simpa [Expr.renumberOption, Expr.visitsOption, Expr.ids, Visit.ids] using e.renumber_ids next

/-- The ids given out to the initial values of declarators are consecutive: a walk meets the
targets too, but they have none. -/
lemma Declarator.renumberList_ids (ds : List Declarator) (next : ExprId) :
    Consecutive next (Declarator.renumberList next ds).2
      (Visit.ids (Declarator.visits (Declarator.renumberList next ds).1)) := by
  induction ds generalizing next with
  | nil => exact Consecutive.nil next
  | cons d rest ih =>
      simpa [Declarator.renumberList, Declarator.visits, Visit.ids] using
        (Expr.renumberOption_ids d.init next).append (ih _)

namespace Statement

mutual

/-- The ids given out to a statement are consecutive, in the order of a walk. Each case puts
the runs of the parts together in the order in which they are numbered. -/
theorem renumber_ids : ∀ (s : Statement) (next : ExprId),
    Consecutive next (s.renumber next).2 (Visit.ids (s.renumber next).1.visits)
  | function _ _ _ body, next => by
      simpa [renumber, visits, Visit.ids] using renumberList_ids body next
  | declare _ ds, next => by
      simpa [renumber, visits, Visit.ids] using Declarator.renumberList_ids ds next
  | expression e, next => by
      simpa [renumber, visits, Expr.ids, Visit.ids] using e.renumber_ids next
  | ret argument, next => by
      simpa [renumber, visits, Visit.ids] using Expr.renumberOption_ids argument next
  | conditional test consequent alternate, next => by
      have h := ((test.renumber_ids next).append (renumber_ids consequent _)).append
        (renumberOption_ids alternate _)
      simpa [renumber, visits, Expr.ids, Visit.ids] using h
  | whileLoop test body, next => by
      have h := (test.renumber_ids next).append (renumber_ids body _)
      simpa [renumber, visits, Expr.ids, Visit.ids] using h
  | forLoop init test update body, next => by
      have h := (((renumberOption_ids init next).append (Expr.renumberOption_ids test _)).append
        (Expr.renumberOption_ids update _)).append (renumber_ids body _)
      simpa [renumber, visits, Visit.ids] using h
  | block body, next => by
      simpa [renumber, visits, Visit.ids] using renumberList_ids body next
  | empty, next => Consecutive.nil next

/-- The same for an optional statement. -/
theorem renumberOption_ids : ∀ (s : Option Statement) (next : ExprId),
    Consecutive next (renumberOption next s).2
      (Visit.ids (visitsOption (renumberOption next s).1))
  | none, next => Consecutive.nil next
  | some s, next => by
      simpa [renumberOption, visitsOption, Visit.ids] using renumber_ids s next

/-- The same for statements one after another. -/
theorem renumberList_ids : ∀ (ss : List Statement) (next : ExprId),
    Consecutive next (renumberList next ss).2 (Visit.ids (visitsList (renumberList next ss).1))
  | [], next => Consecutive.nil next
  | s :: rest, next => by
      have h := (renumber_ids s next).append (renumberList_ids rest _)
      simpa [renumberList, visitsList, Visit.ids] using h

end

end Statement

/-- A renumbered program has the ids `0, 1, 2, …` in the order of a walk. -/
theorem Program.renumber_ids (p : Program) :
    ∃ n, Visit.ids p.renumber.visits = List.range' 0 n :=
  ⟨_, (Statement.renumberList_ids p.body 0).2⟩

/-- The expressions of a function of a program are among those of the program. -/
lemma Program.expressions_sublist {p : Program} {f : FunctionDeclaration} (hf : f ∈ p.functions) :
    (f.expressions.map Expr.id).Sublist (Visit.ids p.visits) := by
  obtain ⟨s, hs, hsf⟩ := List.mem_filterMap.mp hf
  -- a function is one of the statements of the program, and a walk goes through all of them
  have key : ∀ l : List Statement, s ∈ l →
      (Visit.ids f.visits).Sublist (Visit.ids (Statement.visitsList l)) := by
    intro l
    induction l with
    | nil => exact fun h => absurd h (by simp)
    | cons t rest ih =>
        intro h
        simp only [Statement.visitsList, Visit.ids, Visit.expressions_append, List.map_append]
        rcases List.mem_cons.mp h with rfl | h
        · cases s with
          | function name params returnType body =>
              obtain rfl : FunctionDeclaration.mk name params returnType body = f := by
                simpa [Statement.function?] using hsf
              simp only [Statement.visits, Visit.expressions_statement,
                Visit.expressions_function]
              exact List.sublist_append_left _ _
          | _ => simp [Statement.function?] at hsf
        · exact (ih h).trans (List.sublist_append_right _ _)
  exact key p.body hs

/-- In a program with ids in the order of a walk, no two expressions of one function
have the same id. -/
theorem Program.ids_nodup {p q : Program} (hp : p = q.renumber)
    {f : FunctionDeclaration} (hf : f ∈ p.functions) : (f.expressions.map Expr.id).Nodup := by
  -- all ids of the program are different, and those of one function are among them
  obtain ⟨n, hn⟩ := q.renumber_ids
  rw [← hp] at hn
  have hsub := Program.expressions_sublist hf
  rw [hn] at hsub
  exact hsub.nodup List.nodup_range'

/-! ### Expressions inside roots -/

/-- The expressions inside a root. -/
def Root.expressions : Root → List Expr
  | .expression e => e.preorder
  | .declarator d => (d.init.map Expr.preorder).getD []

/-- The expressions inside the roots of a function, in the order of a walk. -/
def FunctionDeclaration.rootExpressions (f : FunctionDeclaration) : List Expr :=
  f.roots.flatMap Root.expressions

/-- The expressions inside the root of an optional expression are those that a walk over it
meets. -/
lemma Root.ofOption_expressions (e : Option Expr) :
    (Root.ofOption e).flatMap Root.expressions = Visit.expressions (Expr.visitsOption e) := by
  cases e with
  | none => rfl
  | some e => simp [Root.ofOption, Root.expressions, Expr.visitsOption]

/-- The expressions inside the roots of declarators are those of their initial values. -/
lemma Declarator.roots_expressions (ds : List Declarator) :
    (ds.map Root.declarator).flatMap Root.expressions
      = Visit.expressions (Declarator.visits ds) := by
  induction ds with
  | nil => rfl
  | cons d rest ih =>
      -- one declarator: its initial value, if it has one
      have hd : Root.expressions (.declarator d) =
          Visit.expressions (Expr.visitsOption d.init) := by
        cases h : d.init with
        | none => simp [Root.expressions, Expr.visitsOption, h, Visit.expressions]
        | some e => simp [Root.expressions, Expr.visitsOption, h]
      simp [Declarator.visits, ih, hd]

namespace Statement

mutual

/-- The expressions inside the roots of a statement come, in this order, among those that a
walk over it meets. An inner function has expressions and no roots. -/
theorem roots_sublist : ∀ s : Statement,
    (s.roots.flatMap Root.expressions).Sublist (Visit.expressions s.visits)
  | function _ _ _ _ => List.nil_sublist _
  | declare _ ds => by
      rw [roots, Declarator.roots_expressions]
      exact List.Sublist.refl _
  | expression e => by
      simp [roots, Root.expressions, visits]
  | ret argument => by
      rw [roots, Root.ofOption_expressions]
      exact List.Sublist.refl _
  | conditional test consequent alternate => by
      have h := (roots_sublist consequent).append (rootsOption_sublist alternate)
      simpa [roots, visits, Root.expressions] using h
  | whileLoop test body => by
      simpa [roots, visits, Root.expressions] using roots_sublist body
  | forLoop init test update body => by
      have h := (rootsOption_sublist init).append
        ((List.Sublist.refl (Visit.expressions (Expr.visitsOption test ++
          Expr.visitsOption update))).append (roots_sublist body))
      simpa [roots, visits, Root.ofOption_expressions] using h
  | block body => rootsList_sublist body
  | empty => List.nil_sublist _

/-- The same of an optional statement. -/
theorem rootsOption_sublist : ∀ s : Option Statement,
    ((rootsOption s).flatMap Root.expressions).Sublist (Visit.expressions (visitsOption s))
  | none => List.nil_sublist _
  | some s => roots_sublist s

/-- The same of statements one after another. -/
theorem rootsList_sublist : ∀ ss : List Statement,
    ((rootsList ss).flatMap Root.expressions).Sublist (Visit.expressions (visitsList ss))
  | [] => List.nil_sublist _
  | s :: rest => by
      rw [rootsList, visitsList, List.flatMap_append, Visit.expressions_append]
      exact (roots_sublist s).append (rootsList_sublist rest)

end

end Statement

/-- The expressions inside the roots of a function come in this order among all its
expressions. -/
theorem FunctionDeclaration.rootExpressions_sublist (f : FunctionDeclaration) :
    f.rootExpressions.Sublist f.expressions :=
  Statement.rootsList_sublist f.body

end ArrayScript
