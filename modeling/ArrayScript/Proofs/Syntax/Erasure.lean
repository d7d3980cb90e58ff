import ArrayScript.Syntax.Statement
import Mathlib.Tactic.Basic

/-!
Programs up to ids.

`erase` sets all ids to zero, which is how the grammar leaves them.

* `Program.renumber_erase`: renumbering does not look at the ids that are there.
* `Program.erase_renumber`: renumbering changes nothing but ids.
* `Program.renumber_renumber`: so it need not be done twice.
-/

namespace ArrayScript

/-! ### Expressions -/

namespace Expr

mutual

/-- The expression with all ids zero. -/
def erase : Expr → Expr
  | number _ x => number 0 x
  | boolean _ b => boolean 0 b
  | identifier _ name => identifier 0 name
  | array _ elements => array 0 (eraseAll elements)
  | unary _ op a => unary 0 op (erase a)
  | binary _ op a b => binary 0 op (erase a) (erase b)
  | logical _ op a b => logical 0 op (erase a) (erase b)
  | update _ op leading a => update 0 op leading (erase a)
  | assign _ op a b => assign 0 op (erase a) (erase b)
  | call _ f arguments => call 0 (erase f) (eraseAll arguments)
  | index _ a b => index 0 (erase a) (erase b)
  | property _ a name => property 0 (erase a) name

/-- The expressions of a list with all ids zero. -/
def eraseAll : List Expr → List Expr
  | [] => []
  | e :: rest => erase e :: eraseAll rest

end

/-- Expressions lose their ids one by one. -/
lemma eraseAll_eq_map (es : List Expr) : eraseAll es = es.map erase := by
  induction es with
  | nil => rfl
  | cons e rest ih => rw [eraseAll, ih, List.map_cons]

mutual

/-- The ids that an expression is given do not depend on those it had. -/
theorem renumber_erase : ∀ (e : Expr) (next : ExprId), e.erase.renumber next = e.renumber next
  | number _ _, _ | boolean _ _, _ | identifier _ _, _ => rfl
  | array _ elements, next => by
      simp only [erase, renumber, renumberList_erase elements]
  | unary _ _ a, next | update _ _ _ a, next | property _ a _, next => by
      simp only [erase, renumber, renumber_erase a]
  | binary _ _ a b, next | logical _ _ a b, next | assign _ _ a b, next | index _ a b, next => by
      simp only [erase, renumber, renumber_erase a, renumber_erase b]
  | call _ f arguments, next => by
      simp only [erase, renumber, renumber_erase f, renumberList_erase arguments]

/-- The same of expressions one after another. -/
theorem renumberList_erase : ∀ (es : List Expr) (next : ExprId),
    renumberList next (eraseAll es) = renumberList next es
  | [], _ => rfl
  | e :: rest, next => by
      simp only [eraseAll, renumberList, renumber_erase e, renumberList_erase rest]

end

mutual

/-- Giving ids changes nothing else. -/
theorem erase_renumber : ∀ (e : Expr) (next : ExprId), (e.renumber next).1.erase = e.erase
  | number _ _, _ | boolean _ _, _ | identifier _ _, _ => rfl
  | array _ elements, next => by
      simp only [erase, renumber, eraseAll_renumberList elements]
  | unary _ _ a, next | update _ _ _ a, next | property _ a _, next => by
      simp only [erase, renumber, erase_renumber a]
  | binary _ _ a b, next | logical _ _ a b, next | assign _ _ a b, next | index _ a b, next => by
      simp only [erase, renumber, erase_renumber a, erase_renumber b]
  | call _ f arguments, next => by
      simp only [erase, renumber, erase_renumber f, eraseAll_renumberList arguments]

/-- The same of expressions one after another. -/
theorem eraseAll_renumberList : ∀ (es : List Expr) (next : ExprId),
    eraseAll (renumberList next es).1 = eraseAll es
  | [], _ => rfl
  | e :: rest, next => by
      simp only [eraseAll, renumberList, erase_renumber e, eraseAll_renumberList rest]

end

/-- The ids that an optional expression is given do not depend on those it had. -/
lemma renumberOption_erase (e : Option Expr) (next : ExprId) :
    renumberOption next (e.map erase) = renumberOption next e := by
  cases e with
  | none => rfl
  | some e => simp only [Option.map_some, renumberOption, renumber_erase]

/-- Giving ids to an optional expression changes nothing else. -/
lemma map_erase_renumberOption (e : Option Expr) (next : ExprId) :
    (renumberOption next e).1.map erase = e.map erase := by
  cases e with
  | none => rfl
  | some e => simp only [Option.map_some, renumberOption, erase_renumber]

end Expr

/-! ### Statements -/

namespace Declarator

/-- The declarator with all ids zero. -/
def erase (d : Declarator) : Declarator :=
  { d with init := d.init.map Expr.erase }

/-- The ids that declarators are given do not depend on those they had. -/
lemma renumberList_erase (ds : List Declarator) (next : ExprId) :
    renumberList next (ds.map erase) = renumberList next ds := by
  induction ds generalizing next with
  | nil => rfl
  | cons d rest ih =>
      simp only [List.map_cons, renumberList, erase, Expr.renumberOption_erase, ih]

/-- Giving ids to declarators changes nothing else. -/
lemma map_erase_renumberList (ds : List Declarator) (next : ExprId) :
    (renumberList next ds).1.map erase = ds.map erase := by
  induction ds generalizing next with
  | nil => rfl
  | cons d rest ih =>
      simp only [List.map_cons, renumberList, erase, Expr.map_erase_renumberOption, ih]

end Declarator

namespace Statement

mutual

/-- The statement with all ids zero. -/
def erase : Statement → Statement
  | function name params returnType body => function name params returnType (eraseAll body)
  | declare kind ds => declare kind (ds.map Declarator.erase)
  | expression e => expression e.erase
  | ret argument => ret (argument.map Expr.erase)
  | conditional test consequent alternate =>
    conditional test.erase (erase consequent) (eraseOption alternate)
  | whileLoop test body => whileLoop test.erase (erase body)
  | forLoop init test update body =>
    forLoop (eraseOption init) (test.map Expr.erase) (update.map Expr.erase) (erase body)
  | block body => block (eraseAll body)
  | empty => empty

/-- An optional statement with all ids zero. -/
def eraseOption : Option Statement → Option Statement
  | none => none
  | some s => some (erase s)

/-- The statements of a list with all ids zero. -/
def eraseAll : List Statement → List Statement
  | [] => []
  | s :: rest => erase s :: eraseAll rest

end

mutual

/-- The ids that a statement is given do not depend on those it had. -/
theorem renumber_erase : ∀ (s : Statement) (next : ExprId), s.erase.renumber next = s.renumber next
  | function _ _ _ body, next | block body, next => by
      simp only [erase, renumber, renumberList_erase body]
  | declare _ ds, next => by
      simp only [erase, renumber, Declarator.renumberList_erase]
  | expression e, next => by
      simp only [erase, renumber, Expr.renumber_erase]
  | ret argument, next => by
      simp only [erase, renumber, Expr.renumberOption_erase]
  | conditional test consequent alternate, next => by
      simp only [erase, renumber, Expr.renumber_erase, renumber_erase consequent,
        renumberOption_erase alternate]
  | whileLoop test body, next => by
      simp only [erase, renumber, Expr.renumber_erase, renumber_erase body]
  | forLoop init test update body, next => by
      simp only [erase, renumber, renumberOption_erase init, Expr.renumberOption_erase,
        renumber_erase body]
  | empty, _ => rfl

/-- The same of an optional statement. -/
theorem renumberOption_erase : ∀ (s : Option Statement) (next : ExprId),
    renumberOption next (eraseOption s) = renumberOption next s
  | none, _ => rfl
  | some s, next => by
      simp only [eraseOption, renumberOption, renumber_erase s]

/-- The same of statements one after another. -/
theorem renumberList_erase : ∀ (ss : List Statement) (next : ExprId),
    renumberList next (eraseAll ss) = renumberList next ss
  | [], _ => rfl
  | s :: rest, next => by
      simp only [eraseAll, renumberList, renumber_erase s, renumberList_erase rest]

end

mutual

/-- Giving ids to a statement changes nothing else. -/
theorem erase_renumber : ∀ (s : Statement) (next : ExprId), (s.renumber next).1.erase = s.erase
  | function _ _ _ body, next | block body, next => by
      simp only [erase, renumber, eraseAll_renumberList body]
  | declare _ ds, next => by
      simp only [erase, renumber, Declarator.map_erase_renumberList]
  | expression e, next => by
      simp only [erase, renumber, Expr.erase_renumber]
  | ret argument, next => by
      simp only [erase, renumber, Expr.map_erase_renumberOption]
  | conditional test consequent alternate, next => by
      simp only [erase, renumber, Expr.erase_renumber, erase_renumber consequent,
        eraseOption_renumberOption alternate]
  | whileLoop test body, next => by
      simp only [erase, renumber, Expr.erase_renumber, erase_renumber body]
  | forLoop init test update body, next => by
      simp only [erase, renumber, eraseOption_renumberOption init, Expr.map_erase_renumberOption,
        erase_renumber body]
  | empty, _ => rfl

/-- The same of an optional statement. -/
theorem eraseOption_renumberOption : ∀ (s : Option Statement) (next : ExprId),
    eraseOption (renumberOption next s).1 = eraseOption s
  | none, _ => rfl
  | some s, next => by
      simp only [eraseOption, renumberOption, erase_renumber s]

/-- The same of statements one after another. -/
theorem eraseAll_renumberList : ∀ (ss : List Statement) (next : ExprId),
    eraseAll (renumberList next ss).1 = eraseAll ss
  | [], _ => rfl
  | s :: rest, next => by
      simp only [eraseAll, renumberList, erase_renumber s, eraseAll_renumberList rest]

end

end Statement

/-! ### Programs -/

namespace Program

/-- The program with all ids zero. -/
def erase (p : Program) : Program :=
  ⟨Statement.eraseAll p.body⟩

/-- Renumbering does not look at the ids that are there. -/
theorem renumber_erase (p : Program) : p.erase.renumber = p.renumber := by
  rw [renumber, erase, Statement.renumberList_erase, renumber]

/-- Renumbering changes nothing but ids. -/
theorem erase_renumber (p : Program) : p.renumber.erase = p.erase := by
  rw [renumber, erase, Statement.eraseAll_renumberList, erase]

/-- A program that was renumbered need not be renumbered again. -/
theorem renumber_renumber (p : Program) : p.renumber.renumber = p.renumber := by
  rw [← renumber_erase p.renumber, erase_renumber, renumber_erase]

end Program

end ArrayScript
