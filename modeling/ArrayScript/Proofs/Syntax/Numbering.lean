import ArrayScript.Loading
import ArrayScript.Parser.Statement
import ArrayScript.Proofs.Syntax.Erasure
import ArrayScript.Proofs.Syntax.Ids

/-!
Numbering a program and walking through it.

Ids are given out by one recursion and expressions are met by another. `size` counts the
expressions of a program by a third one, which knows no order.

* `Statement.renumber_next`: as many ids are given out to a statement as it has
  expressions.
* `Program.renumber_walked`: so a walk of a renumbered program meets the ids
  `0, 1, …, size - 1` in this order, whatever ids there were before.
-/

namespace ArrayScript

/-! ### The number of expressions -/

namespace Expr

mutual

/-- How many expressions there are in an expression, itself included. -/
def size : Expr → Nat
  | number _ _ | boolean _ _ | identifier _ _ => 1
  | array _ elements => sizeAll elements + 1
  | unary _ _ a | update _ _ _ a | property _ a _ => size a + 1
  | binary _ _ a b | logical _ _ a b | assign _ _ a b | index _ a b => size a + size b + 1
  | call _ f arguments => size f + sizeAll arguments + 1

/-- How many expressions there are in the expressions of a list. -/
def sizeAll : List Expr → Nat
  | [] => 0
  | e :: rest => size e + sizeAll rest

end

/-- How many expressions there are in an optional expression. -/
def sizeOption (e : Option Expr) : Nat :=
  (e.map size).getD 0

mutual

/-- As many ids are given out as there are expressions. -/
theorem renumber_next : ∀ (e : Expr) (next : ExprId), (e.renumber next).2 = next + e.size
  | number _ _, _ | boolean _ _, _ | identifier _ _, _ => rfl
  | array _ elements, next => by
      simp only [renumber, size, renumberList_next elements]
      ac_rfl
  | unary _ _ a, next | update _ _ _ a, next | property _ a _, next => by
      simp only [renumber, size, renumber_next a]
      ac_rfl
  | binary _ _ a b, next | logical _ _ a b, next | assign _ _ a b, next | index _ a b, next => by
      simp only [renumber, size, renumber_next a, renumber_next b]
      ac_rfl
  | call _ f arguments, next => by
      simp only [renumber, size, renumber_next f, renumberList_next arguments]
      ac_rfl

theorem renumberList_next : ∀ (es : List Expr) (next : ExprId),
    (renumberList next es).2 = next + sizeAll es
  | [], _ => rfl
  | e :: rest, next => by
      simp only [renumberList, sizeAll, renumber_next e, renumberList_next rest]
      ac_rfl

end

lemma renumberOption_next (e : Option Expr) (next : ExprId) :
    (renumberOption next e).2 = next + sizeOption e := by
  cases e with
  | none => rfl
  | some e => exact e.renumber_next next

end Expr

namespace Declarator

/-- How many expressions there are in the initial values of declarators. -/
def sizeAll (ds : List Declarator) : Nat :=
  (ds.map fun d => Expr.sizeOption d.init).sum

lemma renumberList_next (ds : List Declarator) (next : ExprId) :
    (renumberList next ds).2 = next + sizeAll ds := by
  induction ds generalizing next with
  | nil => rfl
  | cons d rest ih =>
      simp only [renumberList, sizeAll, List.map_cons, List.sum_cons, Expr.renumberOption_next, ih]
      ac_rfl

end Declarator

namespace Statement

mutual

/-- How many expressions there are in a statement, inner functions included. -/
def size : Statement → Nat
  | function _ _ _ body | block body => sizeAll body
  | declare _ ds => Declarator.sizeAll ds
  | expression e => e.size
  | ret argument => Expr.sizeOption argument
  | conditional test consequent alternate => test.size + size consequent + sizeOption alternate
  | whileLoop test body => test.size + size body
  | forLoop init test update body =>
    sizeOption init + Expr.sizeOption test + Expr.sizeOption update + size body
  | empty => 0

/-- How many expressions there are in an optional statement. -/
def sizeOption : Option Statement → Nat
  | none => 0
  | some s => size s

/-- How many expressions there are in the statements of a list. -/
def sizeAll : List Statement → Nat
  | [] => 0
  | s :: rest => size s + sizeAll rest

end

mutual

/-- As many ids are given out as there are expressions. -/
theorem renumber_next : ∀ (s : Statement) (next : ExprId), (s.renumber next).2 = next + s.size
  | function _ _ _ body, next | block body, next => by
      simp only [renumber, size, renumberList_next body]
  | declare _ ds, next => by
      simp only [renumber, size, Declarator.renumberList_next]
  | expression e, next => by
      simp only [renumber, size, Expr.renumber_next]
  | ret argument, next => by
      simp only [renumber, size, Expr.renumberOption_next]
  | conditional test consequent alternate, next => by
      simp only [renumber, size, Expr.renumber_next, renumber_next consequent,
        renumberOption_next alternate]
      ac_rfl
  | whileLoop test body, next => by
      simp only [renumber, size, Expr.renumber_next, renumber_next body]
      ac_rfl
  | forLoop init test update body, next => by
      simp only [renumber, size, renumberOption_next init, Expr.renumberOption_next,
        renumber_next body]
      ac_rfl
  | empty, _ => rfl

theorem renumberOption_next : ∀ (s : Option Statement) (next : ExprId),
    (renumberOption next s).2 = next + sizeOption s
  | none, _ => rfl
  | some s, next => by
      simp only [renumberOption, sizeOption, renumber_next s]

theorem renumberList_next : ∀ (ss : List Statement) (next : ExprId),
    (renumberList next ss).2 = next + sizeAll ss
  | [], _ => rfl
  | s :: rest, next => by
      simp only [renumberList, sizeAll, renumber_next s, renumberList_next rest]
      ac_rfl

end

end Statement

/-! ### Programs -/

namespace Program

/-- How many expressions there are in a program. -/
def size (p : Program) : Nat :=
  Statement.sizeAll p.body

/-- The ids of a renumbered program count its expressions in the order of a walk. -/
lemma ids_renumber (p : Program) : Visit.ids p.renumber.visits = List.range p.size := by
  obtain ⟨_, hids⟩ := Statement.renumberList_ids p.body 0
  rw [Statement.renumberList_next, Nat.zero_add, Nat.sub_zero, ← List.range_eq_range'] at hids
  exact hids

/-- Programs that differ in their ids alone are numbered alike. -/
lemma renumber_congr {p q : Program} (h : p.erase = q.erase) : p.renumber = q.renumber := by
  rw [← p.renumber_erase, h, q.renumber_erase]

/-- What was parsed or loaded has been renumbered. -/
lemma exists_eq_renumber {p : Program}
    (h : (∃ source, parse source = .ok p) ∨ ∃ text, loadProgram text = .ok p) :
    ∃ q : Program, p = q.renumber := by
  rcases h with ⟨source, h⟩ | ⟨text, h⟩
  · obtain ⟨ts, _, h⟩ := bind_eq_ok.mp h
    obtain ⟨body, _, h⟩ := bind_eq_ok.mp h
    exact ⟨⟨body⟩, (pure_eq_ok.mp h).symm⟩
  · obtain ⟨q, _, h⟩ := bind_eq_ok.mp h
    exact ⟨q, (pure_eq_ok.mp h).symm⟩

/-- Renumbering and walking agree. On a walk of a renumbered program every expression is met
once, and the ids met are `0, 1, 2, …` in this order; nothing but ids has changed, numbering
again changes nothing, and programs that differ in ids alone come out the same. So the
expressions of a program that was parsed or loaded have different ids. -/
theorem renumber_walked :
    (∀ p : Program,
      Visit.ids p.renumber.visits = List.range p.size ∧
      p.renumber.erase = p.erase ∧
      p.renumber.renumber = p.renumber) ∧
    (∀ p q : Program, p.erase = q.erase → p.renumber = q.renumber) ∧
    ∀ p : Program, ((∃ source, parse source = .ok p) ∨ ∃ text, loadProgram text = .ok p) →
      (Visit.ids p.visits).Nodup := by
  refine ⟨fun p => ⟨p.ids_renumber, p.erase_renumber, p.renumber_renumber⟩,
    fun p q h => renumber_congr h, fun p h => ?_⟩
  obtain ⟨q, rfl⟩ := exists_eq_renumber h
  rw [q.ids_renumber]
  exact List.nodup_range

/-- The source of a statement that stores an element. -/
def elementStore : String := "a[0] = b;"

/-- The program of that source with the given ids. -/
def storingElement (ids : Nat → ExprId) : Program :=
  ⟨[.expression (.assign (ids 0) .assign
    (.index (ids 1) (.identifier (ids 2) "a") (.number (ids 3) Double.zero))
    (.identifier (ids 4) "b"))]⟩

theorem storingElement_numbered :
    parse elementStore = .ok (storingElement id) ∧
    (Visit.ids (storingElement id).visits).Nodup ∧
    (storingElement fun _ => 7).erase = (storingElement fun n => 10 - n).erase ∧
    (storingElement fun _ => 7).renumber = (storingElement fun n => 10 - n).renumber := by
  have htokens : tokenize elementStore = .ok
      [⟨.identifier "a", ⟨1, 1⟩⟩, ⟨.leftBracket, ⟨1, 2⟩⟩, ⟨.number Double.zero, ⟨1, 3⟩⟩,
       ⟨.rightBracket, ⟨1, 4⟩⟩, ⟨.assign, ⟨1, 6⟩⟩, ⟨.identifier "b", ⟨1, 8⟩⟩,
       ⟨.semicolon, ⟨1, 9⟩⟩, ⟨.eof, ⟨1, 10⟩⟩] := by decide +kernel
  have hparse : parse elementStore = .ok (storingElement id) := by
    rw [parse, htokens]
    cbv
  exact ⟨hparse, renumber_walked.2.2 _ (.inl ⟨_, hparse⟩), rfl, renumber_walked.2.1 _ _ rfl⟩

end Program

end ArrayScript
