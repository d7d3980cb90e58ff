import ArrayScript.Proofs.Syntax.Ids

/-!
The walk of a function that leaves inner functions out.

`ownVisits` lists what `visits` lists, but does not go into functions inside the
function. `filterMap_ownVisits` says that apart from the statements themselves these are
the stops inside the roots, in the same order. So what is said of the roots of a function
can be said of its walk: `mem_ownVisits_declarator` for the declarators,
`expressions_ownVisits` for the expressions.
-/

namespace ArrayScript

lemma Expr.eq_of_identifier? {e : Expr} {name : String} (h : e.identifier? = some name) :
    ∃ i, e = .identifier i name := by
  cases e <;> simp_all [identifier?]

namespace Statement

mutual

/-- The stops of a walk through a statement that does not go into inner functions. -/
def ownVisits : Statement → List Visit
  | s@(function _ _ _ _) => [.statement s]
  | s@(declare _ declarators) => .statement s :: Declarator.visits declarators
  | s@(expression e) => .statement s :: e.preorder.map .expression
  | s@(ret argument) => .statement s :: Expr.visitsOption argument
  | s@(conditional test consequent alternate) =>
    .statement s :: (test.preorder.map .expression ++ ownVisits consequent ++
      ownVisitsOption alternate)
  | s@(whileLoop test body) =>
    .statement s :: (test.preorder.map .expression ++ ownVisits body)
  | s@(forLoop init test update body) =>
    .statement s :: (ownVisitsOption init ++ Expr.visitsOption test ++
      Expr.visitsOption update ++ ownVisits body)
  | s@(block body) => .statement s :: ownVisitsList body
  | s@empty => [.statement s]

/-- The stops in an optional statement, without those in inner functions. -/
def ownVisitsOption : Option Statement → List Visit
  | none => []
  | some s => ownVisits s

/-- The stops in statements in order, without those in inner functions. -/
def ownVisitsList : List Statement → List Visit
  | [] => []
  | s :: rest => ownVisits s ++ ownVisitsList rest

end

end Statement

/-- The stops of a walk through the body of a function, inner functions left out. -/
def FunctionDeclaration.ownVisits (f : FunctionDeclaration) : List Visit :=
  Statement.ownVisitsList f.body

/-- The stops of a walk inside a root. -/
def Root.visits : Root → List Visit
  | .expression e => e.preorder.map .expression
  | .declarator d => .declarator d :: Expr.visitsOption d.init

/-! ### Walks and roots -/

lemma Root.flatMap_visits_ofOption (e : Option Expr) :
    (Root.ofOption e).flatMap Root.visits = Expr.visitsOption e := by
  cases e with
  | none => rfl
  | some e => simp [Root.ofOption, Root.visits, Expr.visitsOption]

/-- The stops inside declarators are those inside the roots they are. -/
lemma Declarator.flatMap_visits (ds : List Declarator) :
    (ds.map Root.declarator).flatMap Root.visits = Declarator.visits ds := by
  induction ds with
  | nil => rfl
  | cons d rest ih => simp [Declarator.visits, Root.visits, ih]

section

variable {α : Type} {g : Visit → Option α}

namespace Statement

mutual

/-- What is read at the stops of a walk, and not at the statements themselves, is read
inside the roots. -/
theorem filterMap_ownVisits (hg : ∀ s, g (.statement s) = none) : ∀ s : Statement,
    s.ownVisits.filterMap g = (s.roots.flatMap Root.visits).filterMap g
  | function _ _ _ _ => by simp [ownVisits, roots, hg]
  | declare _ ds => by simp [ownVisits, roots, hg, Declarator.flatMap_visits]
  | expression e => by simp [ownVisits, roots, Root.visits, hg]
  | ret argument => by simp [ownVisits, roots, hg, Root.flatMap_visits_ofOption]
  | conditional test consequent alternate => by
      simp [ownVisits, roots, Root.visits, hg, filterMap_ownVisits hg consequent,
        filterMap_ownVisitsOption hg alternate]
  | whileLoop test body => by
      simp [ownVisits, roots, Root.visits, hg, filterMap_ownVisits hg body]
  | forLoop init test update body => by
      simp [ownVisits, roots, hg, Root.flatMap_visits_ofOption, filterMap_ownVisits hg body,
        filterMap_ownVisitsOption hg init]
  | block body => by simp [ownVisits, roots, hg, filterMap_ownVisitsList hg body]
  | empty => by simp [ownVisits, roots, hg]

theorem filterMap_ownVisitsOption (hg : ∀ s, g (.statement s) = none) : ∀ s : Option Statement,
    (ownVisitsOption s).filterMap g = ((rootsOption s).flatMap Root.visits).filterMap g
  | none => rfl
  | some s => filterMap_ownVisits hg s

theorem filterMap_ownVisitsList (hg : ∀ s, g (.statement s) = none) : ∀ ss : List Statement,
    (ownVisitsList ss).filterMap g = ((rootsList ss).flatMap Root.visits).filterMap g
  | [] => rfl
  | s :: rest => by
      rw [ownVisitsList, rootsList, List.filterMap_append, List.flatMap_append,
        List.filterMap_append, filterMap_ownVisits hg s, filterMap_ownVisitsList hg rest]

end

end Statement

/-- What is read on the walk of a function is read inside its roots, in order. -/
lemma FunctionDeclaration.filterMap_ownVisits (hg : ∀ s, g (.statement s) = none)
    (f : FunctionDeclaration) :
    f.ownVisits.filterMap g = (f.roots.flatMap Root.visits).filterMap g :=
  Statement.filterMap_ownVisitsList hg f.body

end

/-! ### What is met on the walk -/

/-- The declarator met at a stop. -/
def Visit.declarator? : Visit → Option Declarator
  | declarator d => some d
  | _ => none

lemma Visit.mem_filterMap_declarator {l : List Visit} {d : Declarator} :
    d ∈ l.filterMap declarator? ↔ .declarator d ∈ l := by
  rw [List.mem_filterMap]
  refine ⟨fun ⟨v, hv, hd⟩ => ?_, fun h => ⟨_, h, rfl⟩⟩
  cases v with
  | declarator d' => exact (Option.some.inj hd) ▸ hv
  | _ => cases hd

/-- The only declarator met inside a root is the root. -/
lemma Root.declarator_mem_visits {r : Root} {d : Declarator} :
    .declarator d ∈ r.visits ↔ r = .declarator d := by
  cases r with
  | expression e => simp [visits]
  | declarator d' =>
      have hinit : Visit.declarator d ∉ Expr.visitsOption d'.init := by
        cases d'.init <;> simp [Expr.visitsOption]
      simp [visits, hinit, eq_comm]

/-- The declarators met on the walk are those among the roots. -/
lemma FunctionDeclaration.mem_ownVisits_declarator (f : FunctionDeclaration) (d : Declarator) :
    .declarator d ∈ f.ownVisits ↔ .declarator d ∈ f.roots := by
  rw [← Visit.mem_filterMap_declarator, f.filterMap_ownVisits (fun _ => rfl),
    Visit.mem_filterMap_declarator, List.mem_flatMap]
  simp only [Root.declarator_mem_visits, exists_eq_right]

/-- The expressions met inside a root. -/
lemma Root.expressions_visits (r : Root) : Visit.expressions r.visits = r.expressions := by
  cases r with
  | expression e => simp [visits, expressions]
  | declarator d =>
      rw [visits, Visit.expressions_declarator, expressions]
      cases d.init with
      | none => rfl
      | some e => exact Visit.expressions_map e.preorder

/-- The expressions met on the walk are those inside the roots. -/
lemma FunctionDeclaration.expressions_ownVisits (f : FunctionDeclaration) :
    Visit.expressions f.ownVisits = f.rootExpressions := by
  rw [Visit.expressions, f.filterMap_ownVisits (fun _ => rfl), List.filterMap_flatMap]
  exact List.flatMap_congr fun r _ => r.expressions_visits

end ArrayScript
