import ArrayScript.Proofs.Lowering.Operations
import ArrayScript.Proofs.Lowering.Plan

/-!
Scratch variables never clash.

A value waits in a scratch variable while other code is run: the left operand of a logical
operator for the right one, the address of an element for the element's new value.

* `KeepsValue`: the code of such an expression, around the operation that writes the
  variable. No code in between writes it again, or it is read again at once.
* `WritesFor`: the writes of scratch variables in a listing are, one by one, those of the
  expressions that use one.
* `WritesFor.unwritten`: code that is built while a scratch variable is held does not write it.
* `Builds.writesFor` … `BuildsStatements.writesFor`: by induction over what is built, its writes
  belong to its expressions.
* `scratch_separate`: the scratch variables of a function, at every moment at which it is
  lowered and in its code.
-/

namespace ArrayScript

/-! ### Writes -/

/-- The variable that an operation writes. -/
def Op.written? : Op → Option Nat
  | localSet slot | localTee slot => some slot
  | _ => none

/-- Whether a mark writes a variable other than the first `n`. -/
def Mark.writesPast (n : Nat) : Mark → Bool
  | op o => o.written?.any (n ≤ ·)
  | _ => false

/-- Whether a value of the expression waits in a scratch variable: the left operand of a
logical operator, or the address of an element that is changed. -/
def Expr.usesScratch : Expr → Bool
  | logical _ _ _ _ => true
  | assign _ op (index _ _ _) _ => op.binaryOp?.isSome
  | update _ _ _ (index _ _ _) => true
  | _ => false

namespace Lowering

open Code Instr

/-! ### Values that wait -/

/-- The code of an expression that keeps a value in a scratch variable: what computes the
value, the operation that writes it, and all that comes afterwards. -/
inductive KeepsValue (cx : LoweringContext) (size : Nat) (held : List Nat) :
    Expr → Code → Op → Code → Prop
  /-- the left operand waits while the right one is computed, which does not write it -/
  | logical {id op a b x y slot} (left : Builds cx size held a x)
      (scratch : IsScratch cx size held slot) (right : Builds cx size (slot :: held) b y)
      (unwritten : (logicalChoices op y).Every fun o => o.written? ≠ some slot) :
      KeepsValue cx size held (.logical id op a b) x.truth (.localSet slot)
        (logicalChoices op y ++ plain [.localGet slot, .select])
  /-- the address is read again at once -/
  | combined {id op o i object position value x y z slot rest} (compound : op.binaryOp? = some o)
      (array : Builds cx size held object x) (at' : Builds cx size held position y)
      (scratch : IsScratch cx size held slot) (right : Builds cx size (slot :: held) value z)
      (inside : z.code <:+: rest) :
      KeepsValue cx size held (.assign id op (.index i object position) value)
        (address x y).code (.localTee slot)
        (plain [.localGet slot, .load (address x y).type.wordType] ++ rest ++
          plain [.store (address x y).type.wordType])
  /-- the address is read again at once -/
  | stepped {id op leading i object position x y slot step}
      (array : Builds cx size held object x) (at' : Builds cx size held position y)
      (scratch : IsScratch cx size held slot)
      (chosen : arithmetic op.binaryOp (address x y).type.isFloat = .ok step) :
      KeepsValue cx size held (.update id op leading (.index i object position))
        (address x y).code (.localTee slot)
        (plain [.localGet slot, .load (address x y).type.wordType, one (address x y).type, step,
          .store (address x y).type.wordType])

/-- At a position of a listing stands the write of an expression that keeps a value, with the
rest of its code around it. -/
def KeptAt (cx : LoweringContext) (size : Nat) (held : List Nat) (l : List Mark) (k : Nat)
    (e : Expr) : Prop :=
  ∃ held' c o d before after, held ⊆ held' ∧ KeepsValue cx size held' e c o d ∧
    l = before ++ (listingList c ++ .op o :: listingList d) ++ after ∧
    k = before.length + (listingList c).length

/-- The writes of scratch variables in a listing are, one by one, those of the expressions
that use one. -/
def WritesFor (cx : LoweringContext) (size : Nat) (held : List Nat) (es : List Expr)
    (l : List Mark) : Prop :=
  ∃ users : List Expr, users.Perm (es.filter Expr.usesScratch) ∧
    List.Forall₂ (KeptAt cx size held l) (l.findIdxs (Mark.writesPast cx.names.length)) users

variable {cx : LoweringContext} {size : Nat} {held : List Nat} {e : Expr} {es es' : List Expr}
  {l l' : List Mark} {a b g : Code}

/-- An expression whose value is kept uses a scratch slot. -/
lemma KeepsValue.usesScratch {c d : Code} {o : Op} (h : KeepsValue cx size held e c o d) :
    e.usesScratch = true := by
  cases h with
  | logical => rfl
  | combined compound => simp [Expr.usesScratch, compound]
  | stepped => rfl

/-- The value is kept in a scratch slot that is not held. -/
lemma KeepsValue.isScratch {c d : Code} {o : Op} (h : KeepsValue cx size held e c o d) :
    ∃ slot, o.written? = some slot ∧ IsScratch cx size held slot := by
  cases h with
  | logical _ scratch => exact ⟨_, rfl, scratch⟩
  | combined _ _ _ scratch => exact ⟨_, rfl, scratch⟩
  | stepped _ _ scratch => exact ⟨_, rfl, scratch⟩

namespace KeptAt

variable {k : Nat}

/-- What stands behind does not matter. -/
lemma append_right (h : KeptAt cx size held l k e) : KeptAt cx size held (l ++ l') k e := by
  obtain ⟨held', c, o, d, before, after, hheld, hkeeps, rfl, rfl⟩ := h
  exact ⟨held', c, o, d, before, after ++ l', hheld, hkeeps, by simp, rfl⟩

/-- What stands before moves the position. -/
lemma append_left (l' : List Mark) (h : KeptAt cx size held l k e) :
    KeptAt cx size held (l' ++ l) (k + l'.length) e := by
  obtain ⟨held', c, o, d, before, after, hheld, hkeeps, rfl, rfl⟩ := h
  refine ⟨held', c, o, d, l' ++ before, after, hheld, hkeeps, by simp, ?_⟩
  rw [List.length_append]
  omega

/-- What is outside more held slots is outside fewer. -/
lemma mono {held' : List Nat} (hsub : held ⊆ held') (h : KeptAt cx size held' l k e) :
    KeptAt cx size held l k e := by
  obtain ⟨held'', c, o, d, before, after, hheld, hrest⟩ := h
  exact ⟨held'', c, o, d, before, after, fun _ hk => hheld (hsub hk), hrest⟩

/-- What is written there is a scratch variable. -/
lemma isScratch (h : KeptAt cx size held l k e) :
    ∃ o slot, l[k]? = some (.op o) ∧ o.written? = some slot ∧ IsScratch cx size held slot := by
  obtain ⟨held', c, o, d, before, after, hheld, hkeeps, rfl, rfl⟩ := h
  obtain ⟨slot, hslot, hscratch⟩ := hkeeps.isScratch
  refine ⟨o, slot, ?_, hslot, hscratch.le, hscratch.lt, fun hmem => hscratch.free (hheld hmem)⟩
  simp

end KeptAt

/-! ### Putting code together -/

/-- Code that writes no scratch variable. -/
def Quiet (cx : LoweringContext) (code : Code) : Prop :=
  code.Every fun o => ∀ slot, o.written? = some slot → slot < cx.names.length

/-- An operation on the stack writes no slot. -/
lemma OnStack.written?_eq {o : Op} (h : OnStack o) : o.written? = none := by
  cases h <;> rfl

lemma Quiet.of_onStack (h : g.Every OnStack) : Quiet cx g :=
  h.mono fun o ho slot hslot => by
    rw [ho.written?_eq] at hslot
    cases hslot

lemma quiet_plain {ops : List Op} : Quiet cx (plain ops) ↔
    ∀ o ∈ ops, ∀ slot, o.written? = some slot → slot < cx.names.length :=
  every_plain

namespace WritesFor

/-- The order of the expressions does not matter. -/
lemma of_perm (h : WritesFor cx size held es l)
    (hp : (es.filter Expr.usesScratch).Perm (es'.filter Expr.usesScratch)) :
    WritesFor cx size held es' l := by
  obtain ⟨users, husers, hkept⟩ := h
  exact ⟨users, husers.trans hp, hkept⟩

/-- An expression that uses no scratch variable itself. -/
lemma cons (h : WritesFor cx size held es l) (he : e.usesScratch = false) :
    WritesFor cx size held (e :: es) l :=
  h.of_perm (by rw [List.filter_cons_of_neg (by simp [he])])

/-- An expression that uses no scratch slot may be added. -/
lemma cons_cons (h : WritesFor cx size held (e :: es) l) (e' : Expr)
    (he' : e'.usesScratch = false) : WritesFor cx size held (e :: e' :: es) l :=
  h.of_perm (by rw [List.filter_cons, List.filter_cons, List.filter_cons_of_neg (by simp [he'])])

lemma mono {held' : List Nat} (hsub : held ⊆ held') (h : WritesFor cx size held' es l) :
    WritesFor cx size held es l := by
  obtain ⟨users, husers, hkept⟩ := h
  exact ⟨users, husers, hkept.imp fun _ _ hk => hk.mono hsub⟩

/-- Code that writes no scratch slot has no value to keep. -/
lemma silent (h : ∀ m ∈ l, m.writesPast cx.names.length = false) :
    WritesFor cx size held [] l := by
  refine ⟨[], .nil, ?_⟩
  rw [List.findIdxs_eq_nil_iff.mpr h]
  exact .nil

/-- Two pieces of code: each write is one of the first or one of the second, moved. -/
lemma append (h : WritesFor cx size held es l) (h' : WritesFor cx size held es' l') :
    WritesFor cx size held (es ++ es') (l ++ l') := by
  obtain ⟨users, husers, hkept⟩ := h
  obtain ⟨users', husers', hkept'⟩ := h'
  refine ⟨users ++ users', by rw [List.filter_append]; exact husers.append husers', ?_⟩
  rw [List.findIdxs_append, Nat.zero_add, List.findIdxs_start (s := l.length)]
  refine List.rel_append (hkept.imp fun _ _ hk => hk.append_right) ?_
  rw [List.forall₂_map_left_iff]
  exact hkept'.imp fun _ _ hk => hk.append_left l

/-- The code of an expression that keeps a value. -/
lemma keeps {c d : Code} {o : Op} (hkeeps : KeepsValue cx size held e c o d)
    (h : WritesFor cx size held es (listingList c))
    (h' : WritesFor cx size held es' (listingList d)) :
    WritesFor cx size held (e :: (es ++ es')) (listingList (c ++ .plain o :: d)) := by
  have hlisting : listingList (c ++ .plain o :: d) =
      listingList c ++ .op o :: listingList d := by
    rw [listingList_append, listingList, Instr.listing, List.singleton_append]
  obtain ⟨users, husers, hkept⟩ := h
  obtain ⟨users', husers', hkept'⟩ := h'
  obtain ⟨slot, hslot, hscratch⟩ := hkeeps.isScratch
  have hwrites : (Mark.op o).writesPast cx.names.length = true := by
    simp [Mark.writesPast, hslot, hscratch.le]
  refine ⟨users ++ e :: users', ?_, ?_⟩
  · rw [List.filter_cons_of_pos hkeeps.usesScratch, List.filter_append]
    exact List.perm_middle.trans ((husers.append husers').cons e)
  · rw [hlisting, List.findIdxs_append, List.findIdxs_cons, if_pos hwrites, Nat.zero_add,
      List.findIdxs_start (s := (listingList c).length + 1)]
    refine List.rel_append (hkept.imp fun _ _ hk => hk.append_right) (.cons ?_ ?_)
    · exact ⟨held, c, o, d, [], [], List.Subset.refl _, hkeeps, by simp, by simp⟩
    · rw [List.forall₂_map_left_iff]
      refine hkept'.imp fun k e' hk => ?_
      have hmoved := hk.append_left (listingList c ++ [.op o])
      rwa [List.append_assoc, List.length_append] at hmoved

/-- While a scratch variable is held it is not written. -/
lemma unwritten {slot : Nat} (h : WritesFor cx size (slot :: held) es (listingList a))
    (hscratch : IsScratch cx size held slot) : a.Every fun o => o.written? ≠ some slot := by
  obtain ⟨users, _, hkept⟩ := h
  intro o ho hslot
  obtain ⟨k, hk, hmark⟩ := List.mem_iff_getElem.mp ho
  have hwrites : (Mark.op o).writesPast cx.names.length = true := by
    simp [Mark.writesPast, hslot, hscratch.le]
  have hmem : k ∈ (listingList a).findIdxs (Mark.writesPast cx.names.length) :=
    List.mem_findIdxs_iff_exists_getElem_pos.mpr ⟨hk, by rw [hmark, hwrites]⟩
  obtain ⟨e, _, hkeptAt⟩ := exists_mem_of_forall₂ hkept hmem
  obtain ⟨o', slot', hget, hslot', hfree⟩ := hkeptAt.isScratch
  rw [List.getElem?_eq_getElem hk, hmark] at hget
  cases hget
  cases hslot.symm.trans hslot'
  exact hfree.free List.mem_cons_self

/-- The same of code. -/
lemma code_append (ha : WritesFor cx size held es (listingList a))
    (hb : WritesFor cx size held es' (listingList b)) :
    WritesFor cx size held (es ++ es') (listingList (a ++ b)) := by
  rw [listingList_append]
  exact ha.append hb

/-- Code that writes no scratch slot has no value to keep. -/
lemma quiet (h : Quiet cx g) : WritesFor cx size held [] (listingList g) := by
  refine silent fun m hm => ?_
  cases m with
  | op o =>
      cases hslot : o.written? with
      | none => simp [Mark.writesPast, hslot]
      | some slot => simpa [Mark.writesPast, hslot] using h o hm slot hslot
  | _ => rfl

/-- Such code may stand behind. -/
lemma behind (ha : WritesFor cx size held es (listingList a)) (hg : Quiet cx g) :
    WritesFor cx size held es (listingList (a ++ g)) :=
  List.append_nil es ▸ ha.code_append (quiet hg)

/-- Or before. -/
lemma before (hg : Quiet cx g) (ha : WritesFor cx size held es (listingList a)) :
    WritesFor cx size held es (listingList (g ++ a)) :=
  (quiet hg).code_append ha

/-- Code inside a block. -/
lemma enclosed (h : WritesFor cx size held es l) (m m' : Mark)
    (hm : m.writesPast cx.names.length = false) (hm' : m'.writesPast cx.names.length = false) :
    WritesFor cx size held es (m :: (l ++ [m'])) := by
  have hfirst : WritesFor cx size held [] [m] := silent (by simp [hm])
  have hlast : WritesFor cx size held [] [m'] := silent (by simp [hm'])
  simpa using hfirst.append (h.append hlast)

/-- The writes of an `if` are those of its branches. -/
lemma choice {other : Option Code} (h : WritesFor cx size held es (listingList a))
    (h' : WritesFor cx size held es' (listingElse other)) :
    WritesFor cx size held (es ++ es') (listingList [.choice a other]) := by
  simpa [listingList, Instr.listing] using
    (h.append h').enclosed .ifMark .endMark rfl rfl

section

variable {x y z : Operand}

lemma as (h : WritesFor cx size held es (listingList x.code)) (t : ValueType) :
    WritesFor cx size held es (listingList (x.as t)) :=
  h.behind (.of_onStack (convert_onStack _ _))

lemma condition (h : WritesFor cx size held es (listingList x.code)) :
    WritesFor cx size held es (listingList x.condition) := by
  obtain ⟨g, hg, hstack⟩ := condition_eq x
  rw [hg]
  exact h.behind (.of_onStack hstack)

lemma truth (h : WritesFor cx size held es (listingList x.code)) :
    WritesFor cx size held es (listingList x.truth) := by
  obtain ⟨g, hg, hstack⟩ := truth_eq x
  rw [hg]
  exact h.behind (.of_onStack hstack)

lemma logicalChoices (h : WritesFor cx size held es (listingList y.code)) (op : LogicalOp) :
    WritesFor cx size held es (listingList (logicalChoices op y)) := by
  obtain ⟨g, g', heq, hg, hg'⟩ := logicalChoices_eq op y
  rw [heq]
  exact (before (.of_onStack hg) h).behind (.of_onStack hg')

lemma address (hx : WritesFor cx size held es (listingList x.code))
    (hy : WritesFor cx size held es' (listingList y.code)) :
    WritesFor cx size held (es ++ es') (listingList (address x y).code) := by
  obtain ⟨g, heq, hg⟩ := address_eq x y
  rw [heq]
  exact (hx.code_append hy).behind (.of_onStack hg)

/-- The writes of a binary operator are those of its operands. -/
lemma joins {op : BinaryOp} {t : ValueType} (h : Joins op x t y z)
    (hx : WritesFor cx size held es (listingList x.code))
    (hy : WritesFor cx size held es' (listingList y.code)) :
    WritesFor cx size held (es ++ es') (listingList z.code) := by
  obtain ⟨g, g', heq, hg, hg'⟩ := h.code_eq
  rw [heq]
  exact ((hx.behind (.of_onStack hg)).code_append hy).behind (.of_onStack hg')

end

end WritesFor

lemma quiet_cons {o : Op} {ops : List Op} (ho : o.written? = none) (h : Quiet cx (plain ops)) :
    Quiet cx (plain (o :: ops)) := by
  rw [quiet_plain, List.forall_mem_cons, ho]
  exact ⟨nofun, quiet_plain.mp h⟩

/-- An operation that does not write at all. -/
lemma quiet_op {o : Op} (ho : o.written? = none) : Quiet cx (plain [o]) :=
  quiet_cons ho every_nil

/-- A variable with a name is no scratch variable. -/
lemma quiet_localSet {name : String} {slot : Nat} (h : cx.names.idxOf? name = some slot) :
    Quiet cx (plain [.localSet slot]) := by
  refine quiet_plain.mpr fun o ho k hk => ?_
  obtain rfl := List.mem_singleton.mp ho
  cases hk
  exact (List.idxOf?_eq_some_iff.mp h).1

mutual

/-- The writes in code that is built from an expression belong to its parts. -/
theorem Builds.writesFor : ∀ {held : List Nat} {e : Expr} {x : Operand},
    Builds cx size held e x → WritesFor cx size held e.preorder (listingList x.code)
  | _, _, _, .number => by
      rw [Expr.preorder]
      exact .cons (.quiet (quiet_op (constant_onStack _ _).written?_eq)) rfl
  | _, _, _, .boolean => by
      rw [Expr.preorder]
      exact .cons (.quiet (quiet_op rfl)) rfl
  | _, _, _, .identifier _ => by
      rw [Expr.preorder]
      exact .cons (.quiet (quiet_op rfl)) rfl
  | _, _, _, .not part => by
      rw [Expr.preorder]
      exact .cons (.behind part.writesFor.condition (quiet_op rfl)) rfl
  | _, _, _, .minusFloat part => by
      rw [Expr.preorder]
      exact .cons (.behind part.writesFor (quiet_op rfl)) rfl
  | _, _, _, .minusWord part => by
      rw [Expr.preorder]
      exact .cons (.behind (.before (quiet_op rfl) (part.writesFor.as _)) (quiet_op rfl)) rfl
  | _, _, _, .plus part => by
      rw [Expr.preorder]
      exact .cons (part.writesFor.as _) rfl
  | _, _, _, .binary left right result => by
      rw [Expr.preorder]
      exact .cons (.joins result left.writesFor right.writesFor) rfl
  | _, _, _, @Builds.logical _ _ held id op a b x y slot left scratch right => by
      rw [Expr.preorder]
      have hchoices := right.writesFor.logicalChoices op
      have hkeeps : KeepsValue cx size held (.logical id op a b) x.truth (.localSet slot)
          (logicalChoices op y ++ plain [.localGet slot, .select]) :=
        .logical left scratch right (hchoices.unwritten scratch)
      have hwhole := WritesFor.keeps hkeeps left.writesFor.truth
        (.behind (hchoices.mono (List.subset_cons_self _ _)) (quiet_cons rfl (quiet_op rfl)))
      simpa [plain] using hwhole
  | _, _, _, .index array at' => by
      rw [Expr.preorder]
      exact .cons (.behind (array.writesFor.address at'.writesFor) (quiet_op rfl)) rfl
  | _, _, _, .length array => by
      rw [Expr.preorder]
      exact .cons (.behind array.writesFor (quiet_cons rfl (quiet_cons rfl (quiet_op rfl)))) rfl
  | _, _, _, .call callee_name _ _ _ inputs => by
      obtain ⟨i, rfl⟩ := Expr.eq_of_identifier? callee_name
      rw [Expr.preorder, Expr.preorder]
      exact .cons (.cons (.behind inputs.writesFor (quiet_op rfl)) rfl) rfl

/-- The writes of arguments are those of each of them. -/
theorem BuildsArguments.writesFor : ∀ {held : List Nat} {es : List Expr} {types : List ValueType}
    {code : Code}, BuildsArguments cx size held es types code →
    WritesFor cx size held (Expr.preorderList es) (listingList code)
  | _, _, _, _, .nil => .quiet every_nil
  | _, _, _, _, .cons head tail => by
      rw [Expr.preorderList]
      exact (head.writesFor.as _).code_append tail.writesFor

end

/-! ### Statements -/

/-- The writes of an assignment or an update: those of its parts and, where an element is
changed, that of its address. -/
theorem BuildsAct.writesFor {e : Expr} {code : Code} (h : BuildsAct cx size e code) :
    WritesFor cx size [] e.preorder (listingList code) := by
  cases h with
  | assignVariable name_slot new =>
      rw [Expr.preorder, Expr.preorder]
      exact .cons (.cons (.behind (new.writesFor.as _) (quiet_localSet name_slot)) rfl) rfl
  | combineVariable _ name_slot right new =>
      rw [Expr.preorder, Expr.preorder]
      have hnew := WritesFor.joins new (.quiet (quiet_op rfl)) right.writesFor
      exact .cons (.cons (.behind (hnew.as _) (quiet_localSet name_slot)) rfl) rfl
  | assignElement array at' new =>
      rw [Expr.preorder, Expr.preorder]
      have hat := array.writesFor.address at'.writesFor
      exact .cons (.behind (.code_append (.cons hat rfl) (new.writesFor.as _)) (quiet_op rfl)) rfl
  | @combineElement id op o i object position value u x y z w slot compound array at' scratch right
      new =>
      have hat := array.writesFor.address at'.writesFor
      obtain ⟨g, g', heq, hg, hg'⟩ := new.code_eq
      let rest := g ++ z.code ++ g' ++ convert w.type (address x y).type
      have hrest : WritesFor cx size [] value.preorder (listingList rest) :=
        .behind (.behind (.before (.of_onStack hg) (right.writesFor.mono (List.nil_subset _)))
          (.of_onStack hg')) (.of_onStack (convert_onStack _ _))
      have hkeeps : KeepsValue cx size [] (.assign id op (.index i object position) value)
          (address x y).code (.localTee slot)
          (plain [.localGet slot, .load (address x y).type.wordType] ++ rest ++
            plain [.store (address x y).type.wordType]) :=
        .combined compound array at' scratch right ⟨g, g' ++ convert w.type (address x y).type,
          by simp [rest]⟩
      have hwhole := WritesFor.keeps hkeeps hat
        (.behind (.before (quiet_cons rfl (quiet_op rfl)) hrest) (quiet_op rfl))
      rw [Expr.preorder, Expr.preorder]
      simpa [plain, Operand.as, heq, rest] using hwhole.cons_cons (.index i object position) rfl
  | @updateVariable id op leading i name slot t step name_slot chosen =>
      rw [Expr.preorder, Expr.preorder]
      have hcomputed : Quiet cx (plain [.localGet slot, one t, step]) :=
        quiet_cons rfl (quiet_cons (one_onStack t).written?_eq
          (quiet_op (arithmetic_onStack chosen).written?_eq))
      exact .cons (.cons (.behind (.quiet hcomputed) (quiet_localSet name_slot)) rfl) rfl
  | @updateElement id op leading i object position x y slot step array at' scratch chosen =>
      have hat := array.writesFor.address at'.writesFor
      have hkeeps : KeepsValue cx size []
          (.update id op leading (.index i object position)) _ _ _ :=
        .stepped array at' scratch chosen
      have hwhole := WritesFor.keeps hkeeps hat (.quiet (quiet_cons rfl (quiet_cons rfl (quiet_cons
        (one_onStack _).written?_eq (quiet_cons (arithmetic_onStack chosen).written?_eq
          (quiet_op rfl))))))
      rw [Expr.preorder, Expr.preorder]
      simpa [plain] using hwhole.cons_cons (.index i object position) rfl
  | value part => exact .behind part.writesFor (quiet_op rfl)

/-- The writes of declarators are those of the initial values: the variables are no scratch
slots. -/
lemma BuildsDeclarators.writesFor {ds : List Declarator} {code : Code}
    (h : BuildsDeclarators cx size ds code) :
    WritesFor cx size [] ((ds.map Root.declarator).flatMap Root.expressions)
      (listingList code) := by
  induction h with
  | nil => exact .quiet every_nil
  | bare _ ih =>
      rw [List.map_cons, List.flatMap_cons]
      exact ih
  | bound _ name_slot new _ ih =>
      rw [List.map_cons, List.flatMap_cons]
      exact ((new.writesFor.as _).behind (quiet_localSet name_slot)).code_append ih

/-- The writes of the test of a loop. -/
lemma BuildsExit.writesFor {test : Option Expr} {code : Code} (h : BuildsExit cx size test code) :
    WritesFor cx size [] ((Root.ofOption test).flatMap Root.expressions) (listingList code) := by
  cases h with
  | never => exact .quiet every_nil
  | tested part =>
      rw [Root.ofOption, List.flatMap_singleton, Root.expressions]
      exact part.writesFor.condition.behind (quiet_cons rfl (quiet_op rfl))

/-- The writes between two rounds. -/
lemma BuildsStep.writesFor {step : Option Expr} {code : Code} (h : BuildsStep cx size step code) :
    WritesFor cx size [] ((Root.ofOption step).flatMap Root.expressions) (listingList code) := by
  cases h with
  | none => exact .quiet every_nil
  | some part =>
      rw [Root.ofOption, List.flatMap_singleton, Root.expressions]
      exact part.writesFor

/-- The writes of a loop are those of its test, its body and its step. -/
lemma WritesFor.roundAndRound {exit body step : Code} {tested repeated stepped : List Expr}
    (hexit : WritesFor cx size held tested (listingList exit))
    (hbody : WritesFor cx size held repeated (listingList body))
    (hstep : WritesFor cx size held stepped (listingList step)) :
    WritesFor cx size held (tested ++ repeated ++ stepped)
      (listingList (roundAndRound exit body step)) := by
  have hround := ((hexit.code_append hbody).code_append hstep).behind
    (quiet_op (o := .br 1) rfl)
  simpa [Lowering.roundAndRound, listingList, Instr.listing] using
    (hround.enclosed .block .endMark rfl rfl).enclosed .loop .endMark rfl rfl

mutual

/-- The writes in code that is built from a statement belong to its expressions. -/
theorem BuildsStatement.writesFor : ∀ {s : Statement} {code : Code},
    BuildsStatement cx size s code →
    WritesFor cx size [] (s.roots.flatMap Root.expressions) (listingList code)
  | _, _, .declare parts => by
      rw [Statement.roots]
      exact parts.writesFor
  | _, _, .expression part => by
      rw [Statement.roots, List.flatMap_singleton, Root.expressions]
      exact part.writesFor
  | _, _, .retZero => .quiet (quiet_cons (zero_onStack _).written?_eq (quiet_op rfl))
  | _, _, .ret part => by
      rw [Statement.roots, Root.ofOption, List.flatMap_singleton, Root.expressions]
      exact (part.writesFor.as _).behind (quiet_op rfl)
  | _, _, .conditional condition first second => by
      rw [Statement.roots, List.flatMap_cons, List.flatMap_append, Root.expressions]
      exact condition.writesFor.condition.code_append (.choice first.writesFor second.writesFor)
  | _, _, .whileLoop leaving round => by
      rw [Statement.roots, List.flatMap_cons]
      simpa [Root.ofOption] using
        leaving.writesFor.roundAndRound round.writesFor (.quiet every_nil)
  | _, _, .forLoop before leaving round stepping => by
      have hwhole := before.writesFor.code_append
        (leaving.writesFor.roundAndRound round.writesFor stepping.writesFor)
      rw [Statement.roots]
      -- the step of a loop is walked before its body, and its code comes behind
      refine hwhole.of_perm (List.Perm.filter _ ?_)
      simp only [List.flatMap_append, List.append_assoc]
      exact .append_left _ (.append_left _ List.perm_append_comm)
  | _, _, .block parts => by
      rw [Statement.roots]
      exact parts.writesFor
  | _, _, .empty => .quiet every_nil

/-- The writes of an alternate, if there is one. -/
theorem BuildsAlternative.writesFor : ∀ {s : Option Statement} {code : Option Code},
    BuildsAlternative cx size s code →
    WritesFor cx size [] ((Statement.rootsOption s).flatMap Root.expressions) (listingElse code)
  | _, _, .none => .silent (by simp [Instr.listingElse])
  | _, _, .some part => by
      rw [Statement.rootsOption, Instr.listingElse]
      exact WritesFor.append (.silent (l := [.elseMark]) (by simp [Mark.writesPast])) part.writesFor

/-- The writes of what a `for` starts with. -/
theorem BuildsInitial.writesFor : ∀ {s : Option Statement} {code : Code},
    BuildsInitial cx size s code →
    WritesFor cx size [] ((Statement.rootsOption s).flatMap Root.expressions) (listingList code)
  | _, _, .none => .quiet every_nil
  | _, _, .some part => by
      rw [Statement.rootsOption]
      exact part.writesFor

/-- The writes of statements, one after another. -/
theorem BuildsStatements.writesFor : ∀ {ss : List Statement} {code : Code},
    BuildsStatements cx size ss code →
    WritesFor cx size [] ((Statement.rootsList ss).flatMap Root.expressions) (listingList code)
  | _, _, .nil => .quiet every_nil
  | _, _, .cons first others => by
      rw [Statement.rootsList, List.flatMap_append]
      exact first.writesFor.code_append others.writesFor

end

/-! ### Functions -/

/-- The writes in the code of a function belong to its expressions. -/
lemma lower_writesFor {f : CompiledFunction} (h : cx.lower = .ok f) :
    WritesFor cx f.localNames.length [] cx.function.rootExpressions (listingList f.body) := by
  obtain ⟨code, count, hbuilt, rfl⟩ := lower_eq_ok h
  have hsize : (cx.names ++ scratchNames count).length = cx.names.length + count := by
    simp [scratchNames]
  dsimp only
  rw [hsize]
  exact hbuilt.writesFor.behind (quiet_op (zero_onStack _).written?_eq)

/-- A function that is lowered has the scratch variables of the last moment, none of which
is held then. -/
lemma lower_ends {f : CompiledFunction} (h : cx.lower = .ok f) :
    ∃ scratch, ((Plan.ofBody cx).moments cx [] {}).getLast? = some ⟨[], scratch⟩ ∧
      f.locals = localTypes cx ++ List.replicate scratch.count .i32 ∧
      f.localNames.length = cx.names.length + scratch.count := by
  rw [LoweringContext.lower] at h
  obtain ⟨⟨code, scratch⟩, hbody, h⟩ := bind_eq_ok.mp h
  obtain rfl := Except.ok.inj h
  have hplanned : Planned cx [] [] (body cx) (Plan.ofBody cx) := body_planned
  have hrun : (Plan.ofBody cx).run cx {} = .ok (code, scratch) := by
    rw [hplanned.run_eq]
    exact hbody
  exact ⟨scratch, hplanned.orderly.getLast?_moments hrun, rfl, by simp [scratchNames]⟩

/-- A variable with a name is neither held nor free. -/
lemma Valid.notMem_of_slot {held : List Nat} {s : Scratch} {name : String} {k : Nat}
    (h : Valid cx held s) (hk : cx.mapping.slot name = .ok k) : k ∉ held ++ s.free := by
  have hlt : k < cx.names.length := by
    rw [VariableMapping.slot_eq_ok, cx.get?_eq] at hk
    exact (List.idxOf?_eq_some_iff.mp hk).1
  intro hmem
  rcases List.mem_append.mp hmem with hmem | hmem
  · exact absurd (h.held_reserved k hmem).1 (by omega)
  · exact absurd (h.free_reserved k hmem).1 (by omega)

/-- **Scratch variables never clash.** The body of a function is lowered by its plan, and at
every moment of it, also if it fails later, the scratch variables that are held and those
that are free are all different and lie in the range that was reserved, which is past the
slots of parameters and locals. If lowering succeeds, none is held in the end, and the writes
of scratch variables in the code are, one by one, those of the logical operators and the
changed elements of the function: what comes between the write of a left operand and its use
does not write it again, and an address is read right after it was written. -/
theorem scratch_separate (cx : LoweringContext) :
    (Plan.ofBody cx).run cx = body cx ∧
    (∀ m ∈ (Plan.ofBody cx).moments cx [] {}, Valid cx m.held m.scratch) ∧
    (∀ slots : Slots, cx.mapping = slots.merged →
      ∀ name ∈ slots.parameters.names ++ slots.locals.names, ∃ k, cx.mapping.slot name = .ok k ∧
        ∀ m ∈ (Plan.ofBody cx).moments cx [] {}, k ∉ m.held ++ m.scratch.free) ∧
    ∀ f, cx.lower = .ok f →
      (∃ scratch, ((Plan.ofBody cx).moments cx [] {}).getLast? = some ⟨[], scratch⟩ ∧
        f.locals = localTypes cx ++ List.replicate scratch.count .i32 ∧
        f.localNames.length = cx.names.length + scratch.count) ∧
      WritesFor cx f.localNames.length [] cx.function.rootExpressions (listingList f.body) := by
  have hplanned : Planned cx [] [] (body cx) (Plan.ofBody cx) := body_planned
  have hvalid : ∀ m ∈ (Plan.ofBody cx).moments cx [] {}, Valid cx m.held m.scratch :=
    hplanned.orderly.valid valid_start
  refine ⟨hplanned.run_eq, hvalid, fun slots hslots name hname => ?_, fun f hf =>
    ⟨lower_ends hf, lower_writesFor hf⟩⟩
  have hmem : name ∈ cx.names := by
    rw [LoweringContext.names, hslots]
    exact Slots.mem_names.mpr hname
  obtain ⟨k, hk⟩ := Option.isSome_iff_exists.mp (List.isSome_idxOf?.mpr hmem)
  have hslot : cx.mapping.slot name = .ok k := by rw [VariableMapping.slot_eq_ok, cx.get?_eq, hk]
  exact ⟨k, hslot, fun m hm => (hvalid m hm).notMem_of_slot hslot⟩

/-- The slots of three parameters. -/
def waitingSlots : Slots where
  parameters := (VariableMapping.startingAt 0).declareAll ["a", "x", "y"]
  locals := VariableMapping.startingAt 3

/-- `function f(a, x, y) { a[x && (y || x)] += x || (y && x); a[0]++; }` -/
def waitingValues : LoweringContext where
  function := ⟨some "f", [⟨.identifier "a", none⟩, ⟨.identifier "x", none⟩,
      ⟨.identifier "y", none⟩], none,
    [.expression (.assign 0 .addAssign
      (.index 1 (.identifier 2 "a") (.logical 3 .and (.identifier 4 "x")
        (.logical 5 .or (.identifier 6 "y") (.identifier 7 "x"))))
      (.logical 8 .or (.identifier 9 "x")
        (.logical 10 .and (.identifier 11 "y") (.identifier 12 "x")))),
     .expression (.update 13 .increment false
      (.index 14 (.identifier 15 "a") (.number 16 Double.zero)))]⟩
  signature := ⟨[.int32Array, .int32, .int32], .int32⟩
  table := {}
  mapping := waitingSlots.merged
  firstSlot_eq := waitingSlots.merged_firstSlot
  typing := {
    variableTypes := Table.ofList [("a", .int32Array), ("x", .int32), ("y", .int32)]
    expressionTypes := Table.ofList [(2, .int32Array), (4, .int32), (6, .int32), (7, .int32),
      (8, .boolean), (9, .int32), (11, .int32), (12, .int32), (15, .int32Array), (16, .int32)] }
  indices := {}

theorem waitingValues_separate :
    ∃ f, waitingValues.lower = .ok f ∧
      waitingValues.mapping = waitingSlots.merged ∧
      (listingList f.body).findIdxs (Mark.writesPast 3) = [4, 8, 21, 27, 32, 48] ∧
      (∃ m ∈ (Plan.ofBody waitingValues).moments waitingValues [] {}, m.held = [5, 4, 3]) ∧
      (∀ m ∈ (Plan.ofBody waitingValues).moments waitingValues [] {},
        Valid waitingValues m.held m.scratch ∧ 1 ∉ m.held ++ m.scratch.free) ∧
      WritesFor waitingValues 6 [] waitingValues.function.rootExpressions
        (listingList f.body) := by
  obtain ⟨_, hvalid, hvariables, hlowered⟩ := scratch_separate waitingValues
  obtain ⟨k, hk, hfree⟩ := hvariables waitingSlots rfl "x" (by decide)
  have hslot : waitingValues.mapping.slot "x" = .ok 1 := rfl
  obtain rfl : 1 = k := Except.ok.inj (hslot.symm.trans hk)
  exact ⟨_, rfl, rfl, rfl, ⟨_, List.mem_of_getElem? (i := 7) rfl, rfl⟩,
    fun m hm => ⟨hvalid m hm, hfree m hm⟩, (hlowered _ rfl).2⟩

end Lowering

end ArrayScript
