import ArrayScript.Proofs.Syntax.Ids
import ArrayScript.Slots
import ArrayScript.Typing

/-!
Typing rules, and that inference obeys them.

`HasType table τ e t` says that the typing `τ` gives the expression `e` the type `t`
and is right to do so: `τ` records `t` under the id of `e`, and `t` follows by the
rule for `e` from the types of its parts and from the types of variables in `τ`.
Types are looked up in one typing throughout, so two occurrences of a variable have
the same type.

* `Grows`: a typing that was only added to, at the given ids and names.
* `infer_meets`: inferring an expression with distinct ids only adds to the typing,
  and the type it gives holds by the rules in every typing that keeps what was found.
-/

namespace ArrayScript

/-! ### Plainly assigned names -/

namespace Slots

/-- The name that an expression itself assigns plainly. -/
def plainTarget? : Expr → Option String
  | .assign _ .assign target _ => target.identifier?
  | _ => none

/-- The names come in the order of a walk. -/
lemma assigned_eq (e : Expr) : assigned e = e.preorder.filterMap plainTarget? := by
  rw [assigned]
  congr 1

@[simp, grind =] lemma assigned_number (i : ExprId) (x : Double) :
    assigned (.number i x) = [] := rfl

@[simp, grind =] lemma assigned_boolean (i : ExprId) (b : Bool) :
    assigned (.boolean i b) = [] := rfl

@[simp, grind =] lemma assigned_identifier (i : ExprId) (name : String) :
    assigned (.identifier i name) = [] := rfl

/-- The names that expressions assign plainly, one after another. -/
lemma assignedList (es : List Expr) :
    (Expr.preorderList es).filterMap plainTarget? = es.flatMap assigned := by
  induction es with
  | nil => rfl
  | cons e rest ih =>
      rw [Expr.preorderList, List.filterMap_append, ih, List.flatMap_cons, assigned_eq]

@[simp, grind =] lemma assigned_array (i : ExprId) (es : List Expr) :
    assigned (.array i es) = es.flatMap assigned := by
  rw [← assignedList, assigned_eq]
  rfl

@[simp, grind =] lemma assigned_unary (i : ExprId) (op : UnaryOp) (a : Expr) :
    assigned (.unary i op a) = assigned a := rfl

@[simp, grind =] lemma assigned_binary (i : ExprId) (op : BinaryOp) (a b : Expr) :
    assigned (.binary i op a b) = assigned a ++ assigned b := by
  simp [assigned_eq, Expr.preorder, List.filterMap_cons, plainTarget?]

@[simp, grind =] lemma assigned_logical (i : ExprId) (op : LogicalOp) (a b : Expr) :
    assigned (.logical i op a b) = assigned a ++ assigned b := by
  simp [assigned_eq, Expr.preorder, List.filterMap_cons, plainTarget?]

@[simp, grind =] lemma assigned_update (i : ExprId) (op : UpdateOp) (leading : Bool) (a : Expr) :
    assigned (.update i op leading a) = assigned a := rfl

/-- An assignment comes before its two sides. -/
@[simp, grind =] lemma assigned_assign (i : ExprId) (op : AssignOp) (a b : Expr) :
    assigned (.assign i op a b)
      = (plainTarget? (.assign i op a b)).toList ++ (assigned a ++ assigned b) := by
  cases h : plainTarget? (.assign i op a b) <;> simp [assigned_eq, Expr.preorder, h]

@[simp, grind =] lemma assigned_call (i : ExprId) (f : Expr) (es : List Expr) :
    assigned (.call i f es) = assigned f ++ es.flatMap assigned := by
  rw [← assignedList]
  simp [assigned_eq, Expr.preorder, List.filterMap_cons, plainTarget?]

@[simp, grind =] lemma assigned_index (i : ExprId) (a b : Expr) :
    assigned (.index i a b) = assigned a ++ assigned b := by
  simp [assigned_eq, Expr.preorder, List.filterMap_cons, plainTarget?]

@[simp, grind =] lemma assigned_property (i : ExprId) (a : Expr) (name : String) :
    assigned (.property i a name) = assigned a := rfl

end Slots

namespace Typing

variable {table : SignatureTable} {τ τ' τ'' final : Typing}

/-! ### The rules -/

mutual

/-- The typing records the type of an expression, and the type is right. -/
inductive HasType (table : SignatureTable) (τ : Typing) : Expr → ValueType → Prop
  | number {id x} (recorded : τ.expressionTypes.find? id = some x.literalType) :
      HasType table τ (.number id x) x.literalType
  | boolean {id b} (recorded : τ.expressionTypes.find? id = some .boolean) :
      HasType table τ (.boolean id b) .boolean
  | identifier {id name t} (recorded : τ.expressionTypes.find? id = some t)
      (variable_type : τ.variableTypes.find? name = some t) :
      HasType table τ (.identifier id name) t
  | array {id elements} (recorded : τ.expressionTypes.find? id = some .int32Array)
      (parts : HaveTypes table τ elements) :
      HasType table τ (.array id elements) .int32Array
  | not {id a t} (recorded : τ.expressionTypes.find? id = some .boolean)
      (part : HasType table τ a t) :
      HasType table τ (.unary id .not a) .boolean
  | sign {id op a t} (recorded : τ.expressionTypes.find? id = some t.numeric)
      (op_ne : op ≠ .not) (part : HasType table τ a t) :
      HasType table τ (.unary id op a) t.numeric
  | comparison {id op a b t u} (recorded : τ.expressionTypes.find? id = some .boolean)
      (op_comparison : op.isComparison = true)
      (left : HasType table τ a t) (right : HasType table τ b u) :
      HasType table τ (.binary id op a b) .boolean
  | arithmetic {id op a b t u} (recorded : τ.expressionTypes.find? id = some (t.arithmetic u))
      (op_arithmetic : op.isArithmetic = true)
      (left : HasType table τ a t) (right : HasType table τ b u) :
      HasType table τ (.binary id op a b) (t.arithmetic u)
  | logical {id op a b t u} (recorded : τ.expressionTypes.find? id = some .boolean)
      (left : HasType table τ a t) (right : HasType table τ b u) :
      HasType table τ (.logical id op a b) .boolean
  | update {id op leading a t} (recorded : τ.expressionTypes.find? id = some t)
      (part : HasType table τ a t) :
      HasType table τ (.update id op leading a) t
  | assign {id op target value t u} (recorded : τ.expressionTypes.find? id = some t)
      (op_ne : op ≠ .remAssign)
      (value_type : HasType table τ value t) (target_type : HasType table τ target u) :
      HasType table τ (.assign id op target value) t
  | call {id callee name arguments signature}
      (recorded : τ.expressionTypes.find? id = some signature.returnType)
      (callee_name : callee.identifier? = some name)
      (callee_signature : table.find? name = some signature)
      (parts : HaveTypes table τ arguments) :
      HasType table τ (.call id callee arguments) signature.returnType
  | index {id object position t u} (recorded : τ.expressionTypes.find? id = some t.elementType)
      (object_type : HasType table τ object t) (object_array : t.isArray = true)
      (position_type : HasType table τ position u) :
      HasType table τ (.index id object position) t.elementType
  | length {id object t} (recorded : τ.expressionTypes.find? id = some .int32)
      (object_type : HasType table τ object t) (object_array : t.isArray = true) :
      HasType table τ (.property id object "length") .int32

/-- Each expression of a list has some type. -/
inductive HaveTypes (table : SignatureTable) (τ : Typing) : List Expr → Prop
  | nil : HaveTypes table τ []
  | cons {e rest t} (head : HasType table τ e t) (tail : HaveTypes table τ rest) :
      HaveTypes table τ (e :: rest)

end

/-- Every rule asks for the type to be recorded under the id of the expression. -/
lemma HasType.recorded {e : Expr} {t : ValueType} (h : HasType table τ e t) :
    τ.expressionTypes.find? e.id = some t := by
  cases h <;> assumption

/-- The look-up of a type that is right succeeds. -/
lemma HasType.expressionType {e : Expr} {t : ValueType} (h : HasType table τ e t) :
    τ.expressionType e.id = .ok t := by
  rw [Typing.expressionType, h.recorded]

/-- A binary operator with a right type is a comparison or arithmetic, never a power, and
has two typed operands. -/
lemma HasType.binary {id : ExprId} {op : BinaryOp} {a b : Expr} {t : ValueType}
    (h : HasType table τ (.binary id op a b) t) : ∃ u v, HasType table τ a u ∧
      HasType table τ b v ∧ (op.isComparison = true ∨ op.isArithmetic = true) ∧
      t = if op.isComparison then .boolean else u.arithmetic v := by
  cases h with
  | comparison _ hop left right => exact ⟨_, _, left, right, .inl hop, by rw [if_pos hop]⟩
  | arithmetic _ hop left right =>
      refine ⟨_, _, left, right, .inr hop, ?_⟩
      cases op <;> simp_all [BinaryOp.isArithmetic, BinaryOp.isComparison]

/-! ### What inference adds -/

/-- The typing only grew: variables keep their types, and new types were given at most
to the named variables and to the expressions with the given ids. -/
structure Grows (ids : List ExprId) (names : List String) (τ τ' : Typing) : Prop where
  keeps : ∀ name t, τ.variableTypes.find? name = some t → τ'.variableTypes.find? name = some t
  binds : ∀ name t, τ'.variableTypes.find? name = some t →
    τ.variableTypes.find? name = some t ∨ name ∈ names
  records : ∀ id, id ∉ ids → τ'.expressionTypes.find? id = τ.expressionTypes.find? id

namespace Grows

variable {ids ids' : List ExprId} {names names' : List String}

/-- Nothing was added. -/
lemma refl (τ : Typing) : Grows [] [] τ τ :=
  ⟨fun _ _ h => h, fun _ _ h => .inl h, fun _ _ => rfl⟩

/-- Additions one after the other. -/
lemma trans (h : Grows ids names τ τ') (h' : Grows ids' names' τ' τ'') :
    Grows (ids ++ ids') (names ++ names') τ τ'' where
  keeps name t ht := h'.keeps name t (h.keeps name t ht)
  binds name t ht := by
    rcases h'.binds name t ht with ht | hmem
    · exact (h.binds name t ht).imp_right (List.mem_append_left _)
    · exact .inr (List.mem_append_right _ hmem)
  records id hid := by
    rw [List.mem_append, not_or] at hid
    rw [h'.records id hid.2, h.records id hid.1]

/-- More ids and names may be allowed for. -/
lemma mono (h : Grows ids names τ τ') (hids : ids ⊆ ids') (hnames : names ⊆ names') :
    Grows ids' names' τ τ' where
  keeps := h.keeps
  binds name t ht := (h.binds name t ht).imp_right fun hmem => hnames hmem
  records id hid := h.records id fun hmem => hid (hids hmem)

/-- The type of one expression was added, or changed. -/
lemma record (τ : Typing) (id : ExprId) (t : ValueType) : Grows [id] [] τ (τ.record id t) where
  keeps _ _ h := h
  binds _ _ h := .inl h
  records id' h := by
    rw [Typing.record, Table.find?_insert, if_neg]
    rintro rfl
    exact h List.mem_cons_self

/-- One variable was given a type, if it had none. One that had a type keeps it. -/
lemma bind (τ : Typing) (name : String) (t : ValueType) : Grows [] [name] τ (τ.bind name t) := by
  by_cases hc : τ.variableTypes.contains name
  · rw [Typing.bind, if_pos hc]
    exact (refl τ).mono (by simp) (by simp)
  · rw [Typing.bind, if_neg hc]
    -- the name is a new one
    have hnone : τ.variableTypes.find? name = none := by
      simpa [Table.contains] using hc
    refine ⟨fun other u hu => ?_, fun other u hu => ?_, fun _ _ => rfl⟩
    · rw [Table.find?_insert, if_neg]
      · exact hu
      · rintro rfl
        rw [hnone] at hu
        cases hu
    · rw [Table.find?_insert] at hu
      split at hu
      · exact .inr (by simp [*])
      · exact .inl hu

/-- A plain assignment to a name is all that binds anything. -/
lemma bindTarget {op : AssignOp} {target : Expr} (τ : Typing) (t : ValueType)
    (h : ∀ name, op = .assign → target.identifier? = some name → name ∈ names) :
    Grows [] names τ (Typing.bindTarget op target t τ) := by
  unfold Typing.bindTarget
  split
  · rename_i name hname
    exact (bind τ name t).mono (by simp) (by simpa using h name rfl hname)
  · exact (refl τ).mono (by simp) (by simp)

end Grows

/-- What was found before is still there at the end: the types of variables, and those
of the expressions with the given ids. -/
structure Settled (ids : List ExprId) (τ final : Typing) : Prop where
  keeps : ∀ name t, τ.variableTypes.find? name = some t →
    final.variableTypes.find? name = some t
  expressions : ∀ id ∈ ids, final.expressionTypes.find? id = τ.expressionTypes.find? id

/-- What is settled was so before types of other expressions were added. -/
lemma Settled.before {ids ids' sub : List ExprId} {names : List String}
    (h : Settled ids τ' final) (g : Grows ids' names τ τ') (hsub : ∀ id ∈ sub, id ∈ ids)
    (hnew : ∀ id ∈ sub, id ∉ ids') : Settled sub τ final where
  keeps name t ht := h.keeps name t (g.keeps name t ht)
  expressions id hid := by
    rw [h.expressions id (hsub id hid), g.records id (hnew id hid)]

/-- The type of a whole that is settled is the one that was recorded last. -/
lemma Settled.record {id : ExprId} {ids : List ExprId} {t : ValueType}
    (h : Settled (id :: ids) (τ.record id t) final) : final.expressionTypes.find? id = some t := by
  rw [h.expressions id List.mem_cons_self, Typing.record, Table.find?_insert, if_pos rfl]

/-! ### Inference obeys the rules -/

/-- What is known of an expression after its type was inferred. -/
structure Inferred (table : SignatureTable) (τ : Typing) (e : Expr) (t : ValueType)
    (τ' : Typing) : Prop where
  grows : Grows e.ids (Slots.assigned e) τ τ'
  typed : e.ids.Nodup → ∀ final, Settled e.ids τ' final → HasType table final e t

/-- What is known of expressions after their types were inferred. -/
structure InferredList (table : SignatureTable) (τ : Typing) (es : List Expr)
    (τ' : Typing) : Prop where
  grows : Grows (Expr.idsList es) (es.flatMap Slots.assigned) τ τ'
  typed : (Expr.idsList es).Nodup → ∀ final, Settled (Expr.idsList es) τ' final →
    HaveTypes table final es

variable {fault : CompileError → Prop}

/-- The type that was found is recorded, and then what was asked for holds. -/
lemma recorded_meets {id : ExprId} {find : Infer ValueType} {post : ValueType → Typing → Prop}
    (h : Meets fault find τ fun t τ' => post t (τ'.record id t)) :
    Meets fault (recorded id find) τ post :=
  h.bind fun _ _ hp => hp

/-- The one part of a whole is settled when the whole is. -/
lemma Settled.part {id : ExprId} {ids : List ExprId} {t : ValueType}
    (h : Settled (id :: ids) (τ.record id t) final) (hid : id ∉ ids) : Settled ids τ final :=
  h.before (Grows.record τ id t) (fun _ hi => List.mem_cons_of_mem _ hi) fun i hi => by
    rw [List.mem_singleton]
    rintro rfl
    exact hid hi

/-- Of two parts that were typed one after the other, both are settled when the whole
is. -/
lemma Settled.parts {id : ExprId} {ids l r : List ExprId} {names : List String} {t : ValueType}
    (h : Settled (id :: ids) (τ''.record id t) final) (hn : (id :: ids).Nodup)
    (hids : ids.Perm (l ++ r)) (g : Grows r names τ' τ'') :
    Settled l τ' final ∧ Settled r τ'' final := by
  rw [List.nodup_cons] at hn
  have hdisjoint := List.nodup_append.mp (hids.nodup_iff.mp hn.2)
  -- without the whole, whose id is not among those of its parts
  have hids' : Settled ids τ'' final := h.part hn.1
  have hr : Settled r τ'' final :=
    ⟨hids'.keeps, fun i hi => hids'.expressions i (hids.mem_iff.mpr (List.mem_append_right _ hi))⟩
  -- the second part gave types to its own expressions alone
  refine ⟨hids'.before g (fun i hi => hids.mem_iff.mpr (List.mem_append_left _ hi)) ?_, hr⟩
  exact fun i hi hi' => hdisjoint.2.2 i hi i hi' rfl

section Wholes

variable {id : ExprId} {ids : List ExprId} {names : List String} {e a b : Expr}
  {es : List Expr} {t u v : ValueType} {τ₁ τ₂ τ₃ : Typing}

/-- An expression with one part: what is known of the part, and the rule for the whole. -/
lemma Inferred.whole (ha : Inferred table τ a t τ₁) (hids : e.ids = id :: a.ids)
    (hnames : Slots.assigned a ⊆ Slots.assigned e)
    (rule : ∀ final : Typing, final.expressionTypes.find? id = some v →
      HasType table final a t → HasType table final e v) :
    Inferred table τ e v (τ₁.record id v) := by
  refine ⟨(ha.grows.trans (Grows.record τ₁ id v)).mono ?_ ?_, fun hn final h => ?_⟩
  · rw [hids]
    exact fun i hi => List.mem_cons.mpr (by simpa [or_comm] using hi)
  · rwa [List.append_nil]
  · rw [hids] at hn h
    obtain ⟨hid, hnodup⟩ := List.nodup_cons.mp hn
    exact rule final h.record (ha.typed hnodup final (h.part hid))

/-- An expression with two parts. Names may be bound between the first that is inferred and
the second. -/
lemma Inferred.whole_of_two (ha : Inferred table τ a t τ₁) (g : Grows [] names τ₁ τ₂)
    (hb : Inferred table τ₂ b u τ₃) (hids : e.ids = id :: ids) (hparts : ids.Perm (a.ids ++ b.ids))
    (hnames : Slots.assigned a ++ (names ++ Slots.assigned b) ⊆ Slots.assigned e)
    (rule : ∀ final : Typing, final.expressionTypes.find? id = some v →
      HasType table final a t → HasType table final b u → HasType table final e v) :
    Inferred table τ e v (τ₃.record id v) := by
  -- between the parts only variables are bound, so all of it is told of the second part
  have gb : Grows b.ids (names ++ Slots.assigned b) τ₁ τ₃ := g.trans hb.grows
  refine ⟨((ha.grows.trans gb).trans (Grows.record τ₃ id v)).mono ?_ ?_, fun hn final h => ?_⟩
  · rw [hids]
    intro i hi
    rcases List.mem_append.mp hi with hi | hi
    · exact List.mem_cons_of_mem _ (hparts.mem_iff.mpr hi)
    · exact List.mem_cons.mpr (.inl (List.mem_singleton.mp hi))
  · rwa [List.append_nil]
  · rw [hids] at hn h
    obtain ⟨hsettled, hsettled'⟩ := h.parts hn hparts gb
    have hnodup := List.nodup_append.mp (hparts.nodup_iff.mp (List.nodup_cons.mp hn).2)
    exact rule final h.record (ha.typed hnodup.1 final hsettled)
      (hb.typed hnodup.2.1 final hsettled')

/-- An expression whose last parts are a list, the only ones that are inferred. -/
lemma InferredList.whole (hes : InferredList table τ es τ₁)
    (hids : e.ids = id :: ids) (hlast : Expr.idsList es <:+ ids)
    (hnames : es.flatMap Slots.assigned ⊆ Slots.assigned e)
    (rule : ∀ final : Typing, final.expressionTypes.find? id = some v →
      HaveTypes table final es → HasType table final e v) :
    Inferred table τ e v (τ₁.record id v) := by
  obtain ⟨front, rfl⟩ := hlast
  refine ⟨(hes.grows.trans (Grows.record τ₁ id v)).mono ?_ ?_, fun hn final h => ?_⟩
  · rw [hids]
    intro i hi
    rcases List.mem_append.mp hi with hi | hi
    · exact List.mem_cons_of_mem _ (List.mem_append_right _ hi)
    · exact List.mem_cons.mpr (.inl (List.mem_singleton.mp hi))
  · rwa [List.append_nil]
  · rw [hids] at hn h
    have hsettled := (h.parts hn (List.Perm.refl _) hes.grows).2
    have hnodup := List.nodup_append.mp (List.nodup_cons.mp hn).2
    exact rule final h.record (hes.typed hnodup.2.1 final hsettled)

end Wholes

/-- A variable has the type that the typing says, if it says one. -/
lemma variableType_eq_ok {name : String} {t : ValueType} :
    τ.variableType name = .ok t ↔ τ.variableTypes.find? name = some t := by
  rw [variableType]
  split
  · rename_i u hu
    rw [hu, Except.ok.injEq, Option.some.injEq]
  · rename_i hnone
    rw [hnone]
    constructor <;> intro h <;> cases h

/-- The only complaint about a variable is that it has no type. -/
lemma variableType_eq_error {name : String} {e : CompileError}
    (h : τ.variableType name = .error e) : e = .untypedVariable name := by
  rw [variableType] at h
  split at h
  · cases h
  · exact (Except.error.inj h).symm

/-- What an assignment binds before its target is read. -/
lemma bindTarget_grows (id : ExprId) (op : AssignOp) (target value : Expr) (t : ValueType)
    (τ : Typing) : Grows [] (Slots.plainTarget? (.assign id op target value)).toList τ
      (bindTarget op target t τ) := by
  refine Grows.bindTarget τ t fun name hassign hname => ?_
  subst hassign
  simp [Slots.plainTarget?, hname]

/-- A signature that is needed is looked up in the table, and the typing stays. -/
lemma require_meets {fault : CompileError → Prop} (name : String) (τ : Typing)
    (h : table.find? name = none → fault (.missingSignature name)) :
    Meets fault (liftM (table.require name) : Infer Signature) τ fun s τ' =>
      table.find? name = some s ∧ τ' = τ := by
  refine Meets.lift (fun s hs => ?_) fun e he => ?_
  all_goals unfold SignatureTable.require at *; split at *
  · rename_i s' hs'
    rw [hs', Except.ok.inj hs]
    exact ⟨rfl, rfl⟩
  · cases hs
  · cases he
  · obtain rfl := Except.error.inj he
    exact h ‹_›

mutual

/-- Inferring the type of an expression obeys the rules. -/
theorem infer_meets : ∀ (e : Expr) (τ : Typing),
    Meets (fun _ => True) (infer table e) τ fun t τ' => Inferred table τ e t τ'
  | .number id x, τ => by
      rw [infer]
      refine recorded_meets (Meets.pure ⟨Grows.record τ id _, fun _ final h => ?_⟩)
      exact .number h.record
  | .boolean id b, τ => by
      rw [infer]
      refine recorded_meets (Meets.pure ⟨Grows.record τ id _, fun _ final h => ?_⟩)
      exact .boolean h.record
  | .identifier id name, τ => by
      rw [infer]
      refine recorded_meets (Meets.lift (fun t ht => ?_) fun _ _ => trivial)
      refine ⟨Grows.record τ id t, fun _ final h => ?_⟩
      exact .identifier h.record (h.keeps name t (variableType_eq_ok.mp ht))
  | .array id elements, τ => by
      rw [infer]
      refine recorded_meets ((inferList_meets elements τ).bind fun _ τ₁ h₁ => Meets.pure ?_)
      refine h₁.whole (Expr.ids_array id elements) (List.suffix_refl _) (by simp) ?_
      exact fun final recorded parts => .array recorded parts
  | .unary id op a, τ => by
      rw [infer]
      refine recorded_meets ((infer_meets a τ).bind fun t τ₁ h₁ => Meets.pure ?_)
      refine h₁.whole (Expr.ids_unary id op a) (by simp) fun final recorded part => ?_
      by_cases hop : op = .not
      · subst hop
        exact .not recorded part
      · rw [if_neg hop] at recorded ⊢
        exact .sign recorded hop part
  | .binary id op a b, τ => by
      rw [infer]
      refine recorded_meets ?_
      dsimp only
      split
      · exact Meets.throw_bind trivial
      rename_i hpow
      refine (infer_meets a τ).bind fun t τ₁ h₁ => ?_
      refine (infer_meets b τ₁).bind fun u τ₂ h₂ => Meets.pure ?_
      refine h₁.whole_of_two (Grows.refl τ₁) h₂ (Expr.ids_binary id op a b) (List.Perm.refl _)
        (by simp) fun final recorded left right => ?_
      by_cases hop : op.isComparison = true
      · rw [if_pos hop] at recorded ⊢
        exact .comparison recorded hop left right
      · rw [if_neg hop] at recorded ⊢
        -- neither a power nor a comparison
        have harith : op.isArithmetic = true := by
          cases op <;> simp_all [BinaryOp.isComparison, BinaryOp.isArithmetic]
        exact .arithmetic recorded harith left right
  | .logical id op a b, τ => by
      rw [infer]
      refine recorded_meets ((infer_meets a τ).bind fun t τ₁ h₁ => ?_)
      refine (infer_meets b τ₁).bind fun u τ₂ h₂ => Meets.pure ?_
      refine h₁.whole_of_two (Grows.refl τ₁) h₂ (Expr.ids_logical id op a b) (List.Perm.refl _)
        (by simp) ?_
      exact fun final recorded left right => .logical recorded left right
  | .update id op leading a, τ => by
      rw [infer]
      refine recorded_meets ((infer_meets a τ).weaken fun t τ₁ h₁ => ?_)
      refine h₁.whole (Expr.ids_update id op leading a) (by simp) ?_
      exact fun final recorded part => .update recorded part
  | .assign id op target value, τ => by
      rw [infer]
      refine recorded_meets ?_
      dsimp only
      split
      · exact Meets.throw_bind trivial
      rename_i hop
      refine (infer_meets value τ).bind fun t τ₁ h₁ => Meets.modify_bind ?_
      refine (infer_meets target _).bind fun u τ₃ h₂ => Meets.pure ?_
      -- the value is inferred before the target, which has its ids in front
      refine h₁.whole_of_two (bindTarget_grows id op target value t τ₁) h₂
        (Expr.ids_assign id op target value) List.perm_append_comm (by grind) ?_
      exact fun final recorded hvalue htarget => .assign recorded hop hvalue htarget
  | .call id callee arguments, τ => by
      rw [infer]
      refine recorded_meets ?_
      split
      · exact Meets.throw trivial
      rename_i name hname
      refine (require_meets name τ fun _ => trivial).bind fun s τ₁ ⟨hs, hτ⟩ => ?_
      subst hτ
      refine (inferList_meets arguments τ₁).bind fun _ τ₂ h₁ => Meets.pure ?_
      refine h₁.whole (Expr.ids_call id callee arguments) (List.suffix_append _ _) (by simp) ?_
      exact fun final recorded parts => .call recorded hname hs parts
  | .index id object position, τ => by
      rw [infer]
      refine recorded_meets ((infer_meets object τ).bind fun t τ₁ h₁ => ?_)
      dsimp only
      split
      · exact Meets.throw_bind trivial
      rename_i harray
      rw [Bool.not_eq_true', Bool.not_eq_false] at harray
      refine (infer_meets position τ₁).bind fun u τ₂ h₂ => Meets.pure ?_
      refine h₁.whole_of_two (Grows.refl τ₁) h₂ (Expr.ids_index id object position)
        (List.Perm.refl _) (by simp) ?_
      exact fun final recorded hobject hposition => .index recorded hobject harray hposition
  | .property id object name, τ => by
      rw [infer]
      refine recorded_meets ((infer_meets object τ).bind fun t τ₁ h₁ => ?_)
      dsimp only
      split
      · exact Meets.throw_bind trivial
      rename_i harray
      rw [Bool.not_eq_true', Bool.not_eq_false] at harray
      split
      · exact Meets.throw_bind trivial
      rename_i hname
      obtain rfl : name = "length" := not_not.mp hname
      refine Meets.pure (h₁.whole (Expr.ids_property id object "length") (by simp) ?_)
      exact fun final recorded hobject => .length recorded hobject harray

/-- Inferring the types of expressions one after the other obeys the rules. -/
theorem inferList_meets : ∀ (es : List Expr) (τ : Typing),
    Meets (fun _ => True) (inferList table es) τ fun _ τ' => InferredList table τ es τ'
  | [], τ => by
      rw [inferList]
      exact Meets.pure ⟨Grows.refl τ, fun _ _ _ => .nil⟩
  | e :: rest, τ => by
      rw [inferList]
      refine (infer_meets e τ).bind fun t τ₁ h₁ => ?_
      refine (inferList_meets rest τ₁).weaken fun _ τ₂ h₂ => ?_
      refine ⟨(h₁.grows.trans h₂.grows).mono (by simp) (by simp), fun hn final h => ?_⟩
      rw [Expr.idsList_cons] at hn h
      -- what was found of the first is not touched by what comes after it
      have he : Settled e.ids τ₁ final := h.before h₂.grows (by grind) (by grind)
      have hrest : Settled (Expr.idsList rest) τ₂ final :=
        ⟨h.keeps, fun i hi => h.expressions i (by grind)⟩
      exact .cons (h₁.typed (by grind) final he) (h₂.typed (by grind) final hrest)

end

end Typing

end ArrayScript
