import Mathlib.Tactic
import ArrayScript.Json.Decoding
import ArrayScript.Json.Encoding
import ArrayScript.Proofs.Syntax.Ids

/-!
The trees under which programs and signature tables may be stored.

`toJson` writes one tree. Others are as good: the fields of a record may stand in any
order and among unknown ones, the id of an expression may be any or none, and an optional
component that is missing may be left out in place of `null`. `Stored` says of a tree that
it is one of these.

* `Json.IsRecord`: an object holds what is demanded of each component of a record.
  `record?_of_isRecord` says that the components are then read back.
* `Expr.Stored`, `Statement.Stored`, `Program.Stored`, by recursion over the syntax.
* `Program.stored_toJson`: the tree that is written is among those trees, if numbers are
  finite and ids fit 32 bits.
-/

namespace ArrayScript

namespace Json

/-! ### Nesting -/

mutual

/-- How deep arrays and objects are nested in a tree. -/
def depth : Json → Nat
  | .array elements => depthList elements + 1
  | .object fields => depthFields fields + 1
  | .null | .bool _ | .number _ | .string _ => 0

/-- The greatest depth of the elements of an array. -/
def depthList : List Json → Nat
  | [] => 0
  | j :: rest => max (depth j) (depthList rest)

/-- The greatest depth of the fields of an object. -/
def depthFields : List (Option String × Json) → Nat
  | [] => 0
  | f :: rest => max (depthField f) (depthFields rest)

/-- The depth of a field. -/
def depthField : Option String × Json → Nat
  | (_, j) => depth j

end

@[simp] lemma depth_array (js : List Json) : (array js).depth = depthList js + 1 := by
  rw [depth]

@[simp] lemma depth_ofFields (fields : List (String × Json)) :
    (ofFields fields).depth = depthList (fields.map (·.2)) + 1 := by
  have key : ∀ l : List (String × Json),
      depthFields (l.map fun p => (some p.1, p.2)) = depthList (l.map (·.2)) := by
    intro l
    induction l with
    | nil => rfl
    | cons p rest ih => simp only [List.map_cons, depthFields, depthField, depthList, ih]
  rw [ofFields, depth]
  exact congrArg (· + 1) (key fields)

@[simp] lemma depthList_nil : depthList [] = 0 := rfl

@[simp] lemma depthList_cons (j : Json) (rest : List Json) :
    depthList (j :: rest) = max j.depth (depthList rest) := rfl

@[simp] lemma depth_choose (name : String) (content : Json) :
    (choose name content).depth = content.depth + 1 := by
  simp [choose]

@[simp] lemma depth_ofString (s : String) : (ofString s).depth = 0 := by
  simp [ofString, depth]

@[simp] lemma depth_bool (b : Bool) : (bool b).depth = 0 := by
  simp [depth]

@[simp] lemma depth_number (n : JsonNumber) : (number n).depth = 0 := by
  simp [depth]

/-! ### Records -/

/-- What is demanded of a component of a record: of the value under its name, or of there
being none. -/
structure Demand where
  name : String
  allows : Option Json → Prop

/-- A component that must be there. -/
def Demand.always (name : String) (p : Json → Prop) : Demand :=
  ⟨name, fun v => ∃ j, v = some j ∧ p j⟩

/-- A component that stands for an optional value: without one it is `null` or left out. -/
def Demand.nullable {α : Type} (name : String) (p : α → Json → Prop) (a : Option α) : Demand where
  name := name
  allows v :=
    match a with
    | none => v = none ∨ v = some .null
    | some a => ∃ j, v = some j ∧ p a j

/-- The id of an expression: any number of 32 bits, or left out. -/
def Demand.id : Demand :=
  ⟨"id", fun v => ∀ j, v = some j → ∃ n < 4294967296, j = .number (.integer (Int.ofNat n))⟩

/-- The values that an object holds under a name. -/
def valuesOf (name : String) (fields : List (String × Json)) : List Json :=
  (fields.filter (·.1 = name)).map (·.2)

/-- An object that holds, for each component, one value that is allowed, or none if that
is. Its other fields may be any. -/
def IsRecord (demands : List Demand) (j : Json) : Prop :=
  ∃ fields, j = .ofFields fields ∧ ∀ d ∈ demands, ∃ v : Option Json,
    valuesOf d.name fields = v.toList ∧ d.allows v

/-- An alternative whose content is as demanded. -/
def IsChoice (name : String) (p : Json → Prop) (j : Json) : Prop :=
  ∃ content, j = .choose name content ∧ p content

/-- An array whose elements are as demanded. -/
def IsArray (p : List Json → Prop) (j : Json) : Prop :=
  ∃ js, j = .array js ∧ p js

/-- How a component is read, by what is demanded of it. -/
def Reads (d : Demand) (c : Component) : Prop :=
  c.name = d.name ∧ (d.allows none → c.presence ≠ .required)

lemma component?_eq {d : Demand} {c : Component} {fields : List (String × Json)} {v : Option Json}
    (hc : Reads d c) (hvalues : valuesOf d.name fields = v.toList) (hv : d.allows v) :
    component? (fields.map fun (key, value) => (some key, value)) c = some v := by
  obtain ⟨hname, hpresence⟩ := hc
  have hfilter : ((fields.map fun (key, value) => (some key, value)).filter
      (·.1 = some c.name)).map (·.2) = v.toList := by
    rw [← hvalues, valuesOf, List.filter_map, List.map_map, hname]
    congr 1
    exact List.filter_congr fun p _ => by simp
  rw [component?]
  cases v with
  | none =>
      rw [List.map_eq_nil_iff.mp hfilter]
      exact if_neg (hpresence hv)
  | some value =>
      obtain ⟨⟨key, value'⟩, hpair, hvalue⟩ := List.map_eq_singleton_iff.mp hfilter
      rw [hpair]
      exact congrArg _ (congrArg _ hvalue)

/-- The components of a record are read back. -/
lemma record?_of_isRecord {demands : List Demand} {j : Json} (components : List Component)
    (h : IsRecord demands j) (hc : List.Forall₂ Reads demands components) :
    ∃ values, record? components j = some values ∧
      List.Forall₂ (fun d v => d.allows v) demands values := by
  obtain ⟨fields, rfl, hall⟩ := h
  have hkeys : (fields.map fun (key, value) => (some key, value)).all (·.1.isSome) = true := by
    simp
  rw [ofFields, record?, if_pos hkeys]
  clear hkeys
  induction hc with
  | nil => exact ⟨[], rfl, .nil⟩
  | @cons d c demands components hread _ ih =>
      obtain ⟨⟨v, hvalues, hv⟩, hrest⟩ := List.forall_mem_cons.mp hall
      obtain ⟨values, hmapM, hallowed⟩ := ih hrest
      refine ⟨v :: values, ?_, .cons hv hallowed⟩
      rw [List.mapM_cons, component?_eq hread hvalues hv, hmapM]
      rfl

/-- A record that is written with one field for each component, under different names. -/
lemma isRecord_ofFields {demands : List Demand} {fields : List (String × Json)}
    (hn : (fields.map (·.1)).Nodup)
    (h : List.Forall₂ (fun d f => f.1 = d.name ∧ d.allows (some f.2)) demands fields) :
    IsRecord demands (.ofFields fields) := by
  refine ⟨fields, rfl, fun d hd => ?_⟩
  obtain ⟨f, hf, hname, hallows⟩ := exists_mem_of_forall₂ h hd
  refine ⟨some f.2, ?_, hallows⟩
  obtain ⟨before, after, rfl⟩ := List.append_of_mem hf
  rw [List.map_append, List.map_cons, List.nodup_middle, List.nodup_cons, List.mem_append,
    not_or] at hn
  have hnone : ∀ l : List (String × Json), f.1 ∉ l.map (·.1) → valuesOf d.name l = [] := by
    intro l hl
    rw [valuesOf, List.map_eq_nil_iff, List.filter_eq_nil_iff]
    rintro p hp hkey
    exact hl (hname ▸ of_decide_eq_true hkey ▸ List.mem_map_of_mem hp)
  have hbefore := hnone before hn.1.1
  have hafter := hnone after hn.1.2
  rw [valuesOf] at hbefore hafter ⊢
  simp [hbefore, hafter, hname]

/-- An optional value is written as `null` if it is missing. -/
lemma allows_orNull {α : Type} {name : String} {p : α → Json → Prop} {write : α → Json}
    {a : Option α} (h : ∀ x, a = some x → p x (write x)) :
    (Demand.nullable name p a).allows (some (orNull write a)) := by
  cases a with
  | none => exact .inr rfl
  | some x => exact ⟨_, rfl, h x rfl⟩

end Json

/-! ### Expressions -/

namespace Expr

/-- The tree of an expression, by the name of its kind and what its content may be. -/
def StoredAs (kind : String) (content : Json → Prop) : Json → Prop :=
  Json.IsRecord [.id, .always "kind" (Json.IsChoice kind content)]

open Json in
mutual

/-- The trees of an expression, with any ids. Only finite numbers have one. -/
def Stored : Expr → Json → Prop
  | number _ x => StoredAs "Number" fun j => x.isFinite ∧ j = .number (.double x)
  | boolean _ b => StoredAs "Boolean" (· = .bool b)
  | identifier _ name => StoredAs "Identifier" (· = .ofString name)
  | array _ elements => StoredAs "Array" (IsArray (StoredList elements))
  | unary _ op a => StoredAs "Unary" (IsRecord [.always "op" (· = .ofString op.name),
      .always "argument" (Stored a)])
  | binary _ op a b => StoredAs "Binary" (IsRecord [.always "op" (· = .ofString op.name),
      .always "left" (Stored a), .always "right" (Stored b)])
  | logical _ op a b => StoredAs "Logical" (IsRecord [.always "op" (· = .ofString op.name),
      .always "left" (Stored a), .always "right" (Stored b)])
  | update _ op leading a => StoredAs "Update" (IsRecord [.always "op" (· = .ofString op.name),
      .always "prefix" (· = .bool leading), .always "argument" (Stored a)])
  | assign _ op a b => StoredAs "Assign" (IsRecord [.always "op" (· = .ofString op.name),
      .always "target" (Stored a), .always "value" (Stored b)])
  | call _ f arguments => StoredAs "Call" (IsRecord [.always "callee" (Stored f),
      .always "arguments" (IsArray (StoredList arguments))])
  | index _ a b => StoredAs "Member" (IsRecord [.always "object" (Stored a),
      .always "property" (IsChoice "Computed" (Stored b))])
  | property _ a name => StoredAs "Member" (IsRecord [.always "object" (Stored a),
      .always "property" (IsChoice "Named" (· = .ofString name))])

/-- The trees of expressions in order. -/
def StoredList : List Expr → List Json → Prop
  | [], js => js = []
  | e :: rest, js => ∃ j js', js = j :: js' ∧ Stored e j ∧ StoredList rest js'

end

/-- A number is finite, and an id fits 32 bits. -/
def IsStorable (e : Expr) : Prop :=
  e.id < 4294967296 ∧ ∀ i x, e = .number i x → x.isFinite = true

lemma storedAs_node {id : ExprId} {kind : String} {p : Json → Prop} {content : Json}
    (hid : id < 4294967296) (h : p content) : StoredAs kind p (node id kind content) := by
  refine Json.isRecord_ofFields (by simp) (.cons ⟨rfl, ?_⟩ (.cons ⟨rfl, ?_⟩ .nil))
  · rintro j hj
    exact ⟨id, hid, (Option.some.inj hj).symm⟩
  · exact ⟨_, rfl, _, rfl, h⟩

mutual

/-- The tree that is written for an expression is one of its trees. -/
theorem stored_toJson : ∀ e : Expr, (∀ x ∈ e.preorder, x.IsStorable) → e.Stored e.toJson
  | number i x, h => by
      obtain ⟨hid, hfinite⟩ := h _ List.mem_cons_self
      exact storedAs_node hid ⟨hfinite i x rfl, rfl⟩
  | boolean _ _, h => storedAs_node (h _ List.mem_cons_self).1 rfl
  | identifier _ _, h => storedAs_node (h _ List.mem_cons_self).1 rfl
  | array _ elements, h => by
      obtain ⟨hself, hparts⟩ := List.forall_mem_cons.mp h
      exact storedAs_node hself.1 ⟨_, rfl, storedList_toJson elements hparts⟩
  | unary _ _ a, h => by
      obtain ⟨hself, ha⟩ := List.forall_mem_cons.mp h
      exact storedAs_node hself.1 (Json.isRecord_ofFields (by simp)
        (.cons ⟨rfl, _, rfl, rfl⟩ (.cons ⟨rfl, _, rfl, stored_toJson a ha⟩ .nil)))
  | binary _ _ a b, h | logical _ _ a b, h | assign _ _ a b, h => by
      obtain ⟨hself, hparts⟩ := List.forall_mem_cons.mp h
      obtain ⟨ha, hb⟩ := List.forall_mem_append.mp hparts
      exact storedAs_node hself.1 (Json.isRecord_ofFields (by simp)
        (.cons ⟨rfl, _, rfl, rfl⟩ (.cons ⟨rfl, _, rfl, stored_toJson a ha⟩
          (.cons ⟨rfl, _, rfl, stored_toJson b hb⟩ .nil))))
  | update _ _ _ a, h => by
      obtain ⟨hself, ha⟩ := List.forall_mem_cons.mp h
      exact storedAs_node hself.1 (Json.isRecord_ofFields (by simp)
        (.cons ⟨rfl, _, rfl, rfl⟩ (.cons ⟨rfl, _, rfl, rfl⟩
          (.cons ⟨rfl, _, rfl, stored_toJson a ha⟩ .nil))))
  | call _ f arguments, h => by
      obtain ⟨hself, hparts⟩ := List.forall_mem_cons.mp h
      obtain ⟨hf, harguments⟩ := List.forall_mem_append.mp hparts
      exact storedAs_node hself.1 (Json.isRecord_ofFields (by simp)
        (.cons ⟨rfl, _, rfl, stored_toJson f hf⟩
          (.cons ⟨rfl, _, rfl, _, rfl, storedList_toJson arguments harguments⟩ .nil)))
  | index _ a b, h => by
      obtain ⟨hself, hparts⟩ := List.forall_mem_cons.mp h
      obtain ⟨ha, hb⟩ := List.forall_mem_append.mp hparts
      exact storedAs_node hself.1 (Json.isRecord_ofFields (by simp)
        (.cons ⟨rfl, _, rfl, stored_toJson a ha⟩
          (.cons ⟨rfl, _, rfl, _, rfl, stored_toJson b hb⟩ .nil)))
  | property _ a _, h => by
      obtain ⟨hself, ha⟩ := List.forall_mem_cons.mp h
      exact storedAs_node hself.1 (Json.isRecord_ofFields (by simp)
        (.cons ⟨rfl, _, rfl, stored_toJson a ha⟩ (.cons ⟨rfl, _, rfl, _, rfl, rfl⟩ .nil)))

theorem storedList_toJson : ∀ es : List Expr, (∀ x ∈ preorderList es, x.IsStorable) →
    StoredList es (toJsonList es)
  | [], _ => rfl
  | e :: rest, h => by
      obtain ⟨he, hrest⟩ := List.forall_mem_append.mp h
      exact ⟨_, _, rfl, stored_toJson e he, storedList_toJson rest hrest⟩

end

end Expr

/-! ### Statements -/

open Json in
/-- The trees of a parameter. -/
def Param.Stored (p : Param) : Json → Prop :=
  IsRecord [.always "pattern" (· = p.pattern.toJson),
    .nullable "annotation" (fun t j => j = t.toJson) p.declared]

open Json in
/-- The trees of a declarator. -/
def Declarator.Stored (d : Declarator) : Json → Prop :=
  IsRecord [.always "target" (· = d.target.toJson), .nullable "init" Expr.Stored d.init]

namespace Statement

open Json in
mutual

/-- The trees of a statement, with any ids. -/
def Stored : Statement → Json → Prop
  | function name params returnType body => IsChoice "Function" (IsRecord [
      .nullable "name" (fun n j => j = .ofString n) name,
      .always "params" (IsArray (List.Forall₂ Param.Stored params)),
      .nullable "return_type" (fun t j => j = t.toJson) returnType,
      .always "body" (IsArray (StoredList body))])
  | declare kind ds => IsChoice "Variable" (IsRecord [.always "kind" (· = .ofString kind.name),
      .always "declarations" (IsArray (List.Forall₂ Declarator.Stored ds))])
  | expression e => IsChoice "Expression" e.Stored
  | ret none => IsChoice "Return" (· = .null)
  | ret (some e) => IsChoice "Return" e.Stored
  | conditional test consequent alternate => IsChoice "If" (IsRecord [
      .always "test" test.Stored, .always "consequent" (Stored consequent),
      ⟨"alternate", StoredOption alternate⟩])
  | whileLoop test body => IsChoice "While" (IsRecord [
      .always "test" test.Stored, .always "body" (Stored body)])
  | forLoop init test update body => IsChoice "For" (IsRecord [
      ⟨"init", StoredOption init⟩, .nullable "test" Expr.Stored test,
      .nullable "update" Expr.Stored update, .always "body" (Stored body)])
  | block body => IsChoice "Block" (IsArray (StoredList body))
  | empty => (· = .ofString "Empty")

/-- What may stand for an optional statement. -/
def StoredOption : Option Statement → Option Json → Prop
  | none, v => v = none ∨ v = some .null
  | some s, v => ∃ j, v = some j ∧ Stored s j

/-- The trees of statements in order. -/
def StoredList : List Statement → List Json → Prop
  | [], js => js = []
  | s :: rest, js => ∃ j js', js = j :: js' ∧ Stored s j ∧ StoredList rest js'

end

end Statement

/-- The trees of a program, with any ids. -/
def Program.Stored (p : Program) : Json → Prop :=
  Json.IsRecord [.always "body" (Json.IsArray (Statement.StoredList p.body))]

/-- What a walk meets can be written. -/
def Visit.AreStorable (visits : List Visit) : Prop :=
  ∀ e ∈ expressions visits, e.IsStorable

lemma Expr.stored_toJson_option {e : Option Expr} (h : Visit.AreStorable (visitsOption e))
    (x : Expr) (hx : e = some x) : x.Stored x.toJson := by
  subst hx
  rw [Visit.AreStorable, visitsOption, Visit.expressions_map] at h
  exact x.stored_toJson h

lemma Param.stored_toJson (p : Param) : p.Stored p.toJson :=
  Json.isRecord_ofFields (by simp) (.cons ⟨rfl, _, rfl, rfl⟩
    (.cons ⟨rfl, Json.allows_orNull fun _ _ => rfl⟩ .nil))

lemma Declarator.stored_toJson {ds : List Declarator}
    (h : Visit.AreStorable (Declarator.visits ds)) :
    List.Forall₂ Declarator.Stored ds (ds.map Declarator.toJson) := by
  induction ds with
  | nil => exact .nil
  | cons d rest ih =>
      simp only [Visit.AreStorable, visits, Visit.expressions_declarator,
        Visit.expressions_append, List.forall_mem_append] at h
      exact .cons (Json.isRecord_ofFields (by simp) (.cons ⟨rfl, _, rfl, rfl⟩
        (.cons ⟨rfl, Json.allows_orNull (Expr.stored_toJson_option h.1)⟩ .nil))) (ih h.2)

namespace Statement

mutual

/-- The tree that is written for a statement is one of its trees. -/
theorem stored_toJson : ∀ s : Statement, Visit.AreStorable s.visits → s.Stored s.toJson
  | function _ params _ body, h =>
      ⟨_, rfl, Json.isRecord_ofFields (by simp)
        (.cons ⟨rfl, Json.allows_orNull fun _ _ => rfl⟩
          (.cons ⟨rfl, _, rfl, _, rfl, List.forall₂_map_right_iff.mpr
            (List.forall₂_same.mpr fun p _ => p.stored_toJson)⟩
          (.cons ⟨rfl, Json.allows_orNull fun _ _ => rfl⟩
          (.cons ⟨rfl, _, rfl, _, rfl, storedList_toJson body h⟩ .nil))))⟩
  | declare _ ds, h =>
      ⟨_, rfl, Json.isRecord_ofFields (by simp) (.cons ⟨rfl, _, rfl, rfl⟩
        (.cons ⟨rfl, _, rfl, _, rfl, Declarator.stored_toJson h⟩ .nil))⟩
  | expression e, h => ⟨_, rfl, Expr.stored_toJson_option (e := some e) h e rfl⟩
  | ret none, _ => ⟨_, rfl, rfl⟩
  | ret (some e), h => ⟨_, rfl, Expr.stored_toJson_option h e rfl⟩
  | conditional test consequent alternate, h => by
      simp only [Visit.AreStorable, visits, Visit.expressions_statement, Visit.expressions_append,
        Visit.expressions_map, List.forall_mem_append] at h
      obtain ⟨⟨htest, hconsequent⟩, halternate⟩ := h
      exact ⟨_, rfl, Json.isRecord_ofFields (by simp)
        (.cons ⟨rfl, _, rfl, test.stored_toJson htest⟩
          (.cons ⟨rfl, _, rfl, stored_toJson consequent hconsequent⟩
          (.cons ⟨rfl, storedOption_toJson alternate halternate⟩ .nil)))⟩
  | whileLoop test body, h => by
      simp only [Visit.AreStorable, visits, Visit.expressions_statement, Visit.expressions_append,
        Visit.expressions_map, List.forall_mem_append] at h
      exact ⟨_, rfl, Json.isRecord_ofFields (by simp)
        (.cons ⟨rfl, _, rfl, test.stored_toJson h.1⟩
          (.cons ⟨rfl, _, rfl, stored_toJson body h.2⟩ .nil))⟩
  | forLoop init test update body, h => by
      simp only [Visit.AreStorable, visits, Visit.expressions_statement, Visit.expressions_append,
        List.forall_mem_append] at h
      obtain ⟨⟨⟨hinit, htest⟩, hupdate⟩, hbody⟩ := h
      exact ⟨_, rfl, Json.isRecord_ofFields (by simp)
        (.cons ⟨rfl, storedOption_toJson init hinit⟩
          (.cons ⟨rfl, Json.allows_orNull (Expr.stored_toJson_option htest)⟩
          (.cons ⟨rfl, Json.allows_orNull (Expr.stored_toJson_option hupdate)⟩
          (.cons ⟨rfl, _, rfl, stored_toJson body hbody⟩ .nil))))⟩
  | block body, h => ⟨_, rfl, _, rfl, storedList_toJson body h⟩
  | empty, _ => rfl

theorem storedOption_toJson : ∀ s : Option Statement, Visit.AreStorable (visitsOption s) →
    StoredOption s (some (toJsonOption s))
  | none, _ => .inr rfl
  | some s, h => ⟨_, rfl, stored_toJson s h⟩

theorem storedList_toJson : ∀ ss : List Statement, Visit.AreStorable (visitsList ss) →
    StoredList ss (toJsonList ss)
  | [], _ => rfl
  | s :: rest, h => by
      simp only [Visit.AreStorable, visitsList, Visit.expressions_append,
        List.forall_mem_append] at h
      exact ⟨_, _, rfl, stored_toJson s h.1, storedList_toJson rest h.2⟩

end

end Statement

/-- The tree that is written for a program is one of its trees. -/
theorem Program.stored_toJson {p : Program} (h : Visit.AreStorable p.visits) :
    p.Stored p.toJson :=
  Json.isRecord_ofFields (by simp)
    (.cons ⟨rfl, _, rfl, _, rfl, Statement.storedList_toJson p.body h⟩ .nil)

/-! ### Signatures -/

open Json in
/-- The trees of a signature. -/
def Signature.Stored (s : Signature) : Json → Prop :=
  IsRecord [.always "parameters" (· = .array (s.parameters.map ValueType.toJson)),
    .always "return_type" (· = s.returnType.toJson)]

/-- The trees of a table of signatures with its entries in order. -/
def SignatureTable.StoredInOrder (t : SignatureTable) (j : Json) : Prop :=
  ∃ fields, j = .ofFields fields ∧
    List.Forall₂ (fun entry field => field.1 = entry.1 ∧ entry.2.Stored field.2) t.entries fields

/-- The trees of a table of signatures: an object with its entries in any order. -/
def SignatureTable.Stored (t : SignatureTable) (j : Json) : Prop :=
  ∃ t' : SignatureTable, t'.entries.Perm t.entries ∧ t'.StoredInOrder j

lemma Signature.stored_toJson (s : Signature) : s.Stored s.toJson :=
  Json.isRecord_ofFields (by simp) (.cons ⟨rfl, _, rfl, rfl⟩ (.cons ⟨rfl, _, rfl, rfl⟩ .nil))

/-- The tree that is written for a table keeps its order. -/
theorem SignatureTable.storedInOrder_toJson (t : SignatureTable) : t.StoredInOrder t.toJson :=
  ⟨_, rfl, List.forall₂_map_right_iff.mpr
    (List.forall₂_same.mpr fun entry _ => ⟨rfl, entry.2.stored_toJson⟩)⟩

end ArrayScript
