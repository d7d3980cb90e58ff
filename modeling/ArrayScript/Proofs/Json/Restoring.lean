import ArrayScript.Proofs.Json.Stored
import ArrayScript.Proofs.Syntax.Erasure
import ArrayScript.Proofs.Table

/-!
Stored trees are read back.

A reader is given a tree of some syntax and a bound that is not below the depth of the tree
that would be written for it. What it finds differs from that syntax in nothing but ids.

* `expr_restores`, `statement_restores`: by recursion over the syntax.
* `program_restores`, `signatureTable_restores`: the same for what is stored as a whole.
-/

namespace ArrayScript

open Json Decoding

/-! ### Components -/

namespace Json

variable {α β γ : Type} {n m k : String} {p q r : Json → Prop} {j : Json}

lemma reads_always {c : Component} (h : c.name = n) : Reads (.always n p) c :=
  ⟨h, fun ⟨_, hnone, _⟩ => by cases hnone⟩

lemma reads_of_presence {d : Demand} {c : Component} (h : c.name = d.name)
    (hc : c.presence ≠ .required) : Reads d c :=
  ⟨h, fun _ => hc⟩

/-- A record of two components that must be there. -/
lemma record?_two (h : IsRecord [.always n p, .always m q] j) :
    ∃ a b, record? [required n, required m] j = some [some a, some b] ∧ p a ∧ q b := by
  obtain ⟨_, hrecord, _ | ⟨⟨a, rfl, ha⟩, _ | ⟨⟨b, rfl, hb⟩, ⟨⟩⟩⟩⟩ :=
    record?_of_isRecord [required n, required m] h
      (.cons (reads_always rfl) (.cons (reads_always rfl) .nil))
  exact ⟨a, b, hrecord, ha, hb⟩

/-- A record of three components that must be there. -/
lemma record?_three (h : IsRecord [.always n p, .always m q, .always k r] j) :
    ∃ a b c, record? [required n, required m, required k] j = some [some a, some b, some c] ∧
      p a ∧ q b ∧ r c := by
  obtain ⟨_, hrecord, _ | ⟨⟨a, rfl, ha⟩, _ | ⟨⟨b, rfl, hb⟩, _ | ⟨⟨c, rfl, hc⟩, ⟨⟩⟩⟩⟩⟩ :=
    record?_of_isRecord [required n, required m, required k] h
      (.cons (reads_always rfl) (.cons (reads_always rfl) (.cons (reads_always rfl) .nil)))
  exact ⟨a, b, c, hrecord, ha, hb, hc⟩

lemma IsRecord.ne_null {demands : List Demand} (h : IsRecord demands j) : j ≠ .null := by
  obtain ⟨fields, rfl, _⟩ := h
  rw [ofFields]
  exact fun hnull => by cases hnull

lemma IsChoice.ne_null (h : IsChoice n p j) : j ≠ .null := by
  obtain ⟨content, rfl, _⟩ := h
  rw [choose, ofFields]
  exact fun hnull => by cases hnull

/-- What is read for an optional component, up to a function of what is compared. -/
lemma nullable?_restores {read : Json → Option α} {stored : α → Json → Prop} (f : α → γ)
    {a : Option α} {v : Option Json} (h : (Demand.nullable n stored a).allows v)
    (hnull : ∀ x j, stored x j → j ≠ .null)
    (hread : ∀ x j, a = some x → stored x j → ∃ x', read j = some x' ∧ f x' = f x) :
    ∃ a', nullable? read v = some a' ∧ a'.map f = a.map f := by
  cases a with
  | none =>
      rcases h with rfl | rfl
      · exact ⟨none, rfl, rfl⟩
      · exact ⟨none, rfl, rfl⟩
  | some x =>
      obtain ⟨j, rfl, hj⟩ := h
      obtain ⟨x', hx', hf⟩ := hread x j rfl hj
      refine ⟨some x', ?_, congrArg some hf⟩
      have hj' := hnull x j hj
      rw [nullable?]
      · rw [hx']
        rfl
      · exact hj'

/-- What is read for an optional component with one tree. -/
lemma nullable?_written {read : Json → Option α} {write : α → Json} {a : Option α}
    {v : Option Json} (h : (Demand.nullable n (fun a j => j = write a) a).allows v)
    (hnull : ∀ x, write x ≠ .null) (hread : ∀ x, read (write x) = some x) :
    nullable? read v = some a := by
  obtain ⟨a', ha, heq⟩ := nullable?_restores id h (fun x _ hj => hj ▸ hnull x)
    (fun x _ _ hj => ⟨x, hj ▸ hread x, rfl⟩)
  rw [ha, ← Option.map_id' (x := a'), ← Option.map_id' (x := a)]
  exact congrArg some heq

/-- What is read for the elements of an array, up to a function of what is compared. -/
lemma mapM_restores {read : Json → Option α} {stored : α → Json → Prop} (f : α → γ)
    {l : List α} {js : List Json} (h : List.Forall₂ stored l js)
    (hread : ∀ a ∈ l, ∀ j, stored a j → ∃ a', read j = some a' ∧ f a' = f a) :
    ∃ l', js.mapM read = some l' ∧ l'.map f = l.map f := by
  induction h with
  | nil => exact ⟨[], rfl, rfl⟩
  | @cons a j l js ha _ ih =>
      obtain ⟨hhead, htail⟩ := List.forall_mem_cons.mp hread
      obtain ⟨a', ha', hf⟩ := hhead j ha
      obtain ⟨l', hl', hfs⟩ := ih htail
      refine ⟨a' :: l', ?_, by rw [List.map_cons, List.map_cons, hf, hfs]⟩
      rw [List.mapM_cons, ha', hl']
      rfl

lemma mapM_map_of_forall {read : Json → Option α} {write : α → Json} {l : List α}
    (h : ∀ a ∈ l, read (write a) = some a) : (l.map write).mapM read = some l := by
  induction l with
  | nil => rfl
  | cons a rest ih =>
      obtain ⟨ha, hrest⟩ := List.forall_mem_cons.mp h
      rw [List.map_cons, List.mapM_cons, ha, ih hrest]
      rfl

lemma depth_le_depthList {js : List Json} (h : j ∈ js) : j.depth ≤ depthList js := by
  induction js with
  | nil => cases h
  | cons i rest ih =>
      rw [depthList_cons]
      rcases List.mem_cons.mp h with rfl | h
      · exact le_max_left _ _
      · exact (ih h).trans (le_max_right _ _)

end Json

@[simp] lemma bare?_ofString {α : Type} (ofName? : String → Option α) (depth : Nat) (s : String) :
    bare? ofName? depth (.ofString s) = ofName? s := rfl

lemma natBelow?_of_lt {bound n : Nat} (h : n < bound) :
    natBelow? bound (.number (.integer (Int.ofNat n))) = some n := by
  simp [natBelow?, h]

/-! ### Expressions -/

namespace Expr

@[simp] lemma depth_node (id : ExprId) (kind : String) (content : Json) :
    (node id kind content).depth = content.depth + 2 := by
  simp [node]

lemma expr_of_record {j kind : Json} {given : Option Json} {depth : Nat} {id : ExprId}
    (hrecord : record? [defaulted "id", required "kind"] j = some [given, some kind])
    (hid : ∀ i, given = some i → natBelow? 4294967296 i = some id)
    (hzero : given = none → id = 0) : Decoding.expr (depth + 1) j = exprKind depth id kind := by
  rw [Decoding.expr, hrecord]
  cases given with
  | none =>
      rw [hzero rfl]
      rfl
  | some i =>
      simp only [Option.bind_eq_bind, Option.bind_some, hid i rfl]

lemma stored_ne_null : ∀ (e : Expr) (j : Json), e.Stored j → j ≠ .null
  | number _ _, _, h | boolean _ _, _, h | identifier _ _, _, h | array _ _, _, h
  | unary _ _ _, _, h | binary _ _ _ _, _, h | logical _ _ _ _, _, h | update _ _ _ _, _, h
  | assign _ _ _ _, _, h | call _ _ _, _, h | index _ _ _, _, h | property _ _ _, _, h =>
    h.ne_null

/-- The kind of an expression is read with the id that is stored, or with zero. -/
lemma expr_of_storedAs {kind : String} {p : Json → Prop} {j : Json} (depth : Nat)
    (h : StoredAs kind p j) : ∃ id content, p content ∧
      Decoding.expr (depth + 1) j = exprKind depth id (.choose kind content) := by
  obtain ⟨_, hrecord, _ | @⟨_, given, _, _, hid, _ | ⟨⟨_, rfl, content, rfl, hcontent⟩, ⟨⟩⟩⟩⟩ :=
    record?_of_isRecord [defaulted "id", required "kind"] h
      (.cons (reads_of_presence rfl (by decide)) (.cons (reads_always rfl) .nil))
  have hgiven : ∃ id, (∀ i, given = some i → natBelow? 4294967296 i = some id) ∧
      (given = none → id = 0) := by
    cases given with
    | none => exact ⟨0, fun _ hi => (by cases hi), fun _ => rfl⟩
    | some i =>
        obtain ⟨n, hn, rfl⟩ := hid i rfl
        exact ⟨n, fun i hi => Option.some.inj hi ▸ natBelow?_of_lt hn, fun h => by cases h⟩
  obtain ⟨id, hsome, hnone⟩ := hgiven
  exact ⟨id, content, hcontent, expr_of_record hrecord hsome hnone⟩

/-- An expression is read back, apart from ids, from each of its trees with a given bound. -/
def RestoredWithin (depth : Nat) (e : Expr) : Prop :=
  ∀ j, e.Stored j → ∃ e', Decoding.expr depth j = some e' ∧ e'.erase = e.erase

/-- Expressions are read back one after another with a given bound. -/
def AllRestoredWithin (depth : Nat) (es : List Expr) : Prop :=
  ∀ js, StoredList es js →
    ∃ es', js.mapM (Decoding.expr depth) = some es' ∧ eraseAll es' = eraseAll es

section Wholes

variable {depth : Nat} {id : ExprId} {a b : Expr} {es : List Expr}

lemma array_restored (hes : AllRestoredWithin depth es) :
    RestoredWithin (depth + 3) (array id es) := by
  intro j h
  obtain ⟨id', _, ⟨js, rfl, hjs⟩, hexpr⟩ := expr_of_storedAs (depth + 2) h
  obtain ⟨es', hread, herase⟩ := hes js hjs
  refine ⟨array id' es', ?_, by rw [erase, erase, herase]⟩
  rw [hexpr, exprKind]
  show (exprList (depth + 1) (.array js) >>= fun es => some (array id' es)) = _
  rw [exprList, list?, hread]
  rfl

lemma unary_restored (op : UnaryOp) (ha : RestoredWithin depth a) :
    RestoredWithin (depth + 3) (unary id op a) := by
  intro j h
  obtain ⟨id', _, hcontent, hexpr⟩ := expr_of_storedAs (depth + 2) h
  obtain ⟨_, i, hrecord, rfl, hi⟩ := record?_two hcontent
  obtain ⟨a', hread, ea⟩ := ha i hi
  refine ⟨unary id' op a', ?_, by rw [erase, erase, ea]⟩
  rw [hexpr, exprKind]
  show exprUnary (depth + 1) id' _ = _
  rw [exprUnary, hrecord]
  simp [UnaryOp.ofName?_name, hread]

lemma update_restored (op : UpdateOp) (leading : Bool) (ha : RestoredWithin depth a) :
    RestoredWithin (depth + 3) (update id op leading a) := by
  intro j h
  obtain ⟨id', _, hcontent, hexpr⟩ := expr_of_storedAs (depth + 2) h
  obtain ⟨_, _, i, hrecord, rfl, rfl, hi⟩ := record?_three hcontent
  obtain ⟨a', hread, ea⟩ := ha i hi
  refine ⟨update id' op leading a', ?_, by rw [erase, erase, ea]⟩
  rw [hexpr, exprKind]
  show exprUpdate (depth + 1) id' _ = _
  rw [exprUpdate, hrecord]
  simp [UpdateOp.ofName?_name, bool?, hread]

/-- The record of an operator and two operands: the name of the operator, and trees that
both operands are read back from. -/
lemma operands_restored {content : Json} {op left right : String}
    (ha : RestoredWithin depth a) (hb : RestoredWithin depth b)
    (h : IsRecord [.always "op" (· = .ofString op), .always left a.Stored,
      .always right b.Stored] content) :
    ∃ i j a' b', record? [required "op", required left, required right] content
        = some [some (.ofString op), some i, some j] ∧
      Decoding.expr depth i = some a' ∧ a'.erase = a.erase ∧
      Decoding.expr depth j = some b' ∧ b'.erase = b.erase := by
  obtain ⟨_, i, j, hrecord, rfl, hi, hj⟩ := record?_three h
  obtain ⟨a', hread, ea⟩ := ha i hi
  obtain ⟨b', hread', eb⟩ := hb j hj
  exact ⟨i, j, a', b', hrecord, hread, ea, hread', eb⟩

lemma binary_restored (op : BinaryOp) (ha : RestoredWithin depth a)
    (hb : RestoredWithin depth b) : RestoredWithin (depth + 3) (binary id op a b) := by
  intro j h
  obtain ⟨id', _, hcontent, hexpr⟩ := expr_of_storedAs (depth + 2) h
  obtain ⟨i, j, a', b', hrecord, hi, ea, hj, eb⟩ := operands_restored ha hb hcontent
  refine ⟨binary id' op a' b', ?_, by rw [erase, erase, ea, eb]⟩
  rw [hexpr, exprKind]
  show exprBinary (depth + 1) id' _ = _
  rw [exprBinary, hrecord]
  simp [BinaryOp.ofName?_name, hi, hj]

lemma logical_restored (op : LogicalOp) (ha : RestoredWithin depth a)
    (hb : RestoredWithin depth b) : RestoredWithin (depth + 3) (logical id op a b) := by
  intro j h
  obtain ⟨id', _, hcontent, hexpr⟩ := expr_of_storedAs (depth + 2) h
  obtain ⟨i, j, a', b', hrecord, hi, ea, hj, eb⟩ := operands_restored ha hb hcontent
  refine ⟨logical id' op a' b', ?_, by rw [erase, erase, ea, eb]⟩
  rw [hexpr, exprKind]
  show exprLogical (depth + 1) id' _ = _
  rw [exprLogical, hrecord]
  simp [LogicalOp.ofName?_name, hi, hj]

lemma assign_restored (op : AssignOp) (ha : RestoredWithin depth a)
    (hb : RestoredWithin depth b) : RestoredWithin (depth + 3) (assign id op a b) := by
  intro j h
  obtain ⟨id', _, hcontent, hexpr⟩ := expr_of_storedAs (depth + 2) h
  obtain ⟨i, j, a', b', hrecord, hi, ea, hj, eb⟩ := operands_restored ha hb hcontent
  refine ⟨assign id' op a' b', ?_, by rw [erase, erase, ea, eb]⟩
  rw [hexpr, exprKind]
  show exprAssign (depth + 1) id' _ = _
  rw [exprAssign, hrecord]
  simp [AssignOp.ofName?_name, hi, hj]

/-- The function of a call stands one level above its arguments, which are in an array. -/
lemma call_restored (ha : RestoredWithin (depth + 1) a) (hes : AllRestoredWithin depth es) :
    RestoredWithin (depth + 4) (call id a es) := by
  intro j h
  obtain ⟨id', _, hcontent, hexpr⟩ := expr_of_storedAs (depth + 3) h
  obtain ⟨i, _, hrecord, hi, js, rfl, hjs⟩ := record?_two hcontent
  obtain ⟨a', hread, ea⟩ := ha i hi
  obtain ⟨es', hread', ees⟩ := hes js hjs
  refine ⟨call id' a' es', ?_, by rw [erase, erase, ea, ees]⟩
  rw [hexpr, exprKind]
  show exprCall (depth + 2) id' _ = _
  rw [exprCall, hrecord]
  simp [hread, exprList, list?, hread']

/-- Elements and properties are stored alike: the object is read first, and what is left is
to read the part that is taken of it. -/
lemma expr_of_member {p : Json → Prop} {j : Json} (ha : RestoredWithin (depth + 1) a)
    (h : StoredAs "Member" (IsRecord [.always "object" a.Stored, .always "property" p]) j) :
    ∃ id' a' part, a'.erase = a.erase ∧ p part ∧
      Decoding.expr (depth + 4) j = exprPart (depth + 1) id' a' part := by
  obtain ⟨id', _, hcontent, hexpr⟩ := expr_of_storedAs (depth + 3) h
  obtain ⟨i, part, hrecord, hi, hpart⟩ := record?_two hcontent
  obtain ⟨a', hread, ea⟩ := ha i hi
  refine ⟨id', a', part, ea, hpart, ?_⟩
  rw [hexpr, exprKind]
  show exprMember (depth + 2) id' _ = _
  rw [exprMember, hrecord]
  show (Decoding.expr (depth + 1) i >>= fun a => exprPart (depth + 1) id' a part) = _
  rw [hread]
  rfl

lemma index_restored (ha : RestoredWithin (depth + 1) a) (hb : RestoredWithin depth b) :
    RestoredWithin (depth + 4) (index id a b) := by
  intro j h
  obtain ⟨id', a', _, ea, ⟨i, rfl, hi⟩, hexpr⟩ := expr_of_member ha h
  obtain ⟨b', hread, eb⟩ := hb i hi
  refine ⟨index id' a' b', ?_, by rw [erase, erase, ea, eb]⟩
  rw [hexpr, exprPart]
  show (Decoding.expr depth i >>= fun b => some (index id' a' b)) = _
  rw [hread]
  rfl

lemma property_restored (name : String) (ha : RestoredWithin (depth + 1) a) :
    RestoredWithin (depth + 4) (property id a name) := by
  intro j h
  obtain ⟨id', a', _, ea, ⟨_, rfl, rfl⟩, hexpr⟩ := expr_of_member ha h
  refine ⟨property id' a' name, ?_, by rw [erase, erase, ea]⟩
  rw [hexpr, exprPart]
  rfl

end Wholes

mutual

/-- An expression is read back from any of its trees, apart from ids. Each case takes the
levels that its kind spends from the bound. -/
theorem expr_restores : ∀ (e : Expr) (depth : Nat), e.toJson.depth ≤ depth →
    RestoredWithin depth e
  | number _ x, depth, hd => by
      intro j h
      obtain ⟨depth, rfl⟩ := Nat.exists_eq_add_of_le' (show 2 ≤ depth by simpa [toJson] using hd)
      obtain ⟨id, _, ⟨_, rfl⟩, hexpr⟩ := expr_of_storedAs (depth + 1) h
      refine ⟨number id x, ?_, rfl⟩
      rw [hexpr, exprKind]
      rfl
  | boolean _ b, depth, hd => by
      intro j h
      obtain ⟨depth, rfl⟩ := Nat.exists_eq_add_of_le' (show 2 ≤ depth by simpa [toJson] using hd)
      obtain ⟨id, _, rfl, hexpr⟩ := expr_of_storedAs (depth + 1) h
      refine ⟨boolean id b, ?_, rfl⟩
      rw [hexpr, exprKind]
      rfl
  | identifier _ name, depth, hd => by
      intro j h
      obtain ⟨depth, rfl⟩ := Nat.exists_eq_add_of_le' (show 2 ≤ depth by simpa [toJson] using hd)
      obtain ⟨id, _, rfl, hexpr⟩ := expr_of_storedAs (depth + 1) h
      refine ⟨identifier id name, ?_, rfl⟩
      rw [hexpr, exprKind]
      rfl
  | array _ es, depth, hd => by
      simp [toJson] at hd
      obtain ⟨depth, rfl⟩ := Nat.exists_eq_add_of_le' (show 3 ≤ depth by omega)
      exact array_restored (exprs_restore es depth (by omega))
  | unary _ op a, depth, hd => by
      simp [toJson] at hd
      obtain ⟨depth, rfl⟩ := Nat.exists_eq_add_of_le' (show 3 ≤ depth by omega)
      exact unary_restored op (expr_restores a depth (by omega))
  | binary _ op a b, depth, hd => by
      simp [toJson] at hd
      obtain ⟨depth, rfl⟩ := Nat.exists_eq_add_of_le' (show 3 ≤ depth by omega)
      exact binary_restored op (expr_restores a depth (by omega)) (expr_restores b depth (by omega))
  | logical _ op a b, depth, hd => by
      simp [toJson] at hd
      obtain ⟨depth, rfl⟩ := Nat.exists_eq_add_of_le' (show 3 ≤ depth by omega)
      exact logical_restored op (expr_restores a depth (by omega))
        (expr_restores b depth (by omega))
  | update _ op leading a, depth, hd => by
      simp [toJson] at hd
      obtain ⟨depth, rfl⟩ := Nat.exists_eq_add_of_le' (show 3 ≤ depth by omega)
      exact update_restored op leading (expr_restores a depth (by omega))
  | assign _ op a b, depth, hd => by
      simp [toJson] at hd
      obtain ⟨depth, rfl⟩ := Nat.exists_eq_add_of_le' (show 3 ≤ depth by omega)
      exact assign_restored op (expr_restores a depth (by omega)) (expr_restores b depth (by omega))
  | call _ f arguments, depth, hd => by
      simp [toJson] at hd
      obtain ⟨depth, rfl⟩ := Nat.exists_eq_add_of_le' (show 4 ≤ depth by omega)
      exact call_restored (expr_restores f (depth + 1) (by omega))
        (exprs_restore arguments depth (by omega))
  | index _ a b, depth, hd => by
      simp [toJson] at hd
      obtain ⟨depth, rfl⟩ := Nat.exists_eq_add_of_le' (show 4 ≤ depth by omega)
      exact index_restored (expr_restores a (depth + 1) (by omega))
        (expr_restores b depth (by omega))
  | property _ a name, depth, hd => by
      simp [toJson] at hd
      obtain ⟨depth, rfl⟩ := Nat.exists_eq_add_of_le' (show 4 ≤ depth by omega)
      exact property_restored name (expr_restores a (depth + 1) (by omega))

/-- Expressions are read back one after another. -/
theorem exprs_restore : ∀ (es : List Expr) (depth : Nat), depthList (toJsonList es) ≤ depth →
    AllRestoredWithin depth es
  | [], _, _ => fun _ h => ⟨[], by rw [h]; rfl, rfl⟩
  | e :: rest, depth, hd => by
      rintro _ ⟨j, js, rfl, hj, hjs⟩
      simp [toJsonList] at hd
      obtain ⟨e', he, herase⟩ := expr_restores e depth hd.1 j hj
      obtain ⟨es, hes, herases⟩ := exprs_restore rest depth hd.2 js hjs
      refine ⟨e' :: es, ?_, by rw [eraseAll, eraseAll, herase, herases]⟩
      rw [List.mapM_cons, he, hes]
      rfl

end

end Expr

/-! ### Patterns, parameters and declarators -/

mutual

/-- A pattern is read back. -/
theorem Pattern.pattern_restores : ∀ (p : Pattern) (depth : Nat), p.toJson.depth ≤ depth →
    Decoding.pattern depth p.toJson = some p
  | .identifier _, 0, hd => by simp [toJson] at hd
  | .identifier _, 1, _ => rfl
  | .identifier _, _ + 2, _ => rfl
  | .array elements, depth, hd => by
      simp [toJson] at hd
      obtain ⟨depth, rfl⟩ : ∃ d, depth = d + 2 := ⟨depth - 2, by omega⟩
      show (list? (Decoding.pattern depth) (.array (toJsonList elements)) >>= _) = _
      rw [list?, patterns_restore elements depth (by omega)]
      rfl
  | .object keys, depth, hd => by
      simp [toJson] at hd
      obtain ⟨depth, rfl⟩ : ∃ d, depth = d + 2 := ⟨depth - 2, by omega⟩
      show (list? string? (.array (keys.map ofString)) >>= _) = _
      rw [list?, show (keys.map ofString).mapM string? = some keys from
        mapM_map_of_forall fun _ _ => rfl]
      rfl

/-- Patterns are read back one after another. -/
theorem Pattern.patterns_restore : ∀ (ps : List Pattern) (depth : Nat),
    depthList (Pattern.toJsonList ps) ≤ depth →
    (Pattern.toJsonList ps).mapM (Decoding.pattern depth) = some ps
  | [], _, _ => rfl
  | p :: rest, depth, hd => by
      simp [toJsonList] at hd
      rw [toJsonList, List.mapM_cons, p.pattern_restores depth hd.1,
        patterns_restore rest depth hd.2]
      rfl

end

lemma ValueType.toJson_ne_null (t : ValueType) : t.toJson ≠ .null :=
  fun h => by cases h

lemma ValueType.valueType_toJson (t : ValueType) (depth : Nat) :
    Decoding.valueType depth t.toJson = some t := by
  rw [Decoding.valueType, toJson, bare?_ofString, ofName?_name]

/-- A parameter is read back. -/
lemma Param.restores {p : Param} {j : Json} (depth : Nat) (h : p.Stored j)
    (hd : p.toJson.depth ≤ depth) : Decoding.param depth j = some p := by
  simp [toJson] at hd
  obtain ⟨depth, rfl⟩ : ∃ d, depth = d + 1 := ⟨depth - 1, by omega⟩
  obtain ⟨_, hrecord, _ | ⟨⟨_, rfl, rfl⟩, _ | ⟨hdeclared, ⟨⟩⟩⟩⟩ :=
    record?_of_isRecord [required "pattern", defaulted "annotation"] h
      (.cons (reads_always rfl) (.cons (reads_of_presence rfl (by decide)) .nil))
  rw [Decoding.param, hrecord]
  simp [p.pattern.pattern_restores depth (by omega),
    nullable?_written hdeclared ValueType.toJson_ne_null (ValueType.valueType_toJson · depth)]

/-- Parameters are read back one after another. -/
lemma Param.params_restore {ps : List Param} {js : List Json} (depth : Nat)
    (h : List.Forall₂ Param.Stored ps js) (hd : depthList (ps.map Param.toJson) ≤ depth) :
    js.mapM (Decoding.param depth) = some ps := by
  obtain ⟨ps', hread, heq⟩ := mapM_restores id h fun p hp _ hj =>
    ⟨p, Param.restores depth hj ((depth_le_depthList (List.mem_map_of_mem hp)).trans hd), rfl⟩
  rw [hread, ← List.map_id ps', ← List.map_id ps, heq]

/-- An optional expression is read back. -/
lemma Expr.option_restores {name : String} {e : Option Expr} {v : Option Json} (depth : Nat)
    (h : (Demand.nullable name Expr.Stored e).allows v) (hd : (orNull toJson e).depth ≤ depth) :
    ∃ e', nullable? (Decoding.expr depth) v = some e' ∧ e'.map erase = e.map erase :=
  nullable?_restores erase h stored_ne_null fun x _ hx hj =>
    x.expr_restores depth (by rwa [hx] at hd) _ hj

/-- Declarators are read back one after another. -/
lemma Declarator.declarators_restore {ds : List Declarator} {js : List Json} (depth : Nat)
    (h : List.Forall₂ Declarator.Stored ds js)
    (hd : depthList (ds.map Declarator.toJson) ≤ depth) :
    ∃ ds', js.mapM (Decoding.declarator depth) = some ds' ∧ ds'.map erase = ds.map erase := by
  refine mapM_restores erase h fun d hmem j hj => ?_
  have hdepth := (depth_le_depthList (List.mem_map_of_mem hmem)).trans hd
  simp [toJson] at hdepth
  obtain ⟨depth, rfl⟩ : ∃ d, depth = d + 1 := ⟨depth - 1, by omega⟩
  obtain ⟨_, hrecord, _ | ⟨⟨_, rfl, rfl⟩, _ | ⟨hinit, ⟨⟩⟩⟩⟩ :=
    record?_of_isRecord [required "target", optional "init"] hj
      (.cons (reads_always rfl) (.cons (reads_of_presence rfl (by decide)) .nil))
  obtain ⟨init, hread, heq⟩ := Expr.option_restores depth hinit (by omega)
  refine ⟨⟨d.target, init⟩, ?_, by rw [erase, erase, heq]⟩
  rw [Decoding.declarator, hrecord]
  simp [d.target.pattern_restores depth (by omega), hread]

/-! ### Statements -/

namespace Statement

lemma stored_ne_null : ∀ (s : Statement) (j : Json), s.Stored j → j ≠ .null
  | function _ _ _ _, _, h | declare _ _, _, h | expression _, _, h | ret none, _, h
  | ret (some _), _, h | conditional _ _ _, _, h | whileLoop _ _, _, h | forLoop _ _ _ _, _, h
  | block _, _, h => h.ne_null
  | empty, _, h => h ▸ fun h => by cases h

/-- A statement is read back, apart from ids, from each of its trees with a given bound. -/
def RestoredWithin (depth : Nat) (s : Statement) : Prop :=
  ∀ j, s.Stored j → ∃ s', Decoding.statement depth j = some s' ∧ s'.erase = s.erase

/-- An optional statement is read back with a given bound. -/
def OptionRestoredWithin (depth : Nat) (s : Option Statement) : Prop :=
  ∀ v, StoredOption s v →
    ∃ s', nullable? (Decoding.statement depth) v = some s' ∧ eraseOption s' = eraseOption s

/-- Statements are read back one after another with a given bound. -/
def AllRestoredWithin (depth : Nat) (ss : List Statement) : Prop :=
  ∀ js, StoredList ss js →
    ∃ ss', js.mapM (Decoding.statement depth) = some ss' ∧ eraseAll ss' = eraseAll ss

section Wholes

variable {depth : Nat} {s : Statement} {body : List Statement}

/-- The parameters of a function stand as deep as its body; its name and its return type may
be left out. -/
lemma function_restored {name : Option String} {params : List Param}
    {returnType : Option ValueType} (hparams : depthList (params.map Param.toJson) ≤ depth)
    (hbody : AllRestoredWithin depth body) :
    RestoredWithin (depth + 3) (function name params returnType body) := by
  rintro _ ⟨_, rfl, hcontent⟩
  obtain ⟨_, hrecord, _ | ⟨hname, _ | ⟨⟨_, rfl, ps, rfl, hstored⟩, _ | ⟨hresult,
      _ | ⟨⟨_, rfl, js, rfl, hjs⟩, ⟨⟩⟩⟩⟩⟩⟩ :=
    record?_of_isRecord [optional "name", required "params",
      defaulted "return_type", required "body"] hcontent
      (.cons (reads_of_presence rfl (by decide)) (.cons (reads_always rfl)
        (.cons (reads_of_presence rfl (by decide)) (.cons (reads_always rfl) .nil))))
  obtain ⟨body', hread, herase⟩ := hbody js hjs
  refine ⟨function name params returnType body', ?_, by rw [erase, erase, herase]⟩
  show Decoding.function (depth + 2) _ = _
  rw [Decoding.function, hrecord]
  have hname' : nullable? string? _ = some name :=
    nullable?_written hname (fun _ h => by cases h) fun _ => rfl
  have hresult' := nullable?_written hresult ValueType.toJson_ne_null
    (ValueType.valueType_toJson · (depth + 1))
  have hparams' := Param.params_restore depth hstored hparams
  simp [hname', hresult', hparams', list?, Decoding.statements, hread]

lemma declare_restored {kind : DeclarationKind} {ds : List Declarator}
    (hds : depthList (ds.map Declarator.toJson) ≤ depth) :
    RestoredWithin (depth + 3) (declare kind ds) := by
  rintro _ ⟨_, rfl, hcontent⟩
  obtain ⟨_, _, hrecord, rfl, js, rfl, hstored⟩ := record?_two hcontent
  obtain ⟨ds', hread, herase⟩ := Declarator.declarators_restore depth hstored hds
  refine ⟨declare kind ds', ?_, by rw [erase, erase, herase]⟩
  show declaration (depth + 2) _ = _
  rw [declaration, hrecord]
  simp [DeclarationKind.ofName?_name, list?, hread]

lemma conditional_restored {test : Expr} {alternate : Option Statement}
    (htest : test.RestoredWithin depth) (hs : RestoredWithin depth s)
    (halternate : OptionRestoredWithin depth alternate) :
    RestoredWithin (depth + 2) (conditional test s alternate) := by
  rintro _ ⟨_, rfl, hcontent⟩
  obtain ⟨_, hrecord, _ | ⟨⟨i, rfl, hi⟩, _ | ⟨⟨j, rfl, hj⟩, _ | ⟨hv, ⟨⟩⟩⟩⟩⟩ :=
    record?_of_isRecord [required "test", required "consequent",
      optional "alternate"] hcontent (.cons (reads_always rfl) (.cons (reads_always rfl)
        (.cons (reads_of_presence rfl (by decide)) .nil)))
  obtain ⟨test', ht, et⟩ := htest i hi
  obtain ⟨s', hread, es⟩ := hs j hj
  obtain ⟨o, ho, eo⟩ := halternate _ hv
  refine ⟨conditional test' s' o, ?_, by rw [erase, erase, et, es, eo]⟩
  show Decoding.conditional (depth + 1) _ = _
  rw [Decoding.conditional, hrecord]
  simp [ht, hread, ho]

lemma whileLoop_restored {test : Expr} (htest : test.RestoredWithin depth)
    (hs : RestoredWithin depth s) : RestoredWithin (depth + 2) (whileLoop test s) := by
  rintro _ ⟨_, rfl, hcontent⟩
  obtain ⟨i, j, hrecord, hi, hj⟩ := record?_two hcontent
  obtain ⟨test', ht, et⟩ := htest i hi
  obtain ⟨s', hread, es⟩ := hs j hj
  refine ⟨whileLoop test' s', ?_, by rw [erase, erase, et, es]⟩
  show Decoding.whileLoop (depth + 1) _ = _
  rw [Decoding.whileLoop, hrecord]
  simp [ht, hread]

/-- Three of the four parts of a `for` loop may be left out. -/
lemma forLoop_restored {init : Option Statement} {test update : Option Expr}
    (hinit : OptionRestoredWithin depth init) (htest : (orNull Expr.toJson test).depth ≤ depth)
    (hupdate : (orNull Expr.toJson update).depth ≤ depth) (hs : RestoredWithin depth s) :
    RestoredWithin (depth + 2) (forLoop init test update s) := by
  rintro _ ⟨_, rfl, hcontent⟩
  obtain ⟨_, hrecord, _ | ⟨hi, _ | ⟨ht, _ | ⟨hu, _ | ⟨⟨j, rfl, hj⟩, ⟨⟩⟩⟩⟩⟩⟩ :=
    record?_of_isRecord [optional "init", optional "test", optional "update",
      required "body"] hcontent (.cons (reads_of_presence rfl (by decide))
        (.cons (reads_of_presence rfl (by decide))
        (.cons (reads_of_presence rfl (by decide)) (.cons (reads_always rfl) .nil))))
  obtain ⟨init', hreadInit, ei⟩ := hinit _ hi
  obtain ⟨test', hreadTest, et⟩ := Expr.option_restores depth ht htest
  obtain ⟨update', hreadUpdate, eu⟩ := Expr.option_restores depth hu hupdate
  obtain ⟨s', hread, es⟩ := hs j hj
  refine ⟨forLoop init' test' update' s', ?_, by rw [erase, erase, ei, et, eu, es]⟩
  show Decoding.forLoop (depth + 1) _ = _
  rw [Decoding.forLoop, hrecord]
  simp [hreadInit, hreadTest, hreadUpdate, hread]

end Wholes

mutual

/-- A statement is read back from any of its trees, apart from ids. Each case takes the
levels that its kind spends from the bound. -/
theorem statement_restores : ∀ (s : Statement) (depth : Nat), s.toJson.depth ≤ depth →
    RestoredWithin depth s
  | function name params returnType body, depth, hd => by
      simp [toJson] at hd
      obtain ⟨depth, rfl⟩ := Nat.exists_eq_add_of_le' (show 3 ≤ depth by omega)
      exact function_restored (by omega) (statements_restore body depth (by omega))
  | declare kind ds, depth, hd => by
      simp [toJson] at hd
      obtain ⟨depth, rfl⟩ := Nat.exists_eq_add_of_le' (show 3 ≤ depth by omega)
      exact declare_restored (by omega)
  | expression e, depth, hd => by
      rintro _ ⟨j, rfl, hj⟩
      simp [toJson] at hd
      obtain ⟨depth, rfl⟩ := Nat.exists_eq_add_of_le' (show 1 ≤ depth by omega)
      obtain ⟨e', hread, herase⟩ := e.expr_restores depth (by omega) j hj
      refine ⟨expression e', ?_, by rw [erase, erase, herase]⟩
      show (Decoding.expr depth j >>= fun e => some (expression e)) = _
      rw [hread]
      rfl
  | ret none, depth, hd => by
      rintro _ ⟨_, rfl, rfl⟩
      simp [toJson] at hd
      obtain ⟨depth, rfl⟩ := Nat.exists_eq_add_of_le' (show 1 ≤ depth by omega)
      exact ⟨ret none, rfl, rfl⟩
  | ret (some e), depth, hd => by
      rintro _ ⟨j, rfl, hj⟩
      simp [toJson] at hd
      obtain ⟨depth, rfl⟩ := Nat.exists_eq_add_of_le' (show 1 ≤ depth by omega)
      have hstored : (Demand.nullable "argument" Expr.Stored (some e)).allows (some j) :=
        ⟨j, rfl, hj⟩
      obtain ⟨argument, hread, herase⟩ := Expr.option_restores depth hstored (by omega)
      refine ⟨ret argument, ?_, by rw [erase, erase, herase]⟩
      show (nullable? (Decoding.expr depth) (some j) >>= fun e => some (ret e)) = _
      rw [hread]
      rfl
  | conditional test consequent alternate, depth, hd => by
      simp [toJson] at hd
      obtain ⟨depth, rfl⟩ := Nat.exists_eq_add_of_le' (show 2 ≤ depth by omega)
      exact conditional_restored (test.expr_restores depth (by omega))
        (statement_restores consequent depth (by omega))
        (option_restores alternate depth (by omega))
  | whileLoop test body, depth, hd => by
      simp [toJson] at hd
      obtain ⟨depth, rfl⟩ := Nat.exists_eq_add_of_le' (show 2 ≤ depth by omega)
      exact whileLoop_restored (test.expr_restores depth (by omega))
        (statement_restores body depth (by omega))
  | forLoop init test update body, depth, hd => by
      simp [toJson] at hd
      obtain ⟨depth, rfl⟩ := Nat.exists_eq_add_of_le' (show 2 ≤ depth by omega)
      exact forLoop_restored (option_restores init depth (by omega)) (by omega) (by omega)
        (statement_restores body depth (by omega))
  | block body, depth, hd => by
      rintro _ ⟨_, rfl, js, rfl, hjs⟩
      simp [toJson] at hd
      obtain ⟨depth, rfl⟩ := Nat.exists_eq_add_of_le' (show 2 ≤ depth by omega)
      obtain ⟨body', hread, herase⟩ := statements_restore body depth (by omega) js hjs
      refine ⟨block body', ?_, by rw [erase, erase, herase]⟩
      show (js.mapM (Decoding.statement depth) >>= fun body => some (block body)) = _
      rw [hread]
      rfl
  | empty, depth, _ => by
      rintro _ rfl
      cases depth with
      | zero => exact ⟨empty, rfl, rfl⟩
      | succ depth => exact ⟨empty, rfl, rfl⟩

/-- An optional statement is read back. -/
theorem option_restores : ∀ (s : Option Statement) (depth : Nat),
    (toJsonOption s).depth ≤ depth → OptionRestoredWithin depth s
  | none, _, _ => by
      rintro _ (rfl | rfl)
      · exact ⟨none, rfl, rfl⟩
      · exact ⟨none, rfl, rfl⟩
  | some s, depth, hd => by
      rintro _ ⟨j, rfl, hj⟩
      obtain ⟨s', hread, herase⟩ := statement_restores s depth hd j hj
      refine ⟨some s', ?_, by rw [eraseOption, eraseOption, herase]⟩
      rw [nullable?, hread]
      · rfl
      · exact stored_ne_null s j hj

/-- Statements are read back one after another. -/
theorem statements_restore : ∀ (ss : List Statement) (depth : Nat),
    depthList (toJsonList ss) ≤ depth → AllRestoredWithin depth ss
  | [], _, _ => fun _ h => ⟨[], by rw [h]; rfl, rfl⟩
  | s :: rest, depth, hd => by
      rintro _ ⟨j, js, rfl, hj, hjs⟩
      simp [toJsonList] at hd
      obtain ⟨s', hs, es⟩ := statement_restores s depth hd.1 j hj
      obtain ⟨rest', hrest, erest⟩ := statements_restore rest depth hd.2 js hjs
      refine ⟨s' :: rest', ?_, by rw [eraseAll, eraseAll, es, erest]⟩
      rw [List.mapM_cons, hs, hrest]
      rfl

end

end Statement

/-- A program is read back from any of its trees, apart from ids. -/
theorem Program.program_restores {p : Program} {j : Json} {depth : Nat} (h : p.Stored j)
    (hd : p.toJson.depth ≤ depth) :
    ∃ p', Decoding.program depth j = some p' ∧ p'.erase = p.erase := by
  simp [toJson] at hd
  obtain ⟨depth, rfl⟩ : ∃ d, depth = d + 2 := ⟨depth - 2, by omega⟩
  obtain ⟨_, hrecord, _ | ⟨⟨_, rfl, js, rfl, hjs⟩, ⟨⟩⟩⟩ :=
    record?_of_isRecord [required "body"] h (.cons (reads_always rfl) .nil)
  obtain ⟨body, hread, herase⟩ := Statement.statements_restore p.body depth (by omega) js hjs
  refine ⟨⟨body⟩, ?_, by rw [erase, erase, herase]⟩
  rw [Decoding.program, hrecord]
  simp [Decoding.statements, list?, hread]

/-! ### Signatures -/

/-- A signature is read back. -/
lemma Signature.restores {s : Signature} {j : Json} (depth : Nat) (h : s.Stored j) :
    Decoding.signature (depth + 2) j = some s := by
  obtain ⟨_, _, hrecord, rfl, rfl⟩ := record?_two h
  rw [Decoding.signature, hrecord]
  simp [list?, mapM_map_of_forall fun t _ => ValueType.valueType_toJson t depth,
    ValueType.valueType_toJson]

/-- A table of signatures is read back, its entries in the order in which they stand in
the tree. -/
theorem SignatureTable.signatureTable_restores {t : SignatureTable} {j : Json} (depth : Nat)
    (h : t.StoredInOrder j) (hn : t.keys.Nodup) :
    Decoding.signatureTable (depth + 3) j = some t := by
  obtain ⟨fields, rfl, hfields⟩ := h
  obtain ⟨entries⟩ := t
  have hread : (fields.map fun field => (some field.1, field.2)).mapM
      (Decoding.signatureField (depth + 2)) = some entries := by
    clear hn
    change List.Forall₂ _ entries fields at hfields
    induction hfields with
    | nil => rfl
    | @cons entry field entries fields h _ ih =>
        rw [List.map_cons, List.mapM_cons, ih, Decoding.signatureField,
          Signature.restores depth h.2, h.1]
        rfl
  show ((fields.map fun field => (some field.1, field.2)).mapM
    (Decoding.signatureField (depth + 2)) >>= fun entries => some (Table.ofList entries)) = _
  rw [hread]
  exact congrArg some (Table.ofList_of_nodup hn)

end ArrayScript
