import Mathlib.Tactic
import ArrayScript.Lowering.Selection

/-!
How validation follows code.

* `code?_append`: code is followed piece by piece.
* `Pushes v c t`: whatever operands there are, `c` leaves them and puts one of type `t`
  on top. `Keeps v c` is the same without the new one.
* `Passes v c`: where no operands are known, `c` can be followed and none are known
  afterwards, though a part of the code may have become unreachable.
* `code?_inRange`: code that can be followed mentions only variables, labels and
  functions that exist, and memory only where there is one.
-/

namespace ArrayScript.Validation

open Lowering

variable {v : Context} {s : Operands}

/-! ### Operands -/

@[simp] lemma Operands.popAny?_push (s : Operands) (t : WordType) :
    (s.push t).popAny? = some (some t, s) := rfl

@[simp] lemma Operands.pop?_push (s : Operands) (t : WordType) : (s.push t).pop? t = some s := by
  simp [pop?]

@[simp] lemma Operands.popAll?_nil (s : Operands) : s.popAll? [] = some s := rfl

/-- The operands that are taken first were put last. -/
lemma Operands.popAll?_append (s : Operands) (l r : List WordType) :
    s.popAll? (l ++ r) = s.popAll? r >>= fun s => s.popAll? l := by
  simp [popAll?, List.foldlM_append]

/-- Operands that were put one after the other can be taken together. -/
lemma Operands.popAll?_foldl_push (s : Operands) (types : List WordType) :
    (types.foldl push s).popAll? types = some s := by
  induction types using List.reverseRecOn with
  | nil => rfl
  | append_singleton rest t ih =>
      rw [List.foldl_append, popAll?_append]
      simp only [popAll?, List.foldl_cons, List.foldl_nil, List.reverse_cons, List.reverse_nil,
        List.nil_append, List.foldlM_cons, List.foldlM_nil, pop?_push, Option.bind_eq_bind,
        Option.bind_some, Option.pure_def]
      exact ih

@[simp] lemma Operands.popAll?_one (s : Operands) (t : WordType) :
    (s.push t).popAll? [t] = some s :=
  popAll?_foldl_push s [t]

@[simp] lemma Operands.popAll?_two (s : Operands) (t u : WordType) :
    ((s.push t).push u).popAll? [t, u] = some s :=
  popAll?_foldl_push s [t, u]

/-- A variable is put on top with its type. -/
lemma op?_localGet {slot : Nat} {t : WordType} (h : v.slotTypes[slot]? = some t) :
    op? v s (.localGet slot) = some (s.push t) := by
  simp [op?, h]

/-- A choice between two operands of one type. -/
@[simp] lemma op?_select (v : Context) (s : Operands) (t : WordType) :
    op? v (((s.push t).push t).push .i32) .select = some (s.push t) := by
  simp [op?, unify?]
  rfl

/-! ### Code -/

/-- Code is followed piece by piece. -/
lemma code?_append (v : Context) (s : Operands) (c c' : Code) :
    code? v s (c ++ c') = code? v s c >>= fun s => code? v s c' := by
  induction c generalizing s with
  | nil => simp [code?]
  | cons i rest ih =>
      simp only [List.cons_append, code?, Option.bind_eq_bind, Option.bind_assoc]
      simp only [ih, Option.bind_eq_bind]

lemma code?_nil (v : Context) (s : Operands) : code? v s [] = some s := by
  rw [code?]

lemma code?_singleton (v : Context) (s : Operands) (i : Instr) :
    code? v s [i] = instr? v s i := by
  simp [code?]

/-- Plain operations are followed one after the other. -/
lemma code?_plain (v : Context) (s : Operands) (ops : List Op) :
    code? v s (plain ops) = ops.foldlM (op? v) s := by
  induction ops generalizing s with
  | nil => simp [plain, code?]
  | cons o rest ih =>
      simp only [plain, List.map_cons, code?, instr?, List.foldlM_cons]
      simp only [plain] at ih
      simp only [ih]

/-- The code leaves the operands and puts one more on top. -/
def Pushes (v : Context) (c : Code) (t : WordType) : Prop :=
  ∀ s, code? v s c = some (s.push t)

/-- The code leaves the operands. -/
def Keeps (v : Context) (c : Code) : Prop :=
  ∀ s, code? v s c = some s

/-- Where no operands are known, the code can be followed to where none are known. -/
def Passes (v : Context) (c : Code) : Prop :=
  ∀ reach, ∃ reach', code? v ⟨[], reach⟩ c = some ⟨[], reach'⟩

lemma Keeps.nil : Keeps v [] := code?_nil v

/-- If no operands are known, none are known afterwards. -/
lemma Keeps.passes {c : Code} (h : Keeps v c) : Passes v c :=
  fun reach => ⟨reach, h _⟩

lemma Passes.append {c c' : Code} (h : Passes v c) (h' : Passes v c') : Passes v (c ++ c') := by
  intro reach
  obtain ⟨mid, hmid⟩ := h reach
  obtain ⟨last, hlast⟩ := h' mid
  refine ⟨last, ?_⟩
  rw [code?_append, hmid]
  exact hlast

lemma Keeps.append {c c' : Code} (h : Keeps v c) (h' : Keeps v c') : Keeps v (c ++ c') := by
  intro s
  rw [code?_append, h]
  exact h' s

/-- Code that ends with no known operands is the body of a block. -/
lemma endsWith_nil (reach : Bool) : (Operands.mk [] reach).endsWith [] = true := rfl

/-- A block or loop around code that passes leaves the operands. -/
lemma keeps_block {body : Code} (h : Passes v.enter body) : Keeps v [.block body] := by
  intro s
  obtain ⟨reach, hreach⟩ := h false
  have hbody : code? v.enter .empty body = some ⟨[], reach⟩ := hreach
  rw [code?_singleton, instr?, hbody]
  rfl

lemma keeps_loop {body : Code} (h : Passes v.enter body) : Keeps v [.loop body] := by
  intro s
  obtain ⟨reach, hreach⟩ := h false
  have hbody : code? v.enter .empty body = some ⟨[], reach⟩ := hreach
  rw [code?_singleton, instr?, hbody]
  rfl

/-- A choice between pieces of code that pass takes the condition. -/
lemma code?_choice {consequent : Code} {alternate : Option Code}
    (h : Passes v.enter consequent) (h' : ∀ code, alternate = some code → Passes v.enter code)
    (s : Operands) : code? v (s.push .i32) [.choice consequent alternate] = some s := by
  obtain ⟨reach, hreach⟩ := h false
  have hfirst : code? v.enter .empty consequent = some ⟨[], reach⟩ := hreach
  obtain ⟨reach', hsecond⟩ : ∃ reach', alternate? v.enter alternate = some ⟨[], reach'⟩ := by
    cases alternate with
    | none => exact ⟨false, by rw [alternate?]; rfl⟩
    | some code =>
        obtain ⟨reach', hreach'⟩ := h' code rfl false
        exact ⟨reach', by rw [alternate?]; exact hreach'⟩
  rw [code?_singleton, instr?, Operands.pop?_push]
  simp only [Option.bind_eq_bind, Option.bind_some, hfirst, hsecond, endsWith_nil]
  rfl

/-! ### Ranges -/

/-- An operation mentions only variables, functions and labels that exist, and memory
only where there is one. -/
def OpInRange (v : Context) : Op → Prop
  | .localGet slot | .localSet slot | .localTee slot => slot < v.slotTypes.length
  | .call index => index < v.functions.length
  | .br depth | .brIf depth => depth < v.labels.length
  | .load _ | .store _ => v.hasMemory = true
  | _ => True

mutual

/-- All operations in an instruction are in range, each at its place. -/
def InstrInRange (v : Context) : Instr → Prop
  | .plain op => OpInRange v op
  | .block body | .loop body => CodeInRange v.enter body
  | .choice consequent alternate =>
    CodeInRange v.enter consequent ∧ AlternateInRange v.enter alternate

/-- All operations in the second body of a choice are in range. -/
def AlternateInRange (v : Context) : Option (List Instr) → Prop
  | none => True
  | some body => CodeInRange v body

/-- All operations in code are in range. -/
def CodeInRange (v : Context) : List Instr → Prop
  | [] => True
  | i :: rest => InstrInRange v i ∧ CodeInRange v rest

end

/-- An operation that can be followed is in range. -/
lemma op?_inRange {s s' : Operands} {op : Op} (h : op? v s op = some s') : OpInRange v op := by
  have hslot : ∀ {slot : Nat} {f : WordType → Option Operands},
      (v.slotTypes[slot]? >>= f) = some s' → slot < v.slotTypes.length := fun hf => by
    obtain ⟨t, ht, _⟩ := Option.bind_eq_some_iff.mp hf
    exact (List.getElem?_eq_some_iff.mp ht).1
  have hmemory : ∀ {f : Unit → Option Operands},
      ((guard (v.hasMemory = true) : Option Unit) >>= f) = some s' → v.hasMemory = true :=
    fun hf => by
      obtain ⟨_, hg, _⟩ := Option.bind_eq_some_iff.mp hf
      by_contra hno
      rw [guard, if_neg hno] at hg
      cases hg
  cases op with
  | localGet slot => exact hslot h
  | localSet slot => exact hslot h
  | localTee slot => exact hslot h
  | load t => exact hmemory h
  | store t => exact hmemory h
  | call index =>
      obtain ⟨r, hr, _⟩ := Option.bind_eq_some_iff.mp h
      exact (List.getElem?_eq_some_iff.mp hr).1
  | br depth =>
      obtain ⟨r, hr, _⟩ := Option.bind_eq_some_iff.mp h
      exact (List.getElem?_eq_some_iff.mp hr).1
  | brIf depth =>
      obtain ⟨r, hr, _⟩ := Option.bind_eq_some_iff.mp h
      exact (List.getElem?_eq_some_iff.mp hr).1
  | _ => trivial

mutual

/-- An instruction that can be followed is in range, with all that is inside it. -/
theorem instr?_inRange : ∀ (i : Instr) {v : Context} {s s' : Operands},
    instr? v s i = some s' → InstrInRange v i
  | .plain op, v, s, s', h => by
      rw [instr?] at h
      exact op?_inRange h
  | .block body, v, s, s', h => by
      rw [instr?] at h
      obtain ⟨inner, hinner, _⟩ := Option.bind_eq_some_iff.mp h
      exact code?_inRange body hinner
  | .loop body, v, s, s', h => by
      rw [instr?] at h
      obtain ⟨inner, hinner, _⟩ := Option.bind_eq_some_iff.mp h
      exact code?_inRange body hinner
  | .choice consequent alternate, v, s, s', h => by
      rw [instr?] at h
      obtain ⟨_, _, h⟩ := Option.bind_eq_some_iff.mp h
      obtain ⟨inner, hinner, h⟩ := Option.bind_eq_some_iff.mp h
      obtain ⟨other, hother, _⟩ := Option.bind_eq_some_iff.mp h
      exact ⟨code?_inRange consequent hinner, alternate?_inRange alternate hother⟩

theorem alternate?_inRange : ∀ (c : Option (List Instr)) {v : Context} {s : Operands},
    alternate? v c = some s → AlternateInRange v c
  | none, _, _, _ => trivial
  | some body, v, s, h => by
      rw [alternate?] at h
      exact code?_inRange body h

/-- Code that can be followed is in range. -/
theorem code?_inRange : ∀ (c : List Instr) {v : Context} {s s' : Operands},
    code? v s c = some s' → CodeInRange v c
  | [], _, _, _, _ => trivial
  | i :: rest, v, s, s', h => by
      rw [code?] at h
      obtain ⟨mid, hmid, hrest⟩ := Option.bind_eq_some_iff.mp h
      exact ⟨instr?_inRange i hmid, code?_inRange rest hrest⟩

end

end ArrayScript.Validation
