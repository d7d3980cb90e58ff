import ArrayScript.Code.Instruction
import ArrayScript.Proofs.Syntax.Walk
import ArrayScript.Signature

/-!
Heights of the operand stack, nesting and branches in a flat listing.

* `heights`: how many values are on the operand stack after a listing, if never one is
  missing. A call takes as many as the signature has parameters that is found under the
  name of the called function; a listing has only indices, so the names are given.
* `Nested`: every block is closed by its own end.
* `openBlocks`: where the blocks begin that are open after a listing. The target of a
  branch is found among them.
* `Laid`: how a statement is laid out. A loop is left by a branch to the block inside it,
  and starts anew by a branch to itself.
-/

namespace ArrayScript.Flat

/-! ### Heights -/

/-- How many values an operation takes from the stack and how many it puts there. It depends
on the function how many a call takes. -/
def effectOf : Op → Option (Nat × Nat)
  | .i32Const _ | .f64Const _ | .localGet _ => some (0, 1)
  | .i32Eqz | .f64Neg | .f64ConvertI32 | .i32TruncSatF64 | .localTee _ | .load _ => some (1, 1)
  | .int _ | .float _ => some (2, 1)
  | .select => some (3, 1)
  | .localSet _ | .drop | .ret | .brIf _ => some (1, 0)
  | .store _ => some (2, 0)
  | .br _ => some (0, 0)
  | .call _ => none

/-- The height after some values were taken and others put. -/
def shifted (effect : Nat × Nat) (h : Nat) : Option Nat :=
  if effect.1 ≤ h then some (h - effect.1 + effect.2) else none

/-- The height after an instruction, the names of the functions that are yet to be called
being kept with it. -/
def markHeight (table : SignatureTable) : Mark → List String × Nat → Option (List String × Nat)
  | .op (.call _), (name :: names, h) =>
    (table.find? name).bind fun s => (shifted (s.arity, 1) h).map (names, ·)
  | .op op, (names, h) => ((effectOf op).bind (shifted · h)).map (names, ·)
  | .ifMark, (names, h) => (shifted (1, 0) h).map (names, ·)
  | .block, c | .loop, c | .elseMark, c | .endMark, c => some c

/-- The height after a listing. -/
def heights (table : SignatureTable) : List Mark → List String × Nat → Option (List String × Nat)
  | [], c => some c
  | m :: rest, c => (markHeight table m c).bind (heights table rest)

section Heights

variable {table : SignatureTable} {c c' c'' : List String × Nat}

lemma heights_cons {m : Mark} {code : List Mark} (h : markHeight table m c = some c')
    (h' : heights table code c' = some c'') : heights table (m :: code) c = some c'' := by
  rw [heights, h, Option.bind_some, h']

lemma heights_append {code code' : List Mark} (h : heights table code c = some c')
    (h' : heights table code' c' = some c'') : heights table (code ++ code') c = some c'' := by
  induction code generalizing c with
  | nil =>
      obtain rfl := Option.some.inj h
      exact h'
  | cons m rest ih =>
      obtain ⟨d, hm, hrest⟩ := Option.bind_eq_some_iff.mp h
      exact heights_cons hm (ih hrest)

lemma shifted_above {effect : Nat × Nat} {h h' : Nat} (k : Nat)
    (he : shifted effect h = some h') : shifted effect (h + k) = some (h' + k) := by
  rw [shifted] at he ⊢
  split at he
  · cases he
    rw [if_pos (by omega)]
    congr 1
    omega
  · cases he

lemma shifted_add (taken given h : Nat) :
    shifted (taken, given) (h + taken) = some (h + given) := by
  rw [shifted, if_pos (Nat.le_add_left _ _), Nat.add_sub_cancel]

lemma eq_call_of_effectOf {op : Op} (h : effectOf op = none) : ∃ index, op = .call index := by
  cases op <;> first | exact ⟨_, rfl⟩ | cases h

lemma markHeight_op {op : Op} {effect : Nat × Nat} (h : effectOf op = some effect)
    (names : List String) (height : Nat) :
    markHeight table (.op op) (names, height) = (shifted effect height).map (names, ·) := by
  cases op <;> first | cases h; done | simp only [markHeight, h, Option.bind_some]

lemma markHeight_call {index : Nat} {name : String} {s : Signature} {taken : Nat}
    (hs : table.find? name = some s) (htaken : taken = s.arity) (names : List String) (h : Nat) :
    markHeight table (.op (.call index)) (name :: names, h + taken) = some (names, h + 1) := by
  rw [markHeight, hs, Option.bind_some, htaken, shifted_add, Option.map_some]

lemma map_shifted_above {effect : Nat × Nat} {names names' : List String} {h h' : Nat}
    (more : List String) (k : Nat)
    (he : (shifted effect h).map (names, ·) = some (names', h')) :
    (shifted effect (h + k)).map (names ++ more, ·) = some (names' ++ more, h' + k) := by
  obtain ⟨h₁, hh, heq⟩ := Option.map_eq_some_iff.mp he
  cases heq
  rw [shifted_above k hh, Option.map_some]

lemma markHeight_above {m : Mark} {names names' : List String} {h h' : Nat}
    (more : List String) (k : Nat) (hm : markHeight table m (names, h) = some (names', h')) :
    markHeight table m (names ++ more, h + k) = some (names' ++ more, h' + k) := by
  cases m with
  | op o =>
      cases ho : effectOf o with
      | some effect =>
          rw [markHeight_op ho] at hm ⊢
          exact map_shifted_above more k hm
      | none =>
          obtain ⟨index, rfl⟩ := eq_call_of_effectOf ho
          cases names with
          | nil => cases hm
          | cons name names =>
              obtain ⟨s, hs, hm⟩ := Option.bind_eq_some_iff.mp hm
              rw [List.cons_append, markHeight, hs, Option.bind_some]
              exact map_shifted_above more k hm
  | ifMark => exact map_shifted_above more k hm
  | block | loop | elseMark | endMark =>
      cases hm
      rfl

/-- Values further down, and calls further on, make no difference. -/
lemma heights_above {code : List Mark} {names names' : List String} {h h' : Nat}
    (more : List String) (k : Nat) (hcode : heights table code (names, h) = some (names', h')) :
    heights table code (names ++ more, h + k) = some (names' ++ more, h' + k) := by
  induction code generalizing names h with
  | nil =>
      cases hcode
      rfl
  | cons m rest ih =>
      obtain ⟨⟨names₁, h₁⟩, hm, hrest⟩ := Option.bind_eq_some_iff.mp hcode
      exact heights_cons (markHeight_above more k hm) (ih hrest)

/-- Code that leaves one value on the empty stack leaves one on any stack. -/
lemma heights_value {code : List Mark} {names : List String}
    (hcode : heights table code (names ++ [], 0) = some ([], 1)) (more : List String) (k : Nat) :
    heights table code (names ++ more, k) = some (more, k + 1) := by
  have habove := heights_above more k hcode
  rwa [List.append_nil, List.nil_append, Nat.zero_add, Nat.add_comm 1] at habove

end Heights

/-! ### Nesting -/

/-- Every block is closed by its own end, and a choice has at most two parts. -/
inductive Nested : List Mark → Prop
  | nil : Nested []
  | op (o : Op) : Nested [.op o]
  | append {code code' : List Mark} (left : Nested code) (right : Nested code') :
      Nested (code ++ code')
  | block {body : List Mark} (inside : Nested body) : Nested (.block :: (body ++ [.endMark]))
  | loop {body : List Mark} (inside : Nested body) : Nested (.loop :: (body ++ [.endMark]))
  | choice {first : List Mark} (inside : Nested first) :
      Nested (.ifMark :: (first ++ [.endMark]))
  | choiceElse {first second : List Mark} (inside : Nested first) (otherwise : Nested second) :
      Nested (.ifMark :: (first ++ .elseMark :: (second ++ [.endMark])))

/-- The positions at which the open blocks begin, the innermost first, after an
instruction at some position. -/
def opensAfter (position : Nat) (opened : List Nat) : Mark → List Nat
  | .block | .loop | .ifMark => position :: opened
  | .endMark => opened.tail
  | .op _ | .elseMark => opened

/-- The open blocks after a listing that begins at a position. -/
def openBlocksFrom : (position : Nat) → (opened : List Nat) → List Mark → List Nat
  | _, opened, [] => opened
  | position, opened, m :: rest => openBlocksFrom (position + 1) (opensAfter position opened m) rest

/-- Where the blocks begin that are open after a listing. -/
def openBlocks (marks : List Mark) : List Nat :=
  openBlocksFrom 0 [] marks

/-- Where the block begins to which a branch belongs that stands after a listing. -/
def branchTarget (before : List Mark) (depth : Nat) : Option Nat :=
  (openBlocks before)[depth]?

lemma openBlocksFrom_append (position : Nat) (opened : List Nat) (code code' : List Mark) :
    openBlocksFrom position opened (code ++ code')
      = openBlocksFrom (position + code.length) (openBlocksFrom position opened code) code' := by
  induction code generalizing position opened with
  | nil => rfl
  | cons m rest ih =>
      rw [List.cons_append, openBlocksFrom, ih, openBlocksFrom, List.length_cons,
        Nat.add_right_comm, Nat.add_assoc]

/-- Well nested code leaves the open blocks as they are. -/
lemma Nested.openBlocksFrom_eq {code : List Mark} (h : Nested code) (position : Nat)
    (opened : List Nat) : openBlocksFrom position opened code = opened := by
  induction h generalizing position opened with
  | nil => rfl
  | op o => rfl
  | append _ _ ihl ihr => rw [openBlocksFrom_append, ihl, ihr]
  | block _ ih | loop _ ih | choice _ ih =>
      rw [openBlocksFrom, openBlocksFrom_append, ih]
      rfl
  | choiceElse _ _ ih ih' =>
      rw [openBlocksFrom, openBlocksFrom_append, ih, openBlocksFrom, openBlocksFrom_append]
      simp only [opensAfter]
      rw [ih']
      rfl

lemma openBlocks_append {before code : List Mark} (h : Nested code) :
    openBlocks (before ++ code) = openBlocks before := by
  rw [openBlocks, openBlocksFrom_append, h.openBlocksFrom_eq, openBlocks]

lemma openBlocks_loop (before : List Mark) :
    openBlocks (before ++ [.loop, .block])
      = (before.length + 1) :: before.length :: openBlocks before := by
  rw [openBlocks, openBlocksFrom_append, Nat.zero_add]
  rfl

/-! ### The layout of statements -/

/-- An operation that does not branch. -/
def IsStraight : Mark → Prop
  | .op (.br _) | .op (.brIf _) => False
  | .op _ => True
  | .block | .loop | .ifMark | .elseMark | .endMark => False

/-- Code without blocks and branches. -/
def Straight (code : List Mark) : Prop :=
  ∀ m ∈ code, IsStraight m

lemma Straight.nested {code : List Mark} (h : Straight code) : Nested code := by
  induction code with
  | nil => exact .nil
  | cons m rest ih =>
      obtain ⟨hm, hrest⟩ := List.forall_mem_cons.mp h
      cases m with
      | op o => exact (Nested.op o).append (ih hrest)
      | _ => exact hm.elim

lemma Straight.append {code code' : List Mark} (h : Straight code) (h' : Straight code') :
    Straight (code ++ code') :=
  List.forall_mem_append.mpr ⟨h, h'⟩

/-- How a loop is left. Its negated test is followed by a branch to the block that begins at
the given position; without a test there is none. -/
def LaidExit (block : Nat) (before : List Mark) : Option Expr → List Mark → Prop
  | none, exit => exit = []
  | some _, exit => ∃ condition, exit = condition ++ [.op (.brIf 0)] ∧ Straight condition ∧
      branchTarget (before ++ condition) 0 = some block

/-- How a loop is laid out: a block inside a loop, a way out to that block, a round, and a
branch to that loop. -/
def LaidLoop (test : Option Expr) (round : List Mark → List Mark → Prop)
    (before code : List Mark) : Prop :=
  ∃ exit inside, code = .loop :: .block :: (exit ++ (inside ++ [.op (.br 1), .endMark, .endMark])) ∧
    LaidExit (before.length + 1) (before ++ [.loop, .block]) test exit ∧
    round (before ++ .loop :: .block :: exit) inside ∧
    branchTarget (before ++ .loop :: .block :: (exit ++ inside)) 1 = some before.length

/-- How a choice is laid out: its parts between its marks. -/
def LaidChoice (first second : List Mark → List Mark → Prop) (before code : List Mark) : Prop :=
  ∃ test c d, code = test ++ .ifMark :: (c ++ (d ++ [.endMark])) ∧ Straight test ∧
    first (before ++ (test ++ [.ifMark])) c ∧ second (before ++ (test ++ .ifMark :: c)) d

/-- One piece of code after another. -/
def Followed (first second : List Mark → List Mark → Prop) (before code : List Mark) : Prop :=
  ∃ c d, code = c ++ d ∧ first before c ∧ second (before ++ c) d

/-- The step at the end of a loop's body is straight, and empty if there is none. -/
def LaidStep : Option Expr → List Mark → List Mark → Prop
  | none, _, code => code = []
  | some _, _, code => Straight code

mutual

/-- How a statement is laid out after some code. -/
def Laid : Statement → List Mark → List Mark → Prop
  | .function _ _ _ _ => fun _ _ => False
  | .declare _ _ | .expression _ | .ret _ => fun _ => Straight
  | .conditional _ consequent alternate => LaidChoice (Laid consequent) (LaidElse alternate)
  | .whileLoop test body => LaidLoop (some test) (Followed (Laid body) (LaidStep none))
  | .forLoop init test update body =>
    Followed (LaidFirst init) (LaidLoop test (Followed (Laid body) (LaidStep update)))
  | .block body => LaidList body
  | .empty => fun _ code => code = []

/-- How the second part of a choice is laid out. -/
def LaidElse : Option Statement → List Mark → List Mark → Prop
  | none => fun _ code => code = []
  | some s => fun before code =>
    ∃ inside, code = .elseMark :: inside ∧ Laid s (before ++ [.elseMark]) inside

/-- How the statement before a loop is laid out. -/
def LaidFirst : Option Statement → List Mark → List Mark → Prop
  | none => fun _ code => code = []
  | some s => Laid s

/-- How statements are laid out one after the other. -/
def LaidList : List Statement → List Mark → List Mark → Prop
  | [] => fun _ code => code = []
  | s :: rest => Followed (Laid s) (LaidList rest)

end

lemma LaidExit.nested {block : Nat} {before exit : List Mark} {test : Option Expr}
    (h : LaidExit block before test exit) : Nested exit := by
  cases test with
  | none =>
      obtain rfl := h
      exact .nil
  | some test =>
      obtain ⟨condition, rfl, hcondition, -⟩ := h
      exact hcondition.nested.append (.op (.brIf 0))

lemma LaidStep.nested {step : Option Expr} {before code : List Mark}
    (h : LaidStep step before code) : Nested code := by
  cases step with
  | none =>
      obtain rfl := h
      exact .nil
  | some e => exact Straight.nested h

lemma LaidLoop.nested {before code : List Mark} {test : Option Expr}
    {round : List Mark → List Mark → Prop} (h : LaidLoop test round before code)
    (hround : ∀ before inside, round before inside → Nested inside) : Nested code := by
  obtain ⟨exit, inside, rfl, hexit, hinside, -⟩ := h
  have hbody : Nested (exit ++ (inside ++ [.op (.br 1)])) :=
    hexit.nested.append ((hround _ _ hinside).append (.op (.br 1)))
  simpa using Nested.loop (.block hbody)

lemma Followed.nested {first second : List Mark → List Mark → Prop} {before code : List Mark}
    (h : Followed first second before code) (hfirst : ∀ before c, first before c → Nested c)
    (hsecond : ∀ before d, second before d → Nested d) : Nested code := by
  obtain ⟨c, d, rfl, hc, hd⟩ := h
  exact (hfirst _ _ hc).append (hsecond _ _ hd)

mutual

/-- A statement is laid out so that every block is closed by its own end. -/
theorem Laid.nested : ∀ {s : Statement} {before code : List Mark}, Laid s before code → Nested code
  | .function _ _ _ _, _, _, h => h.elim
  | .declare _ _, _, _, h | .expression _, _, _, h | .ret _, _, _, h => Straight.nested h
  | .conditional _ consequent none, _, _, h => by
      obtain ⟨test, first, second, rfl, htest, hfirst, rfl⟩ := h
      exact htest.nested.append (.choice hfirst.nested)
  | .conditional _ consequent (some alternate), _, _, h => by
      obtain ⟨test, first, second, rfl, htest, hfirst, inside, rfl, hinside⟩ := h
      exact htest.nested.append (.choiceElse hfirst.nested hinside.nested)
  | .whileLoop _ body, _, _, h => LaidLoop.nested h fun _ _ hround =>
      hround.nested (fun _ _ hbody => hbody.nested) fun _ _ hstep => hstep.nested
  | .forLoop none _ _ body, _, _, h => Followed.nested h (fun _ _ hfirst => hfirst ▸ .nil)
      fun _ _ hloop => hloop.nested fun _ _ hround =>
        hround.nested (fun _ _ hbody => hbody.nested) fun _ _ hstep => hstep.nested
  | .forLoop (some init) _ _ body, _, _, h => Followed.nested h (fun _ _ hinit => Laid.nested hinit)
      fun _ _ hloop => hloop.nested fun _ _ hround =>
        hround.nested (fun _ _ hbody => hbody.nested) fun _ _ hstep => hstep.nested
  | .block body, _, _, h => LaidList.nested h
  | .empty, _, _, h => by
      obtain rfl := h
      exact .nil

theorem LaidList.nested : ∀ {body : List Statement} {before code : List Mark},
    LaidList body before code → Nested code
  | [], _, _, h => by
      obtain rfl := h
      exact .nil
  | _ :: _, _, _, h => Followed.nested h (fun _ _ hs => hs.nested) fun _ _ hrest => hrest.nested

end

end ArrayScript.Flat
