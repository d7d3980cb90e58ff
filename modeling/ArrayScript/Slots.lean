import ArrayScript.CompileError
import ArrayScript.Syntax.Visit
import ArrayScript.Table

/-!
Slots: where the variables of a function live.

Every variable has one slot. Parameters take the first slots in order; then come
the other variables in the order in which they are first declared or plainly
assigned. Blocks open no scopes, so a name declared twice has one slot.

A `VariableMapping` gives out slots one after the other, from a first one on. The
parameters of a function have a mapping, and the other variables have one that goes
on where the first one ends. `Slots.merged` gives out all these slots anew, and it is
by this third mapping that code is generated.
-/

namespace ArrayScript

/-- Names with their slots, which were given out one after the other. -/
structure VariableMapping where
  firstSlot : Nat
  /-- the names in slot order -/
  names : List String
  slots : Table String Nat
  /-- slots are counted up from the first one -/
  entries_eq : slots.entries = names.zipIdx firstSlot
  /-- no name has two slots -/
  nodup : names.Nodup
  deriving DecidableEq, Repr

namespace VariableMapping

/-- The mapping without names that is to give out the given slot first. -/
def startingAt (firstSlot : Nat) : VariableMapping :=
  ⟨firstSlot, [], .empty, rfl, .nil⟩

instance : Inhabited VariableMapping := ⟨startingAt 0⟩

/-- The slot of a name, if it has one. -/
def get? (m : VariableMapping) (name : String) : Option Nat :=
  m.slots.find? name

/-- The slot of a name, which must have one. -/
def slot (m : VariableMapping) (name : String) : Except CompileError Nat :=
  match m.get? name with
  | some slot => .ok slot
  | none => .error (.unresolvedSlot name)

/-- Whether a name has a slot. -/
def contains (m : VariableMapping) (name : String) : Bool :=
  m.slots.contains name

/-- The number of names. -/
def len (m : VariableMapping) : Nat :=
  m.names.length

/-- Whether there are no names. -/
def isEmpty (m : VariableMapping) : Bool :=
  m.names.isEmpty

/-- Names and slots in slot order. -/
def iter (m : VariableMapping) : List (String × Nat) :=
  m.names.zipIdx m.firstSlot

theorem contains_iff {m : VariableMapping} {name : String} :
    m.contains name ↔ name ∈ m.names := by
  rw [contains, Table.contains_iff, Table.keys, m.entries_eq, List.zipIdx_map_fst]

/-- Gives a name the next slot, unless it has one already; says whether it had none. -/
def declare (m : VariableMapping) (name : String) : Bool × VariableMapping :=
  if h : m.contains name then (false, m)
  else (true, {
    firstSlot := m.firstSlot
    names := m.names ++ [name]
    slots := m.slots.insert name (m.firstSlot + m.names.length)
    entries_eq := by
      rw [Table.insert_of_notMem h, m.entries_eq, List.zipIdx_append, List.zipIdx_singleton]
    nodup := by
      rw [contains_iff] at h
      refine List.nodup_append.mpr ⟨m.nodup, by simp, fun a ha b hb hab => h ?_⟩
      rwa [← List.mem_singleton.mp hb, ← hab] })

theorem declare_firstSlot (m : VariableMapping) (name : String) :
    (m.declare name).2.firstSlot = m.firstSlot := by
  rw [declare]
  split <;> rfl

/-- Declares names in order. -/
def declareAll (m : VariableMapping) (names : List String) : VariableMapping :=
  names.foldl (fun m name => (m.declare name).2) m

theorem declareAll_firstSlot (m : VariableMapping) (names : List String) :
    (m.declareAll names).firstSlot = m.firstSlot := by
  induction names generalizing m with
  | nil => rfl
  | cons name rest ih => exact (ih _).trans (m.declare_firstSlot name)

end VariableMapping

/-- The slots of a function's variables: of its parameters and of its other variables. -/
structure Slots where
  parameters : VariableMapping
  locals : VariableMapping
  deriving DecidableEq, Inhabited, Repr

/-- One mapping for all variables, parameters first. -/
def Slots.merged (s : Slots) : VariableMapping :=
  (VariableMapping.startingAt 0).declareAll (s.parameters.names ++ s.locals.names)

theorem Slots.merged_firstSlot (s : Slots) : s.merged.firstSlot = 0 :=
  VariableMapping.declareAll_firstSlot _ _

/-- All names in slot order. -/
def Slots.names (s : Slots) : List String :=
  s.merged.names

namespace Slots

/-- Declares parameters, which must be plain and distinct names. The position of the
first one is given. -/
def declareParameters (function : String) :
    (position : Nat) → VariableMapping → List Param → Except CompileError VariableMapping
  | _, m, [] => .ok m
  | position, m, p :: rest =>
    match p.pattern.identifier? with
    | none => .error (.patternParameter function position)
    | some name =>
      match m.declare name with
      | (true, m) => declareParameters function (position + 1) m rest
      | (false, _) => .error (.duplicateParameter function name)

/-- The names that an expression assigns plainly, in the order of a walk. -/
def assigned (e : Expr) : List String :=
  e.preorder.filterMap fun
    | .assign _ .assign target _ => target.identifier?
    | _ => none

/-- The names a root declares in the order of a walk: a declarator before what its
initial value assigns. -/
def declared (function : String) : Root → Except CompileError (List String)
  | .expression e => .ok (assigned e)
  | .declarator d =>
    match d.target.identifier? with
    | none => .error (.patternDeclarator function)
    | some name => .ok (name :: (d.init.map assigned).getD [])

/-- Declares a variable that is no parameter. -/
def declareLocal (parameters locals : VariableMapping) (name : String) : VariableMapping :=
  if parameters.contains name then locals else (locals.declare name).2

/-- The slots of a function's variables. -/
def resolve (f : FunctionDeclaration) : Except CompileError Slots := do
  let parameters ← declareParameters f.displayName 0 (.startingAt 0) f.params
  let names ← f.roots.mapM (declared f.displayName)
  return ⟨parameters, names.flatten.foldl (declareLocal parameters) (.startingAt parameters.len)⟩

end Slots

end ArrayScript
