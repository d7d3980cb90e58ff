import ArrayScript.Compilation
import ArrayScript.Proofs.Code.Validation
import ArrayScript.Proofs.Lowering.Emission

/-!
Where the functions of a module come from.

* `namedFunctions_eq_ok`: the named functions of a program are its functions.
* `Lowered cx slots count code f`: the compiled function `f` came about in the context
  `cx`, from slots and types, as code that belongs to the body.
* `compile_eq_ok`: every function that is compiled came about in this way.
* `Lowered.slotTypes_eq`: its variables are numbered parameters first, then the other
  names in slot order, then scratch.
* `functionIndices_eq_some`: a function is called by a position at which it stands.
* `CodeModule.validated_eq_ok`: what is true of a module that passed validation.
-/

namespace ArrayScript

open Lowering

/-! ### The functions of a program -/

lemma Statement.namedFunction_eq_ok {s : Statement} {position : Nat} {g : NamedFunction}
    (h : s.namedFunction position = .ok g) :
    s.function? = some g.declaration ∧ g.declaration.name = some g.name := by
  rw [namedFunction] at h
  split at h
  · cases h
  · rename_i f hf
    split at h
    · rename_i name hname
      obtain rfl := Except.ok.inj h
      exact ⟨hf, hname⟩
    · cases h

/-- The named functions of a program are its functions. -/
theorem Program.namedFunctions_eq_ok {p : Program} {functions : List NamedFunction}
    (h : p.namedFunctions = .ok functions) :
    p.functions = functions.map (·.declaration) ∧
      ∀ g ∈ functions, g.declaration.name = some g.name := by
  rw [namedFunctions] at h
  rw [mapM_eq_ok] at h
  rw [Program.functions]
  generalize p.body = body at h
  have key : ∀ (body : List Statement) (first : Nat) (functions : List NamedFunction),
      List.Forall₂ (fun sp g => sp.1.namedFunction sp.2 = .ok g) (body.zipIdx first) functions →
      body.filterMap Statement.function? = functions.map (·.declaration) ∧
        ∀ g ∈ functions, g.declaration.name = some g.name := by
    intro body
    induction body with
    | nil =>
        intro first functions h
        cases h
        simp
    | cons s rest ih =>
        intro first functions h
        rw [List.zipIdx_cons] at h
        cases h with
        | @cons _ g _ functions hg hrest =>
            obtain ⟨hfunction, hname⟩ := Statement.namedFunction_eq_ok hg
            obtain ⟨hdeclarations, hnames⟩ := ih (first + 1) functions hrest
            refine ⟨?_, List.forall_mem_cons.mpr ⟨hname, hnames⟩⟩
            rw [List.filterMap_cons, hfunction, hdeclarations]
            rfl
  exact key body 0 functions h

/-- A function is called by a position at which a function of its name stands. -/
lemma functionIndices_eq_some {names : List String} {name : String} {index : Nat}
    (h : (functionIndices names).find? name = some index) : names[index]? = some name := by
  have hmem := Table.mem_of_find?_ofList h
  rw [List.mem_zipIdx_iff_getElem?] at hmem
  exact hmem

/-! ### How a compiled function came about -/

/-- A compiled function came about from slots and types, as code that belongs to the
body. -/
structure Lowered (cx : LoweringContext) (slots : Slots) (count : Nat) (code : Code)
    (f : CompiledFunction) : Prop where
  resolved : Slots.resolve cx.function = .ok slots
  mapping_eq : cx.mapping = slots.merged
  typed : Typing.ofFunction cx.function cx.signature cx.table = .ok cx.typing
  lowers : LowersStatements cx (cx.names.length + count) cx.function.body code
  function_eq : f = {
    name := cx.function.displayName
    params := cx.signature.parameters.map ValueType.wordType
    result := cx.signature.returnType.wordType
    locals := localTypes cx ++ List.replicate count .i32
    localNames := cx.names ++ scratchNames count
    body := code ++ plain [zero cx.signature.returnType] }

/-- Every function that is compiled came about from slots and types. -/
theorem NamedFunction.compile_eq_ok {g : NamedFunction} {table : SignatureTable}
    {indices : Table String Nat} {f : CompiledFunction}
    (hids : (g.declaration.expressions.map Expr.id).Nodup) (h : g.compile table indices = .ok f) :
    ∃ cx slots count code, cx.function = g.declaration ∧ cx.table = table ∧
      cx.indices = indices ∧ table.find? g.name = some cx.signature ∧
      Lowered cx slots count code f := by
  rw [compile] at h
  obtain ⟨signature, hsignature, h⟩ := bind_eq_ok.mp h
  obtain ⟨slots, hslots, h⟩ := bind_eq_ok.mp h
  obtain ⟨τ, hτ, h⟩ := bind_eq_ok.mp h
  let cx : LoweringContext :=
    ⟨g.declaration, signature, table, slots.merged, slots.merged_firstSlot, τ, indices⟩
  have hc : Consistent cx := consistent_of_analyses hslots hτ rfl hids
  rcases lower_cases hc with ⟨e, he, _⟩ | ⟨code, count, hlowers, hok⟩
  · have herror := he.symm.trans h
    cases herror
  · have hf := Except.ok.inj (h.symm.trans hok)
    exact ⟨cx, slots, count, code, rfl, rfl, rfl, SignatureTable.require_eq_ok hsignature,
      hslots, rfl, hτ, hlowers, hf⟩

/-- Whatever the ids of its expressions are, a function is compiled under its name, with
the machine types of its signature. -/
lemma NamedFunction.compile_heading {g : NamedFunction} {table : SignatureTable}
    {indices : Table String Nat} {f : CompiledFunction} (hname : g.declaration.name = some g.name)
    (h : g.compile table indices = .ok f) :
    f.name = g.name ∧ ∃ s, table.find? g.name = some s ∧
      f.params = s.parameters.map ValueType.wordType ∧ f.result = s.returnType.wordType := by
  obtain ⟨s, hs, h⟩ := bind_eq_ok.mp h
  obtain ⟨slots, _, h⟩ := bind_eq_ok.mp h
  obtain ⟨τ, _, h⟩ := bind_eq_ok.mp h
  obtain ⟨⟨code, scratch⟩, _, h⟩ := bind_eq_ok.mp h
  obtain rfl := pure_eq_ok.mp h
  refine ⟨?_, s, SignatureTable.require_eq_ok hs, rfl, rfl⟩
  dsimp only
  rw [FunctionDeclaration.displayName, hname]
  rfl

/-- A compiled function came about from a named function. -/
def CompiledFrom (table : SignatureTable) (indices : Table String Nat) (g : NamedFunction)
    (f : CompiledFunction) : Prop :=
  (g.declaration.name = some g.name ∧ g.compile table indices = .ok f) ∧
    ∃ cx slots count code, cx.function = g.declaration ∧ cx.table = table ∧
      cx.indices = indices ∧ table.find? g.name = some cx.signature ∧
      Lowered cx slots count code f

/-- A compiled function keeps its name. -/
lemma CompiledFrom.name_eq {table : SignatureTable} {indices : Table String Nat}
    {g : NamedFunction} {f : CompiledFunction} (h : CompiledFrom table indices g f) :
    f.name = g.name :=
  (NamedFunction.compile_heading h.1.1 h.1.2).1

/-- The functions of a program that was renumbered, as they are compiled. -/
theorem Program.compiled_origin {p q : Program} {table : SignatureTable}
    {functions : List NamedFunction} {indices : Table String Nat} {compiled : List CompiledFunction}
    (hp : p = q.renumber) (hfunctions : p.namedFunctions = .ok functions)
    (hcompiled : functions.mapM (NamedFunction.compile table indices) = .ok compiled) :
    List.Forall₂ (CompiledFrom table indices) functions compiled := by
  obtain ⟨hdeclarations, hnames⟩ := Program.namedFunctions_eq_ok hfunctions
  rw [mapM_eq_ok] at hcompiled
  refine forall₂_imp_mem hcompiled fun g hg f hf => ⟨⟨hnames g hg, hf⟩, ?_⟩
  refine NamedFunction.compile_eq_ok (Program.ids_nodup hp ?_) hf
  rw [hdeclarations]
  exact List.mem_map_of_mem hg

/-! ### Modules -/

/-- A module passes validation as it is. -/
lemma CodeModule.validated_eq_ok {limits : SizeLimits} {m m' : CodeModule} :
    m.validated limits = .ok m' ↔ m' = m ∧ m.Within limits ∧ m.exports.Nodup ∧
      ∀ f ∈ m.functions, Validation.isWellTyped m f = true := by
  rw [validated, ← validate_eq_ok]
  split
  · rename_i hok
    simp [hok, eq_comm]
  · rename_i herror
    simp [herror]

/-- A module that is refused has something wrong with it. -/
lemma CodeModule.validated_eq_error {limits : SizeLimits} {m : CodeModule}
    {reason : ValidationError} (h : m.validated limits = .error (.invalidModule reason)) :
    Refused limits m reason := by
  rw [validated] at h
  split at h
  · cases h
  · rename_i herror
    cases h
    exact (validate_finds limits m).error _ herror

/-! ### The variables of a compiled function -/

/-- The machine type of a variable; one without a type is a word. -/
def Typing.wordTypeOf (τ : Typing) (name : String) : WordType :=
  ((τ.variableTypes.find? name).map ValueType.wordType).getD .i32

lemma Typing.wordTypeOf_eq {τ : Typing} {name : String} {t : ValueType}
    (h : τ.variableTypes.find? name = some t) : τ.wordTypeOf name = t.wordType := by
  rw [wordTypeOf, h]
  rfl

namespace Lowered

variable {cx : LoweringContext} {slots : Slots} {count : Nat} {code : Code} {f : CompiledFunction}

lemma names_eq (h : Lowered cx slots count code f) : cx.names = slots.names :=
  congrArg VariableMapping.names h.mapping_eq

/-- Parameters come before all other variables. -/
lemma names_eq_append (h : Lowered cx slots count code f) :
    cx.names = slots.parameters.names ++ slots.locals.names :=
  h.names_eq.trans (Slots.resolve_eq_ok h.resolved).2.1

/-- Parameters have the types of the signature. -/
lemma parameters (h : Lowered cx slots count code f) :
    List.Forall₂ (fun name t => cx.typing.variableTypes.find? name = some t)
      slots.parameters.names cx.signature.parameters := by
  obtain ⟨hparams, _, _⟩ := Slots.resolve_eq_ok h.resolved
  exact Typing.ofFunction_parameter h.typed hparams slots.parameters.nodup

lemma params_eq (h : Lowered cx slots count code f) :
    f.params = slots.parameters.names.map cx.typing.wordTypeOf := by
  rw [h.function_eq]
  have hall := h.parameters
  generalize slots.parameters.names = names at hall
  generalize cx.signature.parameters = types at hall
  dsimp only
  induction hall with
  | nil => rfl
  | cons hhead _ ih => rw [List.map_cons, List.map_cons, Typing.wordTypeOf_eq hhead, ih]

lemma arity_eq (h : Lowered cx slots count code f) :
    cx.signature.arity = slots.parameters.names.length := by
  rw [Signature.arity, h.parameters.length_eq]

lemma locals_eq (h : Lowered cx slots count code f) :
    f.locals = slots.locals.names.map cx.typing.wordTypeOf ++ List.replicate count .i32 := by
  rw [h.function_eq]
  dsimp only
  rw [localTypes, h.names_eq_append, h.arity_eq, List.drop_left]
  rfl

/-- Variables are numbered parameters first, then the others, then scratch. -/
lemma slotTypes_eq (h : Lowered cx slots count code f) :
    f.slotTypes = cx.names.map cx.typing.wordTypeOf ++ List.replicate count .i32 := by
  rw [CompiledFunction.slotTypes, h.params_eq, h.locals_eq, h.names_eq_append,
    List.map_append, List.append_assoc]

lemma variable_type (h : Lowered cx slots count code f) {name : String} {slot : Nat}
    {t : ValueType} (hvariable : IsVariable cx name slot t) :
    f.slotTypes[slot]? = some t.wordType := by
  have hlt := hvariable.slot_lt
  rw [h.slotTypes_eq, List.getElem?_append_left (by simpa using hlt), List.getElem?_map,
    hvariable.getElem?_eq, Option.map_some, Typing.wordTypeOf_eq hvariable.type_eq]

lemma scratch_type (h : Lowered cx slots count code f) {held : List Nat} {slot : Nat}
    (hscratch : IsScratch cx (cx.names.length + count) held slot) :
    f.slotTypes[slot]? = some .i32 := by
  have hle := hscratch.le
  have hlt := hscratch.lt
  rw [h.slotTypes_eq, List.getElem?_append_right (by simpa using hle), List.length_map,
    List.getElem?_replicate, if_pos (by omega)]

end Lowered

end ArrayScript
