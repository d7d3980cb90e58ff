import ArrayScript.Loading
import ArrayScript.Parser.Statement
import ArrayScript.Proofs.Compilation.Origin
import ArrayScript.Proofs.Lowering.WellTyped
import ArrayScript.Proofs.Syntax.Numbering

/-!
Compiled modules are well typed.

* `Lowered.fits`: what a function of a module was lowered with is what validation finds
  at its place in the module.
* `Lowered.isWellTyped`: so its code is well typed.
* `Refused.cases_of_wellTyped`: a module of well-typed functions is refused only for a size
  beyond its limit or a repeated export.
* `compiled_wellTyped`: the statement for programs that were parsed or loaded.
-/

namespace ArrayScript

open Lowering Validation

/-! ### One function -/

/-- A module has functions of the types that a table of signatures gives, at the
positions by which they are called. -/
def HasSignatures (m : CodeModule) (table : SignatureTable) (indices : Table String Nat) : Prop :=
  ∀ {name index signature}, indices.find? name = some index →
    table.find? name = some signature → ∃ g, m.functions[index]? = some g ∧
      g.params = signature.parameters.map ValueType.wordType ∧
      g.result = signature.returnType.wordType

namespace Lowered

variable {cx : LoweringContext} {slots : Slots} {count : Nat} {code : Code} {f : CompiledFunction}
  {m : CodeModule}

/-- Validation finds what the function was lowered with. -/
lemma fits (h : Lowered cx slots count code f) (hm : HasSignatures m cx.table cx.indices)
    (hmemory : TakesParts cx → m.importsMemory = true) :
    Fits cx (cx.names.length + count) (context m f) where
  variable_type := h.variable_type
  scratch_type := h.scratch_type
  function_type hindex hsignature := by
    obtain ⟨g, hg, hparams, hresult⟩ := hm hindex hsignature
    rw [context, List.getElem?_map, hg, ← hparams, ← hresult]
    rfl
  memory := hmemory
  result := by rw [context, h.function_eq]

/-- The code of a lowered function can be followed to its result. -/
lemma code?_eq (h : Lowered cx slots count code f) (hm : HasSignatures m cx.table cx.indices)
    (hmemory : TakesParts cx → m.importsMemory = true) :
    ∃ reach, code? (context m f) .empty f.body = some ((Operands.mk [] reach).push f.result) := by
  have hv := h.fits hm hmemory
  obtain ⟨reach, hreach⟩ := h.lowers.passes hv false
  have hstart : code? (context m f) .empty code = some ⟨[], reach⟩ := hreach
  have hbody : f.body = code ++ plain [zero cx.signature.returnType] := by rw [h.function_eq]
  have hresult : f.result = cx.signature.returnType.wordType := by rw [h.function_eq]
  refine ⟨reach, ?_⟩
  rw [hbody, code?_append, hstart, hresult]
  exact pushes_zero _ _

/-- The code of a lowered function is well typed. -/
lemma isWellTyped (h : Lowered cx slots count code f) (hm : HasSignatures m cx.table cx.indices)
    (hmemory : TakesParts cx → m.importsMemory = true) : isWellTyped m f = true := by
  obtain ⟨reach, hcode⟩ := h.code?_eq hm hmemory
  rw [Validation.isWellTyped, hcode]
  dsimp only
  rw [Operands.endsWith, Operands.popAll?_one]
  rfl

/-- Every operation in a lowered function is in range. -/
lemma inRange (h : Lowered cx slots count code f) (hm : HasSignatures m cx.table cx.indices)
    (hmemory : TakesParts cx → m.importsMemory = true) :
    CodeInRange (context m f) f.body := by
  obtain ⟨reach, hcode⟩ := h.code?_eq hm hmemory
  exact code?_inRange f.body hcode

end Lowered

/-! ### Modules -/

/-- A name that is exported twice belongs to two functions, or to a function and to the
memory. -/
def RepeatedExport (m : CodeModule) (name : String) : Prop :=
  List.Duplicate name (m.functions.map (·.name)) ∨
    name = CodeModule.memoryExport ∧ m.importsMemory = true ∧ ∃ f ∈ m.functions, f.name = name

lemma repeatedExport_of_duplicate {m : CodeModule} {name : String}
    (h : List.Duplicate name m.exports) : RepeatedExport m name := by
  rw [CodeModule.exports] at h
  split at h
  · rename_i hmemory
    rw [List.duplicate_iff_two_le_count, List.count_append, List.count_singleton] at h
    by_cases hname : name = CodeModule.memoryExport
    · have hcount : 0 < (m.functions.map (·.name)).count name := by
        rw [hname, beq_self_eq_true, if_pos rfl] at h
        rw [hname]
        omega
      rw [List.count_pos_iff, List.mem_map] at hcount
      exact .inr ⟨hname, hmemory, hcount⟩
    · refine .inl (List.duplicate_iff_two_le_count.mpr ?_)
      simpa [Ne.symm hname] using h
  · rw [List.append_nil] at h
    exact .inl h

/-- A module of well-typed functions is refused only for a size beyond its limit or for a
repeated export. -/
lemma Refused.cases_of_wellTyped {limits : SizeLimits} {m : CodeModule}
    {reason : ValidationError} (h : Refused limits m reason)
    (htyped : ∀ f ∈ m.functions, isWellTyped m f = true) :
    (∃ size n, reason = .tooLarge size (limits size) ∧ n ∈ size.found m ∧ limits size < n) ∨
    ∃ name, reason = .duplicateExport name ∧ RepeatedExport m name := by
  cases h with
  | @tooLarge size n hfound hbeyond => exact .inl ⟨size, n, rfl, hfound, hbeyond⟩
  | @duplicateExport name hrepeated =>
      exact .inr ⟨name, rfl, repeatedExport_of_duplicate hrepeated⟩
  | @illTyped f hf hwrong =>
      rw [htyped f hf] at hwrong
      cases hwrong

/-! ### Programs -/

/-- A program that was read from a source text or from stored data. -/
def Program.IsRead (p : Program) : Prop :=
  (∃ source, parse source = .ok p) ∨ ∃ text, loadProgram text = .ok p

/-- What a module of a program was made of. -/
lemma Program.compile_eq_ok {p : Program} {table : SignatureTable} {m : CodeModule}
    (h : p.compile table = .ok m) :
    ∃ functions, p.namedFunctions = .ok functions ∧
      functions.mapM (NamedFunction.compile table (functionIndices (functions.map (·.name)))) =
        .ok m.functions ∧ m.exports.Nodup := by
  obtain ⟨functions, hfunctions, h⟩ := bind_eq_ok.mp h
  obtain ⟨touching, _, h⟩ := bind_eq_ok.mp h
  obtain ⟨compiled, hcompiled, h⟩ := bind_eq_ok.mp h
  obtain ⟨rfl, _, hexports, _⟩ := CodeModule.validated_eq_ok.mp h
  exact ⟨functions, hfunctions, hcompiled, hexports⟩

/-- The functions of a module are found with their signatures by the positions of their
names. -/
lemma hasSignatures_of_origin {table : SignatureTable} {functions : List NamedFunction}
    {compiled : List CompiledFunction} {memory : Bool}
    (h : List.Forall₂ (CompiledFrom table (functionIndices (functions.map (·.name))))
      functions compiled) :
    HasSignatures ⟨compiled, memory⟩ table (functionIndices (functions.map (·.name))) := by
  intro name index signature hindex hsignature
  have hname := functionIndices_eq_some hindex
  rw [List.getElem?_map, Option.map_eq_some_iff] at hname
  obtain ⟨g, hg, rfl⟩ := hname
  obtain ⟨f, hf, _, cx, slots, count, code, _, _, _, hfind, hlowered⟩ := forall₂_getElem? h hg
  obtain rfl : cx.signature = signature := Option.some.inj (hfind.symm.trans hsignature)
  exact ⟨f, hf, by rw [hlowered.function_eq], by rw [hlowered.function_eq]⟩

/-- A function that takes parts of something gives memory to its module. -/
lemma importsMemory_of_takesParts {table : SignatureTable} {functions : List NamedFunction}
    {touching : List Bool} {g : NamedFunction} {cx : LoweringContext} (hg : g ∈ functions)
    (htouching : functions.mapM (NamedFunction.touchesMemory table) = .ok touching)
    (hfunction : cx.function = g.declaration) (hparts : TakesParts cx) :
    touching.any id = true := by
  rw [mapM_eq_ok] at htouching
  obtain ⟨b, hb, hgb⟩ := exists_mem_of_forall₂ htouching hg
  obtain ⟨signature, _, hgb⟩ := bind_eq_ok.mp hgb
  rw [pure_eq_ok] at hgb
  obtain ⟨e, he, hmember⟩ := hparts
  rw [hfunction] at he
  have htouches : b = true := by
    rw [← hgb, FunctionDeclaration.touchesMemory, List.any_eq_true]
    refine ⟨e, he, ?_⟩
    cases e <;> simp_all [Expr.memberObject?, Expr.touchesMemory]
  rw [List.any_eq_true]
  exact ⟨b, hb, htouches⟩

/-- The variables of a compiled function are numbered parameters first, then the
declared ones, then scratch, and have the machine types of their types. -/
def LaidOut (table : SignatureTable) (g : NamedFunction) (f : CompiledFunction) : Prop :=
  ∃ signature slots τ count, table.find? g.name = some signature ∧
    Slots.resolve g.declaration = .ok slots ∧
    Typing.ofFunction g.declaration signature table = .ok τ ∧
    f.params = signature.parameters.map ValueType.wordType ∧
    f.params = slots.parameters.names.map τ.wordTypeOf ∧
    f.locals = slots.locals.names.map τ.wordTypeOf ++ List.replicate count .i32 ∧
    f.localNames = slots.parameters.names ++ slots.locals.names ++ scratchNames count ∧
    f.result = signature.returnType.wordType

/-- The variables of a function are laid out as it was lowered. -/
lemma CompiledFrom.laidOut {table : SignatureTable} {indices : Table String Nat}
    {g : NamedFunction} {f : CompiledFunction} (h : CompiledFrom table indices g f) :
    LaidOut table g f := by
  obtain ⟨-, cx, slots, count, code, hfunction, rfl, _, hfind, h⟩ := h
  refine ⟨cx.signature, slots, cx.typing, count, hfind, ?_, ?_, ?_, h.params_eq, h.locals_eq,
    ?_, ?_⟩
  · rw [← hfunction, h.resolved]
  · rw [← hfunction, h.typed]
  · rw [h.function_eq]
  · rw [h.function_eq, h.names_eq_append]
  · rw [h.function_eq]

/-- Every function that was compiled with the others of its module is well typed. -/
lemma CompiledFrom.isWellTyped {table : SignatureTable} {functions : List NamedFunction}
    {touching : List Bool} {m : CodeModule} {indices : Table String Nat} {g : NamedFunction}
    {f : CompiledFunction} (h : CompiledFrom table indices g f) (hg : g ∈ functions)
    (htouching : functions.mapM (NamedFunction.touchesMemory table) = .ok touching)
    (hmemory : m.importsMemory = touching.any id) (hm : HasSignatures m table indices) :
    isWellTyped m f = true ∧ CodeInRange (context m f) f.body := by
  obtain ⟨_, cx, slots, count, code, hfunction, rfl, rfl, _, h⟩ := h
  have hparts : TakesParts cx → m.importsMemory = true := fun hparts => by
    rw [hmemory]
    exact importsMemory_of_takesParts hg htouching hfunction hparts
  exact ⟨h.isWellTyped hm hparts, h.inRange hm hparts⟩

/-- A module whose functions were all compiled has only to be validated. -/
lemma Program.compileWithin_eq_validated {limits : SizeLimits} {p : Program}
    {table : SignatureTable} {functions : List NamedFunction} {touching : List Bool}
    {compiled : List CompiledFunction} (hfunctions : p.namedFunctions = .ok functions)
    (htouching : functions.mapM (NamedFunction.touchesMemory table) = .ok touching)
    (hcompiled : functions.mapM (NamedFunction.compile table
      (functionIndices (functions.map (·.name)))) = .ok compiled) :
    p.compileWithin limits table = CodeModule.validated limits ⟨compiled, touching.any id⟩ := by
  rw [Program.compileWithin, hfunctions]
  show (functions.mapM (NamedFunction.touchesMemory table) >>= _) = _
  rw [htouching]
  show (functions.mapM (NamedFunction.compile table _) >>= _) = _
  rw [hcompiled]
  rfl

/-- If all functions of a program that was read can be compiled, then all of them are well
typed. Whatever limits validation has, it refuses the module only for a size beyond one of
them or for a repeated export, and accepts it if it has neither. -/
theorem compiled_wellTyped (limits : SizeLimits) {p : Program} {table : SignatureTable}
    {functions : List NamedFunction} {touching : List Bool} {compiled : List CompiledFunction}
    (hp : p.IsRead) (hfunctions : p.namedFunctions = .ok functions)
    (htouching : functions.mapM (NamedFunction.touchesMemory table) = .ok touching)
    (hcompiled : functions.mapM (NamedFunction.compile table
      (functionIndices (functions.map (·.name)))) = .ok compiled) :
    let m : CodeModule := ⟨compiled, touching.any id⟩
    List.Forall₂ (fun g f => f.name = g.name ∧ LaidOut table g f ∧ isWellTyped m f = true ∧
      CodeInRange (context m f) f.body) functions compiled ∧
    (∀ reason, p.compileWithin limits table = .error (.invalidModule reason) →
      (∃ size n, reason = .tooLarge size (limits size) ∧ n ∈ size.found m ∧ limits size < n) ∨
      ∃ name, reason = .duplicateExport name ∧ RepeatedExport m name) ∧
    (p.compileWithin limits table = .ok m ↔ m.Within limits ∧ m.exports.Nodup) := by
  intro m
  obtain ⟨q, hq⟩ := Program.exists_eq_renumber hp
  have horigin := Program.compiled_origin hq hfunctions hcompiled
  have hm : HasSignatures m table _ := hasSignatures_of_origin horigin
  have hall : List.Forall₂ (fun g f => f.name = g.name ∧ LaidOut table g f ∧
      isWellTyped m f = true ∧ CodeInRange (context m f) f.body) functions compiled :=
    forall₂_imp_mem horigin fun g hg f hf =>
      ⟨hf.name_eq, hf.laidOut, hf.isWellTyped hg htouching rfl hm⟩
  have htyped : ∀ f ∈ m.functions, isWellTyped m f = true := fun f hf => by
    obtain ⟨g, _, hgf⟩ := exists_mem_of_forall₂ hall.flip hf
    exact hgf.2.2.1
  rw [Program.compileWithin_eq_validated hfunctions htouching hcompiled]
  refine ⟨hall, fun reason hreason => ?_, ?_⟩
  · exact (CodeModule.validated_eq_error hreason).cases_of_wellTyped htyped
  · rw [CodeModule.validated_eq_ok]
    exact ⟨fun h => ⟨h.2.1, h.2.2.1⟩, fun h => ⟨rfl, h.1, h.2, htyped⟩⟩

/-- The source of a function that reads an element of an array. -/
def firstElement : String := "function f(a)\x7breturn a[0];\x7d"

set_option maxRecDepth 10000 in
theorem firstElement_wellTyped :
    ∃ p m, parse firstElement = .ok p ∧
      p.compile (Table.ofList [("f", ⟨[.int32Array], .int32⟩)]) = .ok m := by
  have htokens : (tokenize firstElement).toOption = some
      [⟨.function, ⟨1, 1⟩⟩, ⟨.identifier "f", ⟨1, 10⟩⟩, ⟨.leftParen, ⟨1, 11⟩⟩,
       ⟨.identifier "a", ⟨1, 12⟩⟩, ⟨.rightParen, ⟨1, 13⟩⟩, ⟨.leftBrace, ⟨1, 14⟩⟩,
       ⟨.return', ⟨1, 15⟩⟩, ⟨.identifier "a", ⟨1, 22⟩⟩, ⟨.leftBracket, ⟨1, 23⟩⟩,
       ⟨.number Double.zero, ⟨1, 24⟩⟩, ⟨.rightBracket, ⟨1, 25⟩⟩, ⟨.semicolon, ⟨1, 26⟩⟩,
       ⟨.rightBrace, ⟨1, 27⟩⟩, ⟨.eof, ⟨1, 28⟩⟩] := by decide +kernel
  have hparse : parse firstElement = .ok ⟨[.function (some "f") [⟨.identifier "a", none⟩] none
      [.ret (some (.index 0 (.identifier 1 "a") (.number 2 Double.zero)))]]⟩ := by
    rw [parse]
    cases h : tokenize firstElement with
    | error e =>
        rw [h] at htokens
        cases htokens
    | ok ts =>
        rw [h] at htokens
        obtain rfl := Option.some.inj htokens
        cbv
  refine ⟨_, _, hparse,
    (compiled_wellTyped .standard (.inl ⟨_, hparse⟩) rfl rfl rfl).2.2.mpr ⟨fun size => ?_, ?_⟩⟩
  · cases size <;> decide +kernel
  · decide

end ArrayScript
