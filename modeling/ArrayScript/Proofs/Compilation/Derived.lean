import ArrayScript.Compilation
import ArrayScript.Proofs.Compilation.Origin
import ArrayScript.Proofs.Lowering.Failures
import ArrayScript.Proofs.Syntax.Occurrence
import ArrayScript.Proofs.Typing.Reports

/-!
Signatures that are read off a program fit it.

* `FunctionDeclaration.derives`: what the signature of a function says of its parameters, in
  terms of the member expressions that stand in the body.
* `Program.find?_derivedSignatures`: each named function has its signature in the table.
* `Program.compile_spares`: no signature is missing or has the wrong arity when the program is
  compiled.
* `Program.derivedSignatures_fit`: these, and that a parameter without a written type is never
  found not to be an array where a part of it is taken.
-/

namespace ArrayScript

/-! ### The types of parameters -/

namespace FunctionDeclaration

/-- Some member expression in the body takes a part of the variable. -/
def TakesPartOf (f : FunctionDeclaration) (name : String) : Prop :=
  ∃ s ∈ f.body, ∃ e object, s.Holds e ∧ e.memberObject? = some object ∧
    object.identifier? = some name

/-- The parameters are different names. -/
def HasDistinctParameters (f : FunctionDeclaration) : Prop :=
  ∃ names : List String, names.Nodup ∧
    List.Forall₂ (fun p name => p.pattern.identifier? = some name) f.params names

/-- What a type that was read off a function says of a parameter: the type is the one that is
written, or else whether parts of the parameter are taken. -/
structure Derives (f : FunctionDeclaration) (p : Param) (t : ValueType) : Prop where
  written : ∀ u, p.declared = some u → t = u
  used : ∀ name, p.declared = none → p.pattern.identifier? = some name → f.TakesPartOf name →
    t = .int32Array
  unused : ∀ name, p.declared = none → p.pattern.identifier? = some name → ¬ f.TakesPartOf name →
    t = .int32

lemma mem_memberObjects {f : FunctionDeclaration} {name : String} :
    name ∈ f.memberObjects ↔ f.TakesPartOf name := by
  simp only [memberObjects, List.mem_filterMap, mem_expressions, Option.bind_eq_some_iff]
  constructor
  · rintro ⟨e, ⟨s, hs, he⟩, object, hobject, hname⟩
    exact ⟨s, hs, e, object, he, hobject, hname⟩
  · rintro ⟨s, hs, e, object, he, hobject, hname⟩
    exact ⟨e, ⟨s, hs, he⟩, object, hobject, hname⟩

/-- The parameters in the signature of a function. -/
theorem derives (f : FunctionDeclaration) :
    List.Forall₂ f.Derives f.params f.derivedSignature.parameters := by
  refine List.forall₂_map_right_iff.mpr (List.forall₂_same.mpr fun p _ => ?_)
  refine ⟨fun u hu => ?_, fun name hp hname huse => ?_, fun name hp hname huse => ?_⟩
  · rw [Param.derivedType, hu]
  · rw [Param.derivedType, hp, hname]
    exact if_pos (mem_memberObjects.mpr huse)
  · rw [Param.derivedType, hp, hname]
    exact if_neg fun h => huse (mem_memberObjects.mp h)

lemma arity_derivedSignature (f : FunctionDeclaration) :
    f.derivedSignature.arity = f.params.length :=
  f.derives.length_eq.symm

/-- A parameter without a written type is an array if parts of it are taken. -/
lemma mem_arrayParameters_derivedSignature {f : FunctionDeclaration} {p : Param} {name : String}
    (hp : p ∈ f.params) (hdeclared : p.declared = none) (hname : p.pattern.identifier? = some name)
    (huse : f.TakesPartOf name) : name ∈ f.arrayParameters f.derivedSignature := by
  have hzip : (p, p.derivedType f.memberObjects) ∈ f.params.zip f.derivedSignature.parameters := by
    rw [derivedSignature, ← List.map_id f.params, List.map_map, List.zip_map']
    exact List.mem_map_of_mem hp
  have harray : p.derivedType f.memberObjects = .int32Array := by
    rw [Param.derivedType, hdeclared, hname]
    exact if_pos (mem_memberObjects.mpr huse)
  refine List.mem_filterMap.mpr ⟨_, hzip, ?_⟩
  rw [harray]
  exact hname

end FunctionDeclaration

/-! ### Compiling -/

namespace Program

variable {p : Program}

/-- Each named function has its own signature in the table, if no two share a name. -/
theorem find?_derivedSignatures (hn : (p.functions.filterMap (·.name)).Nodup)
    {f : FunctionDeclaration} (hf : f ∈ p.functions) {name : String} (hname : f.name = some name) :
    p.derivedSignatures.find? name = some f.derivedSignature := by
  refine Table.find?_ofList_of_mem ?_ (List.mem_filterMap.mpr ⟨f, hf, by rw [hname]; rfl⟩)
  rw [List.map_filterMap]
  convert hn using 2
  rename_i g _
  cases g.name <;> rfl

lemma namedFunctions_spares {table : SignatureTable} {e : CompileError}
    (h : p.namedFunctions = .error e) : e.Spares table := by
  obtain ⟨⟨s, position⟩, -, h⟩ := mapM_eq_error h
  change s.namedFunction position = _ at h
  rw [Statement.namedFunction] at h
  split at h
  · obtain rfl := Except.error.inj h
    trivial
  · split at h
    · cases h
    · obtain rfl := Except.error.inj h
      trivial

end Program

lemma Slots.declareParameters_spares {function : String} {position : Nat} {m : VariableMapping}
    {params : List Param} {table : SignatureTable} {e : CompileError}
    (h : declareParameters function position m params = .error e) : e.Spares table := by
  induction params generalizing position m with
  | nil => cases h
  | cons p rest ih =>
      rw [declareParameters] at h
      split at h
      · obtain rfl := Except.error.inj h
        trivial
      split at h
      · exact ih h
      · obtain rfl := Except.error.inj h
        trivial

lemma Slots.resolve_spares {f : FunctionDeclaration} {table : SignatureTable} {e : CompileError}
    (h : Slots.resolve f = .error e) : e.Spares table := by
  rcases bind_eq_error.mp h with h | ⟨_, _, h⟩
  · exact declareParameters_spares h
  rcases bind_eq_error.mp h with h | ⟨_, _, h⟩
  · obtain ⟨r, _, h⟩ := mapM_eq_error h
    cases r with
    | expression _ => cases h
    | declarator d =>
        rw [declared] at h
        split at h
        · obtain rfl := Except.error.inj h
          trivial
        · cases h
  · cases h

/-- Compiling a function by its own signature does not blame the table. -/
lemma NamedFunction.compile_spares {g : NamedFunction} {table : SignatureTable}
    {indices : Table String Nat} {e : CompileError}
    (hfind : table.find? g.name = some g.declaration.derivedSignature)
    (hparams : g.declaration.HasDistinctParameters) (h : g.compile table indices = .error e) :
    e.Spares table := by
  obtain ⟨names, hn, hnames⟩ := hparams
  rw [compile, SignatureTable.require, hfind] at h
  change (Slots.resolve g.declaration >>= _) = _ at h
  rcases bind_eq_error.mp h with h | ⟨slots, _, h⟩
  · exact Slots.resolve_spares h
  rcases bind_eq_error.mp h with h | ⟨τ, _, h⟩
  · obtain ⟨r, hr, rfl⟩ := Typing.exists_report h
    have harity := g.declaration.arity_derivedSignature
    exact (Typing.ofFunctionAt_warranted harity hnames hn hr).spares
  · exact LoweringContext.lower_spares h

namespace Program

variable {p : Program}

/-- Compiling a program by its own signatures does not blame the table. -/
theorem compile_spares (hn : (p.functions.filterMap (·.name)).Nodup)
    (hparams : ∀ f ∈ p.functions, f.HasDistinctParameters) {e : CompileError}
    (h : p.compile p.derivedSignatures = .error e) : e.Spares p.derivedSignatures := by
  rcases bind_eq_error.mp h with h | ⟨functions, hfunctions, h⟩
  · exact namedFunctions_spares h
  obtain ⟨hdeclarations, hnames⟩ := namedFunctions_eq_ok hfunctions
  rcases bind_eq_error.mp h with h | ⟨touching, _, h⟩
  · obtain ⟨g, hg, h⟩ := mapM_eq_error h
    rcases bind_eq_error.mp h with h | ⟨_, _, h⟩
    · obtain ⟨rfl, hnone⟩ := SignatureTable.require_eq_error h
      exact hnone
    · cases h
  rcases bind_eq_error.mp h with h | ⟨compiled, _, h⟩
  · obtain ⟨g, hg, h⟩ := mapM_eq_error h
    have hmem : g.declaration ∈ p.functions := hdeclarations ▸ List.mem_map_of_mem hg
    exact NamedFunction.compile_spares (find?_derivedSignatures hn hmem (hnames g hg))
      (hparams _ hmem) h
  · rw [CodeModule.validated] at h
    split at h
    · cases h
    · obtain rfl := Except.error.inj h
      trivial

/-- Signatures that are read off a program fit it, if its named functions have different names
and the parameters of each function are different names. Each named function has a signature
whose parameters have the types that are written or that their use suggests. Compiling fails
neither for an arity nor for want of a signature of a named function. And where typing reports
that something is not an array, this is for a member expression in the function that takes a
part of something else than a parameter without a written type. -/
theorem derivedSignatures_fit (p : Program) (hn : (p.functions.filterMap (·.name)).Nodup)
    (hparams : ∀ f ∈ p.functions, f.HasDistinctParameters) :
    (∀ f ∈ p.functions, ∀ name, f.name = some name →
      p.derivedSignatures.find? name = some f.derivedSignature ∧
      List.Forall₂ f.Derives f.params f.derivedSignature.parameters ∧
      f.derivedSignature.returnType = f.returnType.getD .int32) ∧
    (∀ e, p.compile p.derivedSignatures = .error e →
      (∀ function expected found, e ≠ .signatureArity function expected found) ∧
      ∀ f ∈ p.functions, ∀ name, f.name = some name → e ≠ .missingSignature name) ∧
    ∀ f ∈ p.functions,
      (Typing.ofFunctionAt f f.derivedSignature p.derivedSignatures).mapError Typing.Report.error =
        Typing.ofFunction f f.derivedSignature p.derivedSignatures ∧
      ∀ subject access t,
        Typing.ofFunctionAt f f.derivedSignature p.derivedSignatures =
          .error ⟨subject, .notAnArray access t⟩ →
        ∃ e ∈ f.expressions, subject = some e ∧ ∃ object, e.memberObject? = some object ∧
          ∀ param ∈ f.params, param.declared = none → ∀ name,
            param.pattern.identifier? = some name → object.identifier? ≠ some name := by
  refine ⟨fun f hf name hname => ⟨find?_derivedSignatures hn hf hname, f.derives, rfl⟩,
    fun e h => ?_, fun f hf => ⟨Typing.forget_ofFunctionAt f _, fun subject access t h => ?_⟩⟩
  · have hspares := compile_spares hn hparams h
    refine ⟨?_, fun f hf name hname => ?_⟩
    · rintro function expected found rfl
      exact hspares
    · rintro rfl
      have hfind := find?_derivedSignatures hn hf hname
      rw [CompileError.Spares, hfind] at hspares
      cases hspares
  · obtain ⟨names, hdistinct, hnames⟩ := hparams f hf
    have hwarranted := Typing.ofFunctionAt_warranted f.arity_derivedSignature hnames hdistinct h
    obtain ⟨e, he, hsubject, object, hobject, hother⟩ := hwarranted.subject access t rfl
    have hmem := f.rootExpressions_sublist.subset he
    refine ⟨e, hmem, hsubject, object, hobject, fun param hparam hdeclared name hname hsame => ?_⟩
    obtain ⟨s, hs, hholds⟩ := FunctionDeclaration.mem_expressions.mp hmem
    have huse : f.TakesPartOf name := ⟨s, hs, e, object, hholds, hobject, hsame⟩
    exact hother name
      (FunctionDeclaration.mem_arrayParameters_derivedSignature hparam hdeclared hname huse) hsame

/-- `a[n]` in a function without written types. -/
def elementAt : FunctionDeclaration where
  name := some "elementAt"
  params := [⟨.identifier "a", none⟩, ⟨.identifier "n", none⟩]
  returnType := none
  body := [.ret (some (.index 0 (.identifier 1 "a") (.identifier 2 "n")))]

/-- `b[0]` in a function that says of `b` that it is an integer. -/
def elementOfInteger : FunctionDeclaration where
  name := some "elementOfInteger"
  params := [⟨.identifier "b", some .int32⟩]
  returnType := none
  body := [.ret (some (.index 3 (.identifier 4 "b") (.number 5 Double.zero)))]

/-- The program of these two functions. -/
def elements : Program :=
  ⟨[elementAt, elementOfInteger].map fun f => .function f.name f.params f.returnType f.body⟩

theorem elements_fit :
    (elements.functions.filterMap (·.name)).Nodup ∧
    (∀ f ∈ elements.functions, f.HasDistinctParameters) ∧
    elements.derivedSignatures.find? "elementAt" = some ⟨[.int32Array, .int32], .int32⟩ ∧
    (Typing.ofFunctionAt elementOfInteger elementOfInteger.derivedSignature
      elements.derivedSignatures).mapError Typing.Report.error =
        .error (.notAnArray .index .int32) ∧
    ∃ e, elements.compile elements.derivedSignatures = .error e ∧
      e ≠ .missingSignature "elementOfInteger" := by
  have hn : (elements.functions.filterMap (·.name)).Nodup := by decide
  have hparams : ∀ f ∈ elements.functions, f.HasDistinctParameters := by
    have hfirst : elementAt.HasDistinctParameters :=
      ⟨["a", "n"], by decide, .cons rfl (.cons rfl .nil)⟩
    have hsecond : elementOfInteger.HasDistinctParameters :=
      ⟨["b"], by decide, .cons rfl .nil⟩
    exact List.forall_mem_cons.mpr ⟨hfirst, List.forall_mem_singleton.mpr hsecond⟩
  obtain ⟨hsignatures, herrors, htyping⟩ := derivedSignatures_fit elements hn hparams
  refine ⟨hn, hparams, ?_, ?_, ?_⟩
  · exact (hsignatures elementAt List.mem_cons_self "elementAt" rfl).1
  · rw [(htyping elementOfInteger (List.mem_cons_of_mem _ List.mem_cons_self)).1]
    rfl
  · refine ⟨.notAnArray .index .int32, rfl, ?_⟩
    exact (herrors _ rfl).2 elementOfInteger (List.mem_cons_of_mem _ List.mem_cons_self) _ rfl

end Program

end ArrayScript
