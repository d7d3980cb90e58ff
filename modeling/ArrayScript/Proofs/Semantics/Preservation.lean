import ArrayScript.Proofs.Compilation.WellTyped
import ArrayScript.Proofs.Machine.Fuel
import ArrayScript.Proofs.Semantics.Statements

/-!
Compilation preserves what programs mean.

* `Lowered.entry`: when a compiled function is entered, its slots hold the variables of
  the procedure that is entered.
* `invoke_answers`: with the same fuel, and calls nested no deeper than the machine can,
  a compiled function answers its procedure, by strong induction on the fuel.
* `Behaviour`: what a call comes to with fuel and depth left open.
* `compile_preserves`: both sides have the same, single behaviour.
-/

namespace ArrayScript

open Machine Lowering Evaluation

/-! ### Entering a function -/

lemma Datum.map_type_coerce {ds : List Datum} {types : List ValueType}
    (h : ds.length = types.length) : (ds.zipWith Datum.coerce types).map Datum.type = types := by
  induction types generalizing ds with
  | nil => simp
  | cons t rest ih =>
      cases ds with
      | nil => cases h
      | cons d ds =>
          rw [List.zipWith_cons_cons, List.map_cons, Datum.type_coerce, ih (by simpa using h)]

lemma Datum.word_zero (t : ValueType) : (Datum.zero t).word = Word.zero t.wordType := by
  cases t <;> rfl

namespace Lowered

variable {cx : LoweringContext} {slots : Slots} {count : Nat} {code : Code} {f : CompiledFunction}

/-- The procedure a function was lowered from. -/
def procedure (cx : LoweringContext) : Procedure :=
  ⟨cx.function, cx.signature, cx.typing.variableTypes⟩

lemma parameters_eq (h : Lowered cx slots count code f) :
    (procedure cx).parameters = slots.parameters.names := by
  obtain ⟨hparams, _⟩ := Slots.resolve_eq_ok h.resolved
  rw [Procedure.parameters, procedure]
  generalize slots.parameters.names = names at hparams
  generalize cx.function.params = params at hparams
  induction hparams with
  | nil => rfl
  | cons hhead _ ih => rw [List.filterMap_cons, hhead, ih]

lemma length_arguments (h : Lowered cx slots count code f) {ds : List Datum}
    (hlength : ds.length = cx.signature.arity) :
    (ds.zipWith Datum.coerce cx.signature.parameters).length = slots.parameters.names.length := by
  rw [List.length_zipWith, hlength, ← h.arity_eq, Signature.arity, min_self]

/-- A parameter is entered with its argument. -/
lemma entry_parameter (h : Lowered cx slots count code f) {ds : List Datum}
    (hlength : ds.length = cx.signature.arity) {name : String} {slot : Nat} {t : ValueType}
    (hname : slots.parameters.names[slot]? = some name)
    (ht : cx.typing.variableTypes.find? name = some t) :
    (ds.zipWith Datum.coerce cx.signature.parameters)[slot]? =
      some ((procedure cx).entry ds name) ∧ ((procedure cx).entry ds name).type = t := by
  obtain ⟨u, hu, hfind⟩ := forall₂_getElem? h.parameters hname
  obtain rfl : u = t := Option.some.inj (hfind.symm.trans ht)
  have htypes : (ds.zipWith Datum.coerce cx.signature.parameters).map Datum.type =
      cx.signature.parameters := Datum.map_type_coerce hlength
  rw [← htypes, List.getElem?_map, Option.map_eq_some_iff] at hu
  obtain ⟨d, hd, htype⟩ := hu
  have hmem : (name, d) ∈
      slots.parameters.names.zip (ds.zipWith Datum.coerce cx.signature.parameters) :=
    List.mem_of_getElem? (List.getElem?_zip_eq_some.mpr ⟨hname, hd⟩)
  have hbound := Table.find?_ofList_of_mem
    (by rw [List.map_fst_zip (h.length_arguments hlength).ge]; exact slots.parameters.nodup) hmem
  have hentry : (procedure cx).entry ds name = d := by
    show Option.getD (Table.find? (Table.ofList ((procedure cx).parameters.zip _)) name) _ = _
    rw [h.parameters_eq]
    show Option.getD (Table.find? (Table.ofList (slots.parameters.names.zip
      (ds.zipWith Datum.coerce cx.signature.parameters))) name) _ = _
    rw [hbound, Option.getD_some]
  rw [hentry]
  exact ⟨hd, htype⟩

/-- A variable with a slot after those of the parameters is none of them. -/
lemma not_parameter (h : Lowered cx slots count code f) {name : String} {slot : Nat}
    {t : ValueType} (hvariable : IsVariable cx name slot t)
    (hslot : slots.parameters.names.length ≤ slot) : name ∉ slots.parameters.names := by
  intro hmem
  obtain ⟨_, _, hfirst⟩ := List.idxOf?_eq_some_iff.mp hvariable.slot_eq
  obtain ⟨j, hj, hname⟩ := List.mem_iff_getElem.mp hmem
  have hnames : cx.names = slots.parameters.names ++ slots.locals.names := h.names_eq_append
  refine hfirst j (by omega) ?_
  simp only [hnames, List.getElem_append_left hj, hname]

/-- Any other variable is entered with the zero of its type. -/
lemma entry_local (h : Lowered cx slots count code f) (ds : List Datum) {name : String}
    {t : ValueType} (hname : name ∉ slots.parameters.names)
    (ht : cx.typing.variableTypes.find? name = some t) :
    (procedure cx).entry ds name = Datum.zero t := by
  have hfind : (Table.ofList ((procedure cx).parameters.zip
      (ds.zipWith Datum.coerce cx.signature.parameters))).find? name = none := by
    rw [Option.eq_none_iff_forall_ne_some]
    intro d hd
    have hmem := (List.of_mem_zip (Table.mem_of_find?_ofList hd)).1
    rw [h.parameters_eq] at hmem
    exact hname hmem
  show Option.getD (Table.find? _ name) _ = _
  rw [procedure] at hfind ⊢
  rw [hfind, Option.getD_none, ht, Option.getD_some]

/-- The slots of a function that is entered hold the variables of its procedure. -/
lemma entry (h : Lowered cx slots count code f) {ds : List Datum}
    (hlength : ds.length = cx.signature.arity) :
    Holds cx (cx.names.length + count) ((procedure cx).entry ds)
      (entryVariables f ((ds.zipWith Datum.coerce cx.signature.parameters).map Datum.word)) := by
  have hwords : ((ds.zipWith Datum.coerce cx.signature.parameters).map Datum.word).length =
      slots.parameters.names.length := by rw [List.length_map, h.length_arguments hlength]
  refine ⟨?_, fun {name slot t} hvariable => ?_⟩
  · rw [entryVariables, List.size_toArray, List.length_append, hwords, h.locals_eq,
      h.names_eq_append]
    simp
    omega
  · have hname := hvariable.getElem?_eq
    rw [h.names_eq_append] at hname
    rw [entryVariables, List.getElem?_toArray]
    by_cases hslot : slot < slots.parameters.names.length
    · rw [List.getElem?_append_left hslot] at hname
      obtain ⟨hvalue, htype⟩ := h.entry_parameter hlength hname hvariable.type_eq
      rw [List.getElem?_append_left (by rwa [hwords]), List.getElem?_map, hvalue]
      exact ⟨rfl, htype⟩
    · have hnot := h.not_parameter hvariable (by omega)
      rw [List.getElem?_append_right (by omega)] at hname
      have hlt := (List.getElem?_eq_some_iff.mp hname).1
      rw [h.entry_local ds hnot hvariable.type_eq, List.getElem?_append_right (by omega),
        hwords, h.locals_eq, List.map_append, List.getElem?_append_left (by simpa using hlt),
        List.getElem?_map, List.getElem?_map, hname, Datum.word_zero]
      refine ⟨?_, Datum.type_zero t⟩
      rw [Option.map_some, Option.map_some, Typing.wordTypeOf_eq hvariable.type_eq]

end Lowered

/-! ### Leaving a function -/

/-- The outcome of a call on the machine answers the result of an evaluation, which is a
value of the given type if it is one. -/
def Answers (t : ValueType) (c : CallOutcome) (r : Except Halt (Datum × Memory)) : Prop :=
  match r with
  | .ok (d, memory) => c = .value d.word memory ∧ d.type = t
  | .error (.trap trap memory) => c = .trapped trap memory
  | .error .outOfFuel => c = .outOfFuel
  | .error .stuck => False

lemma Answers.unique {t : ValueType} {c c' : CallOutcome} {r : Except Halt (Datum × Memory)}
    (h : Answers t c r) (h' : Answers t c' r) : c = c' := by
  unfold Answers at h h'
  split at h
  · exact h.1.trans h'.1.symm
  · exact h.trans h'.symm
  · exact h.trans h'.symm
  · exact h.elim

lemma Answers.value_iff {t : ValueType} {w : Word} {memory : Memory}
    {r : Except Halt (Datum × Memory)} :
    Answers t (.value w memory) r ↔ ∃ d, r = .ok (d, memory) ∧ d.type = t ∧ d.word = w := by
  unfold Answers
  split
  · rename_i d memory'
    constructor
    · rintro ⟨hvalue, htype⟩
      cases hvalue
      exact ⟨d, rfl, htype, rfl⟩
    · rintro ⟨d', hok, htype, rfl⟩
      cases hok
      exact ⟨rfl, htype⟩
  all_goals simp

lemma Answers.trapped_iff {t : ValueType} {trap : Trap} {memory : Memory}
    {r : Except Halt (Datum × Memory)} :
    Answers t (.trapped trap memory) r ↔ r = .error (.trap trap memory) := by
  unfold Answers
  split <;> simp [eq_comm]

lemma Answers.outOfFuel_iff {t : ValueType} {r : Except Halt (Datum × Memory)} :
    Answers t .outOfFuel r ↔ r = .error .outOfFuel := by
  unfold Answers
  split <;> simp

/-- The caller goes on with what was answered. -/
lemma Answers.resume {t : ValueType} {c : CallOutcome} {r : Except Halt (Datum × Memory)}
    (h : Answers t c r) (stack : List Word) (slots : Array Word) :
    Runs (resume stack slots c) r (FallsThrough fun d memory s =>
      d.type = t ∧ s = ⟨d.word :: stack, slots, memory⟩) := by
  unfold Answers at h
  unfold Runs
  split at h
  · obtain ⟨rfl, htype⟩ := h
    exact ⟨_, rfl, htype, rfl⟩
  · rw [h]
    rfl
  · rw [h]
    rfl
  · exact h

/-- The end of a function's body answers what the function returns. -/
lemma Runs.finish {cx : LoweringContext} {size : Nat} {m : CodeModule} {fuel depth : Nat}
    {o : Outcome} {x : Eval Flow} {memory : Memory}
    (h : Runs o (x memory) (Ends cx size [])) :
    Answers cx.signature.returnType
      (finish (o.andThen (exec m fuel depth (Lowering.plain [zero cx.signature.returnType]))))
      ((do
        let flow ← x
        return (Lowered.procedure cx).result flow : Eval Datum) memory) := by
  show Answers _ _ (Except.bind (x memory) fun p => .ok ((Lowered.procedure cx).result p.1, p.2))
  unfold Runs at h
  split at h
  · rename_i flow memory' hr
    rw [hr]
    cases flow with
    | next vars =>
        obtain ⟨_, rfl, slots, rfl, _⟩ := h
        rw [Outcome.andThen_next, exec_zero]
        exact ⟨rfl, Datum.type_zero _⟩
    | returned d =>
        rw [show o = .returned _ memory' from h]
        cases d with
        | none => exact ⟨rfl, Datum.type_zero _⟩
        | some d => exact ⟨rfl, d.type_coerce _⟩
  · rename_i hr
    rw [hr, h]
    exact rfl
  · rename_i hr
    rw [hr, h]
    exact rfl
  · exact h.elim

/-! ### Calls -/

section

variable {p : Program} {table : SignatureTable} {m : CodeModule} {functions : List NamedFunction}

lemma find?_declaration {functions : List NamedFunction} {g : NamedFunction}
    (hnames : ∀ g ∈ functions, g.declaration.name = some g.name)
    (hnodup : (functions.map (·.name)).Nodup) (hg : g ∈ functions) :
    (functions.map (·.declaration)).find? (·.name = some g.name) = some g.declaration := by
  induction functions with
  | nil => cases hg
  | cons head rest ih =>
      obtain ⟨hhead, hrest⟩ := List.forall_mem_cons.mp hnames
      rw [List.map_cons, List.nodup_cons] at hnodup
      rw [List.map_cons, List.find?_cons]
      rcases List.mem_cons.mp hg with rfl | hg
      · simp [hhead]
      · have hne : head.name ≠ g.name := fun h => hnodup.1 (h ▸ List.mem_map_of_mem hg)
        simp only [hhead, Option.some.injEq, hne, decide_false]
        exact ih hrest hnodup.2 hg

/-- A function is found by its name as the procedure it was lowered from. -/
lemma Program.procedure?_eq (hfunctions : p.namedFunctions = .ok functions)
    (hnodup : (functions.map (·.name)).Nodup) {g : NamedFunction} (hg : g ∈ functions)
    {cx : LoweringContext} {slots : Slots} {count : Nat} {code : Code} {f : CompiledFunction}
    (hfunction : cx.function = g.declaration) (htable : cx.table = table)
    (hsignature : table.find? g.name = some cx.signature) (h : Lowered cx slots count code f) :
    p.procedure? table g.name = some (Lowered.procedure cx) := by
  obtain ⟨hdeclarations, hnames⟩ := Program.namedFunctions_eq_ok hfunctions
  have hfind : p.functions.find? (·.name = some g.name) = some g.declaration := by
    rw [hdeclarations]
    exact find?_declaration hnames hnodup hg
  have htyped := h.typed
  rw [hfunction, htable] at htyped
  simp [Program.procedure?, hfind, hsignature, htyped, Except.toOption, Lowered.procedure,
    hfunction]

/-- Compiled functions answer the procedures they were lowered from. -/
def InvokesAgree (p : Program) (table : SignatureTable) (indices : Table String Nat)
    (m : CodeModule) (fuel depth : Nat) : Prop :=
  ∀ {cx slots count code f}, cx.table = table → cx.indices = indices →
    Lowered cx slots count code f → ∀ ds memory, ds.length = cx.signature.arity →
    Answers cx.signature.returnType
      (Machine.invoke m fuel depth f
        ((ds.zipWith Datum.coerce cx.signature.parameters).map Datum.word) memory)
      (Evaluation.invoke (p.procedure? table) fuel (Lowered.procedure cx) ds memory)

variable (hfunctions : p.namedFunctions = .ok functions) (hnodup : (functions.map (·.name)).Nodup)
  (horigin : List.Forall₂ (CompiledFrom table (functionIndices (functions.map (·.name))))
    functions m.functions)

include hfunctions hnodup horigin

/-- A call uses up fuel on both sides, and then a function answers its procedure. -/
lemma calls_agree {cx : LoweringContext} {fuel depth : Nat} (htable : cx.table = table)
    (hindices : cx.indices = functionIndices (functions.map (·.name)))
    (h : ∀ k < fuel, InvokesAgree p table (functionIndices (functions.map (·.name))) m k depth) :
    CallsAgree m fuel depth cx (Evaluation.call (p.procedure? table) fuel) := by
  intro name index signature ds stack slots memory hindex hsignature hlength
  rw [hindices] at hindex
  rw [htable] at hsignature
  have hname := functionIndices_eq_some hindex
  rw [List.getElem?_map, Option.map_eq_some_iff] at hname
  obtain ⟨g, hg, rfl⟩ := hname
  obtain ⟨f, hf, _, cx', slots', count, code, hfunction, htable', hindices', hfind, hlowered⟩ :=
    forall₂_getElem? horigin hg
  obtain rfl : cx'.signature = signature := Option.some.inj (hfind.symm.trans hsignature)
  have hprocedure := Program.procedure?_eq hfunctions hnodup (List.mem_of_getElem? hg) hfunction
    htable' hfind hlowered
  rw [instr_call hf, Evaluation.call, hprocedure]
  · cases fuel with
    | zero => exact rfl
    | succ k =>
        have hanswers := h k (by omega) htable' hindices' hlowered ds memory hlength
        exact hanswers.resume stack slots
  · rw [List.length_map, hlowered.length_arguments hlength, hlowered.params_eq, List.length_map]

/-- By strong induction on the fuel, every function answers its procedure where calls may
be nested more deeply than there is fuel. -/
theorem invoke_answers (fuel depth : Nat) (hdepth : fuel < depth) :
    InvokesAgree p table (functionIndices (functions.map (·.name))) m fuel depth := by
  induction fuel using Nat.strong_induction_on generalizing depth with
  | _ fuel ih =>
      intro cx slots count code f htable hindices hlowered ds memory hlength
      obtain ⟨inner, rfl⟩ : ∃ inner, depth = inner + 1 := ⟨depth - 1, by omega⟩
      have hcalls : ∀ k ≤ fuel, CallsAgree m k inner cx (Evaluation.call (p.procedure? table) k) :=
        fun k hk => calls_agree hfunctions hnodup horigin htable hindices fun j hj =>
          ih j (by omega) inner (by omega)
      have hentry := hlowered.entry hlength
      have hbody := hlowered.lowers.follows hcalls fuel le_rfl _ [] _ memory hentry
      have hcode : f.body = code ++ Lowering.plain [zero cx.signature.returnType] := by
        rw [hlowered.function_eq]
      rw [Machine.invoke, Evaluation.invoke, hcode, exec_append]
      exact hbody.finish

end

/-! ### Behaviour -/

/-- What a call comes to. -/
inductive Behaviour where
  | returns (result : Word) (memory : Memory)
  | traps (trap : Trap) (memory : Memory)
  | diverges

/-- A call on the machine ends so, however deeply calls may be nested from some depth on. -/
def Machine.Yields (m : CodeModule) (f : CompiledFunction) (arguments : List Word)
    (memory : Memory) (fuel : Nat) (c : CallOutcome) : Prop :=
  ∃ limit, ∀ depth ≥ limit, invoke m fuel depth f arguments memory = c

/-- What a call on the machine comes to where the nesting of calls has no bound. -/
def Machine.Behaves (m : CodeModule) (f : CompiledFunction) (arguments : List Word)
    (memory : Memory) : Behaviour → Prop
  | .returns w memory' => ∃ fuel, Machine.Yields m f arguments memory fuel (.value w memory')
  | .traps t memory' => ∃ fuel, Machine.Yields m f arguments memory fuel (.trapped t memory')
  | .diverges => ∀ fuel, Machine.Yields m f arguments memory fuel .outOfFuel

/-- What the evaluation of a procedure comes to. -/
def Evaluation.Behaves (procedure? : String → Option Procedure) (g : Procedure)
    (ds : List Datum) (memory : Memory) : Behaviour → Prop
  | .returns w memory' => ∃ fuel d, invoke procedure? fuel g ds memory = .ok (d, memory') ∧
      d.type = g.signature.returnType ∧ d.word = w
  | .traps t memory' => ∃ fuel, invoke procedure? fuel g ds memory = .error (.trap t memory')
  | .diverges => ∀ fuel, invoke procedure? fuel g ds memory = .error .outOfFuel

section

variable {m : CodeModule} {f : CompiledFunction} {arguments : List Word} {memory : Memory}

/-- The outcome of a call with enough fuel, or with any if it never is enough. -/
def Behaviour.outcome : Behaviour → CallOutcome
  | returns w memory => .value w memory
  | traps t memory => .trapped t memory
  | diverges => .outOfFuel

lemma Behaviour.outcome_injective {b b' : Behaviour} (h : b.outcome = b'.outcome) : b = b' := by
  cases b <;> cases b' <;> cases h <;> rfl

/-- From some fuel on, a call ends as it behaves. -/
lemma Machine.Behaves.eventually {b : Behaviour} (h : Machine.Behaves m f arguments memory b) :
    ∃ enough, ∀ fuel ≥ enough, Machine.Yields m f arguments memory fuel b.outcome := by
  cases b with
  | diverges => exact ⟨0, fun fuel _ => h fuel⟩
  | returns w memory' =>
      obtain ⟨enough, limit, h⟩ := h
      exact ⟨enough, fun fuel hfuel => ⟨limit, fun depth hdepth =>
        invoke_mono hfuel (h depth hdepth) nofun⟩⟩
  | traps t memory' =>
      obtain ⟨enough, limit, h⟩ := h
      exact ⟨enough, fun fuel hfuel => ⟨limit, fun depth hdepth =>
        invoke_mono hfuel (h depth hdepth) nofun⟩⟩

/-- A call on the machine has at most one behaviour. -/
lemma Machine.Behaves.unique {b b' : Behaviour} (h : Machine.Behaves m f arguments memory b)
    (h' : Machine.Behaves m f arguments memory b') : b = b' := by
  obtain ⟨enough, h⟩ := h.eventually
  obtain ⟨enough', h'⟩ := h'.eventually
  obtain ⟨limit, h⟩ := h (max enough enough') (le_max_left _ _)
  obtain ⟨limit', h'⟩ := h' (max enough enough') (le_max_right _ _)
  exact Behaviour.outcome_injective ((h (max limit limit') (le_max_left _ _)).symm.trans
    (h' (max limit limit') (le_max_right _ _)))

/-- Where a function answers a procedure with all fuel, it has its behaviours. -/
lemma behaves_iff {procedure? : String → Option Procedure} {g : Procedure} {ds : List Datum}
    (h : ∀ fuel depth, fuel < depth → Answers g.signature.returnType
      (Machine.invoke m fuel depth f arguments memory)
      (Evaluation.invoke procedure? fuel g ds memory)) (b : Behaviour) :
    Machine.Behaves m f arguments memory b ↔ Evaluation.Behaves procedure? g ds memory b := by
  have hends : ∀ fuel c, Machine.Yields m f arguments memory fuel c ↔
      Answers g.signature.returnType c (Evaluation.invoke procedure? fuel g ds memory) := by
    intro fuel c
    constructor
    · rintro ⟨limit, hlimit⟩
      rw [← hlimit (max limit (fuel + 1)) (le_max_left _ _)]
      exact h fuel _ (Nat.lt_of_succ_le (le_max_right _ _))
    · exact fun hc => ⟨fuel + 1, fun depth hdepth => (h fuel depth hdepth).unique hc⟩
  cases b with
  | returns w memory' => exact exists_congr fun fuel => (hends fuel _).trans Answers.value_iff
  | traps t memory' => exact exists_congr fun fuel => (hends fuel _).trans Answers.trapped_iff
  | diverges => exact forall_congr' fun fuel => (hends fuel _).trans Answers.outOfFuel_iff

/-- An evaluation that is answered with all fuel has a behaviour. -/
lemma Evaluation.exists_behaves {procedure? : String → Option Procedure} {g : Procedure}
    {ds : List Datum} (h : ∀ fuel, ∃ c, Answers g.signature.returnType c
      (Evaluation.invoke procedure? fuel g ds memory)) :
    ∃ b, Evaluation.Behaves procedure? g ds memory b := by
  by_cases hdiverges : ∀ fuel, Evaluation.invoke procedure? fuel g ds memory = .error .outOfFuel
  · exact ⟨.diverges, hdiverges⟩
  · obtain ⟨fuel, hfuel⟩ := not_forall.mp hdiverges
    obtain ⟨c, hc⟩ := h fuel
    cases hr : Evaluation.invoke procedure? fuel g ds memory with
    | ok r =>
        rw [hr] at hc
        exact ⟨.returns r.1.word r.2, fuel, r.1, hr, hc.2, rfl⟩
    | error e =>
        cases e with
        | trap t memory' => exact ⟨.traps t memory', fuel, hr⟩
        | outOfFuel => exact absurd hr hfuel
        | stuck =>
            rw [hr] at hc
            exact hc.elim

end

/-! ### Programs -/

lemma Datum.coerce_self (d : Datum) : d.coerce d.type = d := by
  cases d <;> rfl

/-- Arguments of the right types are the words of their values. -/
lemma words_of_arguments {types : List ValueType} {arguments : List Word}
    (h : arguments.map Word.type = types.map ValueType.wordType) :
    (List.zipWith Datum.ofWord types arguments).length = types.length ∧
      ((List.zipWith Datum.ofWord types arguments).zipWith Datum.coerce types).map Datum.word =
        arguments := by
  induction types generalizing arguments with
  | nil =>
      rw [List.map_nil, List.map_eq_nil_iff] at h
      subst h
      exact ⟨rfl, rfl⟩
  | cons t types ih =>
      cases arguments with
      | nil => cases h
      | cons w arguments =>
          rw [List.map_cons, List.map_cons, List.cons.injEq] at h
          obtain ⟨hlength, hwords⟩ := ih h.2
          obtain ⟨hword, htype⟩ := Datum.ofWord_spec h.1
          have hself := (Datum.ofWord t w).coerce_self
          rw [htype] at hself
          simp only [List.zipWith_cons_cons, List.length_cons, hlength, List.map_cons, hwords,
            hself, hword, and_self]

/-- A function of a program and its code have the same, single behaviour: on all
arguments of its types and in every memory, both return the same result with the same
memory, or both end in the same trap, or neither ends. -/
theorem compile_preserves {p : Program} {table : SignatureTable} {m : CodeModule}
    (hids : p.renumber = p) (hcompile : p.compile table = .ok m) :
    List.Forall₂ (fun d f => ∃ g, d.name = some f.name ∧ p.procedure? table f.name = some g ∧
      g.declaration = d ∧ f.params = g.signature.parameters.map ValueType.wordType ∧
      ∀ arguments memory, arguments.map Word.type = f.params →
        (∃! b, Machine.Behaves m f arguments memory b) ∧
        ∀ b, Machine.Behaves m f arguments memory b ↔
          Evaluation.Behaves (p.procedure? table) g
            (List.zipWith Datum.ofWord g.signature.parameters arguments) memory b)
      p.functions m.functions := by
  obtain ⟨functions, hfunctions, hcompiled, hexports⟩ := Program.compile_eq_ok hcompile
  have horigin := Program.compiled_origin hids.symm hfunctions hcompiled
  obtain ⟨hdeclarations, _⟩ := Program.namedFunctions_eq_ok hfunctions
  -- no name is declared twice, for every function is exported
  have hnodup : (functions.map (·.name)).Nodup := by
    have hnames : List.Forall₂ (· = ·) (functions.map (·.name)) (m.functions.map (·.name)) := by
      rw [List.forall₂_map_left_iff, List.forall₂_map_right_iff]
      exact horigin.imp fun g f h => h.name_eq.symm
    rw [List.forall₂_eq_eq_eq] at hnames
    rw [hnames]
    exact hexports.of_append_left
  rw [hdeclarations, List.forall₂_map_left_iff]
  refine forall₂_imp_mem horigin fun g hg f hf => ?_
  have hname := hf.name_eq
  obtain ⟨⟨hdeclared, _⟩, cx, slots, count, code, hfunction, htable, hindices, hfind, h⟩ := hf
  have hprocedure := Program.procedure?_eq hfunctions hnodup hg hfunction htable hfind h
  have hparams : f.params = cx.signature.parameters.map ValueType.wordType := by
    rw [h.function_eq]
  rw [hname]
  refine ⟨_, hdeclared, hprocedure, hfunction, hparams, fun arguments memory harguments => ?_⟩
  obtain ⟨hlength, hwords⟩ := words_of_arguments (harguments.trans hparams)
  -- with the same fuel both give the same answer
  have hanswers : ∀ fuel depth, fuel < depth → Answers cx.signature.returnType
      (Machine.invoke m fuel depth f arguments memory)
      (Evaluation.invoke (p.procedure? table) fuel (Lowered.procedure cx)
        (List.zipWith Datum.ofWord cx.signature.parameters arguments) memory) := by
    intro fuel depth hdepth
    have hinvoke := invoke_answers hfunctions hnodup horigin fuel depth hdepth htable hindices h _
      memory hlength
    rwa [hwords] at hinvoke
  have hiff := behaves_iff hanswers
  refine ⟨?_, hiff⟩
  obtain ⟨b, hb⟩ := Evaluation.exists_behaves fun fuel =>
    ⟨_, hanswers fuel _ (Nat.lt_succ_self fuel)⟩
  exact ⟨b, (hiff b).mpr hb, fun b' hb' => hb'.unique ((hiff b).mpr hb)⟩

/-- `function f(a, n) { while (n < a.length) { n += f(a, n + 1); } return a[n]; }` -/
def recursiveLoop : Program :=
  ⟨[.function (some "f") [⟨.identifier "a", none⟩, ⟨.identifier "n", none⟩] none
    [.whileLoop (.binary 0 .lt (.identifier 1 "n") (.property 2 (.identifier 3 "a") "length"))
      (.block [.expression (.assign 4 .addAssign (.identifier 5 "n")
        (.call 6 (.identifier 7 "f") [.identifier 8 "a",
          .binary 9 .add (.identifier 10 "n") (.number 11 Double.one)]))]),
     .ret (some (.index 12 (.identifier 13 "a") (.identifier 14 "n")))]]⟩

theorem recursiveLoop_preserved :
    ∃ m, recursiveLoop.renumber = recursiveLoop ∧ recursiveLoop.compile
        (Table.ofList [("f", ⟨[.float64Array, .int32], .float64⟩)]) = .ok m ∧
      List.Forall₂ (fun d f => d.name = some f.name ∧ ∀ arguments memory,
        arguments.map Word.type = f.params → ∃! b, Machine.Behaves m f arguments memory b)
        recursiveLoop.functions m.functions := by
  have hids : recursiveLoop.renumber = recursiveLoop := rfl
  obtain ⟨m, hm⟩ : ∃ m, recursiveLoop.compile
      (Table.ofList [("f", ⟨[.float64Array, .int32], .float64⟩)]) = .ok m := ⟨_, rfl⟩
  refine ⟨m, hids, hm, (compile_preserves hids hm).imp ?_⟩
  rintro d f ⟨g, hname, _, _, _, hbehaves⟩
  exact ⟨hname, fun arguments memory harguments => (hbehaves arguments memory harguments).1⟩

end ArrayScript
