import ArrayScript.Proofs.Host.Calls

/-!
The phases of compiling and calling, over whole sessions.

An `Operation` compiles a program, calls a function or resets the recorder that all
operations share. What an operation should run is said by `Operation.Runs` without its
events: a call, for instance, runs the import if it passes its checks.

* `check_isOk_iff`: what it means that a call passes its checks.
* `Operation.events_eq`: an operation announces the phases that it runs one after the other,
  the end of each right behind its beginning.
* `PhaseRecorder.IsIdle`: no phase has begun and not ended. Complete phases leave it so.
* `recorded_isIdle`, `completed_recorded`: by induction over a session, no phase is left open
  by it, and a phase is complete if some operation has run it since the last reset.
* `exports_iff`: a call of a compiled unit runs the export if it was prepared and did not trap.
-/

namespace ArrayScript

open HostCall

/-! ### The checks of a call -/

/-- A call names a function of the module, its arguments can be converted to the types of
the parameters, and its outputs are arrays. -/
structure Admissible (u : CompiledUnit) (c : Caller) (arguments : List Value) (name : String)
    (s : Signature) : Prop where
  chosen : c.function = some name
  exported : name ∈ u.functionNames
  signature : u.signatures.find? name = some s
  convertible : List.Forall₂ (fun t v => (word? t v).isSome = true) s.parameters arguments
  outputs : ∀ k ∈ c.outputs, ∃ v, arguments[k]? = some v ∧ v.isArray = true

section

variable {u : CompiledUnit} {c : Caller} {arguments : List Value} {name : String} {s : Signature}

/-- Arguments have words if each of them can be converted. -/
lemma words_isOk_iff {position : Nat} {types : List ValueType}
    (hlength : arguments.length = types.length) :
    (∃ ws, words position types arguments = .ok ws) ↔
      List.Forall₂ (fun t v => (word? t v).isSome = true) types arguments := by
  induction types generalizing position arguments with
  | nil =>
      obtain rfl := List.length_eq_zero_iff.mp hlength
      exact ⟨fun _ => .nil, fun _ => ⟨[], by rw [words]; simp⟩⟩
  | cons t types ih =>
      cases arguments with
      | nil => cases hlength
      | cons v rest =>
          rw [List.forall₂_cons, ← @ih _ (position + 1) (Nat.succ.inj hlength), words]
          cases hw : word? t v with
          | none => simp
          | some w =>
              simp only [bind_eq_ok, pure_eq_ok, Option.isSome_some, true_and]
              constructor
              · rintro ⟨_, ws, hws, _⟩
                exact ⟨ws, hws⟩
              · rintro ⟨ws, hws⟩
                exact ⟨w :: ws, ws, hws, rfl⟩

lemma checkArguments_isOk_iff :
    (∃ ws, checkArguments name s arguments = .ok ws) ↔
      List.Forall₂ (fun t v => (word? t v).isSome = true) s.parameters arguments := by
  rw [checkArguments]
  split
  · rename_i hlength
    constructor
    · rintro ⟨_, h⟩
      cases h
    · exact fun h => absurd h.length_eq.symm hlength
  · rename_i hlength
    exact words_isOk_iff (not_not.mp hlength)

/-- The checks of a call succeed exactly if it passes them. -/
lemma check_isOk_iff :
    (∃ ws, check u c arguments = .ok (name, s, ws)) ↔ Admissible u c arguments name s := by
  simp only [check_eq_ok, checkOutputs_eq_ok]
  constructor
  · rintro ⟨ws, hchosen, hsignature, hws, houtputs⟩
    obtain ⟨hmem, hs⟩ := CompiledUnit.signature?_eq_some hsignature
    exact ⟨hchosen, hmem, hs, checkArguments_isOk_iff.mp ⟨ws, hws⟩, houtputs⟩
  · rintro ⟨hchosen, hmem, hs, hconvertible, houtputs⟩
    obtain ⟨ws, hws⟩ := checkArguments_isOk_iff.mpr hconvertible
    exact ⟨ws, hchosen, by rw [CompiledUnit.signature?, if_pos hmem, hs], hws, houtputs⟩

end

/-! ### Operations -/

/-- What can be done in a session. -/
inductive Operation where
  | compile (program : Program) (table : SignatureTable)
  | call (target : CompiledUnit) (caller : Caller) (arguments : List Value)
  /-- the recorder forgets what it knows -/
  | reset

namespace Operation

/-- The events that an operation announces. -/
def events (limits : Limits) : Operation → List PhaseEvent
  | compile p table => (p.compileUnit table).events
  | call u c arguments => (u.call limits c arguments).events
  | reset => []

/-- The phases of an operation that nothing stops, in order. -/
def course : Operation → List Phase
  | compile _ _ => [.compilation]
  | call _ _ _ => [.importing, .execution, .exporting]
  | reset => []

/-- An operation runs a phase. Programs are always compiled; a call that passes its checks
imports, one that is prepared then runs its function, and one whose function gives a word
exports. -/
inductive Runs (limits : Limits) : Operation → Phase → Prop where
  | compilation {p table} : Runs limits (.compile p table) .compilation
  | importing {u c arguments name s} (admissible : Admissible u c arguments name s) :
    Runs limits (.call u c arguments) .importing
  | execution {u c arguments name s ws p}
    (checked : check u c arguments = .ok (name, s, ws))
    (prepared : prepareWithin limits u.code arguments ws = .ok p) :
    Runs limits (.call u c arguments) .execution
  | exporting {u c arguments name s ws p w i}
    (checked : check u c arguments = .ok (name, s, ws))
    (prepared : prepareWithin limits u.code arguments ws = .ok p)
    (ended : p.target.call limits name p.words = (.ok w, i)) :
    Runs limits (.call u c arguments) .exporting

section

variable {limits : Limits} {u : CompiledUnit} {c : Caller} {arguments : List Value} {name : String}
  {s : Signature} {ws : List Word} {p : Prepared} {phase : Phase}

/-- No phase is run by a call that does not pass its checks. -/
lemma Runs.checked (h : Runs limits (.call u c arguments) phase) :
    ∃ checked, check u c arguments = .ok checked := by
  cases h with
  | importing admissible =>
      obtain ⟨ws, hws⟩ := check_isOk_iff.mpr admissible
      exact ⟨_, hws⟩
  | execution checked => exact ⟨_, checked⟩
  | exporting checked => exact ⟨_, checked⟩

/-- Calls do not compile. -/
lemma not_runs_compilation : ¬ Runs limits (.call u c arguments) .compilation := by
  rintro ⟨⟩

lemma runs_importing (hcheck : check u c arguments = .ok (name, s, ws)) :
    Runs limits (.call u c arguments) .importing :=
  .importing (check_isOk_iff.mp ⟨ws, hcheck⟩)

lemma runs_execution_iff (hcheck : check u c arguments = .ok (name, s, ws)) :
    Runs limits (.call u c arguments) .execution ↔
      ∃ p, prepareWithin limits u.code arguments ws = .ok p := by
  constructor
  · rintro ⟨⟩
    rename_i hprepared hchecked
    cases hcheck.symm.trans hchecked
    exact ⟨_, hprepared⟩
  · rintro ⟨p, hp⟩
    exact .execution hcheck hp

lemma runs_exporting_iff (hcheck : check u c arguments = .ok (name, s, ws)) :
    Runs limits (.call u c arguments) .exporting ↔
      ∃ p w i, prepareWithin limits u.code arguments ws = .ok p ∧
        p.target.call limits name p.words = (.ok w, i) := by
  constructor
  · rintro ⟨⟩
    rename_i hended hprepared hchecked
    cases hcheck.symm.trans hchecked
    exact ⟨_, _, _, hprepared, hended⟩
  · rintro ⟨p, w, i, hp, hended⟩
    exact .exporting hcheck hp hended

/-- A call runs the first few of its phases, and announces just these. -/
lemma call_events_eq (limits : Limits) (u : CompiledUnit) (c : Caller) (arguments : List Value) :
    ∃ phases, phases <+: [Phase.importing, .execution, .exporting] ∧
      (u.call limits c arguments).events = phases.flatMap PhaseEvent.around ∧
      ∀ phase, phase ∈ phases ↔ Runs limits (.call u c arguments) phase := by
  cases hcheck : check u c arguments with
  | error e =>
      refine ⟨[], List.nil_prefix, by rw [CompiledUnit.call, hcheck]; rfl, fun phase => ?_⟩
      rw [List.mem_nil_iff, false_iff]
      intro h
      obtain ⟨_, hok⟩ := h.checked
      cases hcheck.symm.trans hok
  | ok checked =>
      obtain ⟨name, s, ws⟩ := checked
      have himports : Runs limits (.call u c arguments) .importing := runs_importing hcheck
      have hexecutes : Runs limits (.call u c arguments) .execution ↔ _ :=
        runs_execution_iff hcheck
      have hexports : Runs limits (.call u c arguments) .exporting ↔ _ :=
        runs_exporting_iff hcheck
      cases hprepare : prepareWithin limits u.code arguments ws with
      | error e =>
          refine ⟨[.importing], ⟨_, rfl⟩, ?_, fun phase => ?_⟩
          · rw [CompiledUnit.call, hcheck]
            dsimp only
            rw [hprepare]
            rfl
          · cases phase <;> simp [not_runs_compilation, himports, hexecutes, hexports, hprepare]
      | ok p =>
          obtain ⟨result, i, hcall⟩ : ∃ result i,
            p.target.call limits name p.words = (result, i) := ⟨_, _, rfl⟩
          cases result with
          | error reason =>
              refine ⟨[.importing, .execution], ⟨_, rfl⟩, ?_, fun phase => ?_⟩
              · rw [call_eq_failed hcheck hprepare hcall]
                rfl
              · cases phase <;>
                  simp [not_runs_compilation, himports, hexecutes, hexports, hprepare, hcall]
          | ok w =>
              refine ⟨[.importing, .execution, .exporting], List.prefix_rfl, ?_, fun phase => ?_⟩
              · rw [CompiledUnit.call, hcheck]
                dsimp only
                rw [hprepare]
                dsimp only
                rw [hcall]
                rfl
              · cases phase <;>
                  simp [not_runs_compilation, himports, hexecutes, hexports, hprepare, hcall]

end

/-- An operation announces the phases that it runs, which are the first few of its course. -/
lemma events_eq (limits : Limits) (op : Operation) :
    ∃ phases, phases <+: op.course ∧ op.events limits = phases.flatMap PhaseEvent.around ∧
      ∀ phase, phase ∈ phases ↔ op.Runs limits phase := by
  cases op with
  | compile p table =>
      refine ⟨[.compilation], List.prefix_rfl, rfl, fun phase => ⟨fun h => ?_, fun h => ?_⟩⟩
      · obtain rfl := List.mem_singleton.mp h
        exact .compilation
      · cases h
        exact List.mem_singleton_self _
  | call u c arguments => exact call_events_eq limits u c arguments
  | reset =>
      refine ⟨[], List.prefix_rfl, rfl, fun phase => ?_⟩
      rw [List.mem_nil_iff, false_iff]
      rintro ⟨⟩

end Operation

/-! ### The recorder -/

namespace PhaseRecorder

/-- No phase has begun that has not ended. -/
def IsIdle (r : PhaseRecorder) : Prop :=
  ∀ phase, r.begun phase = false

variable {r : PhaseRecorder}

lemma mem_phases {phase : Phase} : phase ∈ r.phases ↔ r.completed phase = true := by
  rw [phases, List.mem_filter, and_iff_right]
  cases phase <;> decide

lemma observeAll_append (events more : List PhaseEvent) :
    r.observeAll (events ++ more) = (r.observeAll events).observeAll more :=
  List.foldl_append

lemma completed_around (hr : r.IsIdle) (phase q : Phase) :
    (r.observeAll (PhaseEvent.around phase)).completed q = true ↔
      q = phase ∨ r.completed q = true := by
  simp [observeAll, PhaseEvent.around, observe, hr q]

lemma isIdle_around (hr : r.IsIdle) (phase : Phase) :
    (r.observeAll (PhaseEvent.around phase)).IsIdle := by
  intro q
  simp only [observeAll, PhaseEvent.around, observe, List.foldl_cons, List.foldl_nil, hr q,
    Bool.or_false, ne_eq, Bool.and_eq_false_iff, decide_eq_false_iff_not, not_not]
  exact eq_or_ne q phase

/-- After phases one after the other none is open, and these are complete. -/
lemma observeAll_phases (hr : r.IsIdle) (phases : List Phase) :
    (r.observeAll (phases.flatMap PhaseEvent.around)).IsIdle ∧
    ∀ q, (r.observeAll (phases.flatMap PhaseEvent.around)).completed q = true ↔
      q ∈ phases ∨ r.completed q = true := by
  induction phases generalizing r with
  | nil => exact ⟨hr, fun q => by simp [observeAll]⟩
  | cons phase rest ih =>
      obtain ⟨hidle, hcompleted⟩ := ih (isIdle_around hr phase)
      rw [List.flatMap_cons, observeAll_append]
      refine ⟨hidle, fun q => ?_⟩
      rw [hcompleted q, completed_around hr, List.mem_cons, ← or_assoc, or_comm (a := q ∈ rest)]

/-- The recorder after an operation. -/
def after (limits : Limits) (r : PhaseRecorder) : Operation → PhaseRecorder
  | .reset => fresh
  | op => r.observeAll (op.events limits)

end PhaseRecorder

open PhaseRecorder

/-- What a fresh recorder knows after a session. -/
def recorded (limits : Limits) (operations : List Operation) : PhaseRecorder :=
  operations.foldl (PhaseRecorder.after limits) .fresh

section

variable {limits : Limits} {operations : List Operation} {op : Operation}

lemma recorded_append : recorded limits (operations ++ [op]) =
    (recorded limits operations).after limits op := by
  rw [recorded, List.foldl_append]
  rfl

/-- An operation adds the phases that it runs, and a reset forgets all. -/
lemma after_spec {r : PhaseRecorder} (hr : r.IsIdle) (op : Operation) :
    (r.after limits op).IsIdle ∧ ∀ phase, (r.after limits op).completed phase = true ↔
      op.Runs limits phase ∨ op ≠ .reset ∧ r.completed phase = true := by
  obtain ⟨phases, _, hevents, hruns⟩ := op.events_eq limits
  have hobserved := observeAll_phases hr phases
  cases op with
  | reset =>
      refine ⟨fun _ => rfl, fun phase => ⟨fun h => (by cases h), ?_⟩⟩
      rintro (⟨⟨⟩⟩ | ⟨hreset, _⟩)
      exact absurd rfl hreset
  | compile p table | call u c arguments =>
      rw [PhaseRecorder.after, hevents]
      · refine ⟨hobserved.1, fun phase => ?_⟩
        rw [hobserved.2 phase, hruns phase]
        simp
      · intro h
        cases h

/-- No session leaves a phase open. -/
lemma recorded_isIdle (limits : Limits) (operations : List Operation) :
    (recorded limits operations).IsIdle := by
  induction operations using List.reverseRecOn with
  | nil => exact fun _ => rfl
  | append_singleton operations op ih =>
      rw [recorded_append]
      exact (after_spec ih op).1

/-- A phase is complete if an operation has run it since the last reset. -/
lemma completed_recorded (phase : Phase) :
    (recorded limits operations).completed phase = true ↔
      ∃ earlier op later, operations = earlier ++ op :: later ∧ .reset ∉ later ∧
        op.Runs limits phase := by
  induction operations using List.reverseRecOn with
  | nil =>
      refine ⟨fun h => (by cases h), ?_⟩
      rintro ⟨_, _, _, h, _⟩
      simp at h
  | append_singleton operations last ih =>
      rw [recorded_append, (after_spec (recorded_isIdle limits operations) last).2 phase, ih]
      constructor
      · rintro (hruns | ⟨hreset, earlier, op, later, rfl, hlater, hruns⟩)
        · exact ⟨operations, last, [], rfl, List.not_mem_nil, hruns⟩
        · refine ⟨earlier, op, later ++ [last], by simp, ?_, hruns⟩
          simpa [hlater] using Ne.symm hreset
      · rintro ⟨earlier, op, later, heq, hlater, hruns⟩
        rcases List.eq_nil_or_concat' later with rfl | ⟨later, last', rfl⟩
        · obtain ⟨-, rfl⟩ := List.append_singleton_inj.mp heq
          exact .inl hruns
        · rw [← List.cons_append, ← List.append_assoc] at heq
          obtain ⟨rfl, rfl⟩ := List.append_singleton_inj.mp heq
          rw [List.mem_append, not_or, List.mem_singleton] at hlater
          exact .inr ⟨Ne.symm hlater.2, earlier, op, later, rfl, hlater.1, hruns⟩

end

/-! ### Traps -/

/-- The function that was called trapped, or was not finished in time. -/
def CallReport.WasStopped (r : CallReport) : Prop :=
  ∃ name reason, r.result = .error (.execution reason) ∧
    ((∃ trap, reason = .trapped name trap) ∨ reason = .unfinished name)

section

variable {u : CompiledUnit} {c : Caller} {arguments : List Value} {name : String} {s : Signature}
  {ws : List Word} {p : Prepared} {i : Instance}

/-- A function that gives a word was not stopped. -/
lemma not_wasStopped (hu : u.IsCompiled) {limits : Limits} {w : Word}
    (hcheck : check u c arguments = .ok (name, s, ws))
    (hp : prepareWithin limits u.code arguments ws = .ok p)
    (hcall : p.target.call limits name p.words = (.ok w, i)) :
    ¬ (u.call limits c arguments).WasStopped := by
  have hruns := call_checked hu hcheck hp
  rw [hcall] at hruns
  obtain ⟨htype, hready⟩ := hruns
  have hended : Ended limits u c arguments s p w i :=
    ⟨⟨name, ws, hcheck, hp, hcall⟩, htype, hready⟩
  obtain ⟨_, _, hreport⟩ := hended.report
  rintro ⟨_, reason, hresult, _⟩
  rw [hreport c rfl fun _ => Iff.rfl] at hresult
  rcases result_cases htype with ⟨v, hv, _⟩ | ⟨_, n, hn⟩
  · cases hv.symm.trans hresult
  · cases hn.symm.trans hresult

/-- A function of a compiled unit that gives no word was stopped. -/
lemma wasStopped (hu : u.IsCompiled) {limits : Limits} {reason : RunError}
    (hcheck : check u c arguments = .ok (name, s, ws))
    (hp : prepareWithin limits u.code arguments ws = .ok p)
    (hcall : p.target.call limits name p.words = (.error reason, i)) :
    (u.call limits c arguments).WasStopped := by
  have hruns := call_checked hu hcheck hp
  rw [hcall] at hruns
  refine ⟨name, reason, by rw [call_eq_failed hcheck hp hcall], ?_⟩
  cases hruns with
  | trapped trap => exact .inl ⟨trap, rfl⟩
  | unfinished => exact .inr rfl

end

/-- A call of a compiled unit that was prepared runs the export unless its function is
stopped: nothing else can go wrong before. -/
lemma exports_iff {u : CompiledUnit} (hu : u.IsCompiled) (limits : Limits) (c : Caller)
    (arguments : List Value) :
    Operation.Runs limits (.call u c arguments) .exporting ↔
      Operation.Runs limits (.call u c arguments) .execution ∧
        ¬ (u.call limits c arguments).WasStopped := by
  cases hcheck : check u c arguments with
  | error e =>
      have hrefused : ∀ phase, ¬ Operation.Runs limits (.call u c arguments) phase :=
        fun phase h => by
          obtain ⟨_, hok⟩ := h.checked
          cases hcheck.symm.trans hok
      exact ⟨fun h => (hrefused _ h).elim, fun h => (hrefused _ h.1).elim⟩
  | ok checked =>
      obtain ⟨name, s, ws⟩ := checked
      rw [Operation.runs_exporting_iff hcheck, Operation.runs_execution_iff hcheck]
      constructor
      · rintro ⟨p, w, i, hp, hcall⟩
        exact ⟨⟨p, hp⟩, not_wasStopped hu hcheck hp hcall⟩
      · rintro ⟨⟨p, hp⟩, hstopped⟩
        obtain ⟨outcome, i, hcall⟩ : ∃ outcome i,
          p.target.call limits name p.words = (outcome, i) := ⟨_, _, rfl⟩
        cases outcome with
        | ok w => exact ⟨p, w, i, hp, hcall⟩
        | error reason => exact absurd (wasStopped hu hcheck hp hcall) hstopped

/-! ### Sessions -/

/-- In a session each operation announces the phases that it runs in the order of its
course, the end of each right behind its beginning, and none is left open. The recorder
knows afterwards just the phases that some operation has run since the last reset. Of the
calls that pass their checks and are prepared, those of compiled units run the export unless
their function is stopped, whether there is anything to read back or not. -/
theorem phases_recorded (limits : Limits) (operations : List Operation) :
    (∀ op ∈ operations, ∃ phases, phases <+: op.course ∧
      op.events limits = phases.flatMap PhaseEvent.around ∧
      ∀ phase, phase ∈ phases ↔ op.Runs limits phase) ∧
    (recorded limits operations).IsIdle ∧
    (∀ phase, phase ∈ (recorded limits operations).phases ↔
      ∃ earlier op later, operations = earlier ++ op :: later ∧ .reset ∉ later ∧
        op.Runs limits phase) ∧
    ∀ u c arguments, .call u c arguments ∈ operations → u.IsCompiled →
      (Operation.Runs limits (.call u c arguments) .exporting ↔
        Operation.Runs limits (.call u c arguments) .execution ∧
          ¬ (u.call limits c arguments).WasStopped) := by
  refine ⟨fun op _ => op.events_eq limits, recorded_isIdle limits operations, fun phase => ?_,
    fun u c arguments _ hu => exports_iff hu limits c arguments⟩
  rw [mem_phases, completed_recorded]

/-- `function f(x, y) { return x / y; }` -/
def quotientProgram : Program :=
  ⟨[.function (some "f") [⟨.identifier "x", none⟩, ⟨.identifier "y", none⟩] none
    [.ret (some (.binary 0 .div (.identifier 1 "x") (.identifier 2 "y")))]]⟩

/-- It is compiled, the recorder is reset, a call without a name is refused, and one divides
by zero. -/
def quotientSession (u : CompiledUnit) : List Operation :=
  [.compile quotientProgram (Table.ofList [("f", ⟨[.int32, .int32], .int32⟩)]), .reset,
    .call u ⟨none, []⟩ [], .call u ⟨some "f", []⟩ [.int32 1, .int32 0]]

/-- The last call passes its checks and is prepared, and its function traps. -/
lemma quotientProgram_traps :
    ∃ u, (quotientProgram.compileUnit
        (Table.ofList [("f", ⟨[.int32, .int32], .int32⟩)])).result = .ok u ∧
      check u ⟨some "f", []⟩ [.int32 1, .int32 0] =
        .ok ("f", ⟨[.int32, .int32], .int32⟩, [.i32 1, .i32 0]) ∧
      prepareWithin .standard u.code [.int32 1, .int32 0] [.i32 1, .i32 0] =
        .ok ⟨⟨u.code, none⟩, [.i32 1, .i32 0], [none, none]⟩ ∧
      (u.call .standard ⟨some "f", []⟩ [.int32 1, .int32 0]).result =
        .error (.execution (.trapped "f" .divideByZero)) := by
  obtain ⟨u, f, hu, hf, hparams, hlocals, hbody, hcheck, hprepare⟩ :
      ∃ u f, (quotientProgram.compileUnit
        (Table.ofList [("f", ⟨[.int32, .int32], .int32⟩)])).result = .ok u ∧
      u.code.functions.find? (·.name = "f") = some f ∧ f.params = [.i32, .i32] ∧ f.locals = [] ∧
      f.body = Lowering.plain [.localGet 0, .localGet 1, .int .div, .ret, .i32Const 0] ∧
      check u ⟨some "f", []⟩ [.int32 1, .int32 0] =
        .ok ("f", ⟨[.int32, .int32], .int32⟩, [.i32 1, .i32 0]) ∧
      prepareWithin .standard u.code [.int32 1, .int32 0] [.i32 1, .i32 0] =
        .ok ⟨⟨u.code, none⟩, [.i32 1, .i32 0], [none, none]⟩ :=
    ⟨_, _, rfl, rfl, rfl, rfl, rfl, rfl, rfl⟩
  have hinvoke : Machine.invoke u.code Limits.standard.fuel Limits.standard.depth f
      [.i32 1, .i32 0] (Memory.zeros 0) = .trapped .divideByZero (Memory.zeros 0) := by
    show Machine.invoke u.code _ (999 + 1) f _ _ = _
    rw [Machine.invoke, hbody, Machine.exec_plain rfl, Machine.entryVariables, hlocals]
    rfl
  have hcall : Instance.call .standard ⟨u.code, none⟩ "f" [.i32 1, .i32 0] =
      (.error (.trapped "f" .divideByZero), ⟨u.code, none⟩) := by
    rw [Instance.call, hf]
    dsimp only
    rw [hparams, if_neg (by decide), Option.getD_none, hinvoke]
    rfl
  exact ⟨u, hu, hcheck, hprepare, by rw [call_eq_failed hcheck hprepare hcall]⟩

theorem quotientSession_recorded :
    ∃ u, (quotientProgram.compileUnit
        (Table.ofList [("f", ⟨[.int32, .int32], .int32⟩)])).result = .ok u ∧
      (u.call .standard ⟨some "f", []⟩ [.int32 1, .int32 0]).result =
        .error (.execution (.trapped "f" .divideByZero)) ∧
      (recorded .standard (quotientSession u)).IsIdle ∧
      ∀ phase, phase ∈ (recorded .standard (quotientSession u)).phases ↔
        phase = .importing ∨ phase = .execution := by
  obtain ⟨u, hu, hcheck, hprepare, hresult⟩ := quotientProgram_traps
  obtain ⟨_, hidle, hphases, hexports⟩ := phases_recorded .standard (quotientSession u)
  have hstopped : ¬ Operation.Runs .standard (.call u ⟨some "f", []⟩ [.int32 1, .int32 0])
      .exporting := fun h =>
    ((hexports _ _ _ (List.mem_of_getElem? (i := 3) rfl) ⟨_, _, hu⟩).mp h).2
      ⟨"f", _, hresult, .inl ⟨_, rfl⟩⟩
  refine ⟨u, hu, hresult, hidle, fun phase => (hphases phase).trans ⟨?_, fun h => ?_⟩⟩
  · rintro ⟨earlier, op, later, heq, hlater, hruns⟩
    -- only the two calls come after the reset, and the first of them is refused
    have hrefused : ¬ Operation.Runs .standard (.call u ⟨none, []⟩ []) phase := fun h => by
      obtain ⟨_, hok⟩ := h.checked
      cases hok
    rcases earlier with _ | ⟨_, _ | ⟨_, _ | ⟨_, _ | ⟨_, earlier⟩⟩⟩⟩
    · cases heq
      exact absurd List.mem_cons_self hlater
    · cases heq
      cases hruns
    · cases heq
      exact absurd hruns hrefused
    · cases heq
      cases phase with
      | compilation => cases hruns
      | importing => exact .inl rfl
      | execution => exact .inr rfl
      | exporting => exact absurd hruns hstopped
    · simp [quotientSession] at heq
  · refine ⟨(quotientSession u).take 3, _, [], rfl, List.not_mem_nil, ?_⟩
    rcases h with rfl | rfl
    · exact Operation.runs_importing hcheck
    · exact .execution hcheck hprepare

end ArrayScript
