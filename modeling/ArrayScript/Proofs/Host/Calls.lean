import ArrayScript.Proofs.Host.Preparation

/-!
What a call does and what it may change.

* `call_runs`: the run of a prepared function gives a word of the declared type, traps, or
  is not finished in time. The arrays stay arranged in memory.
* `call_course`: the four ways a call can go.
* `call_frame`: a call changes nothing but outputs, and those only if the function gave a
  word. They are then what is in memory at the end.
* `call_safe`: after its checks a call meets no type error and no access out of bounds.
-/

namespace ArrayScript

open Machine HostCall

/-! ### Runs -/

/-- What the run of a prepared function can give. -/
inductive RunsTo (m : CodeModule) (s : Signature) (name : String) (arguments : List Value)
    (p : Prepared) : Except RunError Word × Instance → Prop where
  | ended {w : Word} {i : Instance} (type : w.type = s.returnType.wordType)
    (ready : Ready m arguments { p with target := i }) :
    RunsTo m s name arguments p (.ok w, i)
  | trapped (trap : Trap) (i : Instance) :
    RunsTo m s name arguments p (.error (.trapped name trap), i)
  | unfinished (i : Instance) : RunsTo m s name arguments p (.error (.unfinished name), i)

section

variable {m : CodeModule} {arguments : List Value} {p : Prepared}

/-- Another memory of the same size is as good. -/
lemma Ready.withMemory (h : Ready m arguments p) {memory : Memory}
    (hsize : memory.size = (p.target.memory.getD (Memory.zeros 0)).size) :
    Ready m arguments { p with target := p.target.withMemory memory } where
  code := h.code
  hasMemory := by rw [Instance.withMemory, Option.isSome_map, h.hasMemory]
  arranged memory' hmemory' := by
    obtain ⟨before, hbefore, rfl⟩ := Option.map_eq_some_iff.mp hmemory'
    rw [hbefore, Option.getD_some] at hsize
    rw [hsize]
    exact h.arranged before hbefore

/-- A prepared function whose words have the types of its parameters does not get stuck. -/
theorem call_runs {s : Signature} {name : String} {f : CompiledFunction} (limits : Limits)
    (hsound : IsSound m) (hf : f ∈ m.functions) (hsignature : f.HasSignature s)
    (hfind : m.functions.find? (·.name = name) = some f) (hready : Ready m arguments p)
    (htypes : p.words.map Word.type = s.parameters.map ValueType.wordType) :
    RunsTo m s name arguments p (p.target.call limits name p.words) := by
  obtain ⟨hparams, hresult⟩ := hsignature
  have hwords : p.words.map Word.type = f.params := htypes.trans hparams.symm
  have hrespects := invoke_respects hsound limits.fuel limits.depth hf
    (p.target.memory.getD (Memory.zeros 0)) hwords
  rw [Instance.call, hready.code, hfind]
  dsimp only
  rw [if_neg (not_not.mpr hwords)]
  cases hinvoke : invoke m limits.fuel limits.depth f p.words
      (p.target.memory.getD (Memory.zeros 0)) with
  | value w memory =>
      rw [hinvoke] at hrespects
      obtain ⟨htype, hsize⟩ := hrespects
      exact .ended (htype.trans hresult) (hready.withMemory hsize)
  | trapped trap memory => exact .trapped trap _
  | stuck =>
      rw [hinvoke] at hrespects
      exact hrespects.elim
  | outOfFuel => exact .unfinished _

end

/-! ### Outputs -/

/-- Arguments after outputs were read back from the memory of an instance, if it has any. -/
structure ReadFrom (i : Instance) (payloads : List (Option Nat)) (outputs : List Nat)
    (arguments arguments' : List Value) : Prop where
  noMemory : i.memory = none → arguments' = arguments
  memory : ∀ memory, i.memory = some memory →
    Restored memory payloads outputs arguments arguments'

section

variable {m : CodeModule} {arguments arguments' : List Value} {p : Prepared} {i : Instance}
  {outputs outputs' : List Nat}

lemma ReadFrom.shapes (h : ReadFrom i p.payloads outputs arguments arguments') :
    arguments'.map Value.shape = arguments.map Value.shape := by
  cases hmemory : i.memory with
  | none => rw [h.noMemory hmemory]
  | some memory => exact (h.memory memory hmemory).shapes

lemma ReadFrom.other (h : ReadFrom i p.payloads outputs arguments arguments') {k : Nat}
    (hk : k ∉ outputs) : arguments'[k]? = arguments[k]? := by
  cases hmemory : i.memory with
  | none => rw [h.noMemory hmemory]
  | some memory => exact (h.memory memory hmemory).other hk

/-- After a run all outputs can be read back, and it does not matter in which order this is
done. -/
theorem Ready.readOutputs (h : Ready m arguments { p with target := i }) (outputs : List Nat) :
    ∃ arguments', ReadFrom i p.payloads outputs arguments arguments' ∧
      ∀ outputs', (∀ k, k ∈ outputs' ↔ k ∈ outputs) →
        readOutputs i p.payloads outputs' arguments = (.ok (), arguments') := by
  obtain ⟨code, memory⟩ := i
  cases memory with
  | none => exact ⟨arguments, ⟨fun _ => rfl, fun _ hsome => by cases hsome⟩, fun outputs' _ => rfl⟩
  | some memory =>
      have harranged := h.arranged memory rfl
      obtain ⟨arguments', _, hrestored⟩ := readEach_restored code harranged outputs
      refine ⟨arguments', ⟨fun hnone => (by cases hnone), ?_⟩, fun outputs' hsame => ?_⟩
      · rintro _ ⟨⟩
        exact hrestored
      · obtain ⟨arguments'', hread, hrestored'⟩ :=
          readEach_restored code harranged outputs'
        rw [hrestored.unique harranged (fun k => (hsame k).symm) hrestored']
        exact hread

end

/-! ### Courses -/

/-- The errors for want of room. -/
inductive NoRoom (limits : Limits) (arguments : List Value) : CallError → Prop where
  | addresses (layout : Layout.ofArguments? arguments = none) :
    NoRoom limits arguments .layoutOverflow
  | pages {pages : Nat} (more : limits.pages < pages) (atMost : pages ≤ 65536) :
    NoRoom limits arguments (.instantiation (.allocation pages))

/-- A call that came to the end of its function, with what it found on the way. -/
structure Ended (limits : Limits) (u : CompiledUnit) (c : Caller) (arguments : List Value)
    (s : Signature) (p : Prepared) (w : Word) (i : Instance) : Prop where
  run : ∃ name ws, check u c arguments = .ok (name, s, ws) ∧
    prepareWithin limits u.code arguments ws = .ok p ∧
    p.target.call limits name p.words = (.ok w, i)
  type : w.type = s.returnType.wordType
  ready : Ready u.code arguments { p with target := i }

/-- The ways a call can go. -/
inductive Course (limits : Limits) (u : CompiledUnit) (c : Caller) (arguments : List Value) :
    CallReport → Prop where
  | refused {e : CallError} (checked : check u c arguments = .error e) :
    Course limits u c arguments ⟨.error e, arguments, []⟩
  | unprepared {e : CallError} {name s ws} (checked : check u c arguments = .ok (name, s, ws))
    (noRoom : NoRoom limits arguments e) (events : List PhaseEvent) :
    Course limits u c arguments ⟨.error e, arguments, events⟩
  | failed {reason : RunError} {name s ws} (checked : check u c arguments = .ok (name, s, ws))
    (reason_eq : (∃ trap, reason = .trapped name trap) ∨ reason = .unfinished name)
    (events : List PhaseEvent) :
    Course limits u c arguments ⟨.error (.execution reason), arguments, events⟩
  | ended {s p w i} {arguments' : List Value} (ended : Ended limits u c arguments s p w i)
    (read : ReadFrom i p.payloads c.outputs arguments arguments') (events : List PhaseEvent) :
    Course limits u c arguments ⟨result s.returnType w, arguments', events⟩

section

variable {limits : Limits} {u : CompiledUnit} {c c' : Caller} {arguments arguments' : List Value}
  {name : String} {s : Signature} {ws : List Word} {p : Prepared} {w : Word} {i : Instance}

/-- A function that passed the check of its call is well typed, and so are the words. -/
lemma check_function (hu : u.IsCompiled) (h : check u c arguments = .ok (name, s, ws)) :
    IsSound u.code ∧ (∃ f ∈ u.code.functions, f.HasSignature s ∧
      u.code.functions.find? (·.name = name) = some f) ∧
    words 0 s.parameters arguments = .ok ws ∧ arguments.length = s.parameters.length := by
  obtain ⟨_, hsignature, harguments, _⟩ := check_eq_ok.mp h
  obtain ⟨hsound, hf⟩ := hu.function hsignature
  rw [checkArguments] at harguments
  split at harguments
  · cases harguments
  · rename_i hlength
    exact ⟨hsound, hf, harguments, not_not.mp hlength⟩

/-- What is prepared after the checks. -/
lemma prepareWithin_checked (limits : Limits) (hu : u.IsCompiled)
    (h : check u c arguments = .ok (name, s, ws)) :
    (∃ e, prepareWithin limits u.code arguments ws = .error e ∧ NoRoom limits arguments e) ∨
    ∃ p, prepareWithin limits u.code arguments ws = .ok p ∧ Ready u.code arguments p ∧
      p.words.map Word.type = s.parameters.map ValueType.wordType := by
  obtain ⟨_, _, hws, hlength⟩ := check_function hu h
  rcases prepare_cases u.code hws hlength with ⟨hlayout, herror⟩ | ⟨p, hp, hready, htypes, hpages⟩
  · rcases prepareWithin_cases limits u.code arguments ws with ⟨e, he, hwithin⟩ | ⟨p, hp, _⟩
    · obtain rfl := Except.error.inj (herror.symm.trans he)
      exact .inl ⟨_, hwithin, .addresses hlayout⟩
    · cases herror.symm.trans hp
  · rcases prepareWithin_cases limits u.code arguments ws with ⟨e, he, _⟩ | ⟨p', hp', h⟩
    · cases hp.symm.trans he
    · obtain rfl := Except.ok.inj (hp.symm.trans hp')
      rcases h with ⟨hmore, hwithin⟩ | hwithin
      · exact .inl ⟨_, hwithin, .pages hmore hpages⟩
      · exact .inr ⟨p, hwithin, hready, htypes⟩

/-- What was prepared runs without getting stuck. -/
lemma call_checked (hu : u.IsCompiled) (h : check u c arguments = .ok (name, s, ws))
    (hp : prepareWithin limits u.code arguments ws = .ok p) :
    RunsTo u.code s name arguments p (p.target.call limits name p.words) := by
  obtain ⟨hsound, ⟨f, hf, hsignature, hfind⟩, _⟩ := check_function hu h
  rcases prepareWithin_checked limits hu h with ⟨e, he, _⟩ | ⟨p', hp', hready, htypes⟩
  · cases he.symm.trans hp
  · obtain rfl := Except.ok.inj (hp.symm.trans hp')
    exact call_runs limits hsound hf hsignature hfind hready htypes

/-- The checks depend on which the outputs are, not on their order. -/
lemma check_congr (hfunction : c'.function = c.function)
    (hsame : ∀ k, k ∈ c'.outputs ↔ k ∈ c.outputs)
    (h : check u c arguments = .ok (name, s, ws)) : check u c' arguments = .ok (name, s, ws) := by
  obtain ⟨hname, hsignature, hws, houtputs⟩ := check_eq_ok.mp h
  refine check_eq_ok.mpr ⟨hfunction.trans hname, hsignature, hws, checkOutputs_eq_ok.mpr ?_⟩
  intro k hk
  exact checkOutputs_eq_ok.mp houtputs k ((hsame k).mp hk)

/-- The report of a call that came to the end of its function is the same for all outputs
in any order. -/
lemma Ended.report (h : Ended limits u c arguments s p w i) :
    ∃ arguments', ReadFrom i p.payloads c.outputs arguments arguments' ∧
      ∀ c', c'.function = c.function → (∀ k, k ∈ c'.outputs ↔ k ∈ c.outputs) →
        u.call limits c' arguments = ⟨result s.returnType w, arguments',
          PhaseEvent.around .importing ++ PhaseEvent.around .execution ++
            PhaseEvent.around .exporting⟩ := by
  obtain ⟨⟨name, ws, hcheck, hprepare, hcall⟩, _, hready⟩ := h
  obtain ⟨arguments', hread, hall⟩ := hready.readOutputs c.outputs
  refine ⟨arguments', hread, fun c' hfunction hsame => ?_⟩
  rw [CompiledUnit.call, check_congr hfunction hsame hcheck]
  dsimp only
  rw [hprepare]
  dsimp only
  rw [hcall]
  dsimp only
  rw [conclude, hall c'.outputs hsame]

lemma call_eq_failed {reason : RunError} (hcheck : check u c arguments = .ok (name, s, ws))
    (hp : prepareWithin limits u.code arguments ws = .ok p)
    (hcall : p.target.call limits name p.words = (.error reason, i)) :
    u.call limits c arguments = ⟨.error (.execution reason), arguments,
      PhaseEvent.around .importing ++ PhaseEvent.around .execution⟩ := by
  rw [CompiledUnit.call, hcheck]
  dsimp only
  rw [hp]
  dsimp only
  rw [hcall]

/-- The ways a call of a compiled function can go. -/
theorem call_course (hu : u.IsCompiled) (limits : Limits) (c : Caller) (arguments : List Value) :
    Course limits u c arguments (u.call limits c arguments) := by
  cases hcheck : check u c arguments with
  | error e =>
      rw [CompiledUnit.call, hcheck]
      exact .refused hcheck
  | ok checked =>
      obtain ⟨name, s, ws⟩ := checked
      rcases prepareWithin_checked limits hu hcheck with
        ⟨e, he, hroom⟩ | ⟨p, hp, hready, _⟩
      · rw [CompiledUnit.call, hcheck]
        dsimp only
        rw [he]
        exact .unprepared hcheck hroom _
      · have hruns := call_checked hu hcheck hp
        cases hcall : p.target.call limits name p.words with
        | mk outcome i =>
            rw [hcall] at hruns
            cases hruns with
            | @ended w _ htype hready' =>
                have hended : Ended limits u c arguments s p w i :=
                  ⟨⟨name, ws, hcheck, hp, hcall⟩, htype, hready'⟩
                obtain ⟨arguments', hread, hreport⟩ := hended.report
                rw [hreport c rfl fun _ => Iff.rfl]
                exact .ended hended hread _
            | trapped trap =>
                rw [call_eq_failed hcheck hp hcall]
                exact .failed hcheck (.inl ⟨trap, rfl⟩) _
            | unfinished =>
                rw [call_eq_failed hcheck hp hcall]
                exact .failed hcheck (.inr rfl) _

end

/-! ### Results -/

/-- The type of the values that a function of a return type gives: addresses are given as
integers. -/
def ValueType.given : ValueType → ValueType
  | boolean => boolean
  | float64 => float64
  | int32 | int32Array | float64Array => int32

/-- A word of the declared type is converted, unless it should be a truth value and is
none. -/
lemma result_cases {t : ValueType} {w : Word} (h : w.type = t.wordType) :
    (∃ v, result t w = .ok v ∧ v.type = t.given) ∨
    t = .boolean ∧ ∃ n, result t w = .error (.booleanConversion n) := by
  cases t with
  | boolean =>
      obtain ⟨n, rfl⟩ := eq_i32_of_type h
      rw [result]
      split
      · exact .inl ⟨_, rfl, rfl⟩
      · split
        · exact .inl ⟨_, rfl, rfl⟩
        · exact .inr ⟨rfl, n, rfl⟩
  | float64 =>
      obtain ⟨x, rfl⟩ := eq_f64_of_type h
      exact .inl ⟨_, rfl, rfl⟩
  | int32 | int32Array | float64Array =>
      obtain ⟨n, rfl⟩ := eq_i32_of_type h
      exact .inl ⟨_, rfl, rfl⟩

/-! ### What a call may change -/

/-- The outputs of a call are arrays, and after it they are what memory holds. -/
lemma Ended.holds {limits : Limits} {u : CompiledUnit} {c : Caller}
    {arguments arguments' : List Value} {s : Signature} {p : Prepared} {w : Word} {i : Instance}
    (h : Ended limits u c arguments s p w i)
    (hread : ReadFrom i p.payloads c.outputs arguments arguments') {memory : Memory}
    (hmemory : i.memory = some memory) {k : Nat} (hk : k ∈ c.outputs) :
    ∃ v offset, PlacedAt p.payloads arguments' k v offset ∧ memory.HoldsArray offset v := by
  obtain ⟨name, ws, hcheck, _, _⟩ := h.run
  obtain ⟨_, _, _, houtputs⟩ := check_eq_ok.mp hcheck
  obtain ⟨v, hv, harray⟩ := checkOutputs_eq_ok.mp houtputs k hk
  obtain ⟨offset, _, hoffset⟩ := (h.ready.arranged memory hmemory).located hv harray
  have hlength : arguments'.length = arguments.length := by
    simpa using congrArg List.length hread.shapes
  obtain ⟨v', hv'⟩ : ∃ v', arguments'[k]? = some v' := by
    refine ⟨_, List.getElem?_eq_getElem ?_⟩
    rw [hlength]
    exact (List.getElem?_eq_some_iff.mp hv).1
  exact ⟨v', offset, ⟨hv', hoffset⟩, (hread.memory memory hmemory).output hk ⟨hv', hoffset⟩⟩

/-- A call changes no shapes and nothing but outputs. If it fails otherwise than at the
conversion of a truth value, it changes nothing at all. If it does not fail so, each output
is what memory holds at its payload in the end, or as it was if there is no memory, and the
same is reported for the same outputs in any other order. -/
theorem call_frame {u : CompiledUnit} (hu : u.IsCompiled) (limits : Limits) (c : Caller)
    (arguments : List Value) {r : CallReport} (hr : u.call limits c arguments = r) :
    r.arguments.map Value.shape = arguments.map Value.shape ∧
    (∀ k ∉ c.outputs, r.arguments[k]? = arguments[k]?) ∧
    (∀ e, r.result = .error e → (∀ n, e ≠ .booleanConversion n) → r.arguments = arguments) ∧
    ((∃ v, r.result = .ok v) ∨ (∃ n, r.result = .error (.booleanConversion n)) →
      (∃ name s ws p w i, check u c arguments = .ok (name, s, ws) ∧
        prepareWithin limits u.code arguments ws = .ok p ∧
        p.target.call limits name p.words = (.ok w, i) ∧
        (i.memory = none → r.arguments = arguments) ∧
        ∀ memory, i.memory = some memory → ∀ k ∈ c.outputs, ∃ v offset,
          PlacedAt p.payloads r.arguments k v offset ∧ memory.HoldsArray offset v) ∧
      ∀ c', c'.function = c.function → (∀ k, k ∈ c'.outputs ↔ k ∈ c.outputs) →
        u.call limits c' arguments = r) := by
  have hcourse := call_course hu limits c arguments
  rw [hr] at hcourse
  -- in the first three cases the error is none of a conversion
  cases hcourse with
  | refused hcheck =>
      refine ⟨rfl, fun _ _ => rfl, fun _ _ _ => rfl, ?_⟩
      rintro (⟨v, hv⟩ | ⟨n, hn⟩)
      · cases hv
      · obtain rfl := Except.error.inj hn
        exact (check_refusal hcheck).elim
  | unprepared hcheck hroom =>
      refine ⟨rfl, fun _ _ => rfl, fun _ _ _ => rfl, ?_⟩
      rintro (⟨v, hv⟩ | ⟨n, hn⟩)
      · cases hv
      · obtain rfl := Except.error.inj hn
        cases hroom
  | failed =>
      refine ⟨rfl, fun _ _ => rfl, fun _ _ _ => rfl, ?_⟩
      rintro (⟨v, hv⟩ | ⟨n, hn⟩)
      · cases hv
      · cases hn
  | @ended s p w i arguments' hended hread =>
      refine ⟨hread.shapes, fun k hk => hread.other hk, fun e he hne => ?_, fun _ => ⟨?_, ?_⟩⟩
      · rcases result_cases hended.type with ⟨v, hv, _⟩ | ⟨_, n, hn⟩
        · cases hv.symm.trans he
        · exact (hne n (Except.error.inj (he.symm.trans hn))).elim
      · obtain ⟨name, ws, hcheck, hprepare, hcall⟩ := hended.run
        exact ⟨name, s, ws, p, w, i, hcheck, hprepare, hcall, hread.noMemory,
          fun memory hmemory k hk => hended.holds hread hmemory hk⟩
      · intro c' hfunction hsame
        obtain ⟨_, _, hreport⟩ := hended.report
        rw [hreport c' hfunction hsame, ← hreport c rfl fun _ => Iff.rfl, hr]

/-- A function that copies an element from its second argument to its first one. -/
def elementCopy : Program :=
  ⟨[.function (some "f") [⟨.identifier "a", none⟩, ⟨.identifier "b", none⟩,
      ⟨.identifier "i", none⟩] none
    [.expression (.assign 0 .assign (.index 1 (.identifier 2 "a") (.identifier 3 "i"))
      (.index 4 (.identifier 5 "b") (.identifier 6 "i"))),
     .ret (some (.index 7 (.identifier 8 "a") (.identifier 9 "i")))]]⟩

/-- The copied element is to be a truth value. -/
def elementCopySignature : Signature := ⟨[.int32Array, .int32Array, .int32], .boolean⟩

theorem elementCopy_frame :
    ∃ u, (elementCopy.compileUnit (Table.ofList [("f", elementCopySignature)])).result = .ok u ∧
      (u.call .standard ⟨some "f", [0]⟩
          [.int32Array [7], .int32Array [1], .int32 0]).arguments[1]? =
        some (.int32Array [1]) := by
  obtain ⟨u, hu⟩ : ∃ u, (elementCopy.compileUnit
      (Table.ofList [("f", elementCopySignature)])).result = .ok u := ⟨_, rfl⟩
  exact ⟨u, hu, (call_frame ⟨_, _, hu⟩ .standard ⟨some "f", [0]⟩ _ rfl).2.1 1 (by decide)⟩

/-! ### What can go wrong with a call -/

/-- What can still go wrong with a call that passed its checks. -/
inductive Fails (limits : Limits) (arguments : List Value) (name : String) (s : Signature) :
    CallError → Prop where
  | noRoom {e : CallError} (noRoom : NoRoom limits arguments e) : Fails limits arguments name s e
  | trapped (trap : Trap) : Fails limits arguments name s (.execution (.trapped name trap))
  | unfinished : Fails limits arguments name s (.execution (.unfinished name))
  | booleanConversion (type : s.returnType = .boolean) (n : Int32) :
    Fails limits arguments name s (.booleanConversion n)

/-- The result of a call that passed its checks. -/
lemma Course.checked {limits : Limits} {u : CompiledUnit} {c : Caller} {arguments : List Value}
    {r : CallReport} (h : Course limits u c arguments r) {name : String} {s : Signature}
    {ws : List Word} (hcheck : check u c arguments = .ok (name, s, ws)) :
    (∀ e, r.result = .error e → Fails limits arguments name s e) ∧
    (∀ v, r.result = .ok v → v.type = s.returnType.given) := by
  cases h with
  | refused hrefused => cases hcheck.symm.trans hrefused
  | unprepared _ hroom =>
      refine ⟨fun e he => ?_, fun v hv => by cases hv⟩
      obtain rfl := Except.error.inj he
      exact .noRoom hroom
  | failed hchecked hreason =>
      cases hcheck.symm.trans hchecked
      refine ⟨fun e he => ?_, fun v hv => by cases hv⟩
      obtain rfl := Except.error.inj he
      rcases hreason with ⟨trap, rfl⟩ | rfl
      · exact .trapped trap
      · exact .unfinished
  | ended hended _ =>
      obtain ⟨name', ws', hcheck', _, _⟩ := hended.run
      cases hcheck.symm.trans hcheck'
      rcases result_cases hended.type with ⟨v, hv, htype⟩ | ⟨hboolean, n, hn⟩
      · refine ⟨fun e he => (by cases hv.symm.trans he), fun v' hv' => ?_⟩
        obtain rfl := Except.ok.inj (hv.symm.trans hv')
        exact htype
      · refine ⟨fun e he => ?_, fun v hv => by cases hn.symm.trans hv⟩
        obtain rfl := Except.error.inj (hn.symm.trans he)
        exact .booleanConversion hboolean n

/-- After the checks of a call there is no type error and no access out of bounds. If there
is room for the arrays, they are written to memory. The words fit the function, which does
not get stuck: it traps, is not finished in time, or gives a word of the declared type, and
then the outputs can be read back. The call fails in no other way, and gives a value of the
declared type. -/
theorem call_safe {u : CompiledUnit} (hu : u.IsCompiled) (limits : Limits) {c : Caller}
    {arguments : List Value} {name : String} {s : Signature} {ws : List Word}
    (hcheck : check u c arguments = .ok (name, s, ws)) :
    (∀ e, prepareWithin limits u.code arguments ws = .error e → NoRoom limits arguments e) ∧
    (∀ p, prepareWithin limits u.code arguments ws = .ok p →
      (∃ f, u.code.functions.find? (·.name = name) = some f ∧
        p.words.map Word.type = f.params ∧ ∀ memory,
          invoke u.code limits.fuel limits.depth f p.words memory ≠ .stuck) ∧
      (∀ reason i, p.target.call limits name p.words = (.error reason, i) →
        (∃ trap, reason = .trapped name trap) ∨ reason = .unfinished name) ∧
      (∀ w i, p.target.call limits name p.words = (.ok w, i) →
        w.type = s.returnType.wordType ∧
        ∃ arguments', readOutputs i p.payloads c.outputs arguments = (.ok (), arguments'))) ∧
    (∀ e, (u.call limits c arguments).result = .error e → Fails limits arguments name s e) ∧
    (∀ v, (u.call limits c arguments).result = .ok v → v.type = s.returnType.given) := by
  have hprepared := prepareWithin_checked limits hu hcheck
  refine ⟨fun e he => ?_, fun p hp => ⟨?_, fun reason i hcall => ?_, fun w i hcall => ?_⟩, ?_⟩
  · rcases hprepared with ⟨e', he', hroom⟩ | ⟨p, hp, _⟩
    · obtain rfl := Except.error.inj (he.symm.trans he')
      exact hroom
    · cases he.symm.trans hp
  -- the words fit the function, and so it does not get stuck
  · obtain ⟨hsound, ⟨f, hf, ⟨hparams, _⟩, hfind⟩, _⟩ := check_function hu hcheck
    rcases hprepared with ⟨e, he, _⟩ | ⟨p', hp', _, htypes⟩
    · cases he.symm.trans hp
    · obtain rfl := Except.ok.inj (hp.symm.trans hp')
      refine ⟨f, hfind, htypes.trans hparams.symm, fun memory hstuck => ?_⟩
      have hrespects := invoke_respects hsound limits.fuel limits.depth hf memory
        (htypes.trans hparams.symm)
      rw [hstuck] at hrespects
      exact hrespects
  · have hruns := call_checked hu hcheck hp
    rw [hcall] at hruns
    cases hruns with
    | trapped trap => exact .inl ⟨trap, rfl⟩
    | unfinished => exact .inr rfl
  · have hruns := call_checked hu hcheck hp
    rw [hcall] at hruns
    cases hruns with
    | ended htype hready =>
        obtain ⟨arguments', _, hread⟩ := hready.readOutputs c.outputs
        exact ⟨htype, arguments', hread c.outputs fun _ => Iff.rfl⟩
  · exact (call_course hu limits c arguments).checked hcheck

theorem elementCopy_safe :
    ∃ u ws, (elementCopy.compileUnit (Table.ofList [("f", elementCopySignature)])).result = .ok u ∧
      check u ⟨some "f", [0]⟩ [.int32Array [7], .int32Array [1], .int32 0] =
        .ok ("f", elementCopySignature, ws) ∧
      ∀ v, (u.call .standard ⟨some "f", [0]⟩
          [.int32Array [7], .int32Array [1], .int32 0]).result = .ok v →
        v.type = .boolean := by
  obtain ⟨u, ws, hu, hcheck⟩ : ∃ u ws, (elementCopy.compileUnit
      (Table.ofList [("f", elementCopySignature)])).result = .ok u ∧
      check u ⟨some "f", [0]⟩ [.int32Array [7], .int32Array [1], .int32 0] =
        .ok ("f", elementCopySignature, ws) := ⟨_, _, rfl, rfl⟩
  exact ⟨u, ws, hu, hcheck, (call_safe ⟨_, _, hu⟩ .standard hcheck).2.2.2⟩

end ArrayScript
