import ArrayScript.Proofs.Host.Preparation
import ArrayScript.Proofs.Machine.Independence

/-!
A module without memory does not see into arrays.

A function that does not touch memory never reads a parameter that is an array, so a call
cannot tell which arrays it was given.

* `Program.compile_ignores`: in a module without memory no function reads a parameter that
  is an array.
* `SameScalars`: argument lists with the same scalars, and with arrays of the same type in
  the same places.
* `call_noMemory`: a call without memory only passes words, and leaves its arguments alone.
* `call_sameScalars`: it goes the same way for all argument lists with the same scalars.
-/

namespace ArrayScript

open Machine HostCall Lowering

/-! ### Parameters that are never read -/

/-- A parameter that is an array. -/
def IsArraySlot (types : List ValueType) (k : Nat) : Prop :=
  ∃ t, types[k]? = some t ∧ t.isArray = true

/-- The name of an array parameter is among those that touch memory. -/
lemma FunctionDeclaration.mem_arrayParameters {f : FunctionDeclaration} {s : Signature}
    {names : List String} {k : Nat} {name : String}
    (hnames : List.Forall₂ (fun p name => p.pattern.identifier? = some name) f.params names)
    (hname : names[k]? = some name) (harray : IsArraySlot s.parameters k) :
    name ∈ f.arrayParameters s := by
  obtain ⟨t, ht, hisArray⟩ := harray
  obtain ⟨p, hp, hpattern⟩ := forall₂_getElem? hnames.flip hname
  refine List.mem_filterMap.mpr ⟨(p, t), ?_, ?_⟩
  · exact List.mem_of_getElem? (List.getElem?_zip_eq_some.mpr ⟨hp, ht⟩)
  · simp [hisArray, hpattern]

/-- A function that does not touch memory never reads a parameter that is an array. -/
theorem NamedFunction.compile_ignores {g : NamedFunction} {table : SignatureTable}
    {indices : Table String Nat} {s : Signature} {f : CompiledFunction}
    (h : g.compile table indices = .ok f) (hs : table.find? g.name = some s)
    (htouches : g.declaration.touchesMemory s = false) :
    f.body.Every (Ignores (IsArraySlot s.parameters)) := by
  obtain ⟨s', hs', h⟩ := bind_eq_ok.mp h
  obtain rfl := Option.some.inj ((SignatureTable.require_eq_ok hs').symm.trans hs)
  obtain ⟨slots, hslots, h⟩ := bind_eq_ok.mp h
  obtain ⟨τ, hτ, h⟩ := bind_eq_ok.mp h
  obtain ⟨hnames, hsplit, _⟩ := Slots.resolve_eq_ok hslots
  have hlength : slots.parameters.names.length = s'.parameters.length :=
    (Typing.ofFunction_parameter hτ hnames slots.parameters.nodup).length_eq
  refine (lower_every h).mono fun o ho k hk harray => ?_
  obtain ⟨t, ht, _⟩ := id harray
  have hlt : k < slots.parameters.names.length := hlength ▸ (List.getElem?_eq_some_iff.mp ht).1
  subst hk
  cases ho with
  | @get id name _ occurs name_slot =>
      obtain ⟨hle, hname, _⟩ := List.idxOf?_eq_some_iff.mp name_slot
      have hparameter : slots.parameters.names[k]? = some name := by
        have hat : slots.names[k]? = some name := List.getElem?_eq_some_iff.mpr ⟨hle, hname⟩
        rwa [hsplit, List.getElem?_append_left hlt] at hat
      have hmem := FunctionDeclaration.mem_arrayParameters hnames hparameter harray
      -- so the identifier touches memory, which the function does not
      rw [FunctionDeclaration.touchesMemory, List.any_eq_false] at htouches
      exact htouches _ occurs (by simpa [Expr.touchesMemory] using hmem)
  | scratchGet scratch =>
      have hle : slots.names.length ≤ k := scratch.le
      rw [hsplit, List.length_append] at hle
      omega

/-- In a module without memory no function reads a parameter that is an array. -/
theorem Program.compile_ignores {p : Program} {table : SignatureTable} {m : CodeModule}
    (h : p.compile table = .ok m) (hm : m.importsMemory = false) :
    ∀ f ∈ m.functions, ∃ s, table.find? f.name = some s ∧
      f.body.Every (Ignores (IsArraySlot s.parameters)) := by
  obtain ⟨functions, hfunctions, h⟩ := bind_eq_ok.mp h
  obtain ⟨touching, htouching, h⟩ := bind_eq_ok.mp h
  obtain ⟨compiled, hcompiled, h⟩ := bind_eq_ok.mp h
  obtain ⟨rfl, _⟩ := CodeModule.validated_eq_ok.mp h
  intro f hf
  obtain ⟨g, hg, hgf⟩ := exists_mem_of_forall₂ (mapM_eq_ok.mp hcompiled).flip hf
  obtain ⟨b, hb, hgb⟩ := exists_mem_of_forall₂ (mapM_eq_ok.mp htouching) hg
  obtain ⟨s, hs, hgb⟩ := bind_eq_ok.mp hgb
  have hfind := SignatureTable.require_eq_ok hs
  have hfalse : b = false := by simpa using List.any_eq_false.mp hm b hb
  refine ⟨s, ?_, NamedFunction.compile_ignores hgf hfind ((pure_eq_ok.mp hgb).trans hfalse)⟩
  have hname := (Program.namedFunctions_eq_ok hfunctions).2 g hg
  rw [(NamedFunction.compile_heading hname hgf).1]
  exact hfind

/-- A function of a module without memory reads no array parameter. -/
lemma CompiledUnit.IsCompiled.ignores {u : CompiledUnit} (hu : u.IsCompiled)
    (hm : u.code.importsMemory = false) {name : String} {s : Signature} {f : CompiledFunction}
    (hs : u.signature? name = some s)
    (hf : u.code.functions.find? (·.name = name) = some f) :
    f.body.Every (Ignores (IsArraySlot s.parameters)) := by
  obtain ⟨p, table, hp⟩ := hu
  obtain ⟨hcode, htable⟩ := Program.compileUnit_eq_ok hp
  obtain ⟨s', hs', hbody⟩ := Program.compile_ignores hcode hm f (List.mem_of_find?_eq_some hf)
  have hname : f.name = name := by simpa using List.find?_some hf
  rw [hname, ← htable] at hs'
  obtain rfl := Option.some.inj (hs'.symm.trans (CompiledUnit.signature?_eq_some hs).2)
  exact hbody

/-! ### Arguments with the same scalars -/

/-- Argument lists with the same scalars, and with arrays of the same type in the same
places. -/
def SameScalars (arguments arguments' : List Value) : Prop :=
  List.Forall₂ (fun v v' => v'.type = v.type ∧ (v.isArray = false → v' = v)) arguments arguments'

section

variable {arguments arguments' : List Value}

/-- Values of the same type are passed alike, where scalars are the same. -/
lemma word?_sameScalars (t : ValueType) {v v' : Value} (htype : v'.type = v.type)
    (hscalar : v.isArray = false → v' = v) : word? t v' = word? t v := by
  cases harray : v.isArray with
  | false => rw [hscalar harray]
  | true =>
      cases v <;> cases v' <;> simp [Value.type] at htype <;>
        simp_all [Value.isArray, Value.type, ValueType.isArray] <;> cases t <;> rfl

lemma words_sameScalars (h : SameScalars arguments arguments') (position : Nat)
    (types : List ValueType) :
    words position types arguments' = words position types arguments := by
  induction h generalizing position types with
  | nil => rfl
  | @cons v v' rest rest' hv _ ih =>
      cases types with
      | nil => rw [words, words] <;> simp
      | cons t types => rw [words, words, word?_sameScalars t hv.1 hv.2, hv.1, ih]

lemma isArray_sameScalars {v v' : Value} (h : v'.type = v.type) : v'.isArray = v.isArray := by
  rw [Value.isArray, Value.isArray, h]

lemma any_isArray_sameScalars (h : SameScalars arguments arguments') :
    arguments'.any Value.isArray = arguments.any Value.isArray := by
  induction h with
  | nil => rfl
  | cons hv _ ih => rw [List.any_cons, List.any_cons, isArray_sameScalars hv.1, ih]

lemma checkOutput_sameScalars (h : SameScalars arguments arguments') (k : Nat) :
    checkOutput arguments' k = checkOutput arguments k := by
  rw [checkOutput, checkOutput]
  cases hk : arguments[k]? with
  | none =>
      have hlength : arguments'.length ≤ k := by
        rw [← h.length_eq]
        exact List.getElem?_eq_none_iff.mp hk
      rw [List.getElem?_eq_none_iff.mpr hlength]
  | some v =>
      obtain ⟨v', hv', htype, _⟩ := forall₂_getElem? h hk
      rw [hv']
      dsimp only
      rw [isArray_sameScalars htype]

/-- The checks before a call do not look into arrays. -/
lemma check_sameScalars (u : CompiledUnit) (c : Caller) (h : SameScalars arguments arguments') :
    check u c arguments' = check u c arguments := by
  have hargument : ∀ name s, checkArguments name s arguments' = checkArguments name s arguments :=
    fun name s => by
      rw [checkArguments, checkArguments, ← h.length_eq, words_sameScalars h]
  have houtput : checkOutputs c.outputs arguments' = checkOutputs c.outputs arguments := by
    rw [checkOutputs, checkOutputs, any_isArray_sameScalars h,
      funext fun k => checkOutput_sameScalars h k]
  rw [check, check]
  simp only [hargument, houtput]

end

/-! ### Calls without memory -/

section

variable {arguments arguments' : List Value} {ws : List Word}

/-- Only a parameter that is an array takes an array. -/
lemma word?_isArray {t : ValueType} {v : Value} {w : Word} (h : word? t v = some w)
    (harray : v.isArray = true) : t.isArray = true := by
  cases t <;> cases v <;> simp_all [word?, Value.isArray, Value.type, ValueType.isArray]

/-- Addresses are put only in the places of arrays. -/
lemma zipWith_payloads {position : Nat} {types : List ValueType} {payloads : List (Option Nat)}
    (h : words position types arguments = .ok ws) (hlength : arguments.length = types.length)
    (hpayloads : List.Forall₂ (fun v p => p.isSome = true → v.isArray = true) arguments payloads) :
    (ws.zipWith withPayload payloads).length = ws.length ∧
      ∀ k, ¬ IsArraySlot types k → (ws.zipWith withPayload payloads)[k]? = ws[k]? := by
  induction hpayloads generalizing position types ws with
  | nil =>
      rw [words] at h
      · obtain rfl := Except.ok.inj h
        simp
      · simp
  | @cons v p rest payloads hp _ ih =>
      cases types with
      | nil => cases hlength
      | cons t types =>
          rw [words] at h
          cases hw : word? t v with
          | none =>
              rw [hw] at h
              cases h
          | some w =>
              rw [hw] at h
              obtain ⟨ws', hws', h⟩ := bind_eq_ok.mp h
              obtain rfl := pure_eq_ok.mp h
              obtain ⟨hlength', hrest⟩ := ih hws' (Nat.succ.inj hlength)
              refine ⟨by simpa using hlength', fun k hk => ?_⟩
              cases k with
              | succ k => exact hrest k hk
              | zero =>
                  cases p with
                  | none => rfl
                  | some a => exact absurd ⟨t, rfl, word?_isArray hw (hp rfl)⟩ hk

/-- Without a memory a call is prepared by putting addresses in the places of arrays. -/
lemma prepareWithin_noMemory (limits : Limits) {m : CodeModule} {layout : Layout}
    {position : Nat} {types : List ValueType} (hm : m.importsMemory = false)
    (h : words position types arguments = .ok ws) (hlength : arguments.length = types.length)
    (hlayout : Layout.ofArguments? arguments = some layout) :
    ∃ p, prepareWithin limits m arguments ws = .ok p ∧ p.target = ⟨m, none⟩ ∧
      p.words.map Word.type = types.map ValueType.wordType ∧ p.words.length = ws.length ∧
      ∀ k, ¬ IsArraySlot types k → p.words[k]? = ws[k]? := by
  have hinstance : ∀ pages, m.instantiate pages = ⟨m, none⟩ := fun pages => by
    simp [CodeModule.instantiate, hm]
  obtain ⟨htypes, hplaced⟩ := types_words h hlength
  have hwithin : ∀ p, prepare m arguments ws = .ok p → p.target = ⟨m, none⟩ →
      prepareWithin limits m arguments ws = .ok p := by
    intro p hp htarget
    rcases prepareWithin_cases limits m arguments ws with ⟨e, he, _⟩ | ⟨p', hp', hroom⟩
    · cases hp.symm.trans he
    · obtain rfl := Except.ok.inj (hp.symm.trans hp')
      rcases hroom with ⟨hmore, _⟩ | hok
      · rw [htarget] at hmore
        simp [Instance.memorySize] at hmore
      · exact hok
  by_cases harray : arguments.any Value.isArray = true
  · have hpayloads := payloads_forall₂ hlayout
    obtain ⟨hlength', hsame⟩ := zipWith_payloads h hlength hpayloads
    refine ⟨⟨⟨m, none⟩, ws.zipWith withPayload layout.payloads, layout.payloads⟩,
      hwithin _ ?_ rfl, rfl, hplaced _ hpayloads, hlength', hsame⟩
    simp [prepare, harray, hlayout, hinstance, Instance.hasMemory]
  · refine ⟨⟨⟨m, none⟩, ws, arguments.map fun _ => none⟩, hwithin _ ?_ rfl, rfl, htypes, rfl,
      fun _ _ => rfl⟩
    simp [prepare, harray, hinstance]

end

/-- The report of a call that was prepared without a memory, by what its function gave. -/
def reportWithoutMemory (s : Signature) (arguments : List Value) :
    Except RunError Word → CallReport
  | .error reason =>
    ⟨.error (.execution reason), arguments,
      PhaseEvent.around .importing ++ PhaseEvent.around .execution⟩
  | .ok w =>
    ⟨result s.returnType w, arguments,
      PhaseEvent.around .importing ++ PhaseEvent.around .execution ++
        PhaseEvent.around .exporting⟩

section

variable {u : CompiledUnit} {c : Caller} {arguments arguments' : List Value}

/-- A call without memory only passes words, and leaves its arguments alone. -/
lemma call_noMemory {limits : Limits} {name : String} {s : Signature} {ws : List Word}
    {p : Prepared} (hcheck : check u c arguments = .ok (name, s, ws))
    (hp : prepareWithin limits u.code arguments ws = .ok p) (htarget : p.target = ⟨u.code, none⟩) :
    u.call limits c arguments =
      reportWithoutMemory s arguments (Instance.call limits ⟨u.code, none⟩ name p.words).1 := by
  have hmemory : (Instance.call limits ⟨u.code, none⟩ name p.words).2.memory = none := by
    rw [Instance.call]
    split
    · rfl
    · split
      · rfl
      · dsimp only
        split <;> rfl
  rw [CompiledUnit.call, hcheck]
  dsimp only
  rw [hp]
  dsimp only
  rw [htarget]
  cases hcall : Instance.call limits ⟨u.code, none⟩ name p.words with
  | mk outcome i =>
      rw [hcall] at hmemory
      dsimp only at hmemory
      cases outcome with
      | error reason => rfl
      | ok w =>
          have hread : readOutputs i p.payloads c.outputs arguments = (.ok (), arguments) := by
            simp [readOutputs, Instance.hasMemory, hmemory]
          simp only [conclude, hread, reportWithoutMemory]

/-- The function of a call cannot tell which arrays it was given. -/
lemma call_words_eq (limits : Limits) (hu : u.IsCompiled) (hm : u.code.importsMemory = false)
    {name : String} {s : Signature} (hs : u.signature? name = some s) {ws ws' : List Word}
    (htypes : ws'.map Word.type = ws.map Word.type)
    (hsame : ∀ k, ¬ IsArraySlot s.parameters k → ws'[k]? = ws[k]?) :
    (Instance.call limits ⟨u.code, none⟩ name ws').1 =
      (Instance.call limits ⟨u.code, none⟩ name ws).1 := by
  obtain ⟨_, f, _, _, hf⟩ := hu.function hs
  have hlength : ws'.length = ws.length := by simpa using congrArg List.length htypes
  have hinvoke := invoke_eq (m := u.code) (hu.ignores hm hs hf) hlength hsame limits.fuel
    limits.depth (Memory.zeros 0)
  rw [Instance.call, Instance.call]
  dsimp only
  rw [hf]
  dsimp only
  rw [htypes]
  split
  · rfl
  · rw [Option.getD_none, hinvoke]

/-- In a module without memory a call goes the same way for all argument lists with the same
scalars, whatever arrays are among them, and leaves all arguments as they were. -/
theorem call_sameScalars (hu : u.IsCompiled) (hm : u.code.importsMemory = false)
    (h : SameScalars arguments arguments') (hlaid : (Layout.ofArguments? arguments).isSome = true)
    (hlaid' : (Layout.ofArguments? arguments').isSome = true) (limits : Limits) (c : Caller) :
    (u.call limits c arguments').result = (u.call limits c arguments).result ∧
    (u.call limits c arguments').events = (u.call limits c arguments).events ∧
    (u.call limits c arguments).arguments = arguments ∧
    (u.call limits c arguments').arguments = arguments' := by
  obtain ⟨layout, hlayout⟩ := Option.isSome_iff_exists.mp hlaid
  obtain ⟨layout', hlayout'⟩ := Option.isSome_iff_exists.mp hlaid'
  have hchecks := check_sameScalars u c h
  cases hcheck : check u c arguments with
  | error e =>
      rw [hcheck] at hchecks
      simp only [CompiledUnit.call, hcheck, hchecks, and_self]
  | ok r =>
      obtain ⟨name, s, ws⟩ := r
      rw [hcheck] at hchecks
      obtain ⟨_, hs, harguments, _⟩ := check_eq_ok.mp hcheck
      rw [checkArguments] at harguments
      split at harguments
      · cases harguments
      · rename_i hlength
        have hlength : arguments.length = s.parameters.length := not_not.mp hlength
        have hwords' := (words_sameScalars h 0 s.parameters).trans harguments
        obtain ⟨p, hp, htarget, htypes, _, hsame⟩ :=
          prepareWithin_noMemory limits hm harguments hlength hlayout
        obtain ⟨p', hp', htarget', htypes', _, hsame'⟩ :=
          prepareWithin_noMemory limits hm hwords' (h.length_eq.symm.trans hlength) hlayout'
        have houtcome := call_words_eq limits hu hm hs (htypes'.trans htypes.symm)
          fun k hk => (hsame' k hk).trans (hsame k hk).symm
        rw [call_noMemory hcheck hp htarget, call_noMemory hchecks hp' htarget', houtcome]
        cases (Instance.call limits ⟨u.code, none⟩ name p.words).1 <;>
          exact ⟨rfl, rfl, rfl, rfl⟩

end

/-- A function that is given an array and does not look at it. -/
def unusedArray : Program :=
  ⟨[.function (some "f") [⟨.identifier "a", none⟩, ⟨.identifier "n", none⟩] none
    [.ret (some (.binary 0 .add (.identifier 1 "n") (.identifier 2 "n")))]]⟩

theorem unusedArray_sameScalars :
    ∃ u, (unusedArray.compileUnit
        (Table.ofList [("f", ⟨[.int32Array, .int32], .int32⟩)])).result = .ok u ∧
      (u.call .standard ⟨some "f", [0]⟩ [.int32Array [1, 2], .int32 3]).result =
        (u.call .standard ⟨some "f", [0]⟩ [.int32Array [7], .int32 3]).result := by
  obtain ⟨u, hu, hm⟩ : ∃ u, (unusedArray.compileUnit
      (Table.ofList [("f", ⟨[.int32Array, .int32], .int32⟩)])).result = .ok u ∧
      u.code.importsMemory = false := ⟨_, rfl, rfl⟩
  have hsame : SameScalars [.int32Array [7], .int32 3] [.int32Array [1, 2], .int32 3] :=
    .cons ⟨rfl, fun h => by cases h⟩ (.cons ⟨rfl, fun _ => rfl⟩ .nil)
  exact ⟨u, hu, (call_sameScalars ⟨_, _, hu⟩ hm hsame rfl rfl .standard ⟨some "f", [0]⟩).1⟩

end ArrayScript
