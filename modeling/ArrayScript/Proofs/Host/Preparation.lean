import ArrayScript.Compilation.Texts
import ArrayScript.Proofs.Compilation.Origin
import ArrayScript.Proofs.Host.ReadBack
import ArrayScript.Proofs.Machine.Soundness

/-!
What a call finds when it starts to run.

* `Program.compile_sound`: the functions of a compiled module are well typed and have the
  machine types of their signatures.
* `check_eq_ok`: what the checks before a call establish.
* `prepare_cases`: preparing fails only for want of addresses. What is prepared is `Ready`:
  an instance with the arrays arranged in its memory, and words of the types of the
  parameters.
-/

namespace ArrayScript

open Machine HostCall Validation

/-! ### Compiled modules -/

/-- A function has the machine types of a signature. -/
def CompiledFunction.HasSignature (f : CompiledFunction) (s : Signature) : Prop :=
  f.params = s.parameters.map ValueType.wordType ∧ f.result = s.returnType.wordType

/-- The functions of a compiled module are well typed and have the machine types of their
signatures. -/
theorem Program.compile_sound {p : Program} {table : SignatureTable} {m : CodeModule}
    (h : p.compile table = .ok m) :
    IsSound m ∧ ∀ f ∈ m.functions, ∃ s, table.find? f.name = some s ∧ f.HasSignature s := by
  obtain ⟨functions, hfunctions, h⟩ := bind_eq_ok.mp h
  obtain ⟨touching, _, h⟩ := bind_eq_ok.mp h
  obtain ⟨compiled, hcompiled, h⟩ := bind_eq_ok.mp h
  obtain ⟨rfl, -, -, hsound⟩ := CodeModule.validated_eq_ok.mp h
  refine ⟨hsound, fun f hf => ?_⟩
  obtain ⟨g, hg, hgf⟩ := exists_mem_of_forall₂ (mapM_eq_ok.mp hcompiled).flip hf
  have hname := (Program.namedFunctions_eq_ok hfunctions).2 g hg
  obtain ⟨heq, s, hs, htypes⟩ := NamedFunction.compile_heading hname hgf
  exact ⟨s, by rw [heq, hs], htypes⟩

/-- A module that was compiled from a program, with the signatures it was compiled by. -/
def CompiledUnit.IsCompiled (u : CompiledUnit) : Prop :=
  ∃ (p : Program) (table : SignatureTable), (p.compileUnit table).result = .ok u

/-- The unit of a program is its module, with the table of signatures. -/
lemma Program.compileUnit_eq_ok {p : Program} {table : SignatureTable} {u : CompiledUnit}
    (h : (p.compileUnit table).result = .ok u) :
    p.compile table = .ok u.code ∧ u.signatures = table := by
  rw [Program.compileUnit] at h
  dsimp only at h
  split at h
  · rename_i code hcode
    obtain rfl := Except.ok.inj h
    exact ⟨hcode, rfl⟩
  · cases h

/-- What can be called by name is a function of the module, and has its signature. -/
lemma CompiledUnit.signature?_eq_some {u : CompiledUnit} {name : String} {s : Signature}
    (h : u.signature? name = some s) :
    name ∈ u.functionNames ∧ u.signatures.find? name = some s := by
  rw [CompiledUnit.signature?] at h
  split at h
  · exact ⟨‹_›, h⟩
  · cases h

/-- A function that can be called by name has the machine types of its signature. -/
lemma CompiledUnit.IsCompiled.function {u : CompiledUnit} (hu : u.IsCompiled) {name : String}
    {s : Signature} (h : u.signature? name = some s) :
    IsSound u.code ∧ ∃ f ∈ u.code.functions, f.HasSignature s ∧
      u.code.functions.find? (·.name = name) = some f := by
  obtain ⟨p, table, hp⟩ := hu
  obtain ⟨hcode, htable⟩ := Program.compileUnit_eq_ok hp
  obtain ⟨hsound, hfunctions⟩ := Program.compile_sound hcode
  obtain ⟨hmem, hs⟩ := CompiledUnit.signature?_eq_some h
  obtain ⟨g, hg, hname⟩ := List.mem_map.mp hmem
  obtain ⟨f, hf⟩ : ∃ f, u.code.functions.find? (·.name = name) = some f := by
    rw [← Option.isSome_iff_exists, List.find?_isSome]
    exact ⟨g, hg, by simpa using hname⟩
  have hname' : f.name = name := by simpa using List.find?_some hf
  obtain ⟨s', hs', hsignature⟩ := hfunctions f (List.mem_of_find?_eq_some hf)
  rw [hname', ← htable] at hs'
  obtain rfl := Option.some.inj (hs'.symm.trans hs)
  exact ⟨hsound, f, List.mem_of_find?_eq_some hf, hsignature, hf⟩

/-! ### Checks -/

/-- What the checks before a call establish. -/
lemma check_eq_ok {u : CompiledUnit} {c : Caller} {arguments : List Value} {name : String}
    {s : Signature} {ws : List Word} :
    check u c arguments = .ok (name, s, ws) ↔
      c.function = some name ∧ u.signature? name = some s ∧
      checkArguments name s arguments = .ok ws ∧ checkOutputs c.outputs arguments = .ok () := by
  rw [check]
  cases c.function with
  | none =>
      constructor
      · intro h
        cases h
      · rintro ⟨h, _⟩
        cases h
  | some name' =>
      dsimp only
      cases hs : u.signature? name' with
      | none =>
          constructor
          · intro h
            cases h
          · rintro ⟨h, hs', _⟩
            obtain rfl := Option.some.inj h
            rw [hs] at hs'
            cases hs'
      | some s' =>
          dsimp only
          simp only [bind_eq_ok, pure_eq_ok, Prod.mk.injEq, Option.some.injEq]
          constructor
          · rintro ⟨ws', hws, ⟨⟩, houtputs, rfl, rfl, rfl⟩
            exact ⟨rfl, hs, hws, houtputs⟩
          · rintro ⟨rfl, h, hws, houtputs⟩
            obtain rfl := Option.some.inj (hs.symm.trans h)
            exact ⟨ws, hws, (), houtputs, rfl, rfl, rfl⟩

lemma checkOutput_eq_ok {arguments : List Value} {k : Nat} :
    checkOutput arguments k = .ok () ↔ ∃ v, arguments[k]? = some v ∧ v.isArray = true := by
  rw [checkOutput]
  cases arguments[k]? with
  | none => simp
  | some v => cases hv : v.isArray <;> simp [hv]

/-- Outputs pass their check if each of them is an array. -/
lemma checkOutputs_eq_ok {outputs : List Nat} {arguments : List Value} :
    checkOutputs outputs arguments = .ok () ↔
      ∀ k ∈ outputs, ∃ v, arguments[k]? = some v ∧ v.isArray = true := by
  have hall : ∀ outputs : List Nat, outputs.forM (checkOutput arguments) = .ok () ↔
      ∀ k ∈ outputs, ∃ v, arguments[k]? = some v ∧ v.isArray = true := by
    intro outputs
    induction outputs with
    | nil => simp [pure, Except.pure]
    | cons k rest ih =>
        rw [List.forM_eq_forM, List.forM_cons, bind_eq_ok, List.forall_mem_cons,
          ← checkOutput_eq_ok, ← ih]
        constructor
        · rintro ⟨⟨⟩, hk, hrest⟩
          exact ⟨hk, hrest⟩
        · rintro ⟨hk, hrest⟩
          exact ⟨(), hk, hrest⟩
  rw [checkOutputs]
  split
  · rename_i hnil
    simp [hnil]
  · rename_i hne
    split
    · rename_i hnone
      obtain ⟨k, hk⟩ := List.exists_mem_of_ne_nil outputs hne
      constructor
      · intro h
        cases h
      · intro h
        obtain ⟨v, hv, harray⟩ := h k hk
        have hany : arguments.any Value.isArray = true :=
          List.any_eq_true.mpr ⟨v, List.mem_of_getElem? hv, harray⟩
        rw [hany] at hnone
        cases hnone
    · exact hall outputs

/-- The errors of the checks before a call. -/
def CallError.IsRefusal : CallError → Prop
  | missingName | unknownFunction _ | argumentCount _ _ _ | argumentType _ _ _
  | outputNotFound _ | outputNotArray _ | outputWithoutArrays => True
  | booleanConversion _ | instantiation _ | execution _ | layoutOverflow => False

lemma words_refusal {position : Nat} {types : List ValueType} {arguments : List Value}
    {e : CallError} (h : words position types arguments = .error e) : e.IsRefusal := by
  induction position, types, arguments using words.induct with
  | case1 position t types v rest hw =>
      rw [words, hw] at h
      obtain rfl := Except.error.inj h
      trivial
  | case2 position t types v rest w hw ih =>
      rw [words, hw] at h
      rcases bind_eq_error.mp h with h | ⟨ws, _, h⟩
      · exact ih h
      · cases h
  | case3 =>
      rw [words] at h
      · cases h
      · assumption

lemma checkOutputs_refusal {outputs : List Nat} {arguments : List Value} {e : CallError}
    (h : checkOutputs outputs arguments = .error e) : e.IsRefusal := by
  rw [checkOutputs] at h
  split at h
  · cases h
  · split at h
    · obtain rfl := Except.error.inj h
      trivial
    · clear * - h
      induction outputs with
      | nil => cases h
      | cons k rest ih =>
          rw [List.forM_eq_forM, List.forM_cons] at h
          rcases bind_eq_error.mp h with h | ⟨_, _, h⟩
          · rw [checkOutput] at h
            split at h
            · obtain rfl := Except.error.inj h
              trivial
            · split at h
              · cases h
              · obtain rfl := Except.error.inj h
                trivial
          · exact ih h

/-- A call that is refused is refused for its name, its arguments or its outputs. -/
lemma check_refusal {u : CompiledUnit} {c : Caller} {arguments : List Value} {e : CallError}
    (h : check u c arguments = .error e) : e.IsRefusal := by
  rw [check] at h
  split at h
  · split at h
    · rcases bind_eq_error.mp h with h | ⟨ws, _, h⟩
      · rw [checkArguments] at h
        split at h
        · obtain rfl := Except.error.inj h
          trivial
        · exact words_refusal h
      · rcases bind_eq_error.mp h with h | ⟨_, _, h⟩
        · exact checkOutputs_refusal h
        · cases h
    · obtain rfl := Except.error.inj h
      trivial
  · obtain rfl := Except.error.inj h
    trivial

lemma word?_type {t : ValueType} {v : Value} {w : Word} (h : word? t v = some w) :
    w.type = t.wordType ∧ (v.isArray = true → t.wordType = .i32) := by
  cases t <;> cases v <;> simp only [word?, Option.some.injEq, reduceCtorEq] at h <;> subst h <;>
    simp [Word.type, ValueType.wordType, Value.isArray, Value.type, ValueType.isArray, Word.ofBool]

/-- What relates the words of all arguments to the types they are passed at relates those of
checked arguments to the types of the parameters, also with addresses in the place of
arrays. -/
lemma words_related {P : ValueType → Word → Prop}
    (hword : ∀ {t v w}, word? t v = some w → P t w ∧ (v.isArray = true → ∀ n, P t (.i32 n)))
    {position : Nat} {types : List ValueType} {arguments : List Value} {ws : List Word}
    (h : words position types arguments = .ok ws) (hlength : arguments.length = types.length) :
    List.Forall₂ P types ws ∧ ∀ payloads : List (Option Nat),
      List.Forall₂ (fun v p => p.isSome = true → v.isArray = true) arguments payloads →
      List.Forall₂ P types (ws.zipWith withPayload payloads) := by
  induction types generalizing position arguments ws with
  | nil =>
      obtain rfl := List.eq_nil_of_length_eq_zero hlength
      rw [words] at h
      · obtain rfl := Except.ok.inj h
        exact ⟨.nil, fun _ _ => .nil⟩
      · simp
  | cons t types ih =>
      cases arguments with
      | nil => cases hlength
      | cons v rest =>
          rw [words] at h
          cases hw : word? t v with
          | none =>
              rw [hw] at h
              cases h
          | some w =>
              rw [hw] at h
              obtain ⟨ws', hws', h⟩ := bind_eq_ok.mp h
              obtain rfl := pure_eq_ok.mp h
              obtain ⟨hhead, harray⟩ := hword hw
              obtain ⟨htail, hplaced⟩ := ih hws' (Nat.succ.inj hlength)
              refine ⟨.cons hhead htail, fun payloads hp => ?_⟩
              cases hp with
              | @cons _ p _ payloads hp hrest =>
                  refine .cons ?_ (hplaced _ hrest)
                  cases p with
                  | none => exact hhead
                  | some a => exact harray (hp rfl) _

/-- The words of checked arguments have the types of the parameters, also with addresses
in the place of arrays. -/
lemma types_words {position : Nat} {types : List ValueType} {arguments : List Value}
    {ws : List Word} (h : words position types arguments = .ok ws)
    (hlength : arguments.length = types.length) :
    ws.map Word.type = types.map ValueType.wordType ∧
    ∀ payloads : List (Option Nat),
      List.Forall₂ (fun v p => p.isSome = true → v.isArray = true) arguments payloads →
      (ws.zipWith withPayload payloads).map Word.type = types.map ValueType.wordType := by
  have htypes : ∀ {ws : List Word}, List.Forall₂ (fun t w => t.wordType = w.type) types ws →
      ws.map Word.type = types.map ValueType.wordType := by
    intro ws hws
    rw [eq_comm, ← List.forall₂_eq_eq_eq, List.forall₂_map_left_iff, List.forall₂_map_right_iff]
    exact hws
  obtain ⟨hwords, hplaced⟩ := words_related (P := fun t w => t.wordType = w.type)
    (fun hw => ⟨(word?_type hw).1.symm, fun harray _ => (word?_type hw).2 harray⟩) h hlength
  exact ⟨htypes hwords, fun payloads hp => htypes (hplaced payloads hp)⟩

/-! ### Prepared instances -/

/-- What is prepared for a call: an instance of the module, with the arrays arranged in its
memory if it has any. -/
structure Ready (m : CodeModule) (arguments : List Value) (p : Prepared) : Prop where
  code : p.target.code = m
  hasMemory : p.target.memory.isSome = m.importsMemory
  arranged : ∀ memory, p.target.memory = some memory →
    Arranged p.payloads memory.size arguments

section

variable {arguments : List Value} {layout : Layout} {m : CodeModule} {ws : List Word}

lemma placements_forall₂ (offset : Nat) (arguments : List Value) :
    List.Forall₂ (fun v q => q.isSome = true → v.isArray = true) arguments
      (placements offset arguments) := by
  induction arguments generalizing offset with
  | nil => exact .nil
  | cons v rest ih =>
      rw [placements]
      split
      · rename_i hv
        exact .cons (fun _ => hv) (ih _)
      · exact .cons (fun h => by cases h) (ih _)

/-- An argument has a payload only if it is an array. -/
lemma payloads_forall₂ (h : Layout.ofArguments? arguments = some layout) :
    List.Forall₂ (fun v p => p.isSome = true → v.isArray = true) arguments layout.payloads := by
  rw [(ofArguments?_places h).payloads, List.forall₂_map_right_iff]
  refine (placements_forall₂ 0 arguments).imp fun v q hq hp => hq ?_
  rwa [Option.isSome_map] at hp

/-- Arguments without payloads are arranged in a memory of any size if there is no array. -/
lemma arranged_of_scalars (h : arguments.any Value.isArray ≠ true) (size : Nat) :
    Arranged (arguments.map fun _ => none) size arguments := by
  have hnot : ∀ {k v p}, ¬ PlacedAt (arguments.map fun _ => none) arguments k v p := by
    rintro k v p ⟨hv, hp⟩
    rw [List.getElem?_map, hv, Option.map_some] at hp
    cases hp
  refine ⟨fun {k v} hv harray => ?_, fun hk => (hnot hk).elim, fun hk => (hnot hk).elim,
    fun hk => (hnot hk).elim, fun _ hk => (hnot hk).elim⟩
  exact (h (List.any_eq_true.mpr ⟨v, List.mem_of_getElem? hv, harray⟩)).elim

/-- The pages of a layout are no more than there are addresses for. -/
lemma ofArguments?_pages_le (h : Layout.ofArguments? arguments = some layout) :
    layout.image.pages ≤ 65536 := by
  have hplaces := ofArguments?_places h
  have hextent : layout.image.extent ≤ maxAddress := by
    rw [Image.extent]
    split
    · exact Nat.zero_le _
    · rename_i offset cell rest hcells
      have hmem : (offset, cell) ∈ layout.image.cells := by
        rw [hcells]
        exact List.mem_cons_self
      rcases (hplaces.mem_cells _).mp hmem with hempty | ⟨q, hq, j, hj, hoffset⟩
      · cases hempty
      · have hlength := (List.getElem?_eq_some_iff.mp hj).1
        have hwidth : cell.width = q.width := Value.width_cells (List.mem_of_getElem? hj)
        calc offset + cell.width = q.header + q.width * (j + 1) := by
              rw [hwidth, show offset = q.header + q.width * j from hoffset]
              ring
          _ ≤ q.stop := Nat.add_le_add_left (Nat.mul_le_mul_left _ hlength) _
          _ ≤ maxAddress := hplaces.stop_le q hq
  rw [Image.pages, pageSize]
  rw [maxAddress] at hextent
  omega

/-- Preparing fails only for want of addresses. What is prepared is ready for the call, its
words have the types of the parameters, and its memory has no more pages than there are
addresses for. -/
theorem prepare_cases {position : Nat} {types : List ValueType} (m : CodeModule)
    (h : words position types arguments = .ok ws) (hlength : arguments.length = types.length) :
    (Layout.ofArguments? arguments = none ∧ prepare m arguments ws = .error .layoutOverflow) ∨
    ∃ p, prepare m arguments ws = .ok p ∧ Ready m arguments p ∧
      p.words.map Word.type = types.map ValueType.wordType ∧
      p.target.memorySize / pageSize ≤ 65536 := by
  obtain ⟨htypes, hplaced⟩ := types_words h hlength
  by_cases harray : arguments.any Value.isArray = true
  · cases hlayout : Layout.ofArguments? arguments with
    | none => exact .inl ⟨rfl, by simp [prepare, harray, hlayout]⟩
    | some layout =>
        have hwords := hplaced _ (payloads_forall₂ hlayout)
        right
        by_cases hm : m.importsMemory = true
        · refine ⟨_, prepare_eq hlayout harray hm ws, ⟨rfl, hm.symm, ?_⟩, hwords, ?_⟩
          · rintro memory ⟨⟩
            exact ofArguments?_arranged hlayout
          · show layout.image.memory.size / pageSize ≤ 65536
            rw [Image.size_memory, Nat.mul_div_cancel _ (by decide)]
            exact ofArguments?_pages_le hlayout
        · have hnone : (m.instantiate layout.image.pages).memory = none := if_neg hm
          -- arrays that the code does not touch are laid out and not written
          refine ⟨⟨m.instantiate layout.image.pages, _, layout.payloads⟩, ?_, ⟨rfl, ?_, ?_⟩, hwords,
            ?_⟩
          · simp [prepare, harray, hlayout, Instance.hasMemory, hnone]
          · rw [hnone]
            simpa using hm
          · intro memory hmemory
            rw [hnone] at hmemory
            cases hmemory
          · rw [Instance.memorySize, hnone]
            exact Nat.zero_le _
  · right
    refine ⟨⟨m.instantiate 0, ws, arguments.map fun _ => none⟩, by simp [prepare, harray],
      ⟨rfl, ?_, fun memory _ => arranged_of_scalars harray memory.size⟩, htypes, ?_⟩
    · rw [CodeModule.instantiate]
      cases m.importsMemory <;> rfl
    · have hsize : (m.instantiate 0).memorySize = 0 := by
        rw [CodeModule.instantiate]
        cases m.importsMemory <;> rfl
      rw [hsize]
      decide

end

/-- With a limit to memory, preparing also fails for want of pages. -/
lemma prepareWithin_cases (limits : Limits) (m : CodeModule) (arguments : List Value)
    (ws : List Word) :
    (∃ e, prepare m arguments ws = .error e ∧ prepareWithin limits m arguments ws = .error e) ∨
    ∃ p, prepare m arguments ws = .ok p ∧
      (limits.pages < p.target.memorySize / pageSize ∧
        prepareWithin limits m arguments ws =
          .error (.instantiation (.allocation (p.target.memorySize / pageSize))) ∨
      prepareWithin limits m arguments ws = .ok p) := by
  rw [prepareWithin]
  cases prepare m arguments ws with
  | error e => exact .inl ⟨e, rfl, rfl⟩
  | ok p =>
      refine .inr ⟨p, rfl, ?_⟩
      by_cases hpages : limits.pages < p.target.memorySize / pageSize
      · exact .inl ⟨hpages, if_pos hpages⟩
      · exact .inr (if_neg hpages)

end ArrayScript
