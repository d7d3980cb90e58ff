import ArrayScript.Proofs.Compilation.WellTyped
import ArrayScript.Proofs.Lowering.Agreement
import ArrayScript.Proofs.Lowering.Truth

/-!
Truth values in whole programs.

`Program.contexts` are the contexts in which the functions of a program are lowered, and
`Program.KeepsTruth` says that all of these functions keep truth. Then the functions of the
module satisfy one contract: all their variables and results that should be truth values are
proper ones, if the arguments are.

* `Program.contexts_lowered`: the functions of a module, one by one, were lowered in the
  contexts of the program.
* `invokes_satisfy`: by induction on the fuel they satisfy the contract.
* `invoke_isTruth`: so they give truth values if they should.
* `reaches_logical`: wherever a run is, the code of a logical expression gives a truth value.
-/

namespace ArrayScript

open Machine Lowering Typing

/-! ### Contexts -/

/-- The context in which a function is lowered, if it has a signature, slots and types. -/
def NamedFunction.context? (table : SignatureTable) (indices : Table String Nat)
    (g : NamedFunction) : Option LoweringContext := do
  let signature ← table.find? g.name
  let slots ← (Slots.resolve g.declaration).toOption
  let typing ← (Typing.ofFunction g.declaration signature table).toOption
  return {
    function := g.declaration
    signature := signature
    table := table
    mapping := slots.merged
    firstSlot_eq := slots.merged_firstSlot
    typing := typing
    indices := indices }

/-- The contexts in which the functions of a program are lowered. -/
def Program.contexts (p : Program) (table : SignatureTable) : List LoweringContext :=
  match p.namedFunctions with
  | .ok functions =>
    functions.filterMap
      (NamedFunction.context? table (functionIndices (functions.map (·.name))))
  | .error _ => []

/-- A compiled function was lowered in a context. -/
structure LoweredIn (table : SignatureTable) (indices : Table String Nat) (cx : LoweringContext)
    (f : CompiledFunction) : Prop where
  table_eq : cx.table = table
  indices_eq : cx.indices = indices
  signature_eq : table.find? f.name = some cx.signature
  consistent : Consistent cx
  lowered : ∃ slots count code, Lowered cx slots count code f

section

variable {p q : Program} {table : SignatureTable} {indices : Table String Nat} {m : CodeModule}
  {cx : LoweringContext} {f : CompiledFunction}

lemma LoweredIn.name_eq (h : LoweredIn table indices cx f) : cx.function.displayName = f.name := by
  obtain ⟨slots, count, code, hlowered⟩ := h.lowered
  rw [hlowered.function_eq]

/-- A compiled function was lowered in the context of the function it came from. -/
lemma CompiledFrom.loweredIn {g : NamedFunction} (h : CompiledFrom table indices g f)
    (hids : (g.declaration.expressions.map Expr.id).Nodup) :
    ∃ cx, g.context? table indices = some cx ∧ LoweredIn table indices cx f := by
  have hname := h.name_eq
  obtain ⟨_, cx, slots, count, code, hfunction, htable, hindices, hfind, hlowered⟩ := h
  refine ⟨cx, ?_, htable, hindices, by rw [hname, hfind], ?_, slots, count, code, hlowered⟩
  · have hresolved := hlowered.resolved
    have htyped := hlowered.typed
    have hmapping := hlowered.mapping_eq
    rw [hfunction] at hresolved htyped
    rw [htable] at htyped
    obtain ⟨function, signature, table', mapping, _, typing, indices'⟩ := cx
    dsimp only at *
    subst hfunction htable hindices hmapping
    simp [NamedFunction.context?, hfind, hresolved, htyped, Except.toOption]
  · exact consistent_of_analyses hlowered.resolved hlowered.typed hlowered.names_eq
      (by rwa [hfunction])

/-- The functions of a module were lowered in the contexts of the program. -/
theorem Program.contexts_lowered (hp : p = q.renumber) (h : p.compile table = .ok m) :
    List.Forall₂ (LoweredIn table (functionIndices (m.functions.map (·.name))))
      (p.contexts table) m.functions ∧ (m.functions.map (·.name)).Nodup := by
  obtain ⟨functions, hfunctions, hcompiled, hexports⟩ := Program.compile_eq_ok h
  have horigin := Program.compiled_origin hp hfunctions hcompiled
  obtain ⟨hdeclarations, _⟩ := Program.namedFunctions_eq_ok hfunctions
  have hnames : functions.map (·.name) = m.functions.map (·.name) := by
    rw [← List.forall₂_eq_eq_eq, List.forall₂_map_left_iff, List.forall₂_map_right_iff]
    exact horigin.imp fun g f hf => hf.name_eq.symm
  refine ⟨?_, hexports.of_append_left⟩
  have hlowered := forall₂_imp_mem horigin fun g hg f hf => hf.loweredIn
    (Program.ids_nodup hp (hdeclarations ▸ List.mem_map_of_mem hg))
  rw [Program.contexts, hfunctions, ← hnames]
  exact forall₂_filterMap_left hlowered

end

/-! ### The contract -/

/-- No function of a program makes a truth value of an integer or an address. -/
def Program.KeepsTruth (p : Program) (table : SignatureTable) : Prop :=
  ∀ cx ∈ p.contexts table, Lowering.KeepsTruth cx

instance (p : Program) (table : SignatureTable) : Decidable (p.KeepsTruth table) :=
  inferInstanceAs (Decidable (∀ cx ∈ p.contexts table, Lowering.KeepsTruth cx))

/-- All variables and results that should be truth values are proper ones. -/
def Program.truthContract (p : Program) (table : SignatureTable) : Contract where
  slots f slots := ∀ cx ∈ p.contexts table, cx.function.displayName = f.name → Proper cx slots
  result f w := ∀ cx ∈ p.contexts table, cx.function.displayName = f.name →
    cx.signature.returnType = .boolean → w.IsTruth

/-- Arguments are proper truth values where a function takes truth values. -/
def Signature.Truthful (s : Signature) (arguments : List Word) : Prop :=
  List.Forall₂ (fun t w => t = .boolean → w.IsTruth) s.parameters arguments

/-- Functions that were lowered in contexts of a program satisfy the contract on proper
arguments. -/
def InvokesSatisfy (p : Program) (table : SignatureTable) (m : CodeModule) (fuel depth : Nat) :
    Prop :=
  ∀ {cx f}, cx ∈ p.contexts table →
    LoweredIn table (functionIndices (m.functions.map (·.name))) cx f →
    ∀ {arguments} memory, cx.signature.Truthful arguments →
    Satisfies m (p.truthContract table) fuel depth f arguments memory

/-- A function is entered with proper arguments, and with zeros in all other variables. -/
lemma Lowered.proper_entry {cx : LoweringContext} {slots : Slots} {count : Nat} {code : Code}
    {f : CompiledFunction} (h : Lowered cx slots count code f) {arguments : List Word}
    (harguments : cx.signature.Truthful arguments) :
    Proper cx (entryVariables f arguments) := by
  intro name slot hvariable w hw
  have hlength : arguments.length = f.params.length := by
    rw [← harguments.length_eq, h.function_eq, List.length_map]
  rw [entryVariables, List.getElem?_toArray] at hw
  by_cases hslot : slot < slots.parameters.names.length
  · have hname := hvariable.getElem?_eq
    rw [h.names_eq_append, List.getElem?_append_left hslot] at hname
    obtain ⟨t, ht, htype⟩ := forall₂_getElem? h.parameters hname
    obtain rfl : t = .boolean := Option.some.inj (htype.symm.trans hvariable.type_eq)
    obtain ⟨v, hv, htruth⟩ := forall₂_getElem? harguments ht
    rw [List.getElem?_append_left (List.getElem?_eq_some_iff.mp hv).1] at hw
    obtain rfl := Option.some.inj (hv.symm.trans hw)
    exact htruth rfl
  · have hword := h.variable_type hvariable
    rw [CompiledFunction.slotTypes] at hword
    have hafter : f.params.length ≤ slot := by
      rw [h.params_eq, List.length_map]
      omega
    rw [List.getElem?_append_right hafter] at hword
    rw [List.getElem?_append_right (hlength.trans_le hafter), hlength, List.getElem?_map,
      hword] at hw
    obtain rfl := Option.some.inj hw
    exact .inl rfl

section

variable {p : Program} {table : SignatureTable} {m : CodeModule} {cx : LoweringContext}
  {f : CompiledFunction}
  (horigin : List.Forall₂ (LoweredIn table (functionIndices (m.functions.map (·.name))))
    (p.contexts table) m.functions) (hnodup : (m.functions.map (·.name)).Nodup)

include horigin hnodup

/-- No two contexts are of functions with the same name. -/
lemma contexts_injective {cx' : LoweringContext} (hcx : cx ∈ p.contexts table)
    (hcx' : cx' ∈ p.contexts table) (h : cx.function.displayName = cx'.function.displayName) :
    cx = cx' := by
  have hnames : (p.contexts table).map (·.function.displayName) = m.functions.map (·.name) := by
    rw [← List.forall₂_eq_eq_eq, List.forall₂_map_left_iff, List.forall₂_map_right_iff]
    exact horigin.imp fun cx f hf => hf.name_eq
  exact List.inj_on_of_nodup_map (hnames ▸ hnodup) hcx hcx' h

/-- The contract asks of each function that its own truth values are proper. -/
lemma truthContract_governs (hcx : cx ∈ p.contexts table)
    (hname : cx.function.displayName = f.name) : Governs cx (p.truthContract table) f where
  slots_iff := by
    refine ⟨fun h => h cx hcx hname, fun h cx' hcx' hname' => ?_⟩
    rwa [contexts_injective horigin hnodup hcx' hcx (hname'.trans hname.symm)]
  result_iff := by
    refine ⟨fun h => h cx hcx hname, fun h cx' hcx' hname' => ?_⟩
    rwa [contexts_injective horigin hnodup hcx' hcx (hname'.trans hname.symm)]

/-- Calls keep to the contract if with less fuel all functions satisfy it. -/
lemma truthContract_calls {fuel depth : Nat} (htable : cx.table = table)
    (hindices : cx.indices = functionIndices (m.functions.map (·.name)))
    (h : ∀ fuel' < fuel, InvokesSatisfy p table m fuel' depth) :
    CallsMove m (p.truthContract table) fuel depth f cx := by
  intro name index signature labels hindex hsignature ws stack slots memory hws hslots
  rw [hindices] at hindex
  rw [htable] at hsignature
  have hname := functionIndices_eq_some hindex
  rw [List.getElem?_map, Option.map_eq_some_iff] at hname
  obtain ⟨g, hg, rfl⟩ := hname
  obtain ⟨cx', hcx', hlowered⟩ := forall₂_getElem? horigin.flip hg
  have hmem : cx' ∈ p.contexts table := List.mem_of_getElem? hcx'
  obtain rfl : cx'.signature = signature :=
    Option.some.inj (hlowered.signature_eq.symm.trans hsignature)
  -- the operands are the arguments, the last one on top
  obtain ⟨arguments, rfl⟩ : ∃ arguments : List Word, ws = arguments.reverse :=
    ⟨_, ws.reverse_reverse.symm⟩
  rw [Marked, List.forall₂_reverse_iff, List.forall₂_map_left_iff] at hws
  have hlength : arguments.length = g.params.length := by
    obtain ⟨_, _, _, hfrom⟩ := hlowered.lowered
    rw [← hws.length_eq, hfrom.function_eq, List.length_map]
  refine upholds_call hslots hg hlength
    (fun fuel' hfuel => h fuel' hfuel hmem hlowered memory hws) fun w memory' hw => ?_
  refine ⟨[w], marked_singleton ?_, rfl⟩
  exact (truthContract_governs horigin hnodup hmem hlowered.name_eq).result_iff.mp hw

lemma truthContract_careful {fuel depth : Nat} (hkeeps : p.KeepsTruth table)
    (hcx : cx ∈ p.contexts table) (hname : cx.function.displayName = f.name)
    (h : ∀ fuel' < fuel, InvokesSatisfy p table m fuel' depth) :
    Careful m (p.truthContract table) fuel depth f cx := by
  obtain ⟨_, _, hlowered⟩ := exists_mem_of_forall₂ horigin hcx
  refine ⟨truthContract_governs horigin hnodup hcx hname, hkeeps cx hcx, hlowered.consistent,
    fun n hn => ?_⟩
  exact truthContract_calls horigin hnodup hlowered.table_eq hlowered.indices_eq
    fun fuel' hfuel => h fuel' (by omega)

/-- By strong induction on the fuel, every function of a program that keeps truth satisfies
the contract. -/
theorem invokes_satisfy (hkeeps : p.KeepsTruth table) (fuel depth : Nat) :
    InvokesSatisfy p table m fuel depth := by
  induction fuel using Nat.strong_induction_on generalizing depth with
  | _ fuel ih =>
      intro cx f hcx hlowered arguments memory harguments
      cases depth with
      | zero =>
          refine ⟨nofun, fun w memory' hinvoke => ?_⟩
          rw [invoke] at hinvoke
          cases hinvoke
      | succ depth =>
          have hk := truthContract_careful horigin hnodup hkeeps hcx hlowered.name_eq
            fun fuel' hfuel => ih fuel' hfuel depth
          obtain ⟨slots, count, code, hfrom⟩ := hlowered.lowered
          have hbody : f.body = code ++ Lowering.plain [zero cx.signature.returnType] := by
            rw [hfrom.function_eq]
          have hmoves := (hfrom.lowers.moves (List.Subset.refl _) (List.Subset.refl _) 0 fuel
            hk).append (moves_zero cx.signature.returnType)
          have hentry := hk.governs.slots_iff.mpr (hfrom.proper_entry harguments)
          refine satisfies_body ?_
          rw [hbody]
          refine (hmoves [] [] _ memory .nil hentry).mono ?_
          rintro s ⟨ws, hws, hs⟩ w hw
          obtain ⟨w', rfl, hw'⟩ := hws.singleton_inv
          rw [hs] at hw
          obtain rfl := Option.some.inj hw
          exact hk.governs.result_iff.mpr hw'

end

/-! ### Logical expressions -/

lemma Expr.part_cons {e part : Expr} {inner : List Expr} (he : e.preorder = e :: inner)
    (h : part ∈ e.preorder) (hinner : part ∈ inner → part.preorder ⊆ inner) :
    part.preorder ⊆ e.preorder := by
  rw [he] at h
  rcases List.mem_cons.mp h with rfl | h
  · exact List.Subset.refl _
  · rw [he]
    exact List.subset_cons_of_subset _ (hinner h)

lemma Expr.part_append {part : Expr} {xs ys : List Expr} (h : part ∈ xs ++ ys)
    (hx : part ∈ xs → part.preorder ⊆ xs) (hy : part ∈ ys → part.preorder ⊆ ys) :
    part.preorder ⊆ xs ++ ys := by
  rcases List.mem_append.mp h with h | h
  · exact List.subset_append_of_subset_left _ (hx h)
  · exact List.subset_append_of_subset_right _ (hy h)

mutual

/-- The parts of parts of an expression are parts of it. -/
theorem Expr.preorder_trans : ∀ {e part : Expr}, part ∈ e.preorder → part.preorder ⊆ e.preorder
  | .number _ _, _, h | .boolean _ _, _, h | .identifier _ _, _, h => part_cons rfl h nofun
  | .array _ _, _, h => part_cons rfl h preorderList_trans
  | .unary _ _ _, _, h | .update _ _ _ _, _, h | .property _ _ _, _, h =>
      part_cons rfl h preorder_trans
  | .binary _ _ _ _, _, h | .logical _ _ _ _, _, h | .assign _ _ _ _, _, h | .index _ _ _, _, h =>
      part_cons rfl h fun h => part_append h preorder_trans preorder_trans
  | .call _ _ _, _, h =>
      part_cons rfl h fun h => part_append h preorder_trans preorderList_trans

theorem Expr.preorderList_trans : ∀ {es : List Expr} {part : Expr}, part ∈ preorderList es →
    part.preorder ⊆ preorderList es
  | [], _, h => by cases h
  | _ :: _, _, h => part_append h preorder_trans preorderList_trans

end

/-- Code is generated for a logical expression of a function. -/
def IsLogicalCode (cx : LoweringContext) (code : Code) : Prop :=
  ∃ id op a b held s x s', .logical id op a b ∈ cx.function.rootExpressions ∧ Valid cx held s ∧
    expression cx (.logical id op a b) s = .ok (x, s') ∧ x.code = code

section

variable {p q : Program} {table : SignatureTable} {m : CodeModule} {cx : LoweringContext}
  {f : CompiledFunction}

/-- In a function that keeps truth, the code of logical expressions gives truth values. -/
lemma IsLogicalCode.moves {code : Code} (h : IsLogicalCode cx code) {k : Contract}
    {fuel depth labels : Nat} (hk : Careful m k fuel depth f cx) :
    Moves m k fuel depth f labels [] [True] code := by
  obtain ⟨id, op, a, b, held, s, x, s', hmem, hvalid, hx, rfl⟩ := h
  obtain ⟨r, hr, hpart⟩ := List.mem_flatMap.mp hmem
  have hin : (Expr.logical id op a b).preorder ⊆ cx.function.expressions := by
    refine fun e he => cx.function.rootExpressions_sublist.subset ?_
    refine List.mem_flatMap.mpr ⟨r, hr, ?_⟩
    cases r with
    | expression e' => exact Expr.preorder_trans hpart he
    | declarator d =>
        obtain ⟨target, init⟩ := d
        cases init with
        | none => cases hpart
        | some init => exact Expr.preorder_trans hpart he
  obtain ⟨t, typed⟩ : ∃ t, HasType cx.table cx.typing (.logical id op a b) t := by
    rcases (hk.consistent.roots_typed r hr).parts_typed _ hpart with htyped | ⟨name, hname⟩
    · exact htyped
    · cases hname
  obtain ⟨_, _, hlowers⟩ := (expression_emits hk.consistent _ hin typed s hvalid).of_ok hx
  obtain ⟨htype, hlowers⟩ := hlowers _ le_rfl
  refine (hlowers.moves hk typed hin).weaken fun _ => ?_
  rw [htype]
  cases typed
  rfl

section

variable (hp : p = q.renumber) (hm : p.compile table = .ok m) (hkeeps : p.KeepsTruth table)

include hp hm hkeeps

/-- A function of a program that keeps truth gives a truth value if it should. -/
theorem invoke_isTruth {s : Signature} (hf : f ∈ m.functions)
    (hs : table.find? f.name = some s) (hboolean : s.returnType = .boolean)
    {arguments : List Word} (harguments : s.Truthful arguments) {fuel depth : Nat}
    {memory memory' : Memory} {w : Word}
    (hinvoke : invoke m fuel depth f arguments memory = .value w memory') : w.IsTruth := by
  obtain ⟨horigin, hnodup⟩ := Program.contexts_lowered hp hm
  obtain ⟨cx, hcx, hlowered⟩ := exists_mem_of_forall₂ horigin.flip hf
  obtain rfl : cx.signature = s := Option.some.inj (hlowered.signature_eq.symm.trans hs)
  have hsatisfies := invokes_satisfy horigin hnodup hkeeps fuel depth hcx hlowered memory
    harguments
  exact hsatisfies.result w memory' hinvoke cx hcx hlowered.name_eq hboolean

/-- Wherever the run of a function of a program that keeps truth is, the code of a logical
expression puts a truth value on the stack if it completes. -/
theorem reaches_logical {s : Signature} (hf : f ∈ m.functions)
    (hs : table.find? f.name = some s) {arguments : List Word} (harguments : s.Truthful arguments)
    {memory : Memory} {fuel depth : Nat} {point : Point}
    (hreaches : Reaches m fuel depth ⟨f, f.body, ⟨[], entryVariables f arguments, memory⟩⟩ point)
    (hcx : cx ∈ p.contexts table) (hname : cx.function.displayName = point.function.name)
    {code : Code} (hcode : IsLogicalCode cx code) {fuel' depth' : Nat} {state : State}
    (hexec : exec m fuel' depth' code point.state = .next state) :
    ∃ w, w.IsTruth ∧ state.stack = w :: point.state.stack := by
  obtain ⟨horigin, hnodup⟩ := Program.contexts_lowered hp hm
  obtain ⟨entered, hentered, hlowered⟩ := exists_mem_of_forall₂ horigin.flip hf
  obtain rfl : entered.signature = s := Option.some.inj (hlowered.signature_eq.symm.trans hs)
  have hsatisfies := invokes_satisfy horigin hnodup hkeeps
  have hslots : (p.truthContract table).slots point.function point.state.slots :=
    (hsatisfies fuel (depth + 1) hentered hlowered memory harguments).safe depth rfl point hreaches
  have hk : Careful m (p.truthContract table) fuel' depth' point.function cx :=
    truthContract_careful horigin hnodup hkeeps hcx hname fun n _ => hsatisfies n depth'
  have hmoves : Moves m (p.truthContract table) fuel' depth' point.function 0 [] [True] code :=
    hcode.moves hk
  have hafter := (hmoves [] point.state.stack _ point.state.memory .nil hslots).outcome
  rw [List.nil_append, hexec] at hafter
  obtain ⟨_, ws, hws, hstack⟩ := hafter
  obtain ⟨w, rfl, hw⟩ := hws.singleton_inv
  exact ⟨w, hw trivial, hstack⟩

end

end

end ArrayScript
