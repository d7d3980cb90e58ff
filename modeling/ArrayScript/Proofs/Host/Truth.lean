import ArrayScript.Proofs.Compilation.Truth
import ArrayScript.Proofs.Host.Calls

/-!
Truth values in calls from outside.

Truth values are the only values that are passed where a function takes truth values, and they
are passed as `0` and `1`. So in programs that keep truth

* `call_logical`: whenever the code of a logical expression completes in a call, it leaves `0`
  or `1` on the stack;
* `call_converts`: no call fails because its result is no truth value.

A variable that was declared with a truth value can be assigned an integer, and then the code
of a logical expression leaves that integer: `assignedInteger_logical`.
-/

namespace ArrayScript

open Machine Lowering HostCall

/-! ### Arguments -/

/-- Where a truth value is taken, no array and nothing else but a truth value is passed. -/
lemma word?_isTruth {t : ValueType} {v : Value} {w : Word} (h : word? t v = some w) :
    (t = .boolean → w.IsTruth) ∧
      (v.isArray = true → ∀ n, t = .boolean → (Word.i32 n).IsTruth) := by
  have hboolean : t = .boolean → w.IsTruth ∧ v.isArray = false := by
    rintro rfl
    cases v with
    | boolean b =>
        obtain rfl := Option.some.inj h
        cases b
        · exact ⟨.inl rfl, rfl⟩
        · exact ⟨.inr rfl, rfl⟩
    | _ => cases h
  refine ⟨fun ht => (hboolean ht).1, fun harray n ht => ?_⟩
  rw [(hboolean ht).2] at harray
  cases harray

/-- The words of a call are those of its arguments, with addresses in the place of arrays if
there are any. -/
lemma prepare_words {m : CodeModule} {arguments : List Value} {ws : List Word} {p : Prepared}
    (h : prepare m arguments ws = .ok p) :
    p.words = ws ∨ ∃ layout, Layout.ofArguments? arguments = some layout ∧
      p.words = ws.zipWith withPayload layout.payloads := by
  rw [prepare] at h
  split at h
  · obtain rfl := Except.ok.inj h
    exact .inl rfl
  · split at h
    · cases h
    · rename_i layout hlayout
      refine .inr ⟨layout, hlayout, ?_⟩
      dsimp only at h
      split at h
      · split at h
        · cases h
        · obtain rfl := Except.ok.inj h
          rfl
      · obtain rfl := Except.ok.inj h
        rfl

/-- A call passes proper truth values where the function takes truth values. -/
theorem prepared_truthful {u : CompiledUnit} (hu : u.IsCompiled) {c : Caller}
    {arguments : List Value} {name : String} {s : Signature} {ws : List Word}
    (hcheck : check u c arguments = .ok (name, s, ws)) {limits : Limits} {p : Prepared}
    (hp : prepareWithin limits u.code arguments ws = .ok p) : s.Truthful p.words := by
  obtain ⟨_, _, hwords, hlength⟩ := check_function hu hcheck
  obtain ⟨htruth, hplaced⟩ := words_related word?_isTruth hwords hlength
  rcases prepareWithin_cases limits u.code arguments ws with ⟨e, _, he⟩ | ⟨p', hprepare, h⟩
  · cases he.symm.trans hp
  · obtain rfl : p' = p := by
      rcases h with ⟨_, herror⟩ | hok
      · cases herror.symm.trans hp
      · exact Except.ok.inj (hok.symm.trans hp)
    rcases prepare_words hprepare with h | ⟨layout, hlayout, h⟩
    · rw [Signature.Truthful, h]
      exact htruth
    · rw [Signature.Truthful, h]
      exact hplaced _ (payloads_forall₂ hlayout)

/-! ### Calls -/

/-- A call that gave a word ran the function to its end. -/
lemma Instance.call_eq_ok {limits : Limits} {i i' : Instance} {name : String}
    {arguments : List Word} {w : Word} (h : i.call limits name arguments = (.ok w, i')) :
    ∃ f memory, i.code.functions.find? (·.name = name) = some f ∧
      invoke i.code limits.fuel limits.depth f arguments (i.memory.getD (Memory.zeros 0)) =
        .value w memory := by
  rw [Instance.call] at h
  split at h
  · cases h
  · rename_i f hf
    split at h
    · cases h
    · dsimp only at h
      split at h
      · rename_i w' memory hinvoke
        obtain rfl := Except.ok.inj (Prod.mk.inj h).1
        exact ⟨f, memory, hf, hinvoke⟩
      all_goals cases h

/-- A call, on whatever memory, comes to a point. -/
def CallReaches (u : CompiledUnit) (c : Caller) (arguments : List Value) (point : Point) : Prop :=
  ∃ name s ws limits prepared f memory fuel depth, check u c arguments = .ok (name, s, ws) ∧
    prepareWithin limits u.code arguments ws = .ok prepared ∧
    u.code.functions.find? (·.name = name) = some f ∧
    Reaches u.code fuel depth ⟨f, f.body, ⟨[], entryVariables f prepared.words, memory⟩⟩ point

section

variable {p q : Program} {table : SignatureTable} {u : CompiledUnit} {c : Caller}
  {arguments : List Value}

/-- A function that is called by name has the signature of that name. -/
lemma find?_signature {name : String} {s : Signature} {ws : List Word} {f : CompiledFunction}
    (htable : u.signatures = table) (hcheck : check u c arguments = .ok (name, s, ws))
    (hf : u.code.functions.find? (·.name = name) = some f) : table.find? f.name = some s := by
  obtain ⟨_, hsignature, _, _⟩ := check_eq_ok.mp hcheck
  obtain rfl : f.name = name := by simpa using List.find?_some hf
  rw [← htable]
  exact (CompiledUnit.signature?_eq_some hsignature).2

/-- No call of a function of a program that keeps truth fails because its result is no truth
value. -/
theorem call_converts (hp : p = q.renumber) (hu : (p.compileUnit table).result = .ok u)
    (hkeeps : p.KeepsTruth table) (limits : Limits) (c : Caller) (arguments : List Value)
    (n : Int32) : (u.call limits c arguments).result ≠ .error (.booleanConversion n) := by
  have hcompiled : u.IsCompiled := ⟨p, table, hu⟩
  obtain ⟨hm, htable⟩ := Program.compileUnit_eq_ok hu
  intro herror
  have hcourse := call_course hcompiled limits c arguments
  generalize u.call limits c arguments = r at hcourse herror
  cases hcourse with
  | refused hcheck =>
      obtain rfl := Except.error.inj herror
      exact check_refusal hcheck
  | unprepared _ hroom =>
      obtain rfl := Except.error.inj herror
      cases hroom
  | failed => cases herror
  | @ended s prepared w i arguments' hended _ =>
      obtain ⟨name, ws, hcheck, hprepare, hcall⟩ := hended.run
      have hcode : prepared.target.code = u.code := by
        rcases prepareWithin_checked limits hcompiled hcheck with ⟨e, he, _⟩ | ⟨p', hp', hready, _⟩
        · cases he.symm.trans hprepare
        · obtain rfl := Except.ok.inj (hp'.symm.trans hprepare)
          exact hready.code
      obtain ⟨f, memory, hfind, hinvoke⟩ := Instance.call_eq_ok hcall
      rw [hcode] at hfind hinvoke
      rcases result_cases hended.type with ⟨v, hv, _⟩ | ⟨hboolean, _⟩
      · cases hv.symm.trans herror
      · have htruth : w.IsTruth :=
          invoke_isTruth hp hm hkeeps (List.mem_of_find?_eq_some hfind)
            (find?_signature htable hcheck hfind) hboolean
            (prepared_truthful hcompiled hcheck hprepare) hinvoke
        have hfails : result .boolean w = .error (.booleanConversion n) := hboolean ▸ herror
        rcases htruth with rfl | rfl
        · cases hfails
        · cases hfails

/-- Whenever the code of a logical expression completes in a call of a function of a program
that keeps truth, it leaves one word more on the stack, which is `0` or `1`. -/
theorem call_logical (hp : p = q.renumber) (hu : (p.compileUnit table).result = .ok u)
    (hkeeps : p.KeepsTruth table) {point : Point} (hreaches : CallReaches u c arguments point)
    {cx : LoweringContext} (hcx : cx ∈ p.contexts table)
    (hname : cx.function.displayName = point.function.name) {code : Code}
    (hcode : IsLogicalCode cx code) {fuel depth : Nat} {state : State}
    (hexec : exec u.code fuel depth code point.state = .next state) :
    ∃ w, (w = .i32 0 ∨ w = .i32 1) ∧ state.stack = w :: point.state.stack := by
  obtain ⟨name, s, ws, limits, prepared, f, memory, fuel₀, depth₀, hcheck, hprepare, hfind,
    hreaches⟩ := hreaches
  obtain ⟨hm, htable⟩ := Program.compileUnit_eq_ok hu
  exact reaches_logical hp hm hkeeps (List.mem_of_find?_eq_some hfind)
    (find?_signature htable hcheck hfind) (prepared_truthful ⟨p, table, hu⟩ hcheck hprepare)
    hreaches hcx hname hcode hexec

end

/-- `function f(x, b) { b = x; return x && b; }` -/
def assignedDouble : Program :=
  ⟨[.function (some "f") [⟨.identifier "x", none⟩, ⟨.identifier "b", none⟩] none
    [.expression (.assign 0 .assign (.identifier 1 "b") (.identifier 2 "x")),
     .ret (some (.logical 3 .and (.identifier 4 "x") (.identifier 5 "b")))]]⟩

/-- The code of its logical expression. -/
def assignedDoubleCode : List Op :=
  [.localGet 0, .f64Const Double.zero, .float .ne, .localSet 2, .localGet 1, .i32Const 0,
    .localGet 2, .select]

theorem assignedDouble_logical :
    ∃ u f state, (assignedDouble.compileUnit
        (Table.ofList [("f", ⟨[.float64, .boolean], .boolean⟩)])).result = .ok u ∧
      CallReaches u ⟨some "f", []⟩ [.float64 Double.one, .boolean false]
        ⟨f, Lowering.plain (assignedDoubleCode ++ [.ret, .i32Const 0]),
          ⟨[], #[.f64 Double.one, .i32 1, .i32 0], Memory.zeros 0⟩⟩ ∧
      exec u.code 0 0 (Lowering.plain assignedDoubleCode)
        ⟨[], #[.f64 Double.one, .i32 1, .i32 0], Memory.zeros 0⟩ = .next state ∧
      ∃ w, (w = .i32 0 ∨ w = .i32 1) ∧ state.stack = [w] := by
  obtain ⟨u, f, cx, hu, hf, hcx, hname, hcode, hlocals, hbody, hcheck, hprepare⟩ :
      ∃ u f cx, (assignedDouble.compileUnit
        (Table.ofList [("f", ⟨[.float64, .boolean], .boolean⟩)])).result = .ok u ∧
      u.code.functions.find? (·.name = "f") = some f ∧
      cx ∈ assignedDouble.contexts (Table.ofList [("f", ⟨[.float64, .boolean], .boolean⟩)]) ∧
      cx.function.displayName = f.name ∧
      IsLogicalCode cx (Lowering.plain assignedDoubleCode) ∧ f.locals = [.i32] ∧
      f.body = Lowering.plain [.localGet 0, .f64Const Double.zero, .float .ne, .localSet 1] ++
        Lowering.plain (assignedDoubleCode ++ [.ret, .i32Const 0]) ∧
      check u ⟨some "f", []⟩ [.float64 Double.one, .boolean false] =
        .ok ("f", ⟨[.float64, .boolean], .boolean⟩, [.f64 Double.one, .i32 0]) ∧
      prepareWithin .standard u.code [.float64 Double.one, .boolean false]
        [.f64 Double.one, .i32 0] = .ok ⟨u.code.instantiate 0, [.f64 Double.one, .i32 0],
          [none, none]⟩ :=
    ⟨_, _, _, rfl, rfl, .head _, rfl,
      ⟨3, .and, .identifier 4 "x", .identifier 5 "b", [], {}, _, _,
        .tail _ (.tail _ (.tail _ (.head _))), valid_start, rfl, rfl⟩, rfl, rfl, rfl, rfl⟩
  have hreaches : CallReaches u ⟨some "f", []⟩ [.float64 Double.one, .boolean false]
      ⟨f, Lowering.plain (assignedDoubleCode ++ [.ret, .i32Const 0]),
        ⟨[], #[.f64 Double.one, .i32 1, .i32 0], Memory.zeros 0⟩⟩ := by
    refine ⟨_, _, _, _, _, f, Memory.zeros 0, 0, 0, hcheck, hprepare, hf, ?_⟩
    rw [entryVariables, hlocals, hbody]
    exact reaches_of_exec ((exec_plain rfl).trans rfl)
  have hexec : exec u.code 0 0 (Lowering.plain assignedDoubleCode)
      ⟨[], #[.f64 Double.one, .i32 1, .i32 0], Memory.zeros 0⟩ =
        .next ⟨[.i32 1], #[.f64 Double.one, .i32 1, .i32 1], Memory.zeros 0⟩ :=
    (exec_plain rfl).trans rfl
  have hkeeps : assignedDouble.KeepsTruth
      (Table.ofList [("f", ⟨[.float64, .boolean], .boolean⟩)]) := by decide
  have hids : assignedDouble = assignedDouble.renumber := rfl
  exact ⟨u, f, _, hu, hreaches, hexec,
    call_logical hids hu hkeeps hreaches hcx hname hcode hexec⟩

/-! ### An integer among the truth values -/

/-- `function f() { var b = true; b = 5; return true && b; }` -/
def assignedInteger : Program :=
  ⟨[.function (some "f") [] none
    [.declare .var [⟨.identifier "b", some (.boolean 0 true)⟩],
     .expression (.assign 1 .assign (.identifier 2 "b") (.number 3 (Double.ofInt32 5))),
     .ret (some (.logical 4 .and (.boolean 5 true) (.identifier 6 "b")))]]⟩

/-- The code of its logical expression. -/
def assignedIntegerCode : List Op :=
  [.i32Const 1, .localSet 1, .localGet 0, .i32Const 0, .localGet 1, .select]

/-- A variable that holds truth values is assigned an integer. The code of the logical
expression leaves that integer, and it is the result of the call. -/
theorem assignedInteger_logical :
    ∃ u f cx state, assignedInteger = assignedInteger.renumber ∧
      (assignedInteger.compileUnit (Table.ofList [("f", ⟨[], .int32⟩)])).result = .ok u ∧
      CallReaches u ⟨some "f", []⟩ []
        ⟨f, Lowering.plain (assignedIntegerCode ++ [.ret, .i32Const 0]),
          ⟨[], #[.i32 5, .i32 0], Memory.zeros 0⟩⟩ ∧
      cx ∈ assignedInteger.contexts (Table.ofList [("f", ⟨[], .int32⟩)]) ∧
      cx.function.displayName = f.name ∧ IsLogicalCode cx (Lowering.plain assignedIntegerCode) ∧
      exec u.code 0 0 (Lowering.plain assignedIntegerCode)
        ⟨[], #[.i32 5, .i32 0], Memory.zeros 0⟩ = .next state ∧
      state.stack = [.i32 5] ∧
      (u.call .standard ⟨some "f", []⟩ []).result = .ok (.int32 5) := by
  obtain ⟨u, f, cx, hu, hf, hcx, hname, hcode, hparams, hlocals, hbody, hcheck, hprepare⟩ :
      ∃ u f cx, (assignedInteger.compileUnit (Table.ofList [("f", ⟨[], .int32⟩)])).result = .ok u ∧
      u.code.functions.find? (·.name = "f") = some f ∧
      cx ∈ assignedInteger.contexts (Table.ofList [("f", ⟨[], .int32⟩)]) ∧
      cx.function.displayName = f.name ∧
      IsLogicalCode cx (Lowering.plain assignedIntegerCode) ∧ f.params = [] ∧
      f.locals = [.i32, .i32] ∧
      f.body = Lowering.plain [.i32Const 1, .localSet 0, .i32Const 5, .localSet 0] ++
        Lowering.plain (assignedIntegerCode ++ [.ret, .i32Const 0]) ∧
      check u ⟨some "f", []⟩ [] = .ok ("f", ⟨[], .int32⟩, []) ∧
      prepareWithin .standard u.code [] [] = .ok ⟨⟨u.code, none⟩, [], []⟩ :=
    ⟨_, _, _, rfl, rfl, .head _, rfl,
      ⟨4, .and, .boolean 5 true, .identifier 6 "b", [], {}, _, _,
        .tail _ (.tail _ (.tail _ (.tail _ (.head _)))), valid_start, rfl, rfl⟩, rfl, rfl, rfl,
      rfl, rfl⟩
  have hreaches : CallReaches u ⟨some "f", []⟩ []
      ⟨f, Lowering.plain (assignedIntegerCode ++ [.ret, .i32Const 0]),
        ⟨[], #[.i32 5, .i32 0], Memory.zeros 0⟩⟩ := by
    refine ⟨_, _, _, _, _, f, Memory.zeros 0, 0, 0, hcheck, hprepare, hf, ?_⟩
    rw [entryVariables, hlocals, hbody]
    exact reaches_of_exec ((exec_plain rfl).trans rfl)
  have hinvoke : invoke u.code Limits.standard.fuel Limits.standard.depth f [] (Memory.zeros 0) =
      .value (.i32 5) (Memory.zeros 0) := by
    have hall : f.body = Lowering.plain ([.i32Const 1, .localSet 0, .i32Const 5, .localSet 0] ++
        (assignedIntegerCode ++ [.ret, .i32Const 0])) := by rw [hbody]; rfl
    show invoke u.code Limits.standard.fuel (999 + 1) f _ _ = _
    rw [invoke, hall, exec_plain rfl, entryVariables, hlocals]
    rfl
  have hcall : Instance.call .standard ⟨u.code, none⟩ "f" [] = (.ok (.i32 5), ⟨u.code, none⟩) := by
    rw [Instance.call, hf]
    dsimp only
    rw [hparams, if_neg (by decide), Option.getD_none, hinvoke]
    rfl
  refine ⟨u, f, cx, _, rfl, hu, hreaches, hcx, hname, hcode, (exec_plain rfl).trans rfl, rfl, ?_⟩
  rw [CompiledUnit.call, hcheck]
  dsimp only
  rw [hprepare]
  dsimp only
  rw [hcall]
  rfl

end ArrayScript
