import ArrayScript.Proofs.Syntax.Walk
import ArrayScript.Proofs.Typing.Roots

/-!
Which slots the variables of a function get.

* `declaredNames`: the names a function declares, by a declarator or by a plain
  assignment, in the order of a walk that leaves inner functions out.
* `foldl_declareLocal_ordered`: names that are declared one after the other are kept in the
  order in which they came first.
* `Allocated`: the slots of a function are given out densely, without repetition and in
  order, and the mapping of all variables agrees with those of parameters and locals.
* `resolve_allocates`: a function has slots exactly if its parameters are distinct plain
  names and its declarators plain names; and they are then allocated so.
-/

namespace ArrayScript

/-! ### Declared names -/

/-- The name that is declared at a stop of a walk. -/
def Visit.declared? : Visit → Option String
  | declarator d => d.target.identifier?
  | expression e => Slots.plainTarget? e
  | statement _ | function _ => none

/-- The names that a function declares, in the order of a walk that does not go into
inner functions: a declarator comes before its initial value, an assignment before its
sides. -/
def FunctionDeclaration.declaredNames (f : FunctionDeclaration) : List String :=
  f.ownVisits.filterMap Visit.declared?

lemma Root.filterMap_declared (r : Root) : r.visits.filterMap Visit.declared? = r.names := by
  have hpreorder : ∀ e : Expr,
      (e.preorder.map Visit.expression).filterMap Visit.declared? = Slots.assigned e := by
    intro e
    rw [List.filterMap_map, Slots.assigned_eq]
    rfl
  cases r with
  | expression e => exact hpreorder e
  | declarator d =>
      have hinit : (Expr.visitsOption d.init).filterMap Visit.declared?
          = (d.init.map Slots.assigned).getD [] := by
        cases d.init with
        | none => rfl
        | some e => exact hpreorder e
      rw [visits, names, List.filterMap_cons, hinit]
      cases h : d.target.identifier? <;> simp [Visit.declared?, h]

lemma FunctionDeclaration.declaredNames_eq (f : FunctionDeclaration) :
    f.declaredNames = f.roots.flatMap Root.names := by
  rw [declaredNames, f.filterMap_ownVisits (fun _ => rfl), List.filterMap_flatMap]
  exact List.flatMap_congr fun r _ => r.filterMap_declared

namespace Slots

variable {function : String}

/-! ### Declaring names one after the other -/

/-- The names are kept in the order in which they came first. -/
def Ordered (declared kept : List String) : Prop :=
  kept.Pairwise fun a b => declared.idxOf a < declared.idxOf b

/-- The induction is on the names declared so far: a name that is kept was never declared
before, so it comes after all that are kept. -/
lemma foldl_declareLocal_ordered (parameters : VariableMapping) (first : Nat)
    (declared : List String) :
    Ordered declared (declared.foldl (declareLocal parameters) (.startingAt first)).names := by
  induction declared using List.reverseRecOn with
  | nil => exact .nil
  | append_singleton rest n ih =>
      rw [List.foldl_append, List.foldl_cons, List.foldl_nil]
      have hrest : ∀ a ∈ rest, (rest ++ [n]).idxOf a = rest.idxOf a :=
        fun a ha => List.idxOf_append_of_mem ha
      have hkept : ∀ a, a ∈ (rest.foldl (declareLocal parameters) (.startingAt first)).names →
          a ∈ rest := fun a ha =>
        (mem_foldl_declareLocal.mp ha).elim (fun hmem => nomatch hmem) And.left
      have hordered : Ordered (rest ++ [n])
          (rest.foldl (declareLocal parameters) (.startingAt first)).names := by
        refine ih.imp_of_mem fun ha hb hlt => ?_
        rwa [hrest _ (hkept _ ha), hrest _ (hkept _ hb)]
      rw [declareLocal_names]
      split
      · exact hordered
      · rename_i hn
        refine List.pairwise_append.mpr ⟨hordered, List.pairwise_singleton _ _, ?_⟩
        intro a ha b hb
        obtain rfl := List.mem_singleton.mp hb
        have hnew : b ∉ rest := fun hmem =>
          hn (.inr (mem_foldl_declareLocal.mpr (.inr ⟨hmem, fun hp => hn (.inl hp)⟩)))
        rw [hrest a (hkept a ha), List.idxOf_append_of_notMem hnew, List.idxOf_cons_self,
          Nat.add_zero]
        exact List.idxOf_lt_length_iff.mpr (hkept a ha)

/-! ### Success -/

/-- Distinct plain names are declared one after the other. -/
lemma declareParameters_isOk {position : Nat} {m : VariableMapping} {names : List String}
    {params : List Param} (hparams : params.map (·.pattern.identifier?) = names.map some)
    (hn : (m.names ++ names).Nodup) :
    declareParameters function position m params = .ok (m.declareAll names) := by
  induction params generalizing position m names with
  | nil =>
      obtain rfl : names = [] := by simpa using hparams.symm
      rfl
  | cons p rest ih =>
      cases names with
      | nil => cases hparams
      | cons name names =>
          rw [List.map_cons, List.map_cons, List.cons.injEq] at hparams
          have hfresh : name ∉ m.names := fun hmem =>
            (List.nodup_append.mp hn).2.2 name hmem name List.mem_cons_self rfl
          have hdeclare : m.declare name = (true, (m.declare name).2) :=
            Prod.ext (VariableMapping.declare_fst.mpr hfresh) rfl
          rw [declareParameters, hparams.1]
          dsimp only
          rw [hdeclare]
          refine ih hparams.2 ?_
          rw [VariableMapping.declare_names, if_neg hfresh]
          simpa using hn

lemma declared_isOk {r : Root}
    (h : ∀ d, r = .declarator d → ∃ name, d.target.identifier? = some name) :
    declared function r = .ok r.names := by
  cases r with
  | expression e => rfl
  | declarator d =>
      obtain ⟨name, hname⟩ := h d rfl
      rw [declared, Root.names, hname]
      rfl

lemma map_eq_map_iff_forall₂ {params : List Param} {names : List String} :
    params.map (·.pattern.identifier?) = names.map some ↔
      List.Forall₂ (fun p name => p.pattern.identifier? = some name) params names := by
  rw [← List.forall₂_eq_eq_eq, List.forall₂_map_left_iff, List.forall₂_map_right_iff]

/-- When a function has slots, and which. -/
lemma resolve_eq_ok_iff {f : FunctionDeclaration} {s : Slots} :
    resolve f = .ok s ↔
      (f.params.map (·.pattern.identifier?) = s.parameters.names.map some ∧
        s.parameters.firstSlot = 0) ∧
      (∀ d, .declarator d ∈ f.ownVisits → ∃ name, d.target.identifier? = some name) ∧
      s.locals =
        f.declaredNames.foldl (declareLocal s.parameters) (.startingAt s.parameters.len) := by
  have hnames : ∀ {lists : List (List String)},
      List.Forall₂ (fun r names => declared f.displayName r = .ok names) f.roots lists →
      lists.flatten = f.declaredNames := by
    intro lists h
    rw [f.declaredNames_eq, List.flatMap_def]
    congr 1
    rw [← List.forall₂_eq_eq_eq, List.forall₂_map_right_iff]
    exact (h.imp fun _ _ hr => declared_eq_ok hr).flip
  simp only [f.mem_ownVisits_declarator]
  constructor
  · intro h
    obtain ⟨parameters, hparameters, h⟩ := bind_eq_ok.mp h
    obtain ⟨lists, hlists, h⟩ := bind_eq_ok.mp h
    rw [mapM_eq_ok] at hlists
    obtain rfl := pure_eq_ok.mp h
    obtain ⟨new, hnew, hfirst, hparams⟩ := declareParameters_eq_ok hparameters
    obtain rfl : parameters.names = new := hnew
    refine ⟨⟨map_eq_map_iff_forall₂.mpr hparams, hfirst⟩, fun d hd => ?_, by rw [hnames hlists]⟩
    obtain ⟨names, _, hdeclared⟩ := exists_mem_of_forall₂ hlists hd
    rw [declared] at hdeclared
    split at hdeclared
    · cases hdeclared
    · exact ⟨_, ‹_›⟩
  · rintro ⟨⟨hparams, hfirst⟩, hdeclarators, hlocals⟩
    have hlists : f.roots.mapM (declared f.displayName) = .ok (f.roots.map Root.names) := by
      rw [mapM_eq_ok, List.forall₂_map_right_iff, List.forall₂_same]
      exact fun r hr => declared_isOk fun d hd => hdeclarators d (hd ▸ hr)
    -- a mapping is what declaring its names gives
    have hall : (VariableMapping.startingAt 0).declareAll s.parameters.names = s.parameters :=
      VariableMapping.ext_names ((VariableMapping.declareAll_firstSlot _ _).trans hfirst.symm)
        (VariableMapping.declareAll_names s.parameters.nodup)
    have hparameters : declareParameters f.displayName 0 (.startingAt 0) f.params
        = .ok s.parameters :=
      (declareParameters_isOk (m := .startingAt 0) hparams s.parameters.nodup).trans
        (congrArg _ hall)
    refine bind_eq_ok.mpr ⟨_, hparameters, ?_⟩
    refine bind_eq_ok.mpr ⟨_, hlists, ?_⟩
    rw [pure_eq_ok, ← List.flatMap_def, ← f.declaredNames_eq]
    exact congrArg (Slots.mk s.parameters) hlocals.symm

/-! ### Allocation -/

/-- How the variables of a function are laid out. -/
structure Allocated (f : FunctionDeclaration) (s : Slots) : Prop where
  /-- each parameter is a plain name, and its slot is its position -/
  parameters : f.params.map (·.pattern.identifier?) = s.parameters.names.map some
  parameter_slot : ∀ name slot,
    s.parameters.get? name = some slot ↔ s.parameters.names[slot]? = some name
  /-- the locals are the names that are declared and are no parameters -/
  mem_locals : ∀ name, s.locals.contains name ↔ name ∈ f.declaredNames ∧ name ∉ s.parameters.names
  /-- they are in the order of their first declarations, and their slots are counted up from
  the number of parameters -/
  locals_ordered : Ordered f.declaredNames s.locals.names
  local_slot : ∀ name slot, s.locals.get? name = some slot ↔
    s.parameters.len ≤ slot ∧ s.locals.names[slot - s.parameters.len]? = some name
  /-- in the mapping of all variables every name has the slot that it has in its own mapping -/
  merged_get? : ∀ name, s.merged.get? name = (s.parameters.get? name).or (s.locals.get? name)
  /-- its names are the parameters and then the locals, none of them twice, and their slots
  are the numbers from zero on, in this order -/
  merged_names : s.merged.names = s.parameters.names ++ s.locals.names
  merged_nodup : s.merged.names.Nodup
  merged_slots : s.merged.names.map s.merged.get? = (List.range s.merged.len).map some
  merged_iter : s.merged.iter = s.parameters.iter ++ s.locals.iter ∧
    s.merged.iter = s.merged.names.zip (List.range s.merged.len)

/-- The names of a mapping have the slots that are counted up from the first one. -/
lemma map_get?_names (m : VariableMapping) :
    m.names.map m.get? = (List.range' m.firstSlot m.len).map some := by
  refine List.ext_getElem? fun i => ?_
  rw [List.getElem?_map, List.getElem?_map, VariableMapping.len]
  by_cases hi : i < m.names.length
  · have hmem : (m.names[i], m.firstSlot + i) ∈ m.iter := by
      rw [VariableMapping.iter, List.mem_zipIdx_iff_le_and_getElem?_sub]
      exact ⟨Nat.le_add_right _ _, by rw [Nat.add_sub_cancel_left, List.getElem?_eq_getElem hi]⟩
    rw [List.getElem?_eq_getElem hi, List.getElem?_range' hi, Option.map_some, Option.map_some,
      VariableMapping.get?_eq_some.mpr hmem, Nat.one_mul]
  · rw [List.getElem?_eq_none (by omega), List.getElem?_eq_none]
    · rfl
    · rw [List.length_range']
      exact Nat.le_of_not_lt hi

/-- What is declared in order after the parameters is laid out. -/
lemma allocated_of_resolved {f : FunctionDeclaration} {s : Slots}
    (hparams : f.params.map (·.pattern.identifier?) = s.parameters.names.map some)
    (hfirst : s.parameters.firstSlot = 0)
    (hlocals : s.locals =
      f.declaredNames.foldl (declareLocal s.parameters) (.startingAt s.parameters.len)) :
    Allocated f s := by
  have hmem : ∀ name, name ∈ s.locals.names ↔
      name ∈ f.declaredNames ∧ name ∉ s.parameters.names := by
    intro name
    rw [hlocals, mem_foldl_declareLocal]
    exact or_iff_right List.not_mem_nil
  have hfirst' : s.locals.firstSlot = s.parameters.len := by
    rw [hlocals, foldl_declareLocal_firstSlot]
    rfl
  have hnames : s.merged.names = s.parameters.names ++ s.locals.names :=
    names_eq fun name hname => ((hmem name).mp hname).2
  -- where the parameters end the locals begin, so the two listings abut
  have hiter : s.merged.iter = s.parameters.iter ++ s.locals.iter := by
    rw [VariableMapping.iter, VariableMapping.iter, VariableMapping.iter, hnames,
      List.zipIdx_append, s.merged_firstSlot, hfirst, hfirst', Nat.zero_add]
    rfl
  refine ⟨hparams, fun name slot => ?_, fun name => ?_, ?_, fun name slot => ?_, fun name => ?_,
    hnames, s.merged.nodup, ?_, hiter, ?_⟩
  · rw [VariableMapping.get?_eq_some, VariableMapping.iter, hfirst,
      List.mem_zipIdx_iff_getElem?]
  · rw [VariableMapping.contains_iff, hmem]
  · rw [hlocals]
    exact foldl_declareLocal_ordered _ _ _
  · rw [VariableMapping.get?_eq_some, VariableMapping.iter, hfirst',
      List.mem_zipIdx_iff_le_and_getElem?_sub]
  · refine Option.ext fun slot => ?_
    rw [VariableMapping.get?_eq_some, hiter, List.mem_append, ← VariableMapping.get?_eq_some,
      ← VariableMapping.get?_eq_some, Option.or_eq_some_iff]
    refine or_congr_right ⟨fun h => ⟨?_, h⟩, And.right⟩
    -- a local has no slot among the parameters
    rw [VariableMapping.get?_eq_none]
    refine ((hmem name).mp ?_).2
    by_contra hnone
    rw [VariableMapping.get?_eq_none.mpr hnone] at h
    cases h
  · rw [map_get?_names, s.merged_firstSlot, List.range_eq_range']
  · rw [VariableMapping.iter, s.merged_firstSlot, List.zipIdx_eq_zip_range', List.range_eq_range']
    rfl

/-- A function has slots exactly if its parameters are distinct plain names and its
declarators plain names; they are given out densely, without repetition and in order. -/
theorem resolve_allocates (f : FunctionDeclaration) :
    ((∃ s, resolve f = .ok s) ↔
      (∃ names : List String, f.params.map (·.pattern.identifier?) = names.map some ∧
        names.Nodup) ∧
      ∀ d, .declarator d ∈ f.ownVisits → ∃ name, d.target.identifier? = some name) ∧
    ∀ s, resolve f = .ok s → Allocated f s := by
  refine ⟨⟨?_, ?_⟩, fun s h => ?_⟩
  · rintro ⟨s, h⟩
    obtain ⟨⟨hparams, _⟩, hdeclarators, _⟩ := resolve_eq_ok_iff.mp h
    exact ⟨⟨_, hparams, s.parameters.nodup⟩, hdeclarators⟩
  · rintro ⟨⟨names, hparams, hnodup⟩, hdeclarators⟩
    let parameters := (VariableMapping.startingAt 0).declareAll names
    have hnames : parameters.names = names := VariableMapping.declareAll_names hnodup
    exact ⟨⟨parameters,
        f.declaredNames.foldl (declareLocal parameters) (.startingAt parameters.len)⟩,
      resolve_eq_ok_iff.mpr ⟨⟨by rw [hparams, hnames], VariableMapping.declareAll_firstSlot _ _⟩,
        hdeclarators, rfl⟩⟩
  · obtain ⟨⟨hparams, hfirst⟩, _, hlocals⟩ := resolve_eq_ok_iff.mp h
    exact allocated_of_resolved hparams hfirst hlocals

end Slots

/-- `function f(a, b) { var s = (t = a); for (var i = 0; ; ) { b = i; } function g() { u = 1; }
var s = 1; }` -/
def repeatedlyDeclaring : FunctionDeclaration :=
  ⟨some "f", [⟨.identifier "a", none⟩, ⟨.identifier "b", none⟩], none,
    [.declare .var [⟨.identifier "s", some (.assign 0 .assign (.identifier 1 "t")
      (.identifier 2 "a"))⟩],
     .forLoop (some (.declare .var [⟨.identifier "i", some (.number 3 Double.zero)⟩])) none none
      (.block [.expression (.assign 4 .assign (.identifier 5 "b") (.identifier 6 "i"))]),
     .function (some "g") [] none
      [.expression (.assign 7 .assign (.identifier 8 "u") (.number 9 Double.one))],
     .declare .var [⟨.identifier "s", some (.number 10 Double.one)⟩]]⟩

/-- Its parameters have the first two slots, and its locals the next three. -/
def repeatedlyDeclaringSlots : Slots where
  parameters := (VariableMapping.startingAt 0).declareAll ["a", "b"]
  locals := (VariableMapping.startingAt 2).declareAll ["s", "t", "i"]

theorem repeatedlyDeclaring_allocated :
    Slots.resolve repeatedlyDeclaring = .ok repeatedlyDeclaringSlots ∧
      repeatedlyDeclaringSlots.merged.iter =
        [("a", 0), ("b", 1), ("s", 2), ("t", 3), ("i", 4)] ∧
      Slots.Allocated repeatedlyDeclaring repeatedlyDeclaringSlots :=
  ⟨by decide, by decide, (Slots.resolve_allocates repeatedlyDeclaring).2 _ (by decide)⟩

end ArrayScript
