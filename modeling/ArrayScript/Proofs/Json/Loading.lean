import ArrayScript.Proofs.Computation
import ArrayScript.Proofs.Json.Restoring
import ArrayScript.Proofs.Syntax.Numbering

/-!
Loading undoes storing.

* `Program.loadProgram_eq`, `SignatureTable.loadSignatures_eq`: the text of a tree under which
  something is stored is loaded as what was stored, a program with the ids of a walk.
* `checkCoverage_eq_ok`: the check that follows passes if and only if each named function of
  the program has a signature. Neither ids nor the order of the signatures matter to it.
* `Program.loading_undoes_storing`: the main result.
-/

namespace ArrayScript

lemma loadAs_eq_ok {α : Type} {read : Nat → Json → Option α} {text : String} {j : Json} {a : α}
    (hj : Json.read? text = some j) (ha : read Decoding.maxDepth j = some a) :
    loadAs read text = .ok a := by
  rw [loadAs, hj, Option.bind_some, ha]

/-- A program is loaded with the ids of a walk, whatever ids it is stored with. -/
lemma Program.loadProgram_eq {p : Program} {text : String} {j : Json}
    (hd : p.toJson.depth ≤ Decoding.maxDepth) (hj : Json.read? text = some j) (h : p.Stored j) :
    loadProgram text = .ok p.renumber := by
  obtain ⟨p', hread, herase⟩ := program_restores h hd
  rw [loadProgram, loadAs_eq_ok hj hread]
  exact congrArg Except.ok (renumber_congr herase)

/-- A table of signatures is loaded with its entries in the order in which they are stored. -/
lemma SignatureTable.loadSignatures_eq {t : SignatureTable} {text : String} {j : Json}
    (hn : t.keys.Nodup) (hj : Json.read? text = some j) (h : t.StoredInOrder j) :
    loadSignatures text = .ok t :=
  loadAs_eq_ok hj (signatureTable_restores 124 h hn)

lemma SignatureTable.exists_loadSignatures_eq {t : SignatureTable} {text : String} {j : Json}
    (hn : t.keys.Nodup) (hj : Json.read? text = some j) (h : t.Stored j) :
    ∃ t', loadSignatures text = .ok t' ∧ t'.entries.Perm t.entries := by
  obtain ⟨t', hperm, ht'⟩ := h
  exact ⟨t', loadSignatures_eq ((hperm.map _).nodup_iff.mpr hn) hj ht', hperm⟩

/-! ### Coverage -/

/-- Each named function of the program has a signature. -/
def Program.IsCovered (p : Program) (table : SignatureTable) : Prop :=
  ∀ f ∈ p.functions, ∀ name, f.name = some name → table.contains name

/-- The names of the functions of a program in order. -/
def Program.functionNames (p : Program) : List String :=
  p.functions.filterMap (·.name)

lemma Program.isCovered_iff {p : Program} {table : SignatureTable} :
    p.IsCovered table ↔ ∀ name ∈ p.functionNames, name ∈ table.keys := by
  simp only [IsCovered, functionNames, List.mem_filterMap, Table.contains_iff]
  constructor
  · rintro h name ⟨f, hf, hname⟩
    exact h f hf name hname
  · exact fun h f hf name hname => h name ⟨f, hf, hname⟩

/-- The check for signatures passes if and only if no named function is without one. -/
lemma checkCoverage_eq_ok {p : Program} {table : SignatureTable} :
    checkCoverage p table = .ok () ↔ p.IsCovered table := by
  rw [Program.isCovered_iff, checkCoverage, ← Program.functionNames]
  split
  · rename_i name hfind
    have hmissing := List.find?_some hfind
    rw [Bool.not_eq_true', ← Bool.not_eq_true, Table.contains_iff] at hmissing
    exact ⟨fun h => (by cases h),
      fun h => absurd (h name (List.mem_of_find?_eq_some hfind)) hmissing⟩
  · rename_i hfind
    refine ⟨fun _ name hname => ?_, fun _ => rfl⟩
    have hcontains := List.find?_eq_none.mp hfind name hname
    rw [Bool.not_eq_true', Bool.not_eq_false] at hcontains
    exact Table.contains_iff.mp hcontains

lemma Program.functionNames_erase (p : Program) : p.erase.functionNames = p.functionNames := by
  obtain ⟨body⟩ := p
  simp only [functionNames, functions, List.filterMap_filterMap]
  rw [erase]
  induction body with
  | nil => rfl
  | cons s rest ih =>
      have hname : (s.erase.function?.bind (·.name)) = s.function?.bind (·.name) := by
        cases s <;> rfl
      rw [Statement.eraseAll, List.filterMap_cons, List.filterMap_cons, hname, ih]

lemma Program.functionNames_renumber (p : Program) :
    p.renumber.functionNames = p.functionNames := by
  rw [← functionNames_erase, erase_renumber, functionNames_erase]

/-- Whether a loaded unit is covered can be told from what was stored. -/
lemma Program.isCovered_renumber {p : Program} {t t' : SignatureTable}
    (h : t'.entries.Perm t.entries) : p.renumber.IsCovered t' ↔ p.IsCovered t := by
  have hkeys : ∀ name, name ∈ t'.keys ↔ name ∈ t.keys := fun _ => (h.map (·.1)).mem_iff
  simp only [isCovered_iff, functionNames_renumber, hkeys]

/-! ### Units -/

namespace Program

variable {p : Program} {t : SignatureTable} {text signatures : String} {j k : Json}

/-- What becomes of a stored program together with a stored table. -/
lemma loadUnit_eq_ok (hd : p.toJson.depth ≤ Decoding.maxDepth) (hn : t.keys.Nodup)
    (hj : Json.read? text = some j) (hp : p.Stored j) (hk : Json.read? signatures = some k)
    (ht : t.Stored k) {u : Program × SignatureTable} :
    loadUnit text signatures = .ok u ↔
      u.1 = p.renumber ∧ loadSignatures signatures = .ok u.2 ∧ p.IsCovered t := by
  obtain ⟨t', hload, hperm⟩ := SignatureTable.exists_loadSignatures_eq hn hk ht
  rw [loadUnit, loadProgram_eq hd hj hp, hload, ← isCovered_renumber hperm, ← checkCoverage_eq_ok]
  simp only [bind_eq_ok, pure_eq_ok, Except.ok.injEq, exists_eq_left']
  constructor
  · rintro ⟨⟨⟩, hcheck, rfl⟩
    exact ⟨rfl, rfl, hcheck⟩
  · rintro ⟨hp, rfl, hcheck⟩
    exact ⟨(), hcheck, by rw [← hp]⟩

/-- Loading undoes storing. From any text of a tree under which a program is stored the
program comes back with the ids of a walk; the tree that is written for a program is such a
tree, and a program that was parsed comes back as it was. A table of signatures comes back
with its entries in stored order, which for the tree that is written is their own. A program
and a table together are accepted if and only if each named function has a signature. -/
theorem loading_undoes_storing (p : Program) (t : SignatureTable)
    (hd : p.toJson.depth ≤ 127) (hn : t.keys.Nodup) :
    (∀ text j, Json.read? text = some j → p.Stored j → loadProgram text = .ok p.renumber) ∧
    (Visit.AreStorable p.visits → p.Stored p.toJson) ∧
    (∀ source text, parse source = .ok p → Visit.AreStorable p.visits →
      Json.read? text = some p.toJson → loadProgram text = .ok p) ∧
    (∀ signatures k, Json.read? signatures = some k → t.Stored k →
      ∃ t', loadSignatures signatures = .ok t' ∧ t'.entries.Perm t.entries) ∧
    (∀ signatures, Json.read? signatures = some t.toJson → loadSignatures signatures = .ok t) ∧
    ∀ text signatures j k, Json.read? text = some j → p.Stored j →
      Json.read? signatures = some k → t.Stored k →
      ((∃ u, loadUnit text signatures = .ok u) ↔
        ∀ f ∈ p.functions, ∀ name, f.name = some name → t.contains name) ∧
      ∀ u, loadUnit text signatures = .ok u →
        u.1 = p.renumber ∧ loadSignatures signatures = .ok u.2 := by
  refine ⟨fun text j hj hp => loadProgram_eq hd hj hp, stored_toJson, ?_,
    fun signatures k hk ht => SignatureTable.exists_loadSignatures_eq hn hk ht, ?_, ?_⟩
  · intro source text hparse hstorable hread
    obtain ⟨q, rfl⟩ := exists_eq_renumber (.inl ⟨source, hparse⟩)
    rw [loadProgram_eq hd hread (stored_toJson hstorable), renumber_renumber]
  · exact fun signatures hk =>
      SignatureTable.loadSignatures_eq hn hk t.storedInOrder_toJson
  · intro text signatures j k hj hp hk ht
    have hunit := @loadUnit_eq_ok p t text signatures j k hd hn hj hp hk ht
    obtain ⟨t', hload, -⟩ := SignatureTable.exists_loadSignatures_eq hn hk ht
    refine ⟨⟨fun ⟨u, hu⟩ => (hunit.mp hu).2.2, fun hcovered => ?_⟩, fun u hu => ?_⟩
    · exact ⟨(p.renumber, t'), hunit.mpr ⟨rfl, hload, hcovered⟩⟩
    · obtain ⟨hprogram, htable, -⟩ := hunit.mp hu
      exact ⟨hprogram, htable⟩

/-- A stored function without id and annotation of its result, among unknown fields. -/
def notedText : String :=
  "\x7b\"note\":[],\"body\":[\x7b\"Function\":\x7b\"params\":[],\"name\":\"one\",\"body\":[" ++
    "\x7b\"Return\":\x7b\"kind\":\x7b\"Number\":1.5\x7d,\"line\":3\x7d\x7d]\x7d\x7d]\x7d"

/-- The tree of that text. -/
def noted : Json :=
  .ofFields [("note", .array []), ("body", .array [.choose "Function" (.ofFields
    [("params", .array []), ("name", .ofString "one"), ("body", .array [.choose "Return"
      (.ofFields [("kind", .choose "Number" (.number (.double ⟨0x3ff8000000000000⟩))),
        ("line", .number (.integer 3))])])])])]

/-- The function that is stored, under an id of its own. -/
def constantProgram : Program :=
  ⟨[.function (some "one") [] none [.ret (some (.number 7 ⟨0x3ff8000000000000⟩))]]⟩

/-- The signature of that function. -/
def constantSignatures : SignatureTable :=
  ⟨[("one", ⟨[], .float64⟩)]⟩

/-- The text that is written for that table. -/
def constantSignaturesText : String :=
  "\x7b\"one\":\x7b\"parameters\":[],\"return_type\":\"Float64\"\x7d\x7d"

set_option maxRecDepth 100000 in
lemma read?_notedText : Json.read? notedText = some noted := by
  with_unfolding_all rfl

set_option maxRecDepth 100000 in
lemma read?_constantSignaturesText :
    Json.read? constantSignaturesText = some constantSignatures.toJson := by
  with_unfolding_all rfl

lemma constantProgram_stored : constantProgram.Stored noted := by
  have hnumber : (Expr.number 7 ⟨0x3ff8000000000000⟩).Stored (.ofFields
      [("kind", .choose "Number" (.number (.double ⟨0x3ff8000000000000⟩))),
        ("line", .number (.integer 3))]) := by
    refine ⟨_, rfl, List.forall_mem_cons.mpr ⟨⟨none, rfl, fun _ h => by cases h⟩, ?_⟩⟩
    exact List.forall_mem_singleton.mpr ⟨some _, rfl, _, rfl, _, rfl, rfl, rfl⟩
  refine ⟨_, rfl, List.forall_mem_singleton.mpr ⟨some _, rfl, _, rfl, _, rfl, _, _, rfl, ?_, rfl⟩⟩
  refine ⟨_, rfl, _, rfl, ?_⟩
  simp only [List.forall_mem_cons]
  exact ⟨⟨some _, rfl, _, rfl, rfl⟩, ⟨some _, rfl, _, rfl, _, rfl, .nil⟩, ⟨none, rfl, .inl rfl⟩,
    ⟨some _, rfl, _, rfl, _, rfl, _, _, rfl, ⟨_, rfl, hnumber⟩, rfl⟩, by simp⟩

theorem constantProgram_loaded :
    constantProgram.toJson.depth ≤ 127 ∧ constantSignatures.keys.Nodup ∧
    constantProgram.Stored noted ∧ loadProgram notedText = .ok constantProgram.renumber ∧
    ∃ u, loadUnit notedText constantSignaturesText = .ok u := by
  have hd : constantProgram.toJson.depth ≤ 127 := by decide
  have hn : constantSignatures.keys.Nodup := by decide
  obtain ⟨hprogram, _, _, _, _, hunit⟩ :=
    loading_undoes_storing constantProgram constantSignatures hd hn
  have hsignatures := read?_constantSignaturesText
  refine ⟨hd, hn, constantProgram_stored, hprogram _ _ read?_notedText constantProgram_stored, ?_⟩
  refine (hunit _ _ _ _ read?_notedText constantProgram_stored hsignatures
    ⟨_, .refl _, constantSignatures.storedInOrder_toJson⟩).1.mpr ?_
  decide

end Program

end ArrayScript
