import ArrayScript.Code.Validation
import ArrayScript.Proofs.Computation

/-!
When a module is accepted.

* `Finds x fault`: a check fails only with a fault there is, and passes only if there is none.
  It is closed under the steps of a check.
* `Refused limits m reason`: what is wrong with a module that is refused for a reason.
* `checkExports_finds`: the pass through the exports finds names that are too long or
  repeated, and types that are too large together.
* `validate_finds`: validation finds what is wrong with a module.
* `validate_eq_ok`: so a module is accepted exactly if its sizes are within the limits, no two
  exports have the same name, and the code of every function is well typed.
-/

namespace ArrayScript

/-! ### Checks -/

/-- A check fails only with a fault there is, and passes only if there is none. -/
structure Finds {ε : Type} (x : Except ε Unit) (fault : ε → Prop) : Prop where
  error : ∀ e, x = .error e → fault e
  ok : x = .ok () → ∀ e, ¬ fault e

namespace Finds

variable {ε α : Type} {x y : Except ε Unit} {fault fault' : ε → Prop} {e : ε}

/-- What passes is what has no fault. -/
lemma ok_iff (h : Finds x fault) : x = .ok () ↔ ∀ e, ¬ fault e := by
  refine ⟨h.ok, fun hnone => ?_⟩
  cases hx : x with
  | ok _ => rfl
  | error e => exact absurd (h.error e hx) (hnone e)

lemma congr (h : Finds x fault) (hiff : ∀ e, fault e ↔ fault' e) : Finds x fault' :=
  ⟨fun e hx => (hiff e).mp (h.error e hx), fun hx e he => h.ok hx e ((hiff e).mpr he)⟩

lemma pass : Finds (.ok () : Except ε Unit) fun _ => False :=
  ⟨fun _ h => (nomatch h), fun _ _ h => h⟩

/-- A test before a check. -/
lemma refuse {c : Prop} [Decidable c] (e : ε) (hx : ¬ c → Finds x fault) :
    Finds (if c then .error e else x) fun e' => (c ∧ e' = e) ∨ fault e' := by
  by_cases hc : c
  · rw [if_pos hc]
    exact ⟨fun e' h => .inl ⟨hc, (Except.error.inj h).symm⟩, fun h => (nomatch h)⟩
  · rw [if_neg hc]
    exact (hx hc).congr fun e' => by simp [hc]

/-- A test that passes or fails. -/
lemma test {c : Prop} [Decidable c] (e : ε) :
    Finds (if c then .ok () else .error e) fun e' => ¬ c ∧ e' = e := by
  rw [← ite_not]
  exact (refuse e fun _ => pass).congr fun e' => by simp

/-- One check after the other, which may rely on it. -/
lemma bind (hx : Finds x fault) (hy : x = .ok () → Finds y fault') :
    Finds (x >>= fun _ => y) fun e => fault e ∨ fault' e := by
  refine ⟨fun e h => ?_, fun h e he => ?_⟩
  · rcases bind_eq_error.mp h with h | ⟨_, hxok, h⟩
    · exact .inl (hx.error e h)
    · exact .inr ((hy hxok).error e h)
  · obtain ⟨_, hxok, hyok⟩ := bind_eq_ok.mp h
    exact he.elim (hx.ok hxok e) ((hy hxok).ok hyok e)

/-- The same check for each member of a list. -/
lemma forM {f : α → Except ε Unit} {fault : α → ε → Prop} (h : ∀ a, Finds (f a) (fault a))
    (l : List α) : Finds (l.forM f) fun e => ∃ a ∈ l, fault a e := by
  induction l with
  | nil => exact pass.congr fun e => by simp
  | cons a rest ih =>
      show Finds (f a >>= fun _ => rest.forM f) _
      exact ((h a).bind fun _ => ih).congr fun e => by simp

end Finds

open Validation

/-! ### What is wrong with a module -/

/-- The sizes of one kind in a module: of the module, of each function or of each export. -/
def ModuleSize.found (m : CodeModule) : ModuleSize → List Nat
  | functions => [m.functions.length]
  | parameters => m.functions.map (·.params.length)
  | exports => [m.exports.length]
  | exportName => m.exports.map String.utf8ByteSize
  | types => [m.importedTypes + (m.sizedExports.map (·.2)).sum]
  | body => m.functions.map fun f => (Binary.body f).length
  | slots => m.functions.map (·.slotTypes.length)

/-- All sizes of a module are within the limits. -/
def CodeModule.Within (limits : SizeLimits) (m : CodeModule) : Prop :=
  ∀ size, ∀ n ∈ size.found m, n ≤ limits size

/-- What is wrong with a module that is refused for a reason. -/
inductive Refused (limits : SizeLimits) (m : CodeModule) : ValidationError → Prop
  | tooLarge {size n} (found : n ∈ size.found m) (beyond : limits size < n) :
      Refused limits m (.tooLarge size (limits size))
  | duplicateExport {name} (repeated : List.Duplicate name m.exports) :
      Refused limits m (.duplicateExport name)
  | illTyped {f} (member : f ∈ m.functions) (wrong : isWellTyped m f = false) :
      Refused limits m (.illTyped f.name)

variable (limits : SizeLimits) (m : CodeModule)

/-- A size is refused if it is beyond its limit. -/
lemma SizeLimits.check_finds (size : ModuleSize) (n : Nat) :
    Finds (limits.check size n) fun e => limits size < n ∧ e = .tooLarge size (limits size) :=
  (Finds.test _).congr fun e => by rw [Nat.not_le]

/-- The code of a function is refused for the number of its variables or for its types. -/
lemma checkFunction_finds (f : CompiledFunction) :
    Finds (checkFunction limits m f) fun e =>
      (limits .slots < f.slotTypes.length ∧ e = .tooLarge .slots (limits .slots)) ∨
      (isWellTyped m f = false ∧ e = .illTyped f.name) := by
  refine (limits.check_finds .slots _).bind fun _ => ?_
  exact (Finds.test _).congr fun e => by simp

/-! ### Exports -/

/-- Exports are named in the order in which they are listed with their types. -/
lemma CodeModule.map_sizedExports : m.sizedExports.map (·.1) = m.exports := by
  rw [sizedExports, exports, List.map_append, List.map_map]
  split <;> rfl

/-- Exports are refused for a long name, for their types together, or for a name that occurs
before. The induction is on the exports, with any names and any types before them. -/
lemma checkExports_finds {exports : List (String × Nat)} {seen : List String} {types : Nat}
    (htypes : types ≤ limits .types) :
    Finds (checkExports limits seen types exports) fun e =>
      (∃ p ∈ exports, limits .exportName < p.1.utf8ByteSize ∧
        e = .tooLarge .exportName (limits .exportName)) ∨
      (limits .types < types + (exports.map (·.2)).sum ∧ e = .tooLarge .types (limits .types)) ∨
      ∃ name, e = .duplicateExport name ∧ (List.Duplicate name (exports.map (·.1)) ∨
        name ∈ seen ∧ name ∈ exports.map (·.1)) := by
  induction exports generalizing seen types with
  | nil =>
      rw [checkExports]
      exact Finds.pass.congr fun e => by simp; omega
  | cons p rest ih =>
      obtain ⟨name, size⟩ := p
      rw [checkExports]
      refine ((limits.check_finds .exportName _).bind fun _ =>
        (limits.check_finds .types _).bind fun hsize =>
          Finds.refuse _ fun _ => ih ?_).congr fun e => ?_
      · by_contra hlarge
        exact (limits.check_finds .types _).ok hsize _ ⟨by omega, rfl⟩
      -- the first export, told of all of them: its size counts, and its name has been seen
      · have hsum : limits .types < types + size + (rest.map (·.2)).sum ↔
            limits .types < types + (((name, size) :: rest).map (·.2)).sum := by
          rw [List.map_cons, List.sum_cons, Nat.add_assoc]
        have hnames : (name ∈ seen ∧ e = .duplicateExport name ∨
              ∃ n, e = .duplicateExport n ∧ (List.Duplicate n (rest.map (·.1)) ∨
                n ∈ name :: seen ∧ n ∈ rest.map (·.1))) ↔
            ∃ n, e = .duplicateExport n ∧
              (List.Duplicate n (((name, size) :: rest).map (·.1)) ∨
                n ∈ seen ∧ n ∈ ((name, size) :: rest).map (·.1)) := by
          simp only [List.map_cons, List.duplicate_cons_iff, List.mem_cons]
          grind
        rw [← hnames, ← hsum, List.exists_mem_cons_iff]
        have hlarge : limits .types < types + size →
            limits .types < types + size + (rest.map (·.2)).sum := by omega
        constructor
        · rintro (hname | ⟨hn, he⟩ | hseen | hname | hsizes | hrest)
          · exact .inl (.inl hname)
          · exact .inr (.inl ⟨hlarge hn, he⟩)
          · exact .inr (.inr (.inl hseen))
          · exact .inl (.inr hname)
          · exact .inr (.inl hsizes)
          · exact .inr (.inr (.inr hrest))
        · rintro ((hname | hname) | hsizes | hseen | hrest)
          · exact .inl hname
          · exact .inr (.inr (.inr (.inl hname)))
          · exact .inr (.inr (.inr (.inr (.inl hsizes))))
          · exact .inr (.inr (.inl hseen))
          · exact .inr (.inr (.inr (.inr (.inr hrest))))

/-! ### Modules -/

/-- Validation finds what is wrong with a module. -/
theorem validate_finds : Finds (m.validate limits) (Refused limits m) := by
  rw [CodeModule.validate]
  refine ((limits.check_finds .functions _).bind fun _ =>
    (Finds.forM (fun f : CompiledFunction => limits.check_finds .parameters _) _).bind fun _ =>
    (limits.check_finds .types _).bind fun htypes =>
    (limits.check_finds .exports _).bind fun _ =>
    (checkExports_finds limits ?_).bind fun _ =>
    (Finds.forM (fun f : CompiledFunction => limits.check_finds .body _) _).bind fun _ =>
    Finds.forM (checkFunction_finds limits m) _).congr fun e => ⟨?_, ?_⟩
  · by_contra hlarge
    exact (limits.check_finds .types _).ok htypes _ ⟨by omega, rfl⟩
  -- each of the checks refuses for a reason
  · rintro (⟨hn, rfl⟩ | ⟨f, hf, hn, rfl⟩ | ⟨hn, rfl⟩ | ⟨hn, rfl⟩ |
      (⟨p, hp, hn, rfl⟩ | ⟨hn, rfl⟩ | ⟨name, rfl, hname | ⟨hname, _⟩⟩) | ⟨f, hf, hn, rfl⟩ |
      ⟨f, hf, ⟨hn, rfl⟩ | ⟨hwrong, rfl⟩⟩)
    · exact .tooLarge (List.mem_singleton_self _) hn
    · exact .tooLarge (List.mem_map_of_mem hf) hn
    · exact .tooLarge (List.mem_singleton_self _) (hn.trans_le (Nat.le_add_right _ _))
    · exact .tooLarge (List.mem_singleton_self _) hn
    · have hmem : p.1 ∈ m.exports := m.map_sizedExports ▸ List.mem_map_of_mem hp
      exact .tooLarge (List.mem_map_of_mem hmem) hn
    · exact .tooLarge (List.mem_singleton_self _) hn
    · exact .duplicateExport (m.map_sizedExports ▸ hname)
    · cases hname
    · exact .tooLarge (List.mem_map_of_mem hf) hn
    · exact .tooLarge (List.mem_map_of_mem hf) hn
    · exact .illTyped hf hwrong
  -- each reason is found by one of the checks
  · rw [m.map_sizedExports]
    rintro (⟨hfound, hn⟩ | hrepeated | ⟨hf, hwrong⟩)
    · rename_i size n
      cases size with
      | functions =>
          obtain rfl := List.mem_singleton.mp hfound
          exact .inl ⟨hn, rfl⟩
      | parameters =>
          obtain ⟨f, hf, rfl⟩ := List.mem_map.mp hfound
          exact .inr (.inl ⟨f, hf, hn, rfl⟩)
      | exports =>
          obtain rfl := List.mem_singleton.mp hfound
          exact .inr (.inr (.inr (.inl ⟨hn, rfl⟩)))
      | exportName =>
          rw [ModuleSize.found, ← m.map_sizedExports, List.map_map] at hfound
          obtain ⟨p, hp, rfl⟩ := List.mem_map.mp hfound
          exact .inr (.inr (.inr (.inr (.inl (.inl ⟨p, hp, hn, rfl⟩)))))
      | types =>
          obtain rfl := List.mem_singleton.mp hfound
          exact .inr (.inr (.inr (.inr (.inl (.inr (.inl ⟨hn, rfl⟩))))))
      | body =>
          obtain ⟨f, hf, rfl⟩ := List.mem_map.mp hfound
          exact .inr (.inr (.inr (.inr (.inr (.inl ⟨f, hf, hn, rfl⟩)))))
      | slots =>
          obtain ⟨f, hf, rfl⟩ := List.mem_map.mp hfound
          exact .inr (.inr (.inr (.inr (.inr (.inr ⟨f, hf, .inl ⟨hn, rfl⟩⟩)))))
    · exact .inr (.inr (.inr (.inr (.inl (.inr (.inr ⟨_, rfl, .inl hrepeated⟩))))))
    · exact .inr (.inr (.inr (.inr (.inr (.inr ⟨_, hf, .inr ⟨hwrong, rfl⟩⟩)))))

variable {limits m}

/-- A module is accepted exactly if its sizes are within the limits, no two exports have the
same name, and the code of every function is well typed. -/
theorem validate_eq_ok : m.validate limits = .ok () ↔
    m.Within limits ∧ m.exports.Nodup ∧ ∀ f ∈ m.functions, isWellTyped m f = true := by
  rw [(validate_finds limits m).ok_iff]
  constructor
  · intro h
    refine ⟨fun size n hn => ?_, List.nodup_iff_forall_not_duplicate.mpr fun name hname => ?_,
      fun f hf => ?_⟩
    · by_contra hlarge
      exact h _ (.tooLarge hn (Nat.lt_of_not_le hlarge))
    · exact h _ (.duplicateExport hname)
    · by_contra hwrong
      exact h _ (.illTyped hf (by simpa using hwrong))
  · rintro ⟨hwithin, hexports, htyped⟩ e (⟨hfound, hn⟩ | hrepeated | ⟨hf, hwrong⟩)
    · exact absurd (hwithin _ _ hfound) (Nat.not_le_of_lt hn)
    · exact List.nodup_iff_forall_not_duplicate.mp hexports _ hrepeated
    · rw [htyped _ hf] at hwrong
      cases hwrong

end ArrayScript
