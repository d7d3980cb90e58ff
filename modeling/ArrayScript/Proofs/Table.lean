import Mathlib.Tactic
import ArrayScript.Signature.Derived

/-!
Look-ups in tables that are built from lists of pairs.

Where no key is repeated, `find?_ofList_of_mem` and `mem_of_find?_ofList` say that
the entries of the table are exactly the pairs of the list; the second holds in
general.
-/

namespace ArrayScript.Table

variable {κ α : Type} [DecidableEq κ]

lemma mem_of_find?_foldl {pairs : List (κ × α)} {t : Table κ α} {k : κ} {a : α}
    (h : (pairs.foldl (fun t p => t.insert p.1 p.2) t).find? k = some a) :
    (k, a) ∈ pairs ∨ t.find? k = some a := by
  induction pairs generalizing t with
  | nil => exact .inr h
  | cons p rest ih =>
      rcases ih h with hmem | hfind
      · exact .inl (List.mem_cons_of_mem _ hmem)
      · rw [find?_insert] at hfind
        split at hfind
        · rename_i hk
          left
          rw [← hk, ← Option.some.inj hfind]
          exact List.mem_cons_self
        · exact .inr hfind

/-- Every entry of the table comes from the list. -/
lemma mem_of_find?_ofList {pairs : List (κ × α)} {k : κ} {a : α}
    (h : (ofList pairs).find? k = some a) : (k, a) ∈ pairs := by
  rcases mem_of_find?_foldl h with hmem | hempty
  · exact hmem
  · simp at hempty

lemma find?_foldl_of_notMem {pairs : List (κ × α)} {t : Table κ α} {k : κ}
    (h : k ∉ pairs.map (·.1)) :
    (pairs.foldl (fun t p => t.insert p.1 p.2) t).find? k = t.find? k := by
  induction pairs generalizing t with
  | nil => rfl
  | cons p rest ih =>
      rw [List.map_cons, List.mem_cons, not_or] at h
      rw [List.foldl_cons, ih h.2, find?_insert, if_neg (Ne.symm h.1)]

/-- If no key is repeated, every pair of the list is an entry of the table. -/
lemma find?_ofList_of_mem {pairs : List (κ × α)} {k : κ} {a : α}
    (hn : (pairs.map (·.1)).Nodup) (h : (k, a) ∈ pairs) : (ofList pairs).find? k = some a := by
  have key : ∀ (l : List (κ × α)) (t : Table κ α), (l.map (·.1)).Nodup → (k, a) ∈ l →
      (l.foldl (fun t p => t.insert p.1 p.2) t).find? k = some a := by
    intro l
    induction l with
    | nil => exact fun _ _ h => absurd h (by simp)
    | cons p rest ih =>
        intro t hn h
        rw [List.map_cons, List.nodup_cons] at hn
        rcases List.mem_cons.mp h with rfl | h
        · rw [List.foldl_cons, find?_foldl_of_notMem hn.1, find?_insert, if_pos rfl]
        · exact ih _ hn.2 h
  exact key pairs empty hn h

/-- If no key is repeated, the table is the list. -/
lemma ofList_of_nodup {pairs : List (κ × α)} (h : (pairs.map (·.1)).Nodup) :
    ofList pairs = ⟨pairs⟩ := by
  induction pairs using List.reverseRecOn with
  | nil => rfl
  | append_singleton rest p ih =>
      rw [List.map_append, List.map_singleton, List.nodup_append'] at h
      obtain ⟨hrest, _, hdisjoint⟩ := h
      have hfresh : p.1 ∉ rest.map (·.1) := fun hmem => hdisjoint hmem List.mem_cons_self
      rw [ofList] at ih ⊢
      rw [List.foldl_append, ih hrest]
      exact congrArg Table.mk (put_of_notMem hfresh p.2)

end ArrayScript.Table

namespace ArrayScript

/-- A signature that is required and there is the one that a look-up finds. -/
lemma SignatureTable.require_eq_ok {table : SignatureTable} {name : String} {s : Signature}
    (h : table.require name = .ok s) : table.find? name = some s := by
  rw [SignatureTable.require] at h
  split at h
  · rename_i s' hs'
    rw [hs', Except.ok.inj h]
  · cases h

/-- The error does not blame the table of signatures: no signature has the wrong arity, and
none is missing for a name in the table. -/
def CompileError.Spares (table : SignatureTable) : CompileError → Prop
  | missingSignature name => table.find? name = none
  | signatureArity _ _ _ => False
  | _ => True

lemma SignatureTable.require_eq_error {table : SignatureTable} {name : String} {e : CompileError}
    (h : table.require name = .error e) : e = .missingSignature name ∧ table.find? name = none := by
  rw [SignatureTable.require] at h
  split at h
  · cases h
  · exact ⟨(Except.error.inj h).symm, ‹_›⟩

end ArrayScript
