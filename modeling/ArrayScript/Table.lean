/-!
Finite maps kept as lists of pairs in the order of first insertion.

`Table.insert` replaces the value under a key that is present and appends a new
pair otherwise, so no key occurs twice. `find?_insert` says what a look-up sees
afterwards, `insert_of_notMem` what the pairs are under a new key.
-/

namespace ArrayScript

/-- A finite map from `κ` to `α`. -/
structure Table (κ α : Type) where
  entries : List (κ × α) := []
  deriving DecidableEq, Repr

namespace Table

variable {κ α : Type}

instance : Inhabited (Table κ α) := ⟨{}⟩

/-- The map without entries. -/
def empty : Table κ α := {}

/-- The number of keys. -/
def size (t : Table κ α) : Nat :=
  t.entries.length

/-- The keys in the order of first insertion. -/
def keys (t : Table κ α) : List κ :=
  t.entries.map (·.1)

variable [DecidableEq κ]

/-- The value under the key in a list of pairs. -/
def lookup (k : κ) : List (κ × α) → Option α
  | [] => none
  | (k', a) :: rest => if k' = k then some a else lookup k rest

/-- The list of pairs with `a` put under the key. -/
def put (k : κ) (a : α) : List (κ × α) → List (κ × α)
  | [] => [(k, a)]
  | (k', b) :: rest => if k' = k then (k, a) :: rest else (k', b) :: put k a rest

/-- The value under a key. -/
def find? (t : Table κ α) (k : κ) : Option α :=
  lookup k t.entries

/-- Whether a key has a value. -/
def contains (t : Table κ α) (k : κ) : Bool :=
  (t.find? k).isSome

/-- The map with `a` under the key, in place of any earlier value. -/
def insert (t : Table κ α) (k : κ) (a : α) : Table κ α :=
  ⟨put k a t.entries⟩

/-- Inserts pairs from left to right, so the last value of a repeated key stays. -/
def ofList (pairs : List (κ × α)) : Table κ α :=
  pairs.foldl (fun t p => t.insert p.1 p.2) empty

/-! ### What a look-up sees -/

@[simp] theorem find?_empty (k : κ) : (empty : Table κ α).find? k = none := rfl

theorem lookup_put (k k' : κ) (a : α) (l : List (κ × α)) :
    lookup k' (put k a l) = if k = k' then some a else lookup k' l := by
  induction l with
  | nil => simp [put, lookup]
  | cons p rest ih =>
      obtain ⟨q, b⟩ := p
      by_cases hq : q = k
      · subst hq
        by_cases hk : q = k' <;> simp [put, lookup, hk]
      · by_cases hk : q = k'
        · subst hk
          simp [put, lookup, hq, Ne.symm hq]
        · simp [put, lookup, hq, hk, ih]

/-- After an insertion the key has its new value and all others keep theirs. -/
theorem find?_insert (t : Table κ α) (k k' : κ) (a : α) :
    (t.insert k a).find? k' = if k = k' then some a else t.find? k' :=
  lookup_put k k' a t.entries

/-- A key has a value if it is the key of a pair. -/
theorem contains_iff {t : Table κ α} {k : κ} : t.contains k ↔ k ∈ t.keys := by
  obtain ⟨l⟩ := t
  rw [contains, find?, keys]
  induction l with
  | nil => simp [lookup]
  | cons p rest ih =>
      rw [lookup, List.map_cons, List.mem_cons]
      split
      · rename_i hk
        simp [hk]
      · rename_i hk
        rw [ih, or_iff_right (Ne.symm hk)]

theorem put_of_notMem {k : κ} {l : List (κ × α)} (h : k ∉ l.map (·.1)) (a : α) :
    put k a l = l ++ [(k, a)] := by
  induction l with
  | nil => rfl
  | cons p rest ih =>
      rw [List.map_cons, List.mem_cons, not_or] at h
      rw [put, if_neg (Ne.symm h.1), ih h.2, List.cons_append]

/-- A pair with a new key comes last. -/
theorem insert_of_notMem {t : Table κ α} {k : κ} (h : ¬ t.contains k) (a : α) :
    t.insert k a = ⟨t.entries ++ [(k, a)]⟩ :=
  congrArg Table.mk (put_of_notMem (fun hmem => h (contains_iff.mpr hmem)) a)

end Table

end ArrayScript
