/-!
Reading from the head of a list.

A reader takes items from the head of a list and returns a value together with
the items it left. The result records that fewer items are left than a given
number, which is what makes the recursion of a grammar well founded: a reader
that must take an item returns `Read τ α items.length`, one that may take none
`Read τ α (items.length + 1)`.

What was read from the rest of a list was read from the list: `Read.past`,
`Read.after` and `Read.within` say so for the three ways in which bounds combine.
-/

namespace ArrayScript

/-- A value read from items of type `τ`, and the items left, fewer than `n`. -/
structure Read (τ α : Type) (n : Nat) where
  value : α
  rest : List τ
  shorter : rest.length < n

namespace Read

variable {τ α : Type} {n : Nat} {items : List τ}

/-- A value for which no item was taken. -/
def here (value : α) (items : List τ) : Read τ α (items.length + 1) :=
  ⟨value, items, Nat.lt_succ_self _⟩

/-- The same under a looser bound. -/
def loose (r : Read τ α n) : Read τ α (n + 1) :=
  ⟨r.value, r.rest, Nat.lt_succ_of_lt r.shorter⟩

/-- A value for which items were taken, after others had been. -/
def past (h : items.length < n) (r : Read τ α items.length) : Read τ α n :=
  ⟨r.value, r.rest, Nat.lt_trans r.shorter h⟩

/-- A value for which perhaps no item was taken, after some had been. -/
def after (h : items.length < n) (r : Read τ α (items.length + 1)) : Read τ α n :=
  ⟨r.value, r.rest, Nat.lt_of_lt_of_le r.shorter h⟩

/-- A value for which items were taken, after perhaps none had been. -/
def within (h : items.length < n + 1) (r : Read τ α items.length) : Read τ α n :=
  ⟨r.value, r.rest, Nat.lt_of_lt_of_le r.shorter (Nat.le_of_lt_succ h)⟩

end Read

end ArrayScript
