import Mathlib.Tactic

/-!
Computations that carry a state and may fail.

`Meets fault x s post` says how a computation `x` can end when it is started in `s`:
with a result and a state as `post` allows, or with an error as `fault` allows. The
statement is built along a computation by `Meets.bind`, and what it says of a
success or of a failure is read off by `Meets.of_ok` and `Meets.of_error`. A claim
about successes alone takes for `fault` what every error satisfies.

`bind_eq_ok` and its companions take successful computations without a state apart.
-/

namespace ArrayScript

variable {σ ε α β : Type}

/-! ### Successes and failures -/

/-- Two steps succeed exactly if the first does and then the second. -/
lemma bind_eq_ok {x : Except ε α} {f : α → Except ε β} {b : β} :
    (x >>= f) = .ok b ↔ ∃ a, x = .ok a ∧ f a = .ok b := by
  cases x <;> simp [bind, Except.bind]

/-- Two steps fail exactly if the first does, or the second after it. -/
lemma bind_eq_error {x : Except ε α} {f : α → Except ε β} {e : ε} :
    (x >>= f) = .error e ↔ x = .error e ∨ ∃ a, x = .ok a ∧ f a = .error e := by
  cases x <;> simp [bind, Except.bind]

lemma pure_eq_ok {a b : α} : (pure a : Except ε α) = .ok b ↔ a = b := by
  simp [pure, Except.pure]

/-- A list is mapped successfully exactly if each member is. -/
lemma mapM_eq_ok {f : α → Except ε β} {l : List α} {r : List β} :
    l.mapM f = .ok r ↔ List.Forall₂ (fun a b => f a = .ok b) l r := by
  induction l generalizing r with
  | nil =>
      simp only [List.mapM_nil, pure_eq_ok, List.forall₂_nil_left_iff]
      exact eq_comm
  | cons a l ih =>
      simp only [List.mapM_cons, bind_eq_ok, pure_eq_ok, List.forall₂_cons_left_iff, ih]
      constructor
      · rintro ⟨b, hb, bs, hbs, rfl⟩
        exact ⟨b, bs, hb, hbs, rfl⟩
      · rintro ⟨b, bs, hb, hbs, rfl⟩
        exact ⟨b, hb, bs, hbs, rfl⟩

/-- Mapping a list fails as some member does. -/
lemma mapM_eq_error {f : α → Except ε β} {l : List α} {e : ε} (h : l.mapM f = .error e) :
    ∃ a ∈ l, f a = .error e := by
  induction l with
  | nil => cases h
  | cons a l ih =>
      rw [List.mapM_cons] at h
      rcases bind_eq_error.mp h with h | ⟨_, _, h⟩
      · exact ⟨a, List.mem_cons_self, h⟩
      rcases bind_eq_error.mp h with h | ⟨_, _, h⟩
      · obtain ⟨b, hb, h⟩ := ih h
        exact ⟨b, List.mem_cons_of_mem _ hb, h⟩
      · cases h

/-- What is related to a list member by member is related to each member. -/
lemma exists_mem_of_forall₂ {R : α → β → Prop} {l : List α} {r : List β}
    (h : List.Forall₂ R l r) {a : α} (ha : a ∈ l) : ∃ b ∈ r, R a b := by
  induction h with
  | nil => cases ha
  | @cons x y l r hxy _ ih =>
      rcases List.mem_cons.mp ha with rfl | ha
      · exact ⟨y, List.mem_cons_self, hxy⟩
      · obtain ⟨b, hb, hab⟩ := ih ha
        exact ⟨b, List.mem_cons_of_mem _ hb, hab⟩

/-- Related members may be assumed to be in the list. -/
lemma forall₂_imp_mem {R S : α → β → Prop} {l : List α} {r : List β} (h : List.Forall₂ R l r)
    (himp : ∀ a ∈ l, ∀ b, R a b → S a b) : List.Forall₂ S l r := by
  induction h with
  | nil => exact .nil
  | cons hhead _ ih =>
      rw [List.forall_mem_cons] at himp
      exact .cons (himp.1 _ hhead) (ih himp.2)

/-- Members at the same position are related. -/
lemma forall₂_getElem? {R : α → β → Prop} {l : List α} {r : List β} (h : List.Forall₂ R l r)
    {k : Nat} {a : α} (ha : l[k]? = some a) : ∃ b, r[k]? = some b ∧ R a b := by
  induction h generalizing k with
  | nil => cases ha
  | @cons x y l r hxy _ ih =>
      cases k with
      | zero =>
          obtain rfl := Option.some.inj ha
          exact ⟨y, rfl, hxy⟩
      | succ k => exact ih ha

/-- What is made of all members is related to what they are related to. -/
lemma forall₂_filterMap_left {γ : Type} {R : γ → β → Prop} {f : α → Option γ} {l : List α}
    {r : List β} (h : List.Forall₂ (fun a b => ∃ c, f a = some c ∧ R c b) l r) :
    List.Forall₂ R (l.filterMap f) r := by
  induction h with
  | nil => exact .nil
  | cons hhead _ ih =>
      obtain ⟨c, hc, hrelated⟩ := hhead
      rw [List.filterMap_cons, hc]
      exact .cons hrelated ih

/-! ### Computations with a state -/

/-- How a computation can end when it is started in `s`. -/
def Meets (fault : ε → Prop) (x : StateT σ (Except ε) α) (s : σ) (post : α → σ → Prop) : Prop :=
  match x s with
  | .ok (a, s') => post a s'
  | .error e => fault e

namespace Meets

variable {fault : ε → Prop} {x : StateT σ (Except ε) α} {f : α → StateT σ (Except ε) β}
  {s s' : σ} {a : α} {e : ε} {post mid : α → σ → Prop}

lemma of_ok (h : Meets fault x s post) (hx : x s = .ok (a, s')) : post a s' := by
  rw [Meets, hx] at h
  exact h

lemma of_error (h : Meets fault x s post) (hx : x s = .error e) : fault e := by
  rw [Meets, hx] at h
  exact h

/-- It is enough to look at the two ways a computation can end. -/
lemma intro (hok : ∀ a s', x s = .ok (a, s') → post a s')
    (herror : ∀ e, x s = .error e → fault e) : Meets fault x s post := by
  rw [Meets]
  split
  · exact hok _ _ ‹_›
  · exact herror _ ‹_›

/-- Without a demand there is nothing to show. -/
lemma any : Meets (fun _ => True) x s fun _ _ => True :=
  intro (fun _ _ _ => trivial) fun _ _ => trivial

lemma pure (h : post a s) : Meets fault (Pure.pure a) s post := h

lemma throw (h : fault e) : Meets fault (MonadExcept.throw e) s post := h

lemma throw_bind {post : β → σ → Prop} (h : fault e) :
    Meets fault (MonadExcept.throw e >>= f) s post := h

lemma modified {g : σ → σ} {post : PUnit → σ → Prop} (h : post ⟨⟩ (g s)) :
    Meets fault (modify g) s post := h

lemma modify_bind {g : σ → σ} {f : PUnit → StateT σ (Except ε) β} {post : β → σ → Prop}
    (h : Meets fault (f ⟨⟩) (g s) post) : Meets fault (modify g >>= f) s post := h

/-- A computation without a state, inside one that has one. -/
lemma lift {y : Except ε α} (hok : ∀ a, y = .ok a → post a s)
    (herror : ∀ e, y = .error e → fault e) :
    Meets fault (liftM y : StateT σ (Except ε) α) s post := by
  cases y with
  | ok a => exact hok a rfl
  | error e => exact herror e rfl

/-- One step after another. -/
lemma bind {post : β → σ → Prop} (hx : Meets fault x s mid)
    (hf : ∀ a s', mid a s' → Meets fault (f a) s' post) : Meets fault (x >>= f) s post := by
  rw [Meets] at hx
  rw [Meets]
  show match Except.bind (x s) fun (a, s') => f a s' with
    | .ok (a, s') => post a s'
    | .error e => fault e
  cases h : x s with
  | ok p =>
      rw [h] at hx
      exact hf p.1 p.2 hx
  | error e =>
      rw [h] at hx
      exact hx

/-- Less may be said about how it ends. -/
lemma weaken (h : Meets fault x s mid) (hpost : ∀ a s', mid a s' → post a s') :
    Meets fault x s post := by
  rw [Meets] at h ⊢
  split at h
  · exact hpost _ _ h
  · exact h

end Meets

end ArrayScript
