import Mathlib.Data.List.Forall2

/-!
# How a computation ends

A computation with a state and errors ends with an answer or with an error, and with a state in both
cases.  `Ends` says what is true then, and its laws take a computation apart step by step.  Without
a state it is enough to say which answers the steps had.
-/

namespace ChainMapping

variable {ε σ α β : Type}

/-- From state `s`, the computation ends with an answer and a state that satisfy `post`, or with an
error and a state that satisfy `fail`. -/
def Ends (m : EStateM ε σ α) (s : σ) (post : α → σ → Prop) (fail : ε → σ → Prop) : Prop :=
  match m s with
  | .ok a s' => post a s'
  | .error e s' => fail e s'

namespace Ends

variable {m : EStateM ε σ α} {f : α → EStateM ε σ β} {s : σ}

theorem mono {post post' : α → σ → Prop} {fail fail' : ε → σ → Prop} (h : Ends m s post fail)
    (hpost : ∀ a s', post a s' → post' a s') (hfail : ∀ e s', fail e s' → fail' e s') :
    Ends m s post' fail' := by
  unfold Ends at h ⊢
  cases hm : m s with
  | ok a s' => rw [hm] at h; exact hpost a s' h
  | error e s' => rw [hm] at h; exact hfail e s' h

/-- Two computations in a row: the second starts where the first one ends. -/
theorem bind {mid : α → σ → Prop} {post : β → σ → Prop} {fail : ε → σ → Prop}
    (h : Ends m s mid fail) (hf : ∀ a s', mid a s' → Ends (f a) s' post fail) :
    Ends (m >>= f) s post fail := by
  unfold Ends at h
  show Ends (EStateM.bind m f) s post fail
  unfold Ends EStateM.bind
  cases hm : m s with
  | ok a s' => rw [hm] at h; exact hf a s' h
  | error e s' => rw [hm] at h; exact h

theorem and {post post' : α → σ → Prop} {fail fail' : ε → σ → Prop} (h : Ends m s post fail)
    (h' : Ends m s post' fail') :
    Ends m s (fun a s' => post a s' ∧ post' a s') (fun e s' => fail e s' ∧ fail' e s') := by
  unfold Ends at h h' ⊢
  cases hm : m s with
  | ok a s' => rw [hm] at h h'; exact ⟨h, h'⟩
  | error e s' => rw [hm] at h h'; exact ⟨h, h'⟩

theorem of_ok {post : α → σ → Prop} {fail : ε → σ → Prop} (h : Ends m s post fail) {a : α} {s' : σ}
    (hm : m s = .ok a s') : post a s' := by
  unfold Ends at h
  rw [hm] at h
  exact h

theorem of_error {post : α → σ → Prop} {fail : ε → σ → Prop} (h : Ends m s post fail) {e : ε}
    {s' : σ} (hm : m s = .error e s') : fail e s' := by
  unfold Ends at h
  rw [hm] at h
  exact h

theorem exists_ok {post : α → σ → Prop} (h : Ends m s post fun _ _ => False) :
    ∃ a s', m s = .ok a s' ∧ post a s' := by
  unfold Ends at h
  cases hm : m s with
  | ok a s' => rw [hm] at h; exact ⟨a, s', rfl, h⟩
  | error e s' => rw [hm] at h; exact absurd h id

theorem pure {a : α} {post : α → σ → Prop} {fail : ε → σ → Prop} (h : post a s) :
    Ends (Pure.pure a : EStateM ε σ α) s post fail := h

theorem congr {m' : EStateM ε σ α} (heq : m s = m' s) {post : α → σ → Prop} {fail : ε → σ → Prop}
    (h : Ends m' s post fail) : Ends m s post fail := by
  unfold Ends at h ⊢
  rw [heq]
  exact h

end Ends

theorem run_bind_eq_ok {m : EStateM ε σ α} {f : α → EStateM ε σ β} {s s'' : σ} {b : β}
    (h : (m >>= f) s = .ok b s'') : ∃ a s', m s = .ok a s' ∧ f a s' = .ok b s'' := by
  have hbind : EStateM.bind m f s = .ok b s'' := h
  unfold EStateM.bind at hbind
  cases hm : m s with
  | error e s' => rw [hm] at hbind; cases hbind
  | ok a s' => rw [hm] at hbind; exact ⟨a, s', rfl, hbind⟩

/-! ## Without a state -/

theorem bind_eq_ok {x : Except ε α} {f : α → Except ε β} {b : β} (h : (x >>= f) = .ok b) :
    ∃ a, x = .ok a ∧ f a = .ok b := by
  cases x with
  | error e => cases h
  | ok a => exact ⟨a, rfl, h⟩

theorem map_eq_ok {x : Except ε α} {f : α → β} {b : β} (h : x.map f = .ok b) :
    ∃ a, x = .ok a ∧ f a = b := by
  cases x with
  | error e => cases h
  | ok a => exact ⟨a, rfl, Except.ok.inj h⟩

theorem mapError_eq_ok {ε' : Type} {x : Except ε α} {f : ε → ε'} {a : α}
    (h : x.mapError f = .ok a) : x = .ok a := by
  cases x with
  | error e => cases h
  | ok a' => exact congrArg Except.ok (Except.ok.inj h)

/-- The computation comes to an answer with a property, or to an error with another one. -/
def Yields (x : Except ε α) (post : α → Prop) (fail : ε → Prop) : Prop :=
  match x with
  | .ok a => post a
  | .error e => fail e

namespace Yields

variable {x : Except ε α} {post : α → Prop} {fail : ε → Prop}

theorem bind {f : α → Except ε β} {next : β → Prop} (h : Yields x post fail)
    (hf : ∀ a, post a → Yields (f a) next fail) : Yields (x >>= f) next fail := by
  cases x with
  | ok a => exact hf a h
  | error e => exact h

theorem of_error {e : ε} (h : Yields x post fail) (hx : x = .error e) : fail e := by
  rw [hx] at h
  exact h

end Yields

theorem mapM_eq_ok_iff {f : α → Except ε β} {as : List α} {bs : List β} :
    as.mapM f = .ok bs ↔ List.Forall₂ (fun a b => f a = .ok b) as bs := by
  induction as generalizing bs with
  | nil =>
    rw [List.mapM_nil, List.forall₂_nil_left_iff]
    exact ⟨fun h => (Except.ok.inj h).symm, fun h => h ▸ rfl⟩
  | cons a rest ih =>
    rw [List.mapM_cons, List.forall₂_cons_left_iff]
    constructor
    · intro h
      obtain ⟨b, hb, hrest⟩ := bind_eq_ok h
      obtain ⟨others, hothers, heq⟩ := bind_eq_ok hrest
      exact ⟨b, others, hb, ih.mp hothers, (Except.ok.inj heq).symm⟩
    · rintro ⟨b, others, hb, hothers, rfl⟩
      rw [hb, ih.mpr hothers]
      rfl

end ChainMapping
