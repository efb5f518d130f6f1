import Mathlib.Data.List.Basic

/-!
# Computations that keep their changes when they fail

A computation acts on a state and may fail. What it has done to the state up to there stays done, so
whether a failure leaves a part of the state as it was has to be proved.
-/

namespace Pon.Stateful

universe u v w

def Comp (σ : Type u) (ε : Type v) (α : Type w) := σ → Except ε α × σ

variable {σ : Type u} {ε : Type v} {α β : Type w}

namespace Comp

protected def pure (a : α) : Comp σ ε α := fun s ↦ (.ok a, s)

protected def bind (m : Comp σ ε α) (f : α → Comp σ ε β) : Comp σ ε β := fun s ↦
  match m s with
  | (.ok a, s) => f a s
  | (.error e, s) => (.error e, s)

instance : Monad (Comp σ ε) where
  pure := Comp.pure
  bind := Comp.bind

instance : LawfulMonad (Comp σ ε) := LawfulMonad.mk' (Comp σ ε)
  (by
    intro α m
    funext s
    change Comp.bind m Comp.pure s = m s
    unfold Comp.bind
    split
    · rename_i h
      exact h.symm
    · rename_i h
      exact h.symm)
  (fun _ _ ↦ rfl)
  (by
    intro α β γ m f g
    funext s
    change Comp.bind (Comp.bind m f) g s = Comp.bind m (fun a ↦ Comp.bind (f a) g) s
    unfold Comp.bind
    rcases m s with ⟨_ | a, s'⟩ <;> rfl)

def fail (e : ε) : Comp σ ε α := fun s ↦ (.error e, s)

/-- A result that needs no state. -/
def lift (result : Except ε α) : Comp σ ε α := fun s ↦ (result, s)

end Comp

section Results

variable {m : Comp σ ε α} {f : α → Comp σ ε β} {s s' : σ}

theorem bind_ok {a : α} (h : m s = (.ok a, s')) : (m >>= f) s = f a s' := by
  change Comp.bind m f s = _
  rw [Comp.bind, h]

theorem bind_error {e : ε} (h : m s = (.error e, s')) : (m >>= f) s = (.error e, s') := by
  change Comp.bind m f s = _
  rw [Comp.bind, h]

/-- A bind that fails has failed in its first part or after it. -/
theorem of_bind_error {e : ε} (h : (m >>= f) s = (.error e, s')) :
    m s = (.error e, s') ∨ ∃ a s'', m s = (.ok a, s'') ∧ f a s'' = (.error e, s') := by
  rcases hm : m s with ⟨_ | a, s''⟩
  · rw [bind_error hm] at h
    cases h
    exact .inl rfl
  · rw [bind_ok hm] at h
    exact .inr ⟨a, s'', rfl, h⟩

theorem of_bind_ok {b : β} (h : (m >>= f) s = (.ok b, s')) :
    ∃ a s'', m s = (.ok a, s'') ∧ f a s'' = (.ok b, s') := by
  rcases hm : m s with ⟨_ | a, s''⟩
  · rw [bind_error hm] at h
    cases h
  · rw [bind_ok hm] at h
    exact ⟨a, s'', rfl, h⟩

theorem of_lift_ok {result : Except ε α} {a : α} (h : Comp.lift result s = (.ok a, s')) :
    result = .ok a ∧ s' = s := by
  obtain ⟨hresult, hstate⟩ := Prod.mk.inj h
  exact ⟨hresult, hstate.symm⟩

end Results

/-- The computation leaves a part of the state alone, also when it fails. -/
def Keeps {τ : Type*} (part : σ → τ) (m : Comp σ ε α) : Prop := ∀ s, part (m s).2 = part s

section Keeps

variable {τ : Type*} {part : σ → τ}

theorem Keeps.pure (a : α) : Keeps part (pure a : Comp σ ε α) := fun _ ↦ rfl

theorem Keeps.fail (e : ε) : Keeps part (Comp.fail e : Comp σ ε α) := fun _ ↦ rfl

theorem Keeps.lift (result : Except ε α) : Keeps part (Comp.lift result : Comp σ ε α) := fun _ ↦ rfl

theorem Keeps.bind {m : Comp σ ε α} {f : α → Comp σ ε β} (hm : Keeps part m)
    (hf : ∀ a, Keeps part (f a)) : Keeps part (m >>= f) := by
  intro s
  have hfirst := hm s
  rcases heq : m s with ⟨e | a, s'⟩
  · rw [heq] at hfirst
    rw [bind_error heq]
    exact hfirst
  · rw [heq] at hfirst
    rw [bind_ok heq]
    exact (hf a s').trans hfirst

theorem Keeps.foldlM {f : β → α → Comp σ ε β} (hf : ∀ b a, Keeps part (f b a)) (b : β) (as : List α) :
    Keeps part (as.foldlM f b) := by
  induction as generalizing b with
  | nil => exact Keeps.pure b
  | cons a as ih =>
    rw [List.foldlM_cons]
    exact (hf b a).bind fun b ↦ ih b

/-- What the state holds after the computation. -/
theorem Keeps.eq {m : Comp σ ε α} (h : Keeps part m) {s s' : σ} {result : Except ε α}
    (heq : m s = (result, s')) : part s' = part s := by
  have hs := h s
  rw [heq] at hs
  exact hs

end Keeps

end Pon.Stateful
