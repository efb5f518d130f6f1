import Mathlib.Logic.Relation

/-!
# Labelled transition systems and guarded runs

A system is given by its initial states and a labelled step relation. A run may be restricted by
a guard on each step, so that a safety property which fails in general can still be stated for the
runs whose steps all meet a condition on the state before the step. The unrestricted runs are those
with the guard that always holds.
-/

namespace Pon.Transition

variable {σ α : Type*}

/-- The states reached from an initial state by steps that all meet `guard`. -/
inductive Reachable (init : σ → Prop) (guard : σ → α → Prop) (step : σ → α → σ → Prop) :
    σ → Prop
  | start {s : σ} : init s → Reachable init guard step s
  | next {s s' : σ} {a : α} :
      Reachable init guard step s → guard s a → step s a s' → Reachable init guard step s'

variable {init : σ → Prop} {guard : σ → α → Prop} {s : σ}

/-- An inductive invariant holds in every state of every guarded run. -/
theorem Reachable.invariant {step : σ → α → σ → Prop} (inv : σ → Prop) (hinit : ∀ s, init s → inv s)
    (hstep : ∀ s a s', inv s → guard s a → step s a s' → inv s') (h : Reachable init guard step s) :
    inv s := by
  induction h with
  | start hs => exact hinit _ hs
  | next _ hguard hs ih => exact hstep _ _ _ ih hguard hs

/-- A weaker guard allows more runs. -/
theorem Reachable.mono {guard' : σ → α → Prop} {step : σ → α → σ → Prop}
    (hguard : ∀ s a, guard s a → guard' s a) (h : Reachable init guard step s) :
    Reachable init guard' step s := by
  induction h with
  | start hs => exact .start hs
  | next _ hg hs ih => exact .next ih (hguard _ _ hg) hs

/-- Run the labels in order as long as `check` accepts them. -/
def runLabels (check : σ → α → Bool) (step : σ → α → Option σ) (s : σ) : List α → Option σ
  | [] => some s
  | label :: rest =>
    if check s label then
      match step s label with
      | none => none
      | some s' => runLabels check step s' rest
    else
      none

variable {check : σ → α → Bool} {step : σ → α → Option σ} {s' : σ} {labels : List α}

/-- What every step that is accepted keeps holds at the end of a computed run. -/
theorem runLabels_invariant (inv : σ → Prop)
    (hstep : ∀ s a s', inv s → check s a = true → step s a = some s' → inv s') (hs : inv s)
    (hrun : runLabels check step s labels = some s') : inv s' := by
  induction labels generalizing s with
  | nil =>
    cases hrun
    exact hs
  | cons label rest ih =>
    rw [runLabels] at hrun
    split at hrun
    · rename_i hchecked
      cases hnext : step s label with
      | none =>
        rw [hnext] at hrun
        cases hrun
      | some next =>
        rw [hnext] at hrun
        exact ih (hstep s label next hs hchecked hnext) hrun
    · cases hrun

theorem Reachable.runLabels (hcheck : ∀ s a, check s a = true → guard s a)
    (h : Reachable init guard (fun s a s' ↦ step s a = some s') s)
    (hrun : runLabels check step s labels = some s') :
    Reachable init guard (fun s a s' ↦ step s a = some s') s' :=
  runLabels_invariant _ (fun s a _ h hchecked ↦ h.next (hcheck s a hchecked)) h hrun

end Pon.Transition
