import Mathlib.Data.List.Basic

/-!
# Computations with effects

A computation acts on a state that it cannot look into except by asking, may fail, and keeps what it
has done when it fails. Its log lists what it has asked the state to do, in order. `Emits` says that
all the effects of a computation are of one kind, whatever the state answers; it is derived along the
structure of the computation.
-/

namespace Pon.Effect

structure Outcome (σ E ε α : Type) where
  result : Except ε α
  state : σ
  log : List E

def Op (σ E ε α : Type) := σ → Outcome σ E ε α

variable {σ E ε α β : Type}

protected def Op.pure (a : α) : Op σ E ε α := fun state ↦ { result := .ok a, state, log := [] }

protected def Op.bind (m : Op σ E ε α) (f : α → Op σ E ε β) : Op σ E ε β := fun state ↦
  let first := m state
  match first.result with
  | .ok a =>
      let second := f a first.state
      { second with log := first.log ++ second.log }
  | .error error => { first with result := .error error }

instance : Monad (Op σ E ε) where
  pure := Op.pure
  bind := Op.bind

/-- A result that needs no state. -/
def settled (result : Except ε α) : Op σ E ε α := fun state ↦ { result, state, log := [] }

instance : MonadExceptOf ε (Op σ E ε) where
  throw error := settled (.error error)
  tryCatch m handle := fun state ↦
    match (m state).result with
    | .ok _ => m state
    | .error error =>
        let second := handle error (m state).state
        { second with log := (m state).log ++ second.log }

/-- Logs the effect and does something to the state, which may fail. -/
def perform (effect : E) (action : σ → Except ε α × σ) : Op σ E ε α := fun state ↦
  { result := (action state).1, state := (action state).2, log := [effect] }

/-- Asks the state without changing it. -/
def query (question : σ → Except ε α) : Op σ E ε α := fun state ↦
  { result := question state, state, log := [] }

/-- Goes on after a failure. -/
def attempt (m : Op σ E ε α) : Op σ E ε Unit := fun state ↦ { m state with result := .ok () }

variable {b : β} {f : α → Op σ E ε β} {m : Op σ E ε α} {state : σ} {a : α} {effect : E}

variable {first result : Except ε α}

/-- A computation without a state that goes on has succeeded. -/
theorem ok_of_bind {next : α → Except ε β} (h : (first >>= next) = .ok b) :
    ∃ a, first = .ok a ∧ next a = .ok b := by
  cases first with
  | error => cases h
  | ok a => exact ⟨a, rfl, h⟩

theorem ok_of_map {f : α → β} (h : first.map f = .ok b) : ∃ a, first = .ok a ∧ f a = b := by
  cases first with
  | error => cases h
  | ok a => exact ⟨a, rfl, Except.ok.inj h⟩

/-- What follows a computation that succeeds. -/
theorem bind_ok (h : (m state).result = .ok a) (f : α → Op σ E ε β) : (m >>= f) state =
      { f a (m state).state with log := (m state).log ++ (f a (m state).state).log } := by
  change Op.bind m f state = _
  unfold Op.bind
  simp only [h]

theorem bind_ok_result (h : (m state).result = .ok a) (f : α → Op σ E ε β) :
    ((m >>= f) state).result = (f a (m state).state).result := by
  rw [bind_ok h]

theorem bind_error {error : ε} (h : (m state).result = .error error) (f : α → Op σ E ε β) :
    (m >>= f) state = { result := .error error, state := (m state).state, log := (m state).log } := by
  change Op.bind m f state = _
  unfold Op.bind
  simp only [h]

theorem settled_bind_ok (h : result = .ok a) (f : α → Op σ E ε β) (state : σ) :
    ((settled result : Op σ E ε α) >>= f) state = f a state := by
  rw [bind_ok (show ((settled result : Op σ E ε α) state).result = .ok a from h)]
  rfl

theorem settled_bind_eq (h : result = .ok a) (f : α → Op σ E ε β) :
    ((settled result : Op σ E ε α) >>= f) = f a := funext (settled_bind_ok h f)

/-- A bind that succeeds has gone through its first part. -/
theorem of_bind_ok (h : ((m >>= f) state).result = .ok b) :
    ∃ a, (m state).result = .ok a ∧ (f a (m state).state).result = .ok b := by
  cases hm : (m state).result with
  | error _ =>
    rw [bind_error hm] at h
    cases h
  | ok a =>
    rw [bind_ok hm] at h
    exact ⟨a, rfl, h⟩

theorem of_settled_bind_ok (h : (((settled result : Op σ E ε α) >>= f) state).result = .ok b) :
    ∃ a, result = .ok a ∧ (f a state).result = .ok b :=
  of_bind_ok h

theorem op_bind_assoc {γ : Type} (m : Op σ E ε α) (f : α → Op σ E ε β) (g : β → Op σ E ε γ) :
    (m >>= f) >>= g = m >>= fun a ↦ f a >>= g := by
  funext state
  cases first : (m state).result with
  | error _ => rw [bind_error (m := m >>= f) (by rw [bind_error first]), bind_error first, bind_error first]
  | ok a =>
    cases second : (f a (m state).state).result with
    | error _ =>
      rw [bind_error (m := m >>= f) (by rw [bind_ok first]; exact second), bind_ok first, bind_ok first,
        bind_error second]
    | ok b =>
      rw [bind_ok (m := m >>= f) (by rw [bind_ok first]; exact second), bind_ok first, bind_ok first,
        bind_ok second, List.append_assoc]

theorem op_pure_bind (a : α) (f : α → Op σ E ε β) : ((pure a : Op σ E ε α) >>= f) = f a :=
  funext fun state ↦ bind_ok (show ((pure a : Op σ E ε α) state).result = .ok a from rfl) f

/-- Where the effects of a bind come from. -/
theorem mem_log_bind (h : effect ∈ ((m >>= f) state).log) : effect ∈ (m state).log ∨
      ∃ a, (m state).result = .ok a ∧ effect ∈ (f a (m state).state).log := by
  cases hm : (m state).result with
  | error _ =>
    rw [bind_error hm] at h
    exact Or.inl h
  | ok a =>
    rw [bind_ok hm] at h
    exact (List.mem_append.mp h).imp_right fun hin ↦ ⟨a, rfl, hin⟩

/-- The effects of the first part of a bind are effects of the bind. -/
theorem mem_log_bind_left (h : effect ∈ (m state).log) (f : α → Op σ E ε β) :
    effect ∈ ((m >>= f) state).log := by
  cases hm : (m state).result with
  | error _ =>
    rw [bind_error hm]
    exact h
  | ok a =>
    rw [bind_ok hm]
    exact List.mem_append_left _ h

/-- So are the effects of the second part, if the first one succeeds. -/
theorem mem_log_bind_right (hm : (m state).result = .ok a) (h : effect ∈ (f a (m state).state).log) :
    effect ∈ ((m >>= f) state).log := by
  rw [bind_ok hm]
  exact List.mem_append_right _ h

/-- The computation only asks. -/
def Quiet (m : Op σ E ε α) : Prop := ∀ state, (m state).state = state ∧ (m state).log = []

theorem Quiet.pure (a : α) : Quiet (Pure.pure a : Op σ E ε α) := fun _ ↦ ⟨rfl, rfl⟩

theorem Quiet.throw (error : ε) : Quiet (MonadExcept.throw error : Op σ E ε α) := fun _ ↦ ⟨rfl, rfl⟩

theorem Quiet.settled (result : Except ε α) : Quiet (settled result : Op σ E ε α) := fun _ ↦ ⟨rfl, rfl⟩

theorem Quiet.query (question : σ → Except ε α) : Quiet (query question : Op σ E ε α) :=
  fun _ ↦ ⟨rfl, rfl⟩

theorem Quiet.bind (hm : Quiet m) (hf : ∀ a, Quiet (f a)) : Quiet (m >>= f) := by
  intro state
  obtain ⟨hstate, hlog⟩ := hm state
  cases hresult : (m state).result with
  | error _ =>
    rw [bind_error hresult]
    exact ⟨hstate, hlog⟩
  | ok a =>
    obtain ⟨hstate', hlog'⟩ := hf a (m state).state
    rw [bind_ok hresult]
    exact ⟨hstate'.trans hstate, by rw [hlog, hlog', List.append_nil]⟩

/-- What follows a question that has been answered. -/
theorem Quiet.bind_ok (hm : Quiet m) (h : (m state).result = .ok a) (f : α → Op σ E ε β) :
    (m >>= f) state = f a state := by
  obtain ⟨hstate, hlog⟩ := hm state
  rw [Effect.bind_ok h, hstate, hlog, List.nil_append]

/-- The effects that follow a question come after its answer. -/
theorem Quiet.mem_log_bind (hm : Quiet m) (h : effect ∈ ((m >>= f) state).log) :
    ∃ a, (m state).result = .ok a ∧ effect ∈ (f a state).log := by
  obtain ⟨hstate, hlog⟩ := hm state
  rcases Effect.mem_log_bind h with hin | ⟨a, hresult, hin⟩
  · rw [hlog] at hin
    cases hin
  · exact ⟨a, hresult, hstate ▸ hin⟩

/-- All the effects of the computation satisfy the predicate. -/
def Emits (P : E → Prop) (m : Op σ E ε α) : Prop := ∀ state, ∀ effect ∈ (m state).log, P effect

section Emits

variable {P : E → Prop} {m : Op σ E ε α} {f : α → Op σ E ε β}

theorem Emits.pure (a : α) : Emits P (Pure.pure a : Op σ E ε α) := fun _ _ h ↦ by cases h

/-- The second part runs on the results of the first part only. -/
theorem Emits.bind_of_ok (hm : Emits P m) (hf : ∀ state a, (m state).result = .ok a → Emits P (f a)) :
    Emits P (m >>= f) := by
  intro state effect hmem
  rcases mem_log_bind hmem with hin | ⟨a, hok, hin⟩
  · exact hm state effect hin
  · exact hf state a hok _ effect hin

end Emits

/-- Effects that lead from a state to another, one step each. -/
inductive Trace (step : E → σ → σ → Prop) : List E → σ → σ → Prop where
  | done {state : σ} : Trace step [] state state
  | next {effect : E} {log : List E} {state middle after : σ} (first : step effect state middle)
      (rest : Trace step log middle after) : Trace step (effect :: log) state after

/-- The log of the computation tells how it changes the state. -/
def Traced (step : E → σ → σ → Prop) (m : Op σ E ε α) : Prop :=
  ∀ state, Trace step (m state).log state (m state).state

section Traced

variable {step : E → σ → σ → Prop}

variable {log : List E} {after : σ}

theorem Trace.append {log' : List E} {middle : σ} (h : Trace step log state middle)
    (h' : Trace step log' middle after) : Trace step (log ++ log') state after := by
  induction h with
  | done => exact h'
  | next first _ ih => exact .next first (ih h')

/-- What every step keeps is kept by the computation. -/
theorem Trace.keeps {R : σ → σ → Prop} (refl : ∀ state, R state state)
    (trans : ∀ {a b c}, R a b → R b c → R a c) (h : Trace step log state after)
    (kept : ∀ effect ∈ log, ∀ state after, step effect state after → R state after) :
    R state after := by
  induction h with
  | done => exact refl _
  | next first _ ih =>
    have atFirst := kept _ List.mem_cons_self _ _ first
    exact trans atFirst (ih fun effect mem ↦ kept effect (List.mem_cons_of_mem _ mem))

theorem Traced.pure (a : α) : Traced step (Pure.pure a : Op σ E ε α) := fun _ ↦ .done

theorem Traced.throw (error : ε) : Traced step (MonadExcept.throw error : Op σ E ε α) := fun _ ↦ .done

theorem Traced.settled (result : Except ε α) : Traced step (settled result : Op σ E ε α) := fun _ ↦ .done

theorem Traced.query (question : σ → Except ε α) : Traced step (query question : Op σ E ε α) :=
  fun _ ↦ .done

theorem Traced.perform {action : σ → Except ε α × σ}
    (h : ∀ state, step effect state (action state).2) : Traced step (perform effect action) :=
  fun state ↦ .next (h state) .done

theorem Traced.attempt (h : Traced step m) : Traced step (attempt m) := h

/-- The second part runs on the results of the first part only. -/
theorem Traced.bind_of_ok (hm : Traced step m)
    (hf : ∀ state a, (m state).result = .ok a → Traced step (f a)) : Traced step (m >>= f) := by
  intro state
  cases result : (m state).result with
  | error _ =>
    rw [bind_error result]
    exact hm state
  | ok a =>
    rw [bind_ok result]
    exact (hm state).append (hf state a result _)

theorem Traced.bind (hm : Traced step m)
    (hf : ∀ a, Traced step (f a)) : Traced step (m >>= f) := hm.bind_of_ok fun _ a _ ↦ hf a

/-- What follows a result that is settled. -/
theorem Traced.settled_bind (hf : ∀ a, result = .ok a → Traced step (f a)) :
    Traced step ((Effect.settled result : Op σ E ε α) >>= f) :=
  (Traced.settled result).bind_of_ok fun _ a h ↦ hf a h

variable {step' : E → σ → σ → Prop} {m : Op σ E ε α}

theorem Trace.mono (h : Trace step log state after)
    (imp : ∀ e state after, step e state after → step' e state after) : Trace step' log state after := by
  induction h with
  | done => exact .done
  | next first _ ih => exact .next (imp _ _ _ first) ih

theorem Traced.mono (h : Traced step m) (imp : ∀ e state after, step e state after → step' e state after) :
    Traced step' m :=
  fun state ↦ (h state).mono imp

theorem Trace.all {P : E → Prop} (h : Trace step log state after)
    (imp : ∀ e state after, step e state after → P e) : ∀ e ∈ log, P e := by
  induction h with
  | done => exact fun _ mem ↦ nomatch mem
  | next first _ ih => exact List.forall_mem_cons.mpr ⟨imp _ _ _ first, ih⟩

theorem Traced.emits {P : E → Prop} (h : Traced step m)
    (imp : ∀ e state after, step e state after → P e) : Emits P m := fun state ↦ (h state).all imp

end Traced

/-- The computation keeps an invariant of the state, whether it fails or not. -/
def Preserves (P : σ → Prop) (m : Op σ E ε α) : Prop := ∀ state, P state → P (m state).state

section Preserves

variable {P : σ → Prop}

variable {m : Op σ E ε α}

theorem Quiet.preserves (h : Quiet m) : Preserves P m := fun state kept ↦
  (h state).1.symm ▸ kept

/-- The second part runs on the results that the first part has in the states of the invariant. -/
theorem Preserves.bind_of_ok (hm : Preserves P m)
    (hf : ∀ state a, P state → (m state).result = .ok a → Preserves P (f a)) :
    Preserves P (m >>= f) := by
  intro state kept
  cases result : (m state).result with
  | error _ =>
    rw [bind_error result]
    exact hm state kept
  | ok a =>
    rw [bind_ok result]
    exact hf state a kept result _ (hm state kept)

theorem Preserves.bind (hm : Preserves P m) (hf : ∀ a, Preserves P (f a)) :
    Preserves P (m >>= f) :=
  hm.bind_of_ok fun _ a _ _ ↦ hf a

end Preserves

/-- The effects are of one kind and lead through the states, and failures and results are as the
conditions say. -/
structure Meets (step : E → σ → σ → Prop) (kind : E → Prop) (failure : ε → Prop) (post : α → Prop)
    (m : Op σ E ε α) : Prop where
  traced : Traced step m
  emits : Emits kind m
  ok : ∀ state a, (m state).result = .ok a → post a
  error : ∀ state e, (m state).result = .error e → failure e

section Meets

variable {step : E → σ → σ → Prop} {kind : E → Prop} {failure : ε → Prop} {post : α → Prop}
  {m : Op σ E ε α}

theorem Meets.pure (h : post a) : Meets step kind failure post (Pure.pure a : Op σ E ε α) :=
  ⟨.pure a, .pure a, fun _ _ same ↦ Except.ok.inj same ▸ h, nofun⟩

theorem Meets.mono {post' : α → Prop} (h : Meets step kind failure post m) (imp : ∀ a, post a → post' a) :
    Meets step kind failure post' m :=
  { h with ok := fun state a same ↦ imp a (h.ok state a same) }

theorem Meets.bind {middle : α → Prop} {post : β → Prop}
    (hm : Meets step kind failure middle m) (hf : ∀ a, middle a → Meets step kind failure post (f a)) :
    Meets step kind failure post (m >>= f) where
  traced := hm.traced.bind_of_ok fun state a h ↦ (hf a (hm.ok state a h)).traced
  emits := hm.emits.bind_of_ok fun state a h ↦ (hf a (hm.ok state a h)).emits
  ok state b h := by
    obtain ⟨a, first, second⟩ := of_bind_ok h
    exact (hf a (hm.ok state a first)).ok _ b second
  error state e h := by
    cases first : (m state).result with
    | error e' =>
      rw [bind_error first] at h
      exact Except.error.inj h ▸ hm.error state e' first
    | ok a =>
      rw [bind_ok first] at h
      exact (hf a (hm.ok state a first)).error _ e h

end Meets

end Pon.Effect
