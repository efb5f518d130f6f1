import Pon.Scope.Analysis
import Pon.Scope.Traversal

/-!
# What scanning does to a builder

Scanning never changes the kind of a scope, and every inner scope that it adds is a function, a class,
a comprehension or an annotation scope.
-/

namespace Pon.Scope

open Ast
open Lower (LowerError)
open Python (BlockKind Event)

namespace ScopeBuilder

/-- The builders of the inner scopes, the deferred annotation scope first. -/
def inner (scope : ScopeBuilder) : List ScopeBuilder := scope.annotate.toList ++ scope.children

/-- No scope inside the builder is a module. -/
inductive Nested : ScopeBuilder → Prop
  | mk {scope : ScopeBuilder} (kinds : ∀ child ∈ scope.inner, child.kind ≠ .module)
      (nested : ∀ child ∈ scope.inner, Nested child) : Nested scope

variable {scope child : ScopeBuilder}

theorem Nested.of_inner_eq {scope' : ScopeBuilder} (h : scope.Nested)
    (inner : scope'.inner = scope.inner) : scope'.Nested := by
  obtain ⟨kinds, nested⟩ := h
  exact ⟨inner ▸ kinds, inner ▸ nested⟩

theorem Nested.of_no_inner (empty : scope.inner = []) : scope.Nested :=
  ⟨by simp [empty], by simp [empty]⟩

theorem Nested.addChild (h : scope.Nested) (nested : child.Nested) (kind : child.kind ≠ .module) :
    (scope.addChild child).Nested := by
  obtain ⟨kinds, inner⟩ := h
  have split : ∀ other ∈ (scope.addChild child).inner, other ∈ scope.inner ∨ other = child := by
    simp only [ScopeBuilder.inner, ScopeBuilder.addChild, List.mem_append, List.mem_singleton]
    tauto
  refine ⟨fun other mem ↦ ?_, fun other mem ↦ ?_⟩
  · rcases split other mem with old | rfl
    · exact kinds other old
    · exact kind
  · rcases split other mem with old | rfl
    · exact inner other old
    · exact nested

theorem Nested.setAnnotate (h : scope.Nested) (nested : child.Nested) (kind : child.kind ≠ .module) :
    { scope with annotate := some child }.Nested := by
  obtain ⟨kinds, inner⟩ := h
  refine ⟨fun other mem ↦ ?_, fun other mem ↦ ?_⟩ <;>
    simp only [ScopeBuilder.inner, Option.toList_some, List.mem_append, List.mem_singleton] at mem
  · rcases mem with rfl | old
    · exact kind
    · exact kinds other (List.mem_append_right _ old)
  · rcases mem with rfl | old
    · exact nested
    · exact inner other (List.mem_append_right _ old)

theorem Nested.annotate (h : scope.Nested) (present : scope.annotate = some child) :
    child.Nested ∧ child.kind ≠ .module := by
  obtain ⟨kinds, inner⟩ := h
  have mem : child ∈ scope.inner := by simp [ScopeBuilder.inner, present]
  exact ⟨inner child mem, kinds child mem⟩

variable (scope : ScopeBuilder)

@[simp]
theorem bind_kind (name : String) : (scope.bind name).kind = scope.kind := by
  unfold bind
  split <;> rfl

@[simp]
theorem bind_inner (name : String) :
    (scope.bind name).inner = scope.inner := by
  unfold bind
  split <;> rfl

@[simp]
theorem bindAll_kind (names : List String) :
    (scope.bindAll names).kind = scope.kind := by
  induction names generalizing scope with
  | nil => rfl
  | cons name rest ih => exact (ih (scope.bind name)).trans (scope.bind_kind name)

@[simp]
theorem bindAll_inner (names : List String) :
    (scope.bindAll names).inner = scope.inner := by
  induction names generalizing scope with
  | nil => rfl
  | cons name rest ih => exact (ih (scope.bind name)).trans (scope.bind_inner name)

end ScopeBuilder

/-- A step of scanning keeps the kind of the scope and adds only proper inner scopes. -/
def Scans (step : Scan) : Prop :=
  ∀ ⦃scope scope'⦄, step scope = .ok scope' → scope.Nested → scope'.Nested ∧ scope'.kind = scope.kind

theorem Scans.skip : Scans .ok := by
  intro scope scope' h nested
  cases h
  exact ⟨nested, rfl⟩

theorem Scans.bind {first second : ScopeBuilder → Except LowerError ScopeBuilder}
    (hf : Scans first) (hs : Scans second) : Scans fun scope ↦ first scope >>= second := by
  intro scope scope' h nested
  obtain ⟨middle, before, after⟩ := Effect.ok_of_bind h
  obtain ⟨nested, kind⟩ := hf before nested
  obtain ⟨nested, kind'⟩ := hs after nested
  exact ⟨nested, kind'.trans kind⟩

/-- An update of the scope's own names and flags. -/
theorem Scans.update {u : ScopeBuilder → ScopeBuilder}
    (inner : ∀ scope, (u scope).inner = scope.inner)
    (kind : ∀ scope, (u scope).kind = scope.kind) : Scans fun scope ↦ .ok (u scope) := by
  intro scope scope' h nested
  cases h
  exact ⟨nested.of_inner_eq (inner scope), kind scope⟩

variable {step : Scan} {start : ScopeBuilder}

/-- An inner scope is scanned from a fresh builder and added to the scope. -/
theorem Scans.child (h : Scans step) (empty : start.inner = [])
    (kind : start.kind ≠ .module) :
    Scans fun scope ↦ step start >>= fun child ↦ .ok (scope.addChild child) := by
  intro scope scope' run nested
  obtain ⟨child, scanned, added⟩ := Effect.ok_of_bind run
  cases added
  obtain ⟨inner, same⟩ := h scanned (.of_no_inner empty)
  exact ⟨nested.addChild inner (same ▸ kind), rfl⟩

theorem propagateComprehensionAsyncness_inner (child scope : ScopeBuilder) :
    (propagateComprehensionAsyncness child scope).inner = scope.inner := by
  unfold propagateComprehensionAsyncness
  split <;> rfl

theorem propagateComprehensionAsyncness_kind (child scope : ScopeBuilder) :
    (propagateComprehensionAsyncness child scope).kind = scope.kind := by
  unfold propagateComprehensionAsyncness
  split <;> rfl

/-- A comprehension: the first iterable is scanned in the scope, the rest in the inner one. -/
theorem Scans.comprehension {iter : Scan} (outer : Scans iter) (h : Scans step)
    (empty : start.inner = []) (kind : start.kind ≠ .module) :
    Scans fun scope ↦ (do
      let scope ← iter scope
      let child ← step start
      .ok ((propagateComprehensionAsyncness child scope).addChild child)) := by
  intro scope scope' run nested
  obtain ⟨enclosing, first, run⟩ := Effect.ok_of_bind run
  obtain ⟨child, scanned, added⟩ := Effect.ok_of_bind run
  cases added
  obtain ⟨nested', same⟩ := outer first nested
  obtain ⟨inner, sameInner⟩ := h scanned (.of_no_inner empty)
  have around : (propagateComprehensionAsyncness child enclosing).Nested :=
    nested'.of_inner_eq (propagateComprehensionAsyncness_inner child enclosing)
  exact ⟨around.addChild inner (sameInner ▸ kind),
    (propagateComprehensionAsyncness_kind child enclosing).trans same⟩

variable (parameters : Parameters) (builder : ScopeBuilder)

theorem fillParameters_inner :
    (fillParameters parameters builder).inner = builder.inner := by
  cases parameters
  exact ScopeBuilder.bindAll_inner _ _

theorem fillParameters_kind :
    (fillParameters parameters builder).kind = builder.kind := by
  cases parameters
  exact ScopeBuilder.bindAll_kind _ _

theorem annotateBuilder_inner (name : String) (typeParams : List String) :
    (annotateBuilder name typeParams).inner = [] := by
  have plain (scope : ScopeBuilder) (active : List String) :
      { scope with activeTypeParams := active }.inner = scope.inner := rfl
  rw [annotateBuilder, plain, ScopeBuilder.bindAll_inner]
  split
  · exact ScopeBuilder.bind_inner _ _
  · rfl

theorem annotateBuilder_kind (name : String) (typeParams : List String) :
    (annotateBuilder name typeParams).kind = .function := by
  have plain (scope : ScopeBuilder) (active : List String) :
      { scope with activeTypeParams := active }.kind = scope.kind := rfl
  rw [annotateBuilder, plain, ScopeBuilder.bindAll_kind]
  split
  · exact ScopeBuilder.bind_kind _ _
  · rfl

variable { annotation : Expr}

theorem scanAnnotated_deferred_scans (now : Scans (scanExpr annotation)) :
    Scans fun scope ↦ (do
      let child := scope.annotate.getD (annotateBuilder annotateScopeName scope.activeTypeParams)
      let child ← scanExpr annotation child
      .ok { scope with annotate := some child }) := by
  intro scope scope' h nested
  obtain ⟨child, scanned, h⟩ := Effect.ok_of_bind h
  cases h
  suffices fits : child.Nested ∧ child.kind ≠ .module from ⟨nested.setAnnotate fits.1 fits.2, rfl⟩
  cases present : scope.annotate with
  | none =>
    rw [present, Option.getD_none] at scanned
    obtain ⟨inner, kind⟩ := now scanned (.of_no_inner (annotateBuilder_inner _ _))
    exact ⟨inner, by simp [kind, annotateBuilder_kind]⟩
  | some before =>
    rw [present, Option.getD_some] at scanned
    obtain ⟨inner, kind⟩ := nested.annotate present
    obtain ⟨inner', same⟩ := now scanned inner
    exact ⟨inner', same ▸ kind⟩

theorem scanAnnotated_scans (target : Expr) (now : Scans (scanExpr annotation)) :
    Scans (scanAnnotated target annotation) := by
  intro scope scope' h nested
  unfold scanAnnotated at h
  split at h
  · exact scanAnnotated_deferred_scans now h nested
  · exact scanAnnotated_deferred_scans now h nested
  · exact now h nested

theorem Scans.closed : Closed (fun _ step _ ↦ Scans step)
    (fun _ start _ _ _ ↦ start.inner = [] ∧ start.kind ≠ .module) fun _ ↦ True where
  skip := @fun _ ↦ Scans.skip
  bind := .bind
  flags h isGenerator isAsync := (Scans.update
    (u := fun scope ↦ { scope with isGenerator := isGenerator scope, isAsync := isAsync scope })
    (fun _ ↦ rfl) fun _ ↦ rfl).bind h
  forbid _ h := h
  useName _ := .update (fun _ ↦ rfl) fun _ ↦ rfl
  target _ name := .update (·.bind_inner name) (·.bind_kind name)
  annotatedTarget name _ _ := .update (·.bind_inner name) (·.bind_kind name)
  importStar := @fun _ ↦ Scans.skip
  declareGlobal _ name scope _ run nested := by
    obtain ⟨-, -, run⟩ := Effect.ok_of_bind run
    exact Scans.update (u := (·.declareGlobal name)) (fun _ ↦ rfl) (fun _ ↦ rfl) run nested
  declareNonlocal _ name scope _ run nested := by
    obtain ⟨-, -, run⟩ := Effect.ok_of_bind run
    exact Scans.update (u := (·.declareNonlocal name)) (fun _ ↦ rfl) (fun _ ↦ rfl) run nested
  annotated h := scanAnnotated_scans _ (h .module)
  openLambda _ parameters := ⟨fillParameters_inner _ _, by simp [functionBuilder, fillParameters_kind]⟩
  openFunction _ _ _ _ _ _ :=
    ⟨fillParameters_inner _ _, by simp [functionBuilder, fillParameters_kind]⟩
  openPlain _ _ := ⟨rfl, by simp⟩
  openClass _ _ _ _ := ⟨rfl, by simp⟩
  openAnnotations _ _ _ := ⟨annotateBuilder_inner _ _, by simp [annotateBuilder_kind]⟩
  openAlias _ _ _ := ⟨annotateBuilder_inner _ _, by simp [annotateBuilder_kind]⟩
  child h opens := h.child opens.1 opens.2
  comprehension _ _ _ outer h := outer.comprehension h rfl (by simp)
  malformed _ _ _ run := nomatch run
  generic _ _ _ typeParams h scope _ run nested :=
    h (scope.activeTypeParams ++ typeParams) trivial run nested
  header h := h

theorem scanBody_scans (body : List Stmt) : Scans (scanBody body) :=
  Scans.closed.of_body (.inl rfl) body

end Pon.Scope
