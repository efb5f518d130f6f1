import Mathlib.Data.List.Forall2
import Pon.Scope.Scanning

/-!
# Scanning records what Python's rules read

A builder represents a block when it holds the names of the block and builders for the blocks inside
it. For the forms that scanning treats as the language does, scanning a piece of syntax extends a
representation by the events of that piece, and it fails exactly when one of these events is not
legal.
-/

namespace Pon.Scope

open Ast
open Lower (LowerError)
open Python (Block BlockKind Event Throughout Mentions hoisted)

/-! ## Growing blocks -/

namespace Python

/-- The block after further events. -/
def Block.append (block : Block) (events : List Event) : Block :=
  { block with events := block.events ++ events }

variable {P : BlockKind → List Event → Event → Prop} {block : Block} {event : Event}
  {events more : List Event}

@[simp]
theorem Block.append_kind : (block.append events).kind = block.kind := rfl

@[simp]
theorem Block.append_events : (block.append events).events = block.events ++ events := rfl

theorem Block.append_append : (block.append events).append more = block.append (events ++ more) := by
  simp [Block.append]

@[simp]
theorem Block.append_nil : block.append [] = block := by
  simp [Block.append]

theorem Block.annotations_append {annotate : Block} (events : List Event) (h : block.annotations = some annotate) :
    ∃ events', (block.append events).annotations = some (annotate.append events') := by
  refine ⟨(events.flatMap Event.deferrals).flatten, ?_⟩
  unfold Block.annotations at h ⊢
  cases deferrals : block.events.flatMap Event.deferrals with
  | nil => simp [deferrals] at h
  | cons first rest =>
    simp only [deferrals, Option.some.injEq] at h
    subst h
    simp [deferrals, Block.append]

theorem Throughout.front (h : Throughout P (block.append events)) : Throughout P block := by
  generalize same : block.append events = whole at h
  induction h generalizing block events with
  | @intro whole here inner ih =>
    subst same
    refine .intro (fun before event after split ↦ here before event (after ++ events) ?_)
      fun child mem ↦ ?_
    · simp [split]
    · rcases List.mem_append.mp mem with isAnnotate | isBlock
      · have isAnnotate : block.annotations = some child := by simpa using isAnnotate
        obtain ⟨events', grown⟩ := Block.annotations_append events isAnnotate
        exact ih (child.append events') (List.mem_append_left _ (by simp [grown])) rfl
      · exact inner child (List.mem_append_right _ (by
          rw [Block.append_events, List.flatMap_append]
          exact List.mem_append_left _ isBlock))

theorem Throughout.of_append (h : Throughout P (block.append (events ++ more))) :
    Throughout P (block.append events) :=
  Throughout.front (Block.append_append.symm ▸ h)

theorem Throughout.before {before : List Event} (h : Throughout P block) (split : block.events = before ++ more) :
    Throughout P { block with events := before } := by
  refine @Throughout.front P { block with events := before } more ?_
  rwa [Block.append, ← split]

theorem Throughout.here (h : Throughout P (block.append (event :: events))) :
    P block.kind block.events event := by
  obtain ⟨here, -⟩ := h
  exact here block.events event events rfl

/-- The conditions on a block with one more event. -/
theorem Throughout.append_one (h : Throughout P block) (here : P block.kind block.events event)
    (inner : ∀ child ∈ (block.append [event]).children, child ∉ block.children →
      Throughout P child) : Throughout P (block.append [event]) := by
  obtain ⟨earlier, old⟩ := h
  refine .intro (fun before last after split ↦ ?_) fun child mem ↦ ?_
  · rw [Block.append_events] at split
    rcases List.eq_nil_or_concat after with rfl | ⟨init, final, rfl⟩
    · obtain ⟨same, isLast⟩ := List.append_inj' split rfl
      cases isLast
      exact same ▸ here
    · rw [List.concat_eq_append, ← List.cons_append, ← List.append_assoc] at split
      exact earlier before last init (List.append_inj' split rfl).1
  · by_cases isOld : child ∈ block.children
    · exact old child isOld
    · exact inner child mem isOld

theorem Block.children_append_one (deferrals : event.deferrals = []) :
    (block.append [event]).children = block.children ++ event.blocks := by
  simp [Block.children, Block.annotations, deferrals]

/-- The forms that scanning treats as the language does: no binding of `__debug__`, no parameter twice, no
assignment expression in a comprehension, an iterable or an annotation, no star import outside the module
body, no annotated name in parentheses without a value, no annotated name that the block declares global or
nonlocal, no type parameters. -/
def Event.Plain (kind : BlockKind) (before : List Event) : Event → Prop
  | .param name => name ≠ "__debug__" ∧ name ∉ before.flatMap Event.params
  | .bind name => name ≠ "__debug__" ∧ kind ≠ .typeParams
  | .iterate name => name ≠ "__debug__"
  | .walrus name => name ≠ "__debug__" ∧ (kind = .module ∨ kind = .function ∨ kind = .class_)
  | .misplacedWalrus _ | .bareAnnotated _ => False
  | .importStar => kind = .module
  | .annotated name =>
      name ≠ "__debug__" ∧
        (kind = .module ∨ name ∉ before.flatMap Event.globals ∧ name ∉ before.flatMap Event.nonlocals)
  | .block .typeParams _ _ _ => False
  | _ => True

/-- The forms are plain up to the first illegal declaration, in the order of the source. -/
inductive PlainUntil : Block → Prop
  | intro {block : Block}
      (here : ∀ before event after, block.events = before ++ event :: after →
        Throughout Event.Legal { block with events := before } → event.Plain block.kind before)
      (inner : ∀ before event after, block.events = before ++ event :: after →
        Throughout Event.Legal { block with events := before } →
        ∀ child ∈ ({ block with events := before ++ [event] } : Block).children, PlainUntil child) :
      PlainUntil block

namespace PlainUntil

theorem front (h : PlainUntil (block.append events)) : PlainUntil block := by
  obtain ⟨here, inner⟩ := h
  have split {before after : List Event} {event : Event} (split : block.events = before ++ event :: after) :
      (block.append events).events = before ++ event :: (after ++ events) := by
    simp [split]
  exact .intro (fun before event after same ↦ here before event _ (split same))
    fun before event after same ↦ inner before event _ (split same)

theorem of_append (h : PlainUntil (block.append (events ++ more))) : PlainUntil (block.append events) :=
  front (Block.append_append.symm ▸ h)

section

variable (h : PlainUntil (block.append (event :: events))) (legal : Throughout Event.Legal block)
include h legal

theorem here : event.Plain block.kind block.events := by
  obtain ⟨here, -⟩ := h
  exact here block.events event events rfl legal

theorem child {child : Block} (mem : child ∈ (block.append [event]).children) : PlainUntil child := by
  obtain ⟨-, inner⟩ := h
  exact inner block.events event events rfl legal child mem

end

/-- Without illegal declarations, all forms are plain. -/
theorem plain (h : PlainUntil block) (legal : Throughout Event.Legal block) : Throughout Event.Plain block := by
  induction h with
  | @intro block here inner ih =>
    refine .intro (fun before event after split ↦ here before event after split (legal.before split))
      fun child mem ↦ ?_
    rcases List.eq_nil_or_concat block.events with none | ⟨init, last, split⟩
    · simp [Block.children, Block.annotations, none] at mem
    · rw [List.concat_eq_append] at split
      have whole : ({ block with events := init ++ [last] } : Block) = block := by rw [← split]
      refine ih init last [] split (legal.before split) child (whole.symm ▸ mem) ?_
      obtain ⟨-, children⟩ := legal
      exact children child mem

/-- Further events are plain until an illegal one. -/
theorem append (h : PlainUntil block)
    (here : ∀ before event after, events = before ++ event :: after →
      Throughout Event.Legal (block.append before) → event.Plain block.kind (block.events ++ before))
    (inner : ∀ before event after, events = before ++ event :: after →
      Throughout Event.Legal (block.append before) →
      ∀ child ∈ ((block.append before).append [event]).children, PlainUntil child) :
    PlainUntil (block.append events) := by
  obtain ⟨earlier, old⟩ := h
  have cases {before after : List Event} {event : Event}
      (split : block.events ++ events = before ++ event :: after) :
      (∃ rest, block.events = before ++ event :: rest) ∨
        ∃ middle, before = block.events ++ middle ∧ events = middle ++ event :: after := by
    obtain ⟨middle, isBefore, isEvents⟩ | ⟨rest, isEvents, later⟩ := List.append_eq_append_iff.mp split
    · exact .inr ⟨middle, isBefore, isEvents⟩
    · cases rest with
      | nil => exact .inr ⟨[], by simpa using isEvents.symm, by simpa using later.symm⟩
      | cons first rest =>
        obtain ⟨rfl, -⟩ := List.cons.inj later
        exact .inl ⟨rest, isEvents⟩
  refine .intro (fun before event after split legal ↦ ?_) fun before event after split legal ↦ ?_
  · obtain ⟨rest, same⟩ | ⟨middle, rfl, same⟩ := cases split
    · exact earlier before event rest same legal
    · exact here middle event after same legal
  · obtain ⟨rest, same⟩ | ⟨middle, rfl, same⟩ := cases split
    · exact old before event rest same legal
    · exact inner middle event after same legal

/-- Forms that are plain throughout are so until an illegal declaration. -/
theorem of_plain (h : Throughout Event.Plain (block.append events)) : PlainUntil block := by
  generalize same : block.append events = whole at h
  induction h generalizing block events with
  | @intro whole here inner ih =>
    subst same
    refine .intro (fun before event after split _ ↦ here before event (after ++ events) (by simp [split]))
      fun before event after split _ child mem ↦ ?_
    have whole : block.append events =
        Block.append { block with events := before ++ [event] } (after ++ events) := by
      simp [Block.append, split]
    rw [whole] at ih
    rcases List.mem_append.mp mem with isAnnotate | isBlock
    · obtain ⟨events', grown⟩ := Block.annotations_append (after ++ events) (Option.mem_toList.mp isAnnotate)
      exact ih (child.append events') (List.mem_append_left _ (by simp [grown])) rfl
    · refine ih child (List.mem_append_right _ ?_) Block.append_nil
      rw [Block.append_events, List.flatMap_append]
      exact List.mem_append_left _ isBlock

theorem append_one (h : PlainUntil block)
    (here : Throughout Event.Legal block → event.Plain block.kind block.events)
    (inner : Throughout Event.Legal block → ∀ child ∈ (block.append [event]).children, PlainUntil child) :
    PlainUntil (block.append [event]) := by
  have only {before after : List Event} {other : Event} (split : [event] = before ++ other :: after) :
      before = [] ∧ other = event := by
    cases before with
    | nil => exact ⟨rfl, (List.cons.inj split).1.symm⟩
    | cons first rest => simp at split
  refine h.append (fun before other after split legal ↦ ?_) fun before other after split legal ↦ ?_
  all_goals
    obtain ⟨rfl, rfl⟩ := only split
    rw [Block.append_nil] at *
  · rw [List.append_nil]
    exact here legal
  · exact inner legal

theorem append_cons (first : PlainUntil (block.append [event]))
    (later : Throughout Event.Legal (block.append [event]) →
      PlainUntil ((block.append [event]).append events)) : PlainUntil (block.append (event :: events)) := by
  rw [← List.singleton_append, ← Block.append_append]
  refine first.append (fun before other after split legal ↦ ?_) fun before other after split legal ↦ ?_
  · obtain ⟨here, -⟩ := later legal.front
    exact here _ other after (by simp [split]) legal
  · obtain ⟨-, inner⟩ := later legal.front
    exact inner _ other after (by simp [split]) legal

end PlainUntil

end Python

open Python (PlainUntil)

/-! ## Representations -/

/-- The builder holds the names of the block. The annotation functions that the frontend synthesizes
have a parameter `format`. -/
structure Names (scope : ScopeBuilder) (block : Block) : Prop where
  kind : scope.kind = block.kind.scopeKind
  name : scope.name = block.name
  span : scope.span = block.span
  used : ∀ name, name ∈ scope.used ↔ name ∈ block.used
  bound : ∀ name, name ∈ scope.bound ↔ name ∈ block.bound ∨ block.kind = .annotations ∧ name = "format"
  globals : ∀ name, name ∈ scope.globalDecl ↔ name ∈ block.globals
  nonlocals : ∀ name, name ∈ scope.nonlocalDecl ↔ name ∈ block.nonlocals
  params : ∀ name ∈ scope.formalParams, name ∈ scope.bound
  typeParams : scope.activeTypeParams = []

/-- The builder represents the block with the blocks inside it. -/
inductive Records : ScopeBuilder → Block → Prop
  | intro {scope : ScopeBuilder} {block : Block} (names : Names scope block)
      (annotate : Option.Rel Records scope.annotate block.annotations)
      (children : List.Forall₂ Records scope.children (block.events.flatMap Event.blocks)) :
      Records scope block

variable {scope scope' : ScopeBuilder} {block : Block} {u : ScopeBuilder → ScopeBuilder}
  {own : String} {span : Option TextRange}

/-- Updates of the other fields do not matter. -/
theorem Records.congr (h : Records scope block) (names : Names scope block → Names scope' block)
    (annotate : scope'.annotate = scope.annotate) (children : scope'.children = scope.children) :
    Records scope' block := by
  obtain ⟨same, deferred, inner⟩ := h
  exact ⟨names same, annotate ▸ deferred, children ▸ inner⟩

theorem Records.names (h : Records scope block) : Names scope block := by
  obtain ⟨names, -, -⟩ := h
  exact names

/-! ## Scanning steps -/

/-- What has to come of scanning the events of a block from a representation of the block before. -/
def Outcome (block : Block) : Except LowerError ScopeBuilder → Prop
  | .ok scope => Records scope block ∧ Throughout Event.Legal block
  | .error _ => ¬Throughout Event.Legal block

/-- The step scans the events, in a block of the given kind. -/
def Tracks (kind : BlockKind) (step : ScopeBuilder → Except LowerError ScopeBuilder)
    (events : List Event) : Prop := ∀ ⦃scope block⦄, Records scope block → block.kind = kind →
    PlainUntil (block.append events) → Throughout Event.Legal block →
    Outcome (block.append events) (step scope)

variable {kind : BlockKind} {step first second : ScopeBuilder → Except LowerError ScopeBuilder}
  {events more : List Event} {event : Event} {name : String}

theorem Tracks.skip : Tracks kind .ok [] := by
  intro scope block records _ _ legal
  rw [Python.Block.append_nil]
  exact ⟨records, legal⟩

theorem Tracks.bind (hf : Tracks kind first events) (hs : Tracks kind second more) :
    Tracks kind (fun scope ↦ first scope >>= second) (events ++ more) := by
  intro scope block records isKind plain legal
  have before := hf records isKind plain.of_append legal
  change Outcome _ (first scope >>= second)
  cases run : first scope with
  | error e =>
    rw [run] at before
    exact fun whole ↦ before whole.of_append
  | ok middle =>
    rw [run] at before
    rw [← Python.Block.append_append] at plain ⊢
    exact hs before.1 isKind plain before.2

/-- A step on a scope with other flags. -/
theorem Tracks.on (h : Tracks kind step events)
    (names : ∀ scope block, Names scope block → Names (u scope) block)
    (annotate : ∀ scope, (u scope).annotate = scope.annotate)
    (children : ∀ scope, (u scope).children = scope.children) :
    Tracks kind (fun scope ↦ step (u scope)) events := by
  intro scope block records isKind plain legal
  exact h (records.congr (names scope block) (annotate scope) (children scope)) isKind plain legal

theorem mem_children_block {inner : BlockKind} :
    ({ kind := inner, name := own, span, events } : Block) ∈
      (block.append [.block inner own span events]).children := by
  rw [Python.Block.children_append_one rfl]
  simp [Event.blocks]

/-- A block without events. -/
theorem throughout_nil {P : BlockKind → List Event → Event → Prop} (inner : BlockKind) (own : String)
    (span : Option TextRange) : Throughout P { kind := inner, name := own, span, events := [] } :=
  .intro (fun before event after split ↦ by simp at split) fun child mem ↦ nomatch mem

mutual

/-- Up to the first illegal declaration there is no assignment expression to forbid. -/
theorem forbidWalrus_cases (deep : Bool) (block : Block) : ∀ events : List Event,
    PlainUntil (block.append (Python.forbidWalrus deep events)) → Throughout Event.Legal block →
      PlainUntil (block.append events) ∧
        (Python.forbidWalrus deep events = events ∨
          ¬Throughout Event.Legal (block.append (Python.forbidWalrus deep events)) ∧
            ¬Throughout Event.Legal (block.append events))
  | [], plain, _ => ⟨plain, .inl rfl⟩
  | event :: rest, plain, legal => by
    unfold Python.forbidWalrus at plain ⊢
    obtain ⟨first, head | ⟨forbidden, illegal⟩⟩ :=
      event_forbidWalrus_cases deep block event (.of_append plain) legal
    · rw [head] at plain ⊢
      have tail := forbidWalrus_cases deep (block.append [event]) rest
        (by rwa [Python.Block.append_append])
      refine ⟨first.append_cons fun legalHead ↦ (tail legalHead).1, ?_⟩
      by_cases legalHead : Throughout Event.Legal (block.append [event])
      · obtain ⟨-, same | ⟨forbidden, illegal⟩⟩ := tail legalHead
        · exact .inl (congrArg (event :: ·) same)
        · rw [Python.Block.append_append] at forbidden illegal
          exact .inr ⟨forbidden, illegal⟩
      · exact .inr ⟨fun h ↦ legalHead (.of_append h), fun h ↦ legalHead (.of_append h)⟩
    · exact ⟨first.append_cons fun legalHead ↦ absurd legalHead illegal,
        .inr ⟨fun h ↦ forbidden (.of_append h), fun h ↦ illegal (.of_append h)⟩⟩

theorem event_forbidWalrus_cases (deep : Bool) (block : Block) : ∀ event : Event,
    PlainUntil (block.append [event.forbidWalrus deep]) → Throughout Event.Legal block →
      PlainUntil (block.append [event]) ∧
        (event.forbidWalrus deep = event ∨
          ¬Throughout Event.Legal (block.append [event.forbidWalrus deep]) ∧
            ¬Throughout Event.Legal (block.append [event]))
  | .walrus _, plain, legal => (plain.here legal).elim
  | .block kind name span events, plain, legal => by
    unfold Event.forbidWalrus at plain ⊢
    split
    · next marked =>
      rw [if_pos marked] at plain
      obtain ⟨inside, cases⟩ := forbidWalrus_cases deep { kind, name, span, events := [] } events
        (plain.child legal mem_children_block) (throughout_nil _ _ _)
      refine ⟨plain.front.append_one (fun _ ↦ ?_) fun _ child mem ↦ ?_, ?_⟩
      · have here := plain.here legal
        cases kind <;> exact here
      · rw [Python.Block.children_append_one rfl] at mem
        rcases List.mem_append.mp mem with old | new
        · exact plain.child legal (by rw [Python.Block.children_append_one rfl]; exact List.mem_append_left _ old)
        · obtain rfl := List.mem_singleton.mp new
          exact inside
      · obtain same | ⟨forbidden, illegal⟩ := cases
        · exact .inl (congrArg _ same)
        · refine .inr ⟨fun whole ↦ forbidden ?_, fun whole ↦ illegal ?_⟩
          all_goals
            obtain ⟨-, children⟩ := whole
            exact children _ mem_children_block
    · next unmarked =>
      rw [if_neg unmarked] at plain
      exact ⟨plain, .inl rfl⟩
  | .use _, plain, _ | .bind _, plain, _ | .param _, plain, _ | .iterate _, plain, _
  | .misplacedWalrus _, plain, _ | .annotated _, plain, _ | .bareAnnotated _, plain, _ | .importStar, plain, _
  | .global _, plain, _ | .nonlocal _, plain, _ | .malformed, plain, _ | .deferred _, plain, _ =>
    ⟨plain, .inl rfl⟩

end

theorem Tracks.forbid (deep : Bool) (h : Tracks kind step events) :
    Tracks kind step (Python.forbidWalrus deep events) := by
  intro scope block records isKind plain legal
  obtain ⟨plain, same | ⟨forbidden, illegal⟩⟩ := forbidWalrus_cases deep block events plain legal
  · rw [same]
    exact h records isKind plain legal
  · have outcome := h records isKind plain legal
    cases run : step scope with
    | error e => exact forbidden
    | ok scope' =>
      rw [run] at outcome
      exact absurd outcome.2 illegal

/-- An event about names extends a representation by an update of the names of the scope. -/
theorem Records.update (h : Records scope block) (deferrals : event.deferrals = [])
    (blocks : event.blocks = []) (names : Names scope' (block.append [event]))
    (annotate : scope'.annotate = scope.annotate) (children : scope'.children = scope.children) :
    Records scope' (block.append [event]) := by
  obtain ⟨-, deferred, inner⟩ := h
  refine ⟨names, ?_, ?_⟩
  · have unchanged : (block.append [event]).annotations = block.annotations := by
      simp [Python.Block.annotations, deferrals]
    rw [unchanged, annotate]
    exact deferred
  · rw [children]
    simpa [blocks] using inner

variable {P : BlockKind → List Event → Event → Prop}

theorem Throughout.append_name (h : Throughout P block) (deferrals : event.deferrals = [])
    (blocks : event.blocks = []) (here : P block.kind block.events event) :
    Throughout P (block.append [event]) := by
  refine Python.Throughout.append_one h here fun child mem fresh ↦ ?_
  rw [Python.Block.children_append_one deferrals, blocks, List.append_nil] at mem
  exact absurd mem fresh

theorem Tracks.update (deferrals : event.deferrals = []) (blocks : event.blocks = [])
    (legal : ∀ before, event.Plain kind before → event.Legal kind before)
    (names : ∀ scope block, block.kind = kind → event.Plain kind block.events →
      Names scope block → Names (u scope) (block.append [event]))
    (annotate : ∀ scope, (u scope).annotate = scope.annotate)
    (children : ∀ scope, (u scope).children = scope.children) :
    Tracks kind (fun scope ↦ .ok (u scope)) [event] := by
  intro scope block records isKind plain isLegal
  have here : event.Plain kind block.events := isKind ▸ plain.here isLegal
  exact ⟨records.update deferrals blocks (names scope block isKind here records.names)
      (annotate scope) (children scope),
    Throughout.append_name isLegal deferrals blocks (isKind ▸ legal _ here)⟩

/-- The names of a scope after the update for an event. -/
theorem Names.grow (h : Names scope block) (kind : scope'.kind = scope.kind)
    (own : scope'.name = scope.name) (span : scope'.span = scope.span)
    (typeParams : scope'.activeTypeParams = scope.activeTypeParams)
    (used : ∀ n, n ∈ scope'.used ↔ n ∈ scope.used ∨ n ∈ event.uses block.kind)
    (bound : ∀ n, n ∈ scope'.bound ↔ n ∈ scope.bound ∨ n ∈ event.binds block.kind)
    (globals : ∀ n, n ∈ scope'.globalDecl ↔ n ∈ scope.globalDecl ∨ n ∈ event.globals)
    (nonlocals : ∀ n, n ∈ scope'.nonlocalDecl ↔ n ∈ scope.nonlocalDecl ∨ n ∈ event.nonlocals)
    (params : scope'.formalParams = scope.formalParams) : Names scope' (block.append [event]) where
  kind := kind.trans h.kind
  name := own.trans h.name
  span := span.trans h.span
  used n := by
    rw [used, h.used]
    simp [Python.Block.used]
  bound n := by
    rw [bound, h.bound]
    simp only [Python.Block.bound, Python.Block.append_events, List.flatMap_append,
      Python.Block.append_kind, List.mem_append, List.flatMap_cons, List.flatMap_nil,
      List.append_nil]
    tauto
  globals n := by
    rw [globals, h.globals]
    simp [Python.Block.globals]
  nonlocals n := by
    rw [nonlocals, h.nonlocals]
    simp [Python.Block.nonlocals]
  params n mem := (bound n).mpr (.inl (h.params n (params ▸ mem)))
  typeParams := typeParams.trans h.typeParams

theorem Tracks.useName (id : String) : Tracks kind (fun scope ↦ .ok (scope.useName id)) [.use id] :=
  .update rfl rfl (fun _ _ ↦ trivial)
    (fun scope block _ _ names ↦ names.grow rfl rfl rfl rfl
      (fun n ↦ by simp [ScopeBuilder.useName, Event.uses, or_comm])
      (fun n ↦ by simp [ScopeBuilder.useName, Event.binds])
      (fun n ↦ by simp [ScopeBuilder.useName, Event.globals])
      (fun n ↦ by simp [ScopeBuilder.useName, Event.nonlocals]) rfl)
    (fun _ ↦ rfl) fun _ ↦ rfl

/-! ## Bindings -/

@[simp]
theorem ScopeBuilder.mem_bind_bound {other : String} :
    other ∈ (scope.bind name).bound ↔ other ∈ scope.bound ∨ other = name := by
  unfold ScopeBuilder.bind
  split
  · next present =>
    refine ⟨.inl, ?_⟩
    rintro (old | rfl)
    · exact old
    · exact present
  · simp

/-- An event that binds one name. -/
structure IsBinding (kind : BlockKind) (event : Event) (name : String) : Prop where
  binds : event.binds kind = [name]
  uses : event.uses kind = []
  globals : event.globals = []
  nonlocals : event.nonlocals = []
  legal : ∀ before, event.Plain kind before → event.Legal kind before

theorem ScopeBuilder.bind_eq (scope : ScopeBuilder) (name : String) :
    scope.bind name = { scope with bound := (scope.bind name).bound } := by
  cases scope
  unfold ScopeBuilder.bind
  split <;> rfl

theorem Tracks.bindEvent (deferrals : event.deferrals = []) (blocks : event.blocks = [])
    (binding : ∀ before, event.Plain kind before → IsBinding kind event name) :
    Tracks kind (fun scope ↦ .ok (scope.bind name)) [event] := by
  refine .update deferrals blocks (fun before plain ↦ (binding before plain).legal before plain)
    (fun scope block isKind plain names ↦ ?_) (fun scope ↦ ?_) fun scope ↦ ?_
  · obtain ⟨binds, uses, globals, nonlocals, -⟩ := binding _ plain
    subst isKind
    rw [ScopeBuilder.bind_eq]
    exact names.grow rfl rfl rfl rfl (by simp [uses]) (by simp [binds]) (by simp [globals])
      (by simp [nonlocals]) rfl
  · rw [ScopeBuilder.bind_eq]
  · rw [ScopeBuilder.bind_eq]

theorem isBinding_bind (name : String) : IsBinding kind (.bind name) name :=
  ⟨rfl, rfl, rfl, rfl, fun _ plain ↦ ⟨plain.1, fun isTypeParams ↦ absurd isTypeParams plain.2⟩⟩

theorem isBinding_iterate (name : String) : IsBinding kind (.iterate name) name :=
  ⟨rfl, rfl, rfl, rfl, fun _ plain ↦ plain⟩

theorem isBinding_walrus (name : String) (before : List Event)
    (plain : (Event.walrus name).Plain kind before) : IsBinding kind (.walrus name) name := by
  obtain ⟨notDebug, rfl | rfl | rfl⟩ := plain <;>
    exact ⟨rfl, rfl, rfl, rfl, fun _ _ ↦ ⟨notDebug, rfl⟩⟩

theorem isBinding_annotated (name : String) : IsBinding kind (.annotated name) name :=
  ⟨rfl, rfl, rfl, rfl, fun _ plain ↦ plain⟩

theorem Tracks.bindName (name : String) :
    Tracks kind (fun scope ↦ .ok (scope.bind name)) [.bind name] :=
  .bindEvent rfl rfl fun _ _ ↦ isBinding_bind name

/-! ## Declarations -/

section

variable (h : Names scope block) (isKind : block.kind ≠ .annotations)
include h isKind

theorem Names.mentions :
    Mentions block.kind block.events name ↔ name ∈ scope.used ∨ name ∈ scope.bound := by
  rw [h.used, h.bound]
  simp [Mentions, Python.Block.used, Python.Block.bound, isKind]

theorem validateGlobalDeclaration_eq :
    validateGlobalDeclaration scope name = .ok () ↔
      (Event.global name).Legal block.kind block.events := by
  have params := h.params name
  have nonlocals := h.nonlocals name
  have legal : (Event.global name).Legal block.kind block.events ↔
      ¬(name ∈ scope.used ∨ name ∈ scope.bound) ∧ name ∉ scope.nonlocalDecl := by
    rw [← h.mentions isKind, nonlocals]
    rfl
  rw [legal]
  unfold validateGlobalDeclaration
  split_ifs <;> simp_all

theorem validateNonlocalDeclaration_eq :
    validateNonlocalDeclaration scope name = .ok () ↔
      (Event.nonlocal name).Legal block.kind block.events := by
  have params := h.params name
  have globals := h.globals name
  have legal : (Event.nonlocal name).Legal block.kind block.events ↔
      ¬(name ∈ scope.used ∨ name ∈ scope.bound) ∧ name ∉ scope.globalDecl := by
    rw [← h.mentions isKind, globals]
    rfl
  rw [legal]
  unfold validateNonlocalDeclaration
  split_ifs <;> simp_all

end

/-- A checked update of the names of the scope. -/
theorem Tracks.check {validate : ScopeBuilder → Except LowerError Unit}
    (deferrals : event.deferrals = []) (blocks : event.blocks = [])
    (legal : ∀ scope block, block.kind = kind → Names scope block →
      (validate scope = .ok () ↔ event.Legal kind block.events))
    (names : ∀ scope block, block.kind = kind → Names scope block →
      Names (u scope) (block.append [event]))
    (annotate : ∀ scope, (u scope).annotate = scope.annotate)
    (children : ∀ scope, (u scope).children = scope.children) :
    Tracks kind (fun scope ↦ validate scope >>= fun _ ↦ .ok (u scope)) [event] := by
  intro scope block records isKind plain isLegal
  have valid := legal scope block isKind records.names
  change Outcome _ (validate scope >>= fun _ ↦ .ok (u scope))
  cases run : validate scope with
  | error e =>
    rw [run] at valid
    have illegal : ¬event.Legal kind block.events := fun h ↦ nomatch valid.mpr h
    exact fun whole ↦ illegal (isKind ▸ whole.here)
  | ok =>
    exact ⟨records.update deferrals blocks (names scope block isKind records.names)
        (annotate scope) (children scope),
      Throughout.append_name isLegal deferrals blocks (isKind ▸ valid.mp run)⟩

theorem Tracks.declareGlobal (isKind : kind ≠ .annotations) (name : String) :
    Tracks kind (fun scope ↦ validateGlobalDeclaration scope name >>= fun _ ↦
      .ok (scope.declareGlobal name)) [.global name] := by
  refine .check rfl rfl (fun scope block same names ↦ ?_) (fun scope block same names ↦ ?_)
    (fun _ ↦ rfl) fun _ ↦ rfl
  · subst same
    exact validateGlobalDeclaration_eq names isKind
  · exact names.grow rfl rfl rfl rfl (fun n ↦ by simp [ScopeBuilder.declareGlobal, Event.uses])
      (fun n ↦ by simp [ScopeBuilder.declareGlobal, Event.binds])
      (fun n ↦ by simp [ScopeBuilder.declareGlobal, Event.globals, or_comm])
      (fun n ↦ by simp [ScopeBuilder.declareGlobal, Event.nonlocals]) rfl

theorem Tracks.declareNonlocal (isKind : kind ≠ .annotations) (name : String) :
    Tracks kind (fun scope ↦ validateNonlocalDeclaration scope name >>= fun _ ↦
      .ok (scope.declareNonlocal name)) [.nonlocal name] := by
  refine .check rfl rfl (fun scope block same names ↦ ?_) (fun scope block same names ↦ ?_)
    (fun _ ↦ rfl) fun _ ↦ rfl
  · subst same
    exact validateNonlocalDeclaration_eq names isKind
  · exact names.grow rfl rfl rfl rfl (fun n ↦ by simp [ScopeBuilder.declareNonlocal, Event.uses])
      (fun n ↦ by simp [ScopeBuilder.declareNonlocal, Event.binds])
      (fun n ↦ by simp [ScopeBuilder.declareNonlocal, Event.globals])
      (fun n ↦ by simp [ScopeBuilder.declareNonlocal, Event.nonlocals, or_comm]) rfl

/-! ## Inner blocks -/

section Inner

variable {inner : BlockKind} {own : String} {span : Option TextRange} {before : List Event}

mutual

/-- Plain comprehensions have no assignment expression. -/
theorem hoisted_of_plain {block : Block} (isKind : block.kind = .comprehension) : ∀ events : List Event,
    Throughout Event.Plain (block.append events) → hoisted events = []
  | [], _ => rfl
  | event :: rest, plain => by
    have head := event_hoisted_of_plain isKind event (.of_append plain)
    have tail := @hoisted_of_plain (block.append [event]) isKind rest (by rwa [Python.Block.append_append])
    rw [hoisted, head, tail]
    rfl

theorem event_hoisted_of_plain {block : Block} (isKind : block.kind = .comprehension) : ∀ event : Event,
    Throughout Event.Plain (block.append [event]) → event.hoisted = []
  | .walrus _, plain => by
    have here := plain.here
    rw [isKind] at here
    obtain ⟨-, h | h | h⟩ := here <;> cases h
  | .block .comprehension name span events, plain => by
    obtain ⟨-, children⟩ := plain
    exact @hoisted_of_plain { kind := .comprehension, name, span, events := [] } rfl events
      (children _ mem_children_block)
  | .block .module .., _ | .block .function .., _ | .block .class_ .., _ | .block .annotations .., _
  | .block .typeAlias .., _ | .block .typeParams .., _ | .use _, _ | .bind _, _ | .param _, _ | .iterate _, _
  | .misplacedWalrus _, _ | .annotated _, _ | .bareAnnotated _, _ | .importStar, _ | .global _, _
  | .nonlocal _, _ | .malformed, _ | .deferred _, _ => rfl

end

theorem plain_block (kind : BlockKind) (before : List Event)
    (plain : Throughout Event.Plain { kind := inner, name := own, span, events }) :
    (Event.block inner own span events).Legal kind before ∧
      (Event.block inner own span events).binds kind = [] := by
  cases inner with
  | comprehension =>
    have none := @hoisted_of_plain { kind := .comprehension, name := own, span, events := [] } rfl events plain
    refine ⟨.inl none, ?_⟩
    simp [Event.binds, none]
  | _ => exact ⟨trivial, rfl⟩

/-- The builder represents the inner block with its first events. -/
structure Opens (inner : BlockKind) (start : ScopeBuilder) (own : String) (span : Option TextRange)
    (before : List Event) : Prop where
  records : Records start { kind := inner, name := own, span, events := before }
  legal : PlainUntil { kind := inner, name := own, span, events := before } →
    Throughout Event.Legal { kind := inner, name := own, span, events := before }

/-- An inner block is scanned from a builder that holds its first events, and added to the scope. -/
theorem Tracks.child {start : ScopeBuilder} (h : Tracks inner step events)
    (finish : ScopeBuilder → ScopeBuilder → ScopeBuilder)
    (opens : Opens inner start own span before)
    (names : ∀ child scope block, Names scope block → Names (finish child scope) block)
    (annotate : ∀ child scope, (finish child scope).annotate = scope.annotate)
    (children : ∀ child scope, (finish child scope).children = scope.children) :
    Tracks kind (fun scope ↦ step start >>= fun child ↦ .ok ((finish child scope).addChild child))
      [.block inner own span (before ++ events)] := by
  intro scope block records isKind plain isLegal
  have inside : PlainUntil (Python.Block.append { kind := inner, name := own, span, events := before } events) :=
    plain.child isLegal mem_children_block
  have outcome := h opens.records rfl inside (opens.legal (inside.front))
  change Outcome _ (step start >>= fun child ↦ .ok ((finish child scope).addChild child))
  cases run : step start with
  | error e =>
    rw [run] at outcome
    refine fun whole ↦ outcome ?_
    obtain ⟨-, children⟩ := whole
    exact children _ mem_children_block
  | ok child =>
    rw [run] at outcome
    obtain ⟨represents, legalChild⟩ := outcome
    obtain ⟨isLegalBlock, binds⟩ := plain_block block.kind block.events (inside.plain legalChild)
    obtain ⟨same, deferred, others⟩ := records
    refine ⟨⟨?_, ?_, ?_⟩, ?_⟩
    · exact (names child scope block same).grow rfl rfl rfl rfl
        (by simp [ScopeBuilder.addChild, Event.uses]) (by simp [ScopeBuilder.addChild, binds])
        (by simp [ScopeBuilder.addChild, Event.globals])
        (by simp [ScopeBuilder.addChild, Event.nonlocals]) rfl
    · have unchanged : (block.append [.block inner own span (before ++ events)]).annotations =
          block.annotations := by
        simp [Python.Block.annotations, Event.deferrals]
      rw [unchanged]
      exact (annotate child scope).symm ▸ deferred
    · have added := List.rel_append others (List.Forall₂.cons represents .nil)
      simpa [ScopeBuilder.addChild, children, Event.blocks, Python.Block.append] using added
    · refine Python.Throughout.append_one isLegal isLegalBlock fun other mem isFresh ↦ ?_
      rw [Python.Block.children_append_one rfl] at mem
      rcases List.mem_append.mp mem with old | new
      · exact absurd old isFresh
      · obtain rfl := List.mem_singleton.mp new
        exact legalChild

end Inner

/-- The scope with other flags. -/
theorem Tracks.flags (h : Tracks kind step events) (isGenerator isAsync : ScopeBuilder → Bool) :
    Tracks kind (fun scope ↦ step
      { scope with isGenerator := isGenerator scope, isAsync := isAsync scope }) events :=
  h.on (fun _ _ ⟨kind, name, span, used, bound, globals, nonlocals, params, typeParams⟩ ↦
    ⟨kind, name, span, used, bound, globals, nonlocals, params, typeParams⟩) (fun _ ↦ rfl)
    fun _ ↦ rfl

@[simp]
theorem ScopeBuilder.mem_bindAll_bound {names : List String} {other : String} :
    other ∈ (scope.bindAll names).bound ↔ other ∈ scope.bound ∨ other ∈ names := by
  induction names generalizing scope with
  | nil => simp [ScopeBuilder.bindAll]
  | cons name rest ih =>
    rw [ScopeBuilder.bindAll, List.foldl_cons, ← ScopeBuilder.bindAll, ih,
      ScopeBuilder.mem_bind_bound, List.mem_cons, or_assoc]

theorem ScopeBuilder.bindAll_eq (scope : ScopeBuilder) (names : List String) :
    scope.bindAll names = { scope with bound := (scope.bindAll names).bound } := by
  induction names generalizing scope with
  | nil =>
    cases scope
    rfl
  | cons name rest ih =>
    rw [ScopeBuilder.bindAll, List.foldl_cons, ← ScopeBuilder.bindAll, ih, ScopeBuilder.bind_eq]

section

variable (own : String) (span : Option TextRange) (parameters : Parameters)

/-- A fresh function-like scope with its parameters. -/
theorem records_parameters (isAsync : Bool) :
    Records (fillParameters parameters { kind := .function, name := own, span, isAsync })
      { kind := .function, name := own, span, events := Python.paramEvents parameters } := by
  obtain ⟨posonlyargs, args, vararg, kwonlyargs, kwarg⟩ := parameters
  have names (formal : List String) :
      (formal.map Event.param).flatMap (Event.binds .function) = formal ∧
      (formal.map Event.param).flatMap (Event.uses .function) = [] ∧
      (formal.map Event.param).flatMap Event.globals = [] ∧
      (formal.map Event.param).flatMap Event.nonlocals = [] ∧
      (formal.map Event.param).flatMap Event.deferrals = [] ∧
      (formal.map Event.param).flatMap Event.blocks = [] := by
    induction formal with
    | nil => simp
    | cons head tail ih =>
      simpa [Event.binds, Event.uses, Event.globals, Event.nonlocals, Event.deferrals,
        Event.blocks] using ih
  simp only [fillParameters, Python.paramEvents]
  generalize (posonlyargs ++ args).map (fun parameter ↦ parameter.parameter.name) ++
    (vararg.map Parameter.name).toList ++
    kwonlyargs.map (fun parameter ↦ parameter.parameter.name) ++
    (kwarg.map Parameter.name).toList = formal
  obtain ⟨binds, uses, globals, nonlocals, deferrals, blocks⟩ := names formal
  rw [ScopeBuilder.bindAll_eq]
  refine ⟨⟨rfl, rfl, rfl, ?_, ?_, ?_, ?_, ?_, rfl⟩, ?_, ?_⟩
  · simp [Python.Block.used, uses]
  · simp [Python.Block.bound, binds]
  · simp [Python.Block.globals, globals]
  · simp [Python.Block.nonlocals, nonlocals]
  · simp
  · simp only [Python.Block.annotations, deferrals]
    exact .none
  · rw [blocks]
    exact .nil

theorem throughout_legal_params (names : List String) {block : Block} (legal : Throughout Event.Legal block)
    (plain : PlainUntil (block.append (names.map .param))) :
    Throughout Event.Legal (block.append (names.map .param)) := by
  induction names generalizing block with
  | nil => rwa [List.map_nil, Python.Block.append_nil]
  | cons name names ih =>
    have head := @Throughout.append_name _ (.param name) _ legal rfl rfl (plain.here legal)
    have tail := ih head
    rw [Python.Block.append_append] at tail
    exact tail plain

theorem throughout_legal_parameters
    (plain : PlainUntil { kind := .function, name := own, span, events := Python.paramEvents parameters }) :
    Throughout Event.Legal
      { kind := .function, name := own, span, events := Python.paramEvents parameters } := by
  obtain ⟨posonlyargs, args, vararg, kwonlyargs, kwarg⟩ := parameters
  exact throughout_legal_params _ (throughout_nil .function own span) plain

end

/-- A fresh builder without names. -/
theorem records_nil {inner : BlockKind}
    (names : Names scope { kind := inner, name := own, span, events := [] })
    (annotate : scope.annotate = none) (children : scope.children = []) :
    Records scope { kind := inner, name := own, span, events := [] } :=
  ⟨names, annotate ▸ .none, children ▸ .nil⟩

theorem records_fresh (inner : BlockKind) (notAnnotations : inner ≠ .annotations) (own : String)
    (span : Option TextRange) :
    Records { kind := inner.scopeKind, name := own, span }
      { kind := inner, name := own, span, events := [] } :=
  records_nil ⟨rfl, rfl, rfl, by simp [Python.Block.used],
    by simp [Python.Block.bound, notAnnotations], by simp [Python.Block.globals],
    by simp [Python.Block.nonlocals], by simp, rfl⟩ rfl rfl

theorem records_annotateBuilder (span : Option TextRange) :
    Records { annotateBuilder annotateScopeName [] with span := span }
      { kind := .annotations, name := "__annotate__", span, events := [] } :=
  records_nil ⟨rfl, rfl, rfl, by simp [annotateBuilder, Python.Block.used, annotateScopeName,
    ScopeBuilder.bind, ScopeBuilder.bindAll], by simp [annotateBuilder, Python.Block.bound,
    annotateScopeName, ScopeBuilder.bind, ScopeBuilder.bindAll], by simp [annotateBuilder,
    Python.Block.globals, annotateScopeName, ScopeBuilder.bind, ScopeBuilder.bindAll],
    by simp [annotateBuilder, Python.Block.nonlocals, annotateScopeName, ScopeBuilder.bind,
      ScopeBuilder.bindAll], by simp [annotateBuilder, annotateScopeName, ScopeBuilder.bind,
      ScopeBuilder.bindAll], rfl⟩ rfl rfl

theorem names_propagate (child : ScopeBuilder) (h : Names scope block) :
    Names (propagateComprehensionAsyncness child scope) block := by
  unfold propagateComprehensionAsyncness
  split
  · obtain ⟨kind, name, span, used, bound, globals, nonlocals, params, typeParams⟩ := h
    exact ⟨kind, name, span, used, bound, globals, nonlocals, params, typeParams⟩
  · exact h

/-- A fresh comprehension scope after its implicit parameter. -/
theorem records_comprehension (own : String) (span : Option TextRange) (isGenerator : Bool) :
    Records { kind := .comprehension, name := own, span, params := [".0"], bound := [".0"],
              isGenerator }
      { kind := .comprehension, name := own, span, events := [.param ".0"] } := by
  have start := records_fresh .comprehension (by decide) own span
  exact start.update rfl rfl (start.names.grow rfl rfl rfl rfl (by simp [Event.uses])
    (by simp [Event.binds]) (by simp [Event.globals]) (by simp [Event.nonlocals]) rfl) rfl rfl

/-- A comprehension: its first iterable, then the inner scope. -/
theorem Tracks.comprehension {iter : ScopeBuilder → Except LowerError ScopeBuilder}
    {outer : List Event} (own : String) (range : TextRange) (isGenerator : Bool)
    (hf : Tracks kind iter outer) (hs : Tracks .comprehension step events) :
    Tracks kind (fun scope ↦ (do
      let scope ← iter scope
      let child ← step
        { kind := .comprehension, name := own, span := some range, params := [".0"],
          bound := [".0"], isGenerator }
      .ok ((propagateComprehensionAsyncness child scope).addChild child)))
      (Python.forbidWalrus true outer ++
        [.block .comprehension own (some range) (.param ".0" :: events)]) :=
  (hf.forbid true).bind <| hs.child propagateComprehensionAsyncness
    ⟨records_comprehension own _ isGenerator,
      fun _ ↦ Throughout.append_name (throughout_nil _ _ _) rfl rfl ⟨by decide, List.not_mem_nil⟩⟩
    (fun child _ _ names ↦ names_propagate child names)
    (fun child scope ↦ by
      unfold propagateComprehensionAsyncness
      split <;> rfl)
    fun child scope ↦ by
      unfold propagateComprehensionAsyncness
      split <;> rfl

/-! ## Annotations and definitions -/

theorem importStar_tracks : Tracks kind .ok [.importStar] :=
  .update rfl rfl (fun _ plain ↦ plain) (fun _ _ _ _ names ↦ names.grow rfl rfl rfl rfl
    (by simp [Event.uses]) (by simp [Event.binds]) (by simp [Event.globals])
    (by simp [Event.nonlocals]) rfl) (fun _ ↦ rfl) fun _ ↦ rfl

theorem annotations_eq_none (h : block.annotations = none) :
    block.events.flatMap Event.deferrals = [] := by
  unfold Python.Block.annotations at h
  split at h
  · assumption
  · cases h

theorem annotations_eq_some {annotate : Block} (events : List Event)
    (h : block.annotations = some annotate) :
    annotate.kind = .annotations ∧ (block.append [.deferred events]).annotations =
      some (annotate.append events) := by
  unfold Python.Block.annotations at h ⊢
  cases deferrals : block.events.flatMap Event.deferrals with
  | nil => simp [deferrals] at h
  | cons first rest =>
    simp only [deferrals, Option.some.injEq] at h
    subst h
    simp [deferrals, Python.Block.append, Event.deferrals]

/-- The scope of the deferred annotations so far, or a fresh one. -/
theorem Records.annotate (h : Records scope block) (legal : Throughout Event.Legal block)
    (events : List Event) :
    ∃ annotate, annotate.kind = .annotations ∧ Throughout Event.Legal annotate ∧
      Records (scope.annotate.getD (annotateBuilder annotateScopeName scope.activeTypeParams))
        annotate ∧
      (block.append [.deferred events]).annotations = some (annotate.append events) := by
  obtain ⟨names, deferred, -⟩ := h
  cases present : block.annotations with
  | none =>
    rw [present] at deferred
    have missing : scope.annotate = none := by
      cases same : scope.annotate with
      | none => rfl
      | some child =>
        rw [same] at deferred
        cases deferred
    refine ⟨_, rfl, throughout_nil _ "__annotate__" none, ?_, ?_⟩
    · rw [missing, names.typeParams]
      exact records_annotateBuilder none
    · simp [Python.Block.annotations, annotations_eq_none present, Event.deferrals, Python.Block.append]
  | some annotate =>
    rw [present] at deferred
    obtain ⟨isAnnotations, grown⟩ := annotations_eq_some events present
    obtain ⟨-, inner⟩ := legal
    have mem : annotate ∈ block.children := List.mem_append_left _ (by simp [present])
    refine ⟨annotate, isAnnotations, inner annotate mem, ?_, grown⟩
    cases same : scope.annotate with
    | none =>
      rw [same] at deferred
      cases deferred
    | some child =>
      rw [same] at deferred
      cases deferred
      assumption

variable { annotation : Expr}

theorem scanAnnotated_deferred_tracks (kind : BlockKind)
    (now : ∀ kind, Tracks kind (scanExpr annotation) (Python.exprEvents annotation)) :
    Tracks kind (fun scope ↦ (do
      let child := scope.annotate.getD (annotateBuilder annotateScopeName scope.activeTypeParams)
      let child ← scanExpr annotation child
      .ok { scope with annotate := some child })) [.deferred (Python.exprEvents annotation)] := by
  intro scope block records isKind plain isLegal
  obtain ⟨annotate, isAnnotations, legal, represents, grown⟩ :=
    records.annotate isLegal (Python.exprEvents annotation)
  have mem : annotate.append (Python.exprEvents annotation) ∈
      (block.append [.deferred (Python.exprEvents annotation)]).children :=
    List.mem_append_left _ (by simp [grown])
  have inside := plain.child isLegal mem
  have outcome := now .annotations represents isAnnotations inside legal
  change Outcome _ (scanExpr annotation _ >>= fun child ↦ .ok { scope with annotate := some child })
  cases run : scanExpr annotation
      (scope.annotate.getD (annotateBuilder annotateScopeName scope.activeTypeParams)) with
  | error e =>
    rw [run] at outcome
    refine fun whole ↦ outcome ?_
    obtain ⟨-, inner⟩ := whole
    exact inner _ mem
  | ok child =>
    rw [run] at outcome
    obtain ⟨represents, legal⟩ := outcome
    obtain ⟨names, -, others⟩ := records
    refine ⟨⟨?_, ?_, ?_⟩, ?_⟩
    · exact names.grow rfl rfl rfl rfl (by simp [Event.uses]) (by simp [Event.binds])
        (by simp [Event.globals]) (by simp [Event.nonlocals]) rfl
    · rw [grown]
      exact .some represents
    · simpa [Event.blocks] using others
    · refine Python.Throughout.append_one isLegal trivial fun other present isFresh ↦ ?_
      rcases List.mem_append.mp present with isAnnotate | isBlock
      · have same : other = annotate.append (Python.exprEvents annotation) := by
          simpa [grown] using isAnnotate
        exact same ▸ legal
      · refine absurd (List.mem_append_right _ ?_) isFresh
        simpa [Event.blocks] using isBlock

theorem scanAnnotated_tracks (kind : BlockKind) (target : Expr)
    (each : ∀ kind, Tracks kind (scanExpr annotation) (Python.exprEvents annotation)) :
    Tracks kind (scanAnnotated target annotation) (Python.annotationEvents kind target annotation) := by
  intro scope block records isKind
  have same := records.names.kind
  rw [isKind] at same
  have now := ((each kind).forbid false) records isKind
  have later := scanAnnotated_deferred_tracks kind each records isKind
  unfold scanAnnotated Python.annotationEvents
  beta_reduce at later
  rw [same] at later ⊢
  cases kind with
  | module | class_ =>
    cases target with
    | name => exact later
    | _ => exact now
  | _ => exact now

/-- Plain syntax has no type parameters. -/
theorem Tracks.generic (step : List String → ScopeBuilder → Except LowerError ScopeBuilder)
    (h : Tracks kind (step []) events) (own : String) (range : TextRange)
    (typeParams : List String) :
    Tracks kind (fun scope ↦ step (scope.activeTypeParams ++ typeParams) scope)
      (Python.genericEvents own range typeParams events) := by
  cases typeParams with
  | nil =>
    intro scope block records
    have active : step (scope.activeTypeParams ++ []) scope = step [] scope := by
      rw [records.names.typeParams, List.append_nil]
    change _ → _ → _ → Outcome _ (step (scope.activeTypeParams ++ []) scope)
    rw [active]
    exact h records
  | cons => exact fun _ _ _ _ plain legal ↦ (plain.here legal).elim

theorem records_functionBuilder (range : TextRange) (name : String) (isAsync : Bool)
    (parameters : Parameters) :
    Records { functionBuilder range name isAsync parameters with activeTypeParams := [] }
      { kind := .function, name, span := some range, events := Python.paramEvents parameters } :=
  (records_parameters name (some range) parameters isAsync).congr
    (fun ⟨kind, name, span, used, bound, globals, nonlocals, params, _⟩ ↦
      ⟨kind, name, span, used, bound, globals, nonlocals, params, rfl⟩) rfl rfl

theorem Tracks.closed : Closed Tracks Opens (· = []) where
  skip := @Tracks.skip
  bind := .bind
  flags := .flags
  forbid := .forbid
  useName := .useName
  target isTarget name := by
    cases isTarget with
    | bind => exact .bindName name
    | iterate => exact .bindEvent rfl rfl fun _ _ ↦ isBinding_iterate name
    | walrus => exact .bindEvent rfl rfl (isBinding_walrus name)
  annotatedTarget name event isEvent := by
    obtain rfl | rfl := isEvent
    · exact .bindEvent rfl rfl fun _ _ ↦ isBinding_annotated name
    · exact fun _ _ _ _ plain legal ↦ (plain.here legal).elim
  importStar := @importStar_tracks
  declareGlobal := .declareGlobal
  declareNonlocal := .declareNonlocal
  annotated := scanAnnotated_tracks _ _
  openLambda range parameters :=
    ⟨records_parameters "<lambda>" (some range) parameters false, throughout_legal_parameters _ _ _⟩
  openFunction name range isAsync parameters _ active :=
    ⟨active ▸ records_functionBuilder range name isAsync parameters, throughout_legal_parameters _ _ _⟩
  openPlain own range := ⟨records_fresh .function (by decide) own (some range), fun _ ↦ throughout_nil _ _ _⟩
  openClass own range _ active :=
    ⟨active ▸ records_fresh .class_ (by decide) own (some range), fun _ ↦ throughout_nil _ _ _⟩
  openAnnotations range _ active := ⟨active ▸ records_annotateBuilder (some range), fun _ ↦ throughout_nil _ _ _⟩
  openAlias range _ active :=
    ⟨active ▸ records_fresh .typeAlias (by decide) typeAliasScopeName (some range), fun _ ↦ throughout_nil _ _ _⟩
  child h opens := h.child (fun _ scope ↦ scope) opens (fun _ _ _ names ↦ names) (fun _ _ ↦ rfl)
    fun _ _ ↦ rfl
  comprehension own range isGenerator hf hs := hf.comprehension own range isGenerator hs
  malformed _ _ _ _ _ _ _ whole := whole.here
  generic step own range typeParams h := .generic step (h [] rfl) own range typeParams
  header {_ _ _ own range param params events events'} _ scope block _ _ plain legal := by
    obtain ⟨here, -⟩ := plain
    have isPlain := here block.events (.bind own) _ rfl legal
    have legal : Throughout Event.Legal (block.append [.bind own]) :=
      Throughout.append_name legal rfl rfl ((isBinding_bind own).legal _ isPlain)
    exact absurd (here (block.events ++ [.bind own]) (.block .typeParams own (some range) _) []
      (by simp [Python.genericEvents]; rfl) (by exact legal)) id

theorem scanBody_tracks (hasBody : kind.HasBody) (body : List Stmt) :
    Tracks kind (scanBody body) (Python.bodyEvents kind body) :=
  Tracks.closed.of_body hasBody body

end Pon.Scope
