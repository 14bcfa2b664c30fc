import Mathlib.Order.Basic

/-! # Runs of labelled transition relations

A run is a finite sequence of labelled steps. The rules below carry invariants
and monotone quantities along a run, cut a run at a label, and turn the
successful evaluation of an executable step function into a run.
-/

namespace PgReplica.Foundation

universe u v w

variable {σ : Type u} {α : Type v}

/-- `Run step s labels t`: the steps named by `labels`, taken in order from
`s`, lead to `t`. -/
inductive Run (step : σ → α → σ → Prop) : σ → List α → σ → Prop
  | nil (s : σ) : Run step s [] s
  | cons {s t u : σ} {a : α} {rest : List α} (hstep : step s a t)
      (htail : Run step t rest u) : Run step s (a :: rest) u

namespace Run

variable {step : σ → α → σ → Prop}

@[simp] theorem nil_iff {s t : σ} : Run step s [] t ↔ s = t := by
  constructor
  · rintro ⟨⟩
    rfl
  · rintro rfl
    exact .nil s

@[simp] theorem cons_iff {s u : σ} {a : α} {rest : List α} :
    Run step s (a :: rest) u ↔ ∃ t, step s a t ∧ Run step t rest u := by
  constructor
  · rintro (_ | ⟨hstep, htail⟩)
    exact ⟨_, hstep, htail⟩
  · rintro ⟨t, hstep, htail⟩
    exact .cons hstep htail

theorem append_iff {s u : σ} {first second : List α} :
    Run step s (first ++ second) u ↔ ∃ t, Run step s first t ∧ Run step t second u := by
  induction first generalizing s with
  | nil => simp
  | cons a rest ih =>
      simp only [List.cons_append, cons_iff, ih]
      constructor
      · rintro ⟨t, hstep, t', hrest, hsecond⟩
        exact ⟨t', ⟨t, hstep, hrest⟩, hsecond⟩
      · rintro ⟨t', ⟨t, hstep, hrest⟩, hsecond⟩
        exact ⟨t, hstep, t', hrest, hsecond⟩

theorem append {s t u : σ} {first second : List α} (hfirst : Run step s first t)
    (hsecond : Run step t second u) : Run step s (first ++ second) u :=
  append_iff.mpr ⟨t, hfirst, hsecond⟩

theorem single {s t : σ} {a : α} (hstep : step s a t) : Run step s [a] t :=
  .cons hstep (.nil t)

theorem snoc {s t u : σ} {labels : List α} {a : α} (hrun : Run step s labels t)
    (hstep : step t a u) : Run step s (labels ++ [a]) u :=
  hrun.append (single hstep)

/-- A predicate that every step preserves holds at the end of a run that
starts with it. -/
theorem invariant {I : σ → Prop} (hkeep : ∀ s a t, I s → step s a t → I t)
    {s t : σ} {labels : List α} (hrun : Run step s labels t) (hstart : I s) : I t := by
  induction hrun with
  | nil => exact hstart
  | cons hstep _ ih => exact ih (hkeep _ _ _ hstart hstep)

/-- A quantity that no step lowers is not lowered by a run. -/
theorem le_of_step_le {ι : Type w} [Preorder ι] {f : σ → ι}
    (hmono : ∀ s a t, step s a t → f s ≤ f t) {s t : σ} {labels : List α}
    (hrun : Run step s labels t) : f s ≤ f t := by
  induction hrun with
  | nil => exact le_rfl
  | cons hstep _ ih => exact (hmono _ _ _ hstep).trans ih

/-- A run of one relation is a run of any relation that allows its steps. -/
theorem imp {step' : σ → α → σ → Prop} (himp : ∀ s a t, step s a t → step' s a t)
    {s t : σ} {labels : List α} (hrun : Run step s labels t) : Run step' s labels t := by
  induction hrun with
  | nil s => exact .nil s
  | cons hstep _ ih => exact .cons (himp _ _ _ hstep) ih

/-- Two properties of a step that an invariant makes equivalent hold along the same
runs. The invariant may rely on the second one. -/
theorem and_iff_and {I : σ → Prop} {P Q : σ → α → σ → Prop}
    (hkeep : ∀ s a t, I s → step s a t → Q s a t → I t)
    (hexact : ∀ s a t, I s → step s a t → (P s a t ↔ Q s a t)) {s t : σ} {labels : List α}
    (hstart : I s) :
    Run (fun s a t => step s a t ∧ P s a t) s labels t ↔
      Run (fun s a t => step s a t ∧ Q s a t) s labels t := by
  induction labels generalizing s with
  | nil => rw [nil_iff, nil_iff]
  | cons a rest ih =>
      rw [cons_iff, cons_iff]
      refine exists_congr fun u => ?_
      constructor
      · rintro ⟨⟨hstep, hproperty⟩, hrest⟩
        have hcondition := (hexact s a u hstart hstep).mp hproperty
        exact ⟨⟨hstep, hcondition⟩, (ih (hkeep s a u hstart hstep hcondition)).mp hrest⟩
      · rintro ⟨⟨hstep, hcondition⟩, hrest⟩
        exact ⟨⟨hstep, (hexact s a u hstart hstep).mpr hcondition⟩,
          (ih (hkeep s a u hstart hstep hcondition)).mpr hrest⟩

/-- Evaluating an executable step function along a list of labels gives a run. -/
theorem of_foldlM {next : σ → α → Option σ} {s t : σ} {labels : List α}
    (heval : labels.foldlM next s = some t) :
    Run (fun s a t => next s a = some t) s labels t := by
  induction labels generalizing s with
  | nil =>
      simp only [List.foldlM_nil, Option.pure_def, Option.some.injEq] at heval
      exact nil_iff.mpr heval
  | cons a rest ih =>
      simp only [List.foldlM_cons, Option.bind_eq_bind, Option.bind_eq_some_iff] at heval
      obtain ⟨middle, hstep, hrest⟩ := heval
      exact .cons hstep (ih hrest)

/-- Evaluating an executable step function along labels that meet a condition
gives a run whose steps meet it. -/
theorem exists_of_guarded {next : σ → α → Option σ} {C : σ → α → Prop}
    [∀ s a, Decidable (C s a)] {s : σ} {labels : List α} {p : σ → Bool}
    (heval : (labels.foldlM (fun s a => if C s a then next s a else none) s).any p = true) :
    ∃ t, Run (fun s a t => next s a = some t ∧ C s a) s labels t ∧ p t = true := by
  obtain ⟨t, hfold, hend⟩ := (Option.any_eq_true _ _).mp heval
  refine ⟨t, (of_foldlM hfold).imp fun s a t hstep => ?_, hend⟩
  split at hstep
  next hcondition => exact ⟨hstep, hcondition⟩
  next => cases hstep

/-- Forward simulation. If every step between related states is matched by a run with
the same visible labels, then so is every run. -/
theorem simulation {τ : Type w} {β γ : Type*} {step' : τ → β → τ → Prop} (R : σ → τ → Prop)
    (visible : α → Option γ) (visible' : β → Option γ)
    (hmatch : ∀ s a s' t, R s t → step s a s' → ∃ labels t', Run step' t labels t' ∧ R s' t' ∧
      labels.filterMap visible' = (visible a).toList)
    {s s' : σ} {t : τ} {labels : List α} (hrelated : R s t) (hrun : Run step s labels s') :
    ∃ labels' t', Run step' t labels' t' ∧ R s' t' ∧
      labels'.filterMap visible' = labels.filterMap visible := by
  induction hrun generalizing t with
  | nil => exact ⟨[], t, .nil t, hrelated, rfl⟩
  | @cons s middle s' a rest hstep _ ih =>
      obtain ⟨first, t₁, hfirst, hrelated₁, hvisible⟩ := hmatch s a middle t hrelated hstep
      obtain ⟨second, t₂, hsecond, hrelated₂, hvisible₂⟩ := ih hrelated₁
      refine ⟨first ++ second, t₂, hfirst.append hsecond, hrelated₂, ?_⟩
      rw [List.filterMap_append, hvisible, hvisible₂, List.filterMap_cons]
      cases visible a <;> rfl

end Run

/-- The states that some run from an initial state ends in. -/
def Reachable (init : σ → Prop) (step : σ → α → σ → Prop) (t : σ) : Prop :=
  ∃ s labels, init s ∧ Run step s labels t

namespace Reachable

variable {init : σ → Prop} {step : σ → α → σ → Prop}

theorem tail {s t : σ} {a : α} (hreach : Reachable init step s) (hstep : step s a t) :
    Reachable init step t := by
  obtain ⟨start, labels, hinit, hrun⟩ := hreach
  exact ⟨start, labels ++ [a], hinit, hrun.snoc hstep⟩

/-- An inductive invariant holds in every reachable state. -/
theorem invariant {I : σ → Prop} (hinit : ∀ s, init s → I s)
    (hkeep : ∀ s a t, I s → step s a t → I t) {t : σ} (hreach : Reachable init step t) :
    I t := by
  obtain ⟨s, labels, hstart, hrun⟩ := hreach
  exact hrun.invariant hkeep (hinit s hstart)

end Reachable

/-! ## Iterating a total step function -/

section Iteration

variable {next : σ → α → σ} {P : σ → Prop} {C Q : σ → α → Prop}

/-- `P` holds in every state that the inputs lead through, both ends included. -/
def Throughout (next : σ → α → σ) (P : σ → Prop) : σ → List α → Prop
  | s, [] => P s
  | s, a :: rest => P s ∧ Throughout next P (next s a) rest

/-- Every step that the inputs take satisfies `C`. -/
def EachStep (next : σ → α → σ) (C : σ → α → Prop) : σ → List α → Prop
  | _, [] => True
  | s, a :: rest => C s a ∧ EachStep next C (next s a) rest

instance EachStep.decidable [∀ s a, Decidable (C s a)] :
    (s : σ) → (inputs : List α) → Decidable (EachStep next C s inputs)
  | _, [] => .isTrue trivial
  | s, a :: rest =>
      have := EachStep.decidable (next s a) rest
      inferInstanceAs (Decidable (C s a ∧ EachStep next C (next s a) rest))

/-- An invariant kept by the steps that satisfy a condition yields a property of
each of them. -/
theorem EachStep.of_invariant {I : σ → Prop} (hkeep : ∀ s a, I s → C s a → I (next s a))
    (hyields : ∀ s a, I s → C s a → Q s a) {s : σ} {inputs : List α} (hstart : I s)
    (hsteps : EachStep next C s inputs) : EachStep next Q s inputs := by
  induction inputs generalizing s with
  | nil => trivial
  | cons a rest ih =>
      obtain ⟨hstep, hrest⟩ := hsteps
      exact ⟨hyields s a hstart hstep, ih (hkeep s a hstart hstep) hrest⟩

/-- An invariant that every step keeps yields a property of each of them. -/
theorem EachStep.of_preserved {I : σ → Prop} (hkeep : ∀ s a, I s → I (next s a))
    (hyields : ∀ s a, I s → Q s a) {s : σ} {inputs : List α} (hstart : I s) :
    EachStep next Q s inputs := by
  induction inputs generalizing s with
  | nil => trivial
  | cons a rest ih => exact ⟨hyields s a hstart, ih (hkeep s a hstart)⟩

/-- Two properties of a step that an invariant makes equivalent hold along the same runs.
The invariant may rely on the first one. -/
theorem EachStep.iff_of_invariant {I : σ → Prop} (hkeep : ∀ s a, I s → C s a → I (next s a))
    (hexact : ∀ s a, I s → (Q s a ↔ C s a)) {s : σ} {inputs : List α} (hstart : I s) :
    EachStep next Q s inputs ↔ EachStep next C s inputs := by
  induction inputs generalizing s with
  | nil => exact Iff.rfl
  | cons a rest ih =>
      rw [EachStep, EachStep, hexact s a hstart]
      exact and_congr_right fun hstep => ih (hkeep s a hstart hstep)

/-- In a run of regular steps two properties hold together when an invariant that regular
steps keep makes them equivalent at each of them. -/
theorem EachStep.congr_of_invariant {I : σ → Prop} {R : σ → α → Prop}
    (hkeep : ∀ s a, I s → R s a → I (next s a))
    (hexact : ∀ s a, I s → R s a → (Q s a ↔ C s a)) {s : σ} {inputs : List α} (hstart : I s)
    (hregular : EachStep next R s inputs) :
    EachStep next Q s inputs ↔ EachStep next C s inputs := by
  induction inputs generalizing s with
  | nil => exact Iff.rfl
  | cons a rest ih =>
      obtain ⟨hstep, hrest⟩ := hregular
      exact and_congr (hexact s a hstart hstep) (ih (hkeep s a hstart hstep) hrest)

theorem EachStep.imp (himp : ∀ s a, C s a → Q s a) {s : σ} {inputs : List α}
    (hsteps : EachStep next C s inputs) : EachStep next Q s inputs := by
  induction inputs generalizing s with
  | nil => trivial
  | cons a rest ih => exact ⟨himp s a hsteps.1, ih hsteps.2⟩

theorem EachStep.and {s : σ} {inputs : List α} (hsteps : EachStep next C s inputs)
    (hothers : EachStep next Q s inputs) : EachStep next (fun s a => C s a ∧ Q s a) s inputs := by
  induction inputs generalizing s with
  | nil => trivial
  | cons a rest ih => exact ⟨⟨hsteps.1, hothers.1⟩, ih hsteps.2 hothers.2⟩

/-- An invariant kept by the steps that satisfy a condition holds at the end. -/
theorem EachStep.foldl_invariant {I : σ → Prop} (hkeep : ∀ s a, I s → C s a → I (next s a))
    {s : σ} {inputs : List α} (hstart : I s) (hsteps : EachStep next C s inputs) :
    I (inputs.foldl next s) := by
  induction inputs generalizing s with
  | nil => exact hstart
  | cons a rest ih =>
      obtain ⟨hstep, hrest⟩ := hsteps
      exact ih (hkeep s a hstart hstep) hrest

theorem EachStep.append_iff {s : σ} {first second : List α} :
    EachStep next C s (first ++ second) ↔
      EachStep next C s first ∧ EachStep next C (first.foldl next s) second := by
  induction first generalizing s with
  | nil => simp [EachStep]
  | cons a rest ih =>
      rw [List.cons_append, EachStep, ih, EachStep, and_assoc]
      rfl

/-- A quantity that no regular step lowers is not lowered by regular steps. -/
theorem EachStep.le_foldl {ι : Type w} [Preorder ι] {f : σ → ι} {s : σ} {inputs : List α}
    (hsteps : EachStep next C s inputs) (hmono : ∀ s a, C s a → f s ≤ f (next s a)) :
    f s ≤ f (inputs.foldl next s) :=
  hsteps.foldl_invariant (I := fun t => f s ≤ f t)
    (fun t a hle hstep => hle.trans (hmono t a hstep)) le_rfl

theorem Throughout.start {s : σ} {inputs : List α} (hthroughout : Throughout next P s inputs) :
    P s := by
  cases inputs with
  | nil => exact hthroughout
  | cons => exact hthroughout.1

theorem Throughout.foldl {s : σ} {inputs : List α} (hthroughout : Throughout next P s inputs) :
    P (inputs.foldl next s) := by
  induction inputs generalizing s with
  | nil => exact hthroughout
  | cons a rest ih => exact ih hthroughout.2

/-- A property that each of the inputs keeps holds throughout. -/
theorem throughout_of_preserved {s : σ} {inputs : List α}
    (hkeep : ∀ s, ∀ a ∈ inputs, P s → P (next s a)) (hstart : P s) :
    Throughout next P s inputs := by
  induction inputs generalizing s with
  | nil => exact hstart
  | cons a rest ih =>
      refine ⟨hstart, ih ?_ (hkeep s a List.mem_cons_self hstart)⟩
      exact fun s b hmem => hkeep s b (List.mem_cons_of_mem a hmem)

theorem Throughout.imp {Q : σ → Prop} (himp : ∀ s, P s → Q s) {s : σ} {inputs : List α}
    (hthroughout : Throughout next P s inputs) : Throughout next Q s inputs := by
  induction inputs generalizing s with
  | nil => exact himp s hthroughout
  | cons a rest ih => exact ⟨himp s hthroughout.1, ih hthroughout.2⟩

/-- If a condition on the step is exactly what keeps a state property, the
property holds throughout exactly when every step meets the condition. -/
theorem throughout_iff_eachStep (hexact : ∀ s a, P s → (P (next s a) ↔ C s a)) {s : σ}
    {inputs : List α} (hstart : P s) :
    Throughout next P s inputs ↔ EachStep next C s inputs := by
  induction inputs generalizing s with
  | nil => exact iff_of_true hstart trivial
  | cons a rest ih =>
      constructor
      · rintro ⟨-, hrest⟩
        -- the state after the step heads the rest of the run
        have hnext : P (next s a) := hrest.start
        exact ⟨(hexact s a hstart).mp hnext, (ih hnext).mp hrest⟩
      · rintro ⟨hstep, hrest⟩
        have hnext := (hexact s a hstart).mpr hstep
        exact ⟨hstart, (ih hnext).mpr hrest⟩

end Iteration

end PgReplica.Foundation
