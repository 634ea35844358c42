import Mathlib.Data.List.Forall2
import Mathlib.Logic.Relation

/-!
# Labelled transition systems

A system has initial states and labelled steps.  `Reachable` is what its runs reach, `System.when` restricts the runs
to steps that meet a condition, and `Reachable.invariant` is the induction over runs.
-/

namespace Transition

variable {σ ε : Type*}

structure System (σ ε : Type*) where
  init : σ → Prop
  step : σ → ε → σ → Prop

/-- The states that the runs of a system reach. -/
inductive Reachable (S : System σ ε) : σ → Prop
  | init {s : σ} (h : S.init s) : Reachable S s
  | step {s t : σ} {e : ε} (h : Reachable S s) (hst : S.step s e t) : Reachable S t

/-- The runs whose every step meets `cond`. -/
def System.when (S : System σ ε) (cond : σ → ε → Prop) : System σ ε where
  init := S.init
  step s e t := cond s e ∧ S.step s e t

variable {S : System σ ε} {s t : σ}

/-- What holds initially and is kept by every step from a reachable state holds in every reachable state. -/
theorem Reachable.invariant {P : σ → Prop} (hr : Reachable S s) (h0 : ∀ s, S.init s → P s)
    (hstep : ∀ s e t, Reachable S s → P s → S.step s e t → P t) : P s := by
  induction hr with
  | init h => exact h0 _ h
  | step h hst ih => exact hstep _ _ _ h ih hst

theorem Reachable.of_when {cond : σ → ε → Prop} (hr : Reachable (S.when cond) s) : Reachable S s := by
  induction hr with
  | init h => exact .init h
  | step _ hst ih => exact .step ih hst.2

/-- A weaker condition lets more runs through. -/
theorem Reachable.when_mono {c d : σ → ε → Prop} (hr : Reachable (S.when c) s)
    (hcd : ∀ s e, Reachable (S.when c) s → c s e → d s e) : Reachable (S.when d) s := by
  induction hr with
  | init h => exact .init h
  | step h hst ih => exact .step ih ⟨hcd _ _ h hst.1, hst.2⟩

/-! ### Histories -/

section History

variable {η : Type*} {empty : η} {log : σ → ε → σ → η → η}

/-- The system with a history of its run, which every step extends. -/
def System.recording (S : System σ ε) (empty : η) (log : σ → ε → σ → η → η) : System (σ × η) ε where
  init p := S.init p.1 ∧ p.2 = empty
  step p e q := S.step p.1 e q.1 ∧ q.2 = log p.1 e q.1 p.2

theorem Reachable.of_recording {p : σ × η} (hr : Reachable (S.recording empty log) p) : Reachable S p.1 := by
  induction hr with
  | init h => exact .init h.1
  | step _ hst ih => exact .step ih hst.1

/-- A history does not restrict the runs. -/
theorem Reachable.recorded (hr : Reachable S s) (empty : η) (log : σ → ε → σ → η → η) :
    ∃ h, Reachable (S.recording empty log) (s, h) := by
  induction hr with
  | init h => exact ⟨empty, .init ⟨h, rfl⟩⟩
  | @step s t e _ hst ih =>
    obtain ⟨h, hr⟩ := ih
    exact ⟨log s e t h, .step hr ⟨hst, rfl⟩⟩

end History

/-! ### Deterministic systems -/

/-- The state after a list of events, when the step is a partial function. -/
def runFrom (next : σ → ε → Option σ) : σ → List ε → Option σ
  | s, [] => some s
  | s, e :: es => (next s e).bind fun t => runFrom next t es

theorem runFrom_append {next : σ → ε → Option σ} (es es' : List ε) :
    runFrom next s (es ++ es') = (runFrom next s es).bind fun t => runFrom next t es' := by
  induction es generalizing s with
  | nil => rfl
  | cons e es ih =>
    simp only [List.cons_append, runFrom, Option.bind_assoc]
    congr 1
    funext t
    exact ih

/-- What the steps of a run put out, one after another. -/
def outputs {α : Type*} (next : σ → ε → Option σ) (out : σ → ε → σ → List α) : σ → List ε → List α
  | _, [] => []
  | s, e :: es =>
    match next s e with
    | some t => out s e t ++ outputs next out t es
    | none => []

/-- Two outputs that every step relates are related over a run. -/
theorem forall₂_outputs {α β : Type*} {R : α → β → Prop} {next : σ → ε → Option σ} {out : σ → ε → σ → List α}
    {out' : σ → ε → σ → List β} {P : σ → Prop}
    (hstep : ∀ s e t, P s → next s e = some t → P t ∧ List.Forall₂ R (out s e t) (out' s e t)) (hs : P s)
    (es : List ε) : List.Forall₂ R (outputs next out s es) (outputs next out' s es) := by
  induction es generalizing s with
  | nil => exact .nil
  | cons e es ih =>
    simp only [outputs]
    cases hnext : next s e with
    | none => exact .nil
    | some t =>
      obtain ⟨ht, hout⟩ := hstep s e t hs hnext
      exact List.rel_append hout (ih ht)

/-- A run of a system whose steps are those of a partial function. -/
theorem Reachable.runFrom {next : σ → ε → Option σ} (hnext : ∀ s e t, next s e = some t → S.step s e t)
    (hr : Reachable S s) {es : List ε} (h : runFrom next s es = some t) : Reachable S t := by
  induction es generalizing s with
  | nil =>
    cases h
    exact hr
  | cons e es ih =>
    obtain ⟨u, hu, h⟩ := Option.bind_eq_some_iff.1 h
    exact ih (.step hr (hnext _ _ _ hu)) h

/-- The steps that meet a condition. -/
def guarded (cond : σ → ε → Prop) [∀ s, DecidablePred (cond s)] (next : σ → ε → Option σ) (s : σ) (e : ε) : Option σ :=
  if cond s e then next s e else none

theorem reachable_guarded {cond : σ → ε → Prop} [∀ s, DecidablePred (cond s)] {next : σ → ε → Option σ}
    (hnext : ∀ s e t, next s e = some t → S.step s e t) (h0 : S.init s) {es : List ε}
    (h : runFrom (guarded cond next) s es = some t) : Reachable (S.when cond) t := by
  refine Reachable.runFrom (fun s e t h => ?_) (.init h0) h
  simp only [guarded, Option.ite_none_right_eq_some] at h
  exact ⟨h.1, hnext s e t h.2⟩

/-- The steps with a history. -/
def recordNext {η : Type*} (next : σ → ε → Option σ) (log : σ → ε → σ → η → η) (p : σ × η) (e : ε) : Option (σ × η) :=
  (next p.1 e).map fun t => (t, log p.1 e t p.2)

theorem reachable_recordNext {η : Type*} {next : σ → ε → Option σ} {empty : η} {log : σ → ε → σ → η → η}
    (hnext : ∀ s e t, next s e = some t → S.step s e t) (h0 : S.init s) {es : List ε} {p : σ × η}
    (h : runFrom (recordNext next log) (s, empty) es = some p) : Reachable (S.recording empty log) p := by
  refine Reachable.runFrom (fun p e q h => ?_) (.init ⟨h0, rfl⟩) h
  obtain ⟨t, ht, rfl⟩ := Option.map_eq_some_iff.1 h
  exact ⟨hnext _ _ _ ht, rfl⟩

end Transition
