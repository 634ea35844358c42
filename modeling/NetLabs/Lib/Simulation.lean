import NetLabs.Lib.Transition
import Mathlib.Data.Option.Defs
import Mathlib.Logic.Relation

/-!
# Simulations

A system `S` is simulated by a system `A` when `A` can follow every step of `S` with some steps of its own, none
included, so that the two states stay related.  What then holds in every state of `A` holds, through the relation, in
every state of `S` (`Simulates.invariant`).  Two partial functions are compared by `rel_runFrom`.
-/

namespace Transition

variable {σ ε τ κ υ μ : Type*}

/-- Some steps of a system, or none. -/
def Steps (A : System τ κ) : τ → τ → Prop := Relation.ReflTransGen fun a b => ∃ k, A.step a k b

structure Simulates (S : System σ ε) (A : System τ κ) (R : σ → τ → Prop) : Prop where
  init : ∀ s, S.init s → ∃ a, A.init a ∧ R s a
  step : ∀ s e t a, Reachable S s → Reachable A a → R s a → S.step s e t → ∃ b, Steps A a b ∧ R t b

variable {S : System σ ε} {A : System τ κ} {B : System υ μ} {R : σ → τ → Prop} {Q : τ → υ → Prop}

theorem Steps.reachable {a b : τ} (h : Steps A a b) (ha : Reachable A a) : Reachable A b := by
  induction h with
  | refl => exact ha
  | tail _ hst ih =>
    obtain ⟨k, hk⟩ := hst
    exact ih.step hk

theorem Steps.single {a b : τ} {k : κ} (h : A.step a k b) : Steps A a b :=
  Relation.ReflTransGen.single ⟨k, h⟩

namespace Simulates

/-- Every state that `S` reaches is related to one that `A` reaches. -/
theorem reachable (h : Simulates S A R) {s : σ} (hr : Reachable S s) : ∃ a, Reachable A a ∧ R s a := by
  induction hr with
  | init hs =>
    obtain ⟨a, ha, hrel⟩ := h.init _ hs
    exact ⟨a, .init ha, hrel⟩
  | step hr hst ih =>
    obtain ⟨a, ha, hrel⟩ := ih
    obtain ⟨b, hsteps, hrel'⟩ := h.step _ _ _ a hr ha hrel hst
    exact ⟨b, hsteps.reachable ha, hrel'⟩

/-- An invariant of `A` is one of `S`. -/
theorem invariant (h : Simulates S A R) {P : τ → Prop} (hP : ∀ a, Reachable A a → P a) {s : σ} (hr : Reachable S s) :
    ∃ a, R s a ∧ P a := by
  obtain ⟨a, ha, hrel⟩ := h.reachable hr
  exact ⟨a, hrel, hP a ha⟩

end Simulates

/-- A simulation up to a function: the state of `A` is what a state of `S` shows. -/
theorem Simulates.of_view {view : σ → τ} (hinit : ∀ s, S.init s → A.init (view s))
    (hstep : ∀ s e t, Reachable S s → S.step s e t → view t = view s ∨ ∃ k, A.step (view s) k (view t)) :
    Simulates S A fun s a => a = view s where
  init s hs := ⟨view s, hinit s hs, rfl⟩
  step s e t a hr _ hrel hst := by
    subst hrel
    rcases hstep s e t hr hst with hsame | ⟨k, hk⟩
    · exact ⟨view s, .refl, hsame.symm⟩
    · exact ⟨view t, .single hk, rfl⟩

/-- Two partial functions that agree step by step agree on whole runs, on where they are undefined, too. -/
theorem rel_runFrom {next : σ → ε → Option σ} {next' : τ → ε → Option τ}
    (hstep : ∀ s a e, R s a → Option.Rel R (next s e) (next' a e)) {s : σ} {a : τ} (h : R s a) (es : List ε) :
    Option.Rel R (runFrom next s es) (runFrom next' a es) := by
  induction es generalizing s a with
  | nil => exact .some h
  | cons e es ih =>
    have hrel := hstep s a e h
    rw [runFrom, runFrom]
    generalize next s e = p at hrel ⊢
    generalize next' a e = q at hrel ⊢
    cases hrel with
    | some hrel => exact ih hrel
    | none => exact .none

end Transition
