import Mathlib.Tactic.Common

/-!
# Meeting.Lib.Runs — runs of a partial step function under a guard

A component is a step function `step : σ → α → Option σ`: `none` when the action `α` cannot be taken
in the state.  `Reach step ok s₀ s` says that `s` is reached from `s₀` by steps whose pre-state and
action all meet `ok`; the unguarded runs are those with `ok := anyStep`.

* `Reach.invariant`: what holds at the start and is kept by every guarded step holds of every
  reached state.
* `exec` runs a list of actions, `guarded` refuses the steps that do not meet a decidable `ok`;
  `reach_of_exec` turns such an execution into a `Reach`, and `exists_exec` evaluates its last state.
* `exec_simulation`: a component that can follow every step of another one follows all its executions.
-/

namespace Meeting.Lib

variable {σ α : Type*}

/-- States reached from `s₀` by steps that all meet `ok`. -/
inductive Reach (step : σ → α → Option σ) (ok : σ → α → Prop) (s₀ : σ) : σ → Prop
  | refl : Reach step ok s₀ s₀
  | tail {s s' : σ} {a : α} : Reach step ok s₀ s → ok s a → step s a = some s' →
      Reach step ok s₀ s'

/-- The guard that every step meets. -/
def anyStep (_ : σ) (_ : α) : Prop := True

instance : DecidableRel (anyStep : σ → α → Prop) := fun _ _ => instDecidableTrue

variable {step : σ → α → Option σ} {ok ok' : σ → α → Prop} {s₀ s s' : σ}

/-- **Invariant rule** for guarded runs. -/
theorem Reach.invariant {I : σ → Prop} (h0 : I s₀)
    (hstep : ∀ s a s', I s → ok s a → step s a = some s' → I s')
    (h : Reach step ok s₀ s) : I s := by
  induction h with
  | refl => exact h0
  | tail _ hok hs ih => exact hstep _ _ _ ih hok hs

/-- Run a list of actions. -/
def exec (step : σ → α → Option σ) (s : σ) : List α → Option σ
  | [] => some s
  | a :: as => (step s a).bind fun s' => exec step s' as

/-- The step function that refuses what `ok` does not allow. -/
def guarded (step : σ → α → Option σ) (ok : σ → α → Prop) [DecidableRel ok] (s : σ) (a : α) :
    Option σ :=
  if ok s a then step s a else none

theorem guarded_eq_some [DecidableRel ok] {a : α} :
    guarded step ok s a = some s' ↔ ok s a ∧ step s a = some s' := by
  unfold guarded
  split_ifs with h <;> simp [h]

theorem reach_of_exec_from [DecidableRel ok] :
    ∀ (as : List α) {s s' : σ}, Reach step ok s₀ s → exec (guarded step ok) s as = some s' →
      Reach step ok s₀ s'
  | [], s, s', h, he => by
    simp only [exec, Option.some.injEq] at he
    exact he ▸ h
  | a :: as, s, s', h, he => by
    simp only [exec, Option.bind_eq_some_iff] at he
    obtain ⟨s₁, h1, h2⟩ := he
    obtain ⟨hok, hs⟩ := guarded_eq_some.mp h1
    exact reach_of_exec_from as (h.tail hok hs) h2

/-- An execution whose steps all pass the guard reaches its last state. -/
theorem reach_of_exec [DecidableRel ok] {as : List α}
    (h : exec (guarded step ok) s₀ as = some s) : Reach step ok s₀ s :=
  reach_of_exec_from as .refl h

/-- What is computed of the last state of an execution, beside what holds of every reached state. -/
theorem exists_exec [DecidableRel ok] {as : List α} {P Q : σ → Prop} [DecidablePred P]
    (h : (exec (guarded step ok) s₀ as).any (fun s => decide (P s)) = true)
    (hQ : ∀ s, Reach step ok s₀ s → P s → Q s) :
    ∃ s, exec (guarded step ok) s₀ as = some s ∧ P s ∧ Q s := by
  obtain ⟨s, hs, hP⟩ := (Option.any_eq_true _ _).mp h
  exact ⟨s, hs, of_decide_eq_true hP, hQ s (reach_of_exec hs) (of_decide_eq_true hP)⟩

/-- **Forward simulation** along an execution. -/
theorem exec_simulation {τ : Type*} {step' : τ → α → Option τ} {R : σ → τ → Prop}
    (hstep : ∀ s t a t', R s t → step' t a = some t' → ∃ s', step s a = some s' ∧ R s' t') :
    ∀ (as : List α) {s : σ} {t t' : τ}, R s t → exec step' t as = some t' →
      ∃ s', exec step s as = some s' ∧ R s' t'
  | [], s, t, t', hR, h => by
    simp only [exec, Option.some.injEq] at h
    exact ⟨s, rfl, h ▸ hR⟩
  | a :: as, s, t, t', hR, h => by
    simp only [exec, Option.bind_eq_some_iff] at h
    obtain ⟨t₁, ht₁, h⟩ := h
    obtain ⟨s₁, hs₁, hR₁⟩ := hstep s t a t₁ hR ht₁
    obtain ⟨s', hs', hR'⟩ := exec_simulation hstep as hR₁ h
    exact ⟨s', by rw [exec, hs₁, Option.bind_some, hs'], hR'⟩

end Meeting.Lib
