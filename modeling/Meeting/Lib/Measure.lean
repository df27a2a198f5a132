import Mathlib.Algebra.Order.BigOperators.Group.List
import Mathlib.Algebra.Order.Ring.Nat
import Meeting.Lib.Runs

/-!
# Meeting.Lib.Measure — runs that come to an end

* `exec_measure`: where every step keeps an invariant and lowers a measure, a run is no longer than the measure
  of the state it starts from;
* `sum_set`, `sum_eraseIdx`: how a sum over the parties of a system changes when one of them moves or leaves.
-/

namespace Meeting.Lib

variable {σ α : Type*}

/-- **Measure rule** for runs of a step function. -/
theorem exec_measure {step : σ → α → Option σ} {I : σ → Prop} {ok : α → Prop} {m : σ → ℕ}
    (hstep : ∀ s a s', I s → ok a → step s a = some s' → I s' ∧ m s' < m s) :
    ∀ (as : List α) {s s' : σ}, I s → (∀ a ∈ as, ok a) → exec step s as = some s' →
      I s' ∧ as.length + m s' ≤ m s
  | [], s, s', h, _, he => by
    obtain rfl := Option.some.inj he
    exact ⟨h, by simp⟩
  | a :: as, s, s', h, ha, he => by
    simp only [exec, Option.bind_eq_some_iff] at he
    obtain ⟨s₁, h1, h2⟩ := he
    obtain ⟨hI, hlt⟩ := hstep s a s₁ h (ha a List.mem_cons_self) h1
    obtain ⟨hI', hle⟩ := exec_measure hstep as hI (fun b hb => ha b (List.mem_cons_of_mem _ hb)) h2
    refine ⟨hI', ?_⟩
    rw [List.length_cons]
    omega

variable {f : α → ℕ} {l : List α} {i : ℕ} {x y : α}

theorem sum_set (hi : l[i]? = some x) : ((l.set i y).map f).sum + f x = (l.map f).sum + f y := by
  induction l generalizing i with
  | nil => simp at hi
  | cons z l ih =>
    cases i with
    | zero =>
      obtain rfl : z = x := by simpa using hi
      simp only [List.set_cons_zero, List.map_cons, List.sum_cons]
      omega
    | succ i =>
      have := ih (i := i) (by simpa using hi)
      simp only [List.set_cons_succ, List.map_cons, List.sum_cons]
      omega

theorem sum_eraseIdx (hi : l[i]? = some x) : ((l.eraseIdx i).map f).sum + f x = (l.map f).sum := by
  obtain ⟨hlt, rfl⟩ := List.getElem?_eq_some_iff.mp hi
  have := ((List.getElem_cons_eraseIdx_perm hlt).map f).sum_eq
  simp only [List.map_cons, List.sum_cons] at this
  omega

end Meeting.Lib
