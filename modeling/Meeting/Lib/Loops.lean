import Meeting.Lib.Serial

/-!
# Meeting.Lib.Loops — loops that test, run a body and may break

`loop cond body fuel s` runs `for cond { body }` from the variables `s`, with at most `fuel` tests.  The body may break
(`done`) or go on (`yield`), and may run loops itself.  `none` means that the fuel was not enough, here or in the body.

`loop_total` is the rule of total correctness: an invariant that the body keeps while a measure decreases gives the end
of the loop, with more fuel than the measure, and what holds there.  A loop `for i := start; i != stop; i++` over 16-bit
numbers always ends, after 2^16 tests at most (`loop_serial`).
-/

namespace Meeting.Lib

variable {σ : Type*}

def loop (cond : σ → Bool) (body : σ → Option (ForInStep σ)) : ℕ → σ → Option σ
  | 0, _ => none
  | fuel + 1, s =>
    if cond s then
      match body s with
      | none => none
      | some (.done s') => some s'
      | some (.yield s') => loop cond body fuel s'
    else some s

variable {cond : σ → Bool} {body : σ → Option (ForInStep σ)}

/-- **Total correctness** of a loop, from an invariant `I` and a measure `μ`. -/
theorem loop_total {I Q : σ → Prop} (μ : σ → ℕ)
    (hstep : ∀ s, I s → cond s = true → (∃ s', body s = some (.done s') ∧ Q s') ∨
      ∃ s', body s = some (.yield s') ∧ I s' ∧ μ s' < μ s)
    (hexit : ∀ s, I s → cond s = false → Q s) :
    ∀ (fuel : ℕ) (s : σ), I s → μ s < fuel → ∃ r, loop cond body fuel s = some r ∧ Q r
  | 0, s, _, hμ => absurd hμ (Nat.not_lt_zero _)
  | fuel + 1, s, hs, hμ => by
    cases hc : cond s with
    | false => exact ⟨s, by simp [loop, hc], hexit s hs hc⟩
    | true =>
      obtain ⟨s', hbody, hQ⟩ | ⟨s', hbody, hs', hlt⟩ := hstep s hs hc
      · exact ⟨s', by simp [loop, hc, hbody], hQ⟩
      · obtain ⟨r, hr, hQ⟩ := loop_total μ hstep hexit fuel s' hs' (by omega)
        exact ⟨r, by simp [loop, hc, hbody, hr], hQ⟩

/-- **Total correctness** of a loop with a counter that goes up by one until it is `stop`. -/
theorem loop_serial {I Q : σ → Prop} {i : σ → UInt16} {stop : UInt16}
    (hstep : ∀ s, I s → i s ≠ stop → (∃ s', body s = some (.done s') ∧ Q s') ∨
      ∃ s', body s = some (.yield s') ∧ I s' ∧ i s' = i s + 1)
    (hexit : ∀ s, I s → i s = stop → Q s) {fuel : ℕ} (hfuel : 65536 ≤ fuel) {s : σ} (hs : I s) :
    ∃ r, loop (fun s => i s != stop) body fuel s = some r ∧ Q r := by
  refine loop_total (fun s => (stop - i s).toNat) ?_ ?_ fuel s hs (lt_of_lt_of_le (UInt16.toNat_lt _) hfuel)
  · intro s hs hcond
    have hne : i s ≠ stop := by simpa using hcond
    obtain hdone | ⟨s', hbody, hs', hi⟩ := hstep s hs hne
    · exact Or.inl hdone
    · refine Or.inr ⟨s', hbody, hs', ?_⟩
      rw [hi]
      exact toNat_sub_lt hne
  · intro s hs hcond
    exact hexit s hs (by simpa using hcond)

end Meeting.Lib
