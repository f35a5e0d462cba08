import Mathlib.Order.WellFounded

/-! Loops whose body may fail: what a loop returns with enough steps, and the rule that an invariant
and a measure that decreases give the result of a loop. -/

namespace Loop

variable {σ ε ρ β : Type*}

/-- The loop that takes `step` from a state until it gives a result or fails, for at most `fuel`
steps. -/
def run (step : σ → Except ε (σ ⊕ ρ)) : Nat → σ → Option (Except ε ρ)
  | 0, _ => none
  | fuel + 1, s =>
    match step s with
    | .error e => some (.error e)
    | .ok (.inl t) => run step fuel t
    | .ok (.inr r) => some (.ok r)

/-- The loop returns `r`: it does so with every number of steps that is large enough. -/
def Returns (step : σ → Except ε (σ ⊕ ρ)) (s : σ) (r : ρ) : Prop :=
  ∃ enough, ∀ fuel, enough ≤ fuel → run step fuel s = some (.ok r)

variable {step : σ → Except ε (σ ⊕ ρ)} {s t : σ} {r : ρ}

theorem Returns.here (h : step s = .ok (.inr r)) : Returns step s r := by
  refine ⟨1, fun fuel le => ?_⟩
  obtain ⟨fuel, rfl⟩ := Nat.exists_eq_add_of_le' le
  rw [run, h]

theorem Returns.there (h : step s = .ok (.inl t)) (rest : Returns step t r) : Returns step s r := by
  obtain ⟨enough, returns⟩ := rest
  refine ⟨enough + 1, fun fuel le => ?_⟩
  obtain ⟨fuel, rfl⟩ := Nat.exists_eq_add_of_le' (Nat.le_of_add_left_le le)
  rw [run, h]
  exact returns fuel (by omega)

/-- A loop whose body keeps the invariant `I` and makes a measure smaller, or else ends with a
result that meets `Q`, returns a result that meets `Q`. -/
theorem total [LT β] [WellFoundedLT β] {I : σ → Prop} {Q : ρ → Prop} (measure : σ → β)
    (body : ∀ s, I s →
      (∃ t, step s = .ok (.inl t) ∧ I t ∧ measure t < measure s) ∨
      ∃ r, step s = .ok (.inr r) ∧ Q r)
    (hs : I s) : ∃ r, Q r ∧ Returns step s r := by
  induction s using WellFounded.induction (InvImage.wf measure wellFounded_lt) with
  | _ s ih =>
    rcases body s hs with ⟨t, next, ht, less⟩ | ⟨r, ends, hr⟩
    · obtain ⟨r, hr, rest⟩ := ih t less ht
      exact ⟨r, hr, rest.there next⟩
    · exact ⟨r, hr, .here ends⟩

end Loop
