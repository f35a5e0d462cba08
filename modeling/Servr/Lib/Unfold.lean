import Mathlib.Data.List.Basic
import Mathlib.Data.List.Range

/-! Streams that a closure unfolds from a state: what polls of them return, and the rule that gives
this from an invariant of the polls. -/

namespace Unfold

variable {σ ω α : Type*}

/-- What a closure makes of a state in a world: the next item and the state after it, or the end of
the stream, unless it does not return. -/
abbrev Closure (σ ω α : Type*) := σ → ω → Option (Option (α × σ) × ω)

/-- A poll that waits for the closure: the item, and the state to go on from, which a stream at its
end no longer has. -/
def poll (f : Closure σ ω α) : Option σ → ω → Option (Option α × Option σ × ω)
  | none, w => some (none, none, w)
  | some s, w => (f s w).map fun (next, w) => (next.map Prod.fst, next.map Prod.snd, w)

/-- The items of `n` polls, one after another. -/
def polls (f : Closure σ ω α) : Nat → Option σ → ω → Option (List (Option α) × Option σ × ω)
  | 0, s, w => some ([], s, w)
  | n + 1, s, w => do
    let (items, s, w) ← polls f n s w
    let (item, s, w) ← poll f s w
    return (items ++ [item], s, w)

variable {s : Option σ} {w : ω}

/-- An invariant that the `i`-th poll keeps and that gives its item, each time with enough fuel for
the closure, gives the items of any number of polls. -/
theorem polls_of_invariant {f : Nat → Closure σ ω α} {I : Nat → Option σ → ω → Prop}
    {item : Nat → Option α} (first : I 0 s w)
    (keeps : ∀ i s w, I i s w → ∃ s' w' enough,
      (∀ fuel, enough ≤ fuel → poll (f fuel) s w = some (item i, s', w')) ∧ I (i + 1) s' w')
    (n : Nat) : ∃ s' w' enough,
      (∀ fuel, enough ≤ fuel →
        polls (f fuel) n s w = some ((List.range n).map item, s', w')) ∧ I n s' w' := by
  induction n with
  | zero => exact ⟨s, w, 0, fun _ _ => rfl, first⟩
  | succ n ih =>
    obtain ⟨s₁, w₁, enough₁, items, inv₁⟩ := ih
    obtain ⟨s₂, w₂, enough₂, last, inv₂⟩ := keeps n s₁ w₁ inv₁
    refine ⟨s₂, w₂, max enough₁ enough₂, fun fuel le => ?_, inv₂⟩
    have before := items fuel (Nat.max_le.mp le).1
    have here := last fuel (Nat.max_le.mp le).2
    simp only [polls, before, here, Option.bind_eq_bind, Option.bind_some, List.range_succ,
      List.map_append]
    rfl

end Unfold
