import Mathlib.Logic.Relation
import Mathlib.Data.List.Forall2

/-! Machines that take steps: the states that a step relation reaches and the invariants of those
states, the runs of a machine that reads one input at a time, and the simulations between two such
machines. -/

namespace Machine

/-! ### Step relations -/

section Relations

variable {σ : Type*}

/-- The states that `step` reaches from the states in `init`. -/
inductive Reachable (init : σ → Prop) (step : σ → σ → Prop) : σ → Prop
  | start {s : σ} : init s → Reachable init step s
  | next {s t : σ} : Reachable init step s → step s t → Reachable init step t

variable {init : σ → Prop} {step : σ → σ → Prop}

/-- A predicate that holds initially and that every step from a reachable state keeps holds in
every reachable state. -/
theorem Reachable.invariant {P : σ → Prop} {s : σ} (h : Reachable init step s)
    (first : ∀ s, init s → P s)
    (keeps : ∀ s t, Reachable init step s → P s → step s t → P t) : P s := by
  induction h with
  | start hi => exact first _ hi
  | next hr hs ih => exact keeps _ _ hr ih hs

theorem Reachable.trans {s t : σ} (h : Reachable init step s)
    (run : Relation.ReflTransGen step s t) : Reachable init step t := by
  induction run with
  | refl => exact h
  | tail _ hs ih => exact .next ih hs

/-- Where every step of a machine is a run of another, what it reaches the other reaches. -/
theorem Reachable.simulate {τ : Type*} {init' : τ → Prop} {step' : τ → τ → Prop} (f : σ → τ) {s : σ}
    (h : Reachable init step s) (first : ∀ s, init s → init' (f s))
    (runs : ∀ s t, Reachable init step s → step s t →
      Relation.ReflTransGen step' (f s) (f t)) : Reachable init' step' (f s) := by
  induction h with
  | start hi => exact .start (first _ hi)
  | next hr hs ih => exact ih.trans (runs _ _ hr hs)

/-- What every step between reachable states keeps, a run between reachable states keeps. -/
theorem Reachable.keeps {P : σ → Prop} {s t : σ} (h : Reachable init step s)
    (run : Relation.ReflTransGen step s t) (hP : P s)
    (keeps : ∀ s t, Reachable init step s → P s → step s t → P t) : P t := by
  induction run with
  | refl => exact hP
  | tail run hs ih => exact keeps _ _ (h.trans run) ih hs

end Relations

/-! ### Machines with inputs and outputs -/

section Runs

variable {σ τ ι ο : Type*}

/-- `P` holds of each state of the run of `next` on a list of inputs, with the input read there. -/
def Along (next : σ → ι → σ) (P : σ → ι → Prop) : σ → List ι → Prop
  | _, [] => True
  | s, i :: is => P s i ∧ Along next P (next s i) is

/-- `P` holds of each state that the run of `next` reaches after an input. -/
def Throughout (next : σ → ι → σ) (P : σ → Prop) : σ → List ι → Prop
  | _, [] => True
  | s, i :: is => P (next s i) ∧ Throughout next P (next s i) is

instance Along.decidable {next : σ → ι → σ} {P : σ → ι → Prop} [∀ s i, Decidable (P s i)] :
    ∀ (s : σ) (is : List ι), Decidable (Along next P s is)
  | _, [] => .isTrue trivial
  | s, i :: is =>
    have : Decidable (Along next P (next s i) is) := Along.decidable (next s i) is
    inferInstanceAs (Decidable (P s i ∧ Along next P (next s i) is))

instance Throughout.decidable {next : σ → ι → σ} {P : σ → Prop} [∀ s, Decidable (P s)] :
    ∀ (s : σ) (is : List ι), Decidable (Throughout next P s is)
  | _, [] => .isTrue trivial
  | s, i :: is =>
    have : Decidable (Throughout next P (next s i) is) := Throughout.decidable (next s i) is
    inferInstanceAs (Decidable (P (next s i) ∧ Throughout next P (next s i) is))

/-- A condition on each step for a property of states: where, from the states that meet an invariant
`I`, the property `P` survives a step exactly if the step meets `Q`, it holds throughout a run
exactly if every step of the run meets `Q`. -/
theorem throughout_iff_along_of_invariant {next : σ → ι → σ} {I P : σ → Prop} {Q A : σ → ι → Prop}
    (keeps : ∀ s i, I s → A s i → I (next s i))
    (survives : ∀ s i, I s → P s → A s i → (P (next s i) ↔ Q s i)) {s : σ} {is : List ι}
    (hI : I s) (hP : P s) (hA : Along next A s is) :
    Throughout next P s is ↔ Along next Q s is := by
  induction is generalizing s with
  | nil => exact Iff.rfl
  | cons i is ih =>
    obtain ⟨here, rest⟩ := hA
    have step := survives s i hI hP here
    have inv := keeps s i hI here
    constructor
    · rintro ⟨hn, ht⟩
      exact ⟨step.mp hn, (ih inv hn rest).mp ht⟩
    · rintro ⟨hq, ht⟩
      have hn := step.mpr hq
      exact ⟨hn, (ih inv hn rest).mpr ht⟩

/-- When `P` survives a step that starts in it exactly if the step meets `Q`, it holds throughout a
run exactly if every step of the run meets `Q`. -/
theorem throughout_iff_along {next : σ → ι → σ} {P : σ → Prop} {Q A : σ → ι → Prop}
    (survives : ∀ s i, P s → A s i → (P (next s i) ↔ Q s i)) {s : σ} {is : List ι} (hP : P s)
    (hA : Along next A s is) : Throughout next P s is ↔ Along next Q s is :=
  throughout_iff_along_of_invariant (I := fun _ => True) (fun _ _ _ _ => trivial)
    (fun s i _ => survives s i) trivial hP hA

theorem along_of_forall {next : σ → ι → σ} {P : σ → ι → Prop} (h : ∀ s i, P s i) {s : σ}
    {is : List ι} : Along next P s is := by
  induction is generalizing s with
  | nil => trivial
  | cons i is ih => exact ⟨h s i, ih⟩

/-- Two conditions on a step, of which the first keeps an invariant and which agree where that
holds, agree on a run. -/
theorem along_congr {next : σ → ι → σ} {I : σ → Prop} {P Q : σ → ι → Prop}
    (agree : ∀ s i, I s → (P s i ↔ Q s i)) (keeps : ∀ s i, I s → P s i → I (next s i)) {s : σ}
    {is : List ι} (hI : I s) : Along next P s is ↔ Along next Q s is := by
  induction is generalizing s with
  | nil => exact Iff.rfl
  | cons i is ih =>
    rw [Along, Along, ← agree s i hI]
    exact and_congr_right fun here => ih (keeps s i hI here)

theorem along_append {next : σ → ι → σ} {P : σ → ι → Prop} {s : σ} {is js : List ι} :
    Along next P s (is ++ js) ↔ Along next P s is ∧ Along next P (is.foldl next s) js := by
  induction is generalizing s with
  | nil => simp [Along]
  | cons i is ih => simp only [List.cons_append, Along, ih, List.foldl_cons, and_assoc]

/-- An invariant that every step of a run keeps holds where the run ends. -/
theorem Along.foldl {next : σ → ι → σ} {I : σ → Prop} {A : σ → ι → Prop}
    (keeps : ∀ s i, I s → A s i → I (next s i)) {s : σ} {is : List ι} (hI : I s)
    (hA : Along next A s is) : I (is.foldl next s) := by
  induction is generalizing s with
  | nil => exact hI
  | cons i is ih => exact ih (keeps s i hI hA.1) hA.2

/-- What does not come back once it fails held at the start of a run if it holds at the end. -/
theorem of_last {next : σ → ι → σ} {Q : σ → Prop} (lost : ∀ s i, Q (next s i) → Q s) {s : σ}
    {is : List ι} (h : Q (is.foldl next s)) : Q s := by
  induction is generalizing s with
  | nil => exact h
  | cons i is ih => exact lost s i (ih h)

/-- Where a step meets `P` exactly if `Q` holds after it, and `Q` does not come back once it fails,
all steps of a run meet `P` exactly if `Q` holds where the run ends. -/
theorem along_iff_last {next : σ → ι → σ} {I Q : σ → Prop} {P : σ → ι → Prop}
    (keeps : ∀ s i, I s → Q s → Q (next s i) → I (next s i))
    (lost : ∀ s i, Q (next s i) → Q s)
    (meets : ∀ s i, I s → Q s → (P s i ↔ Q (next s i))) {s : σ} {is : List ι} (hI : I s)
    (hQ : Q s) : Along next P s is ↔ Q (is.foldl next s) := by
  induction is generalizing s with
  | nil => exact iff_of_true trivial hQ
  | cons i is ih =>
    rw [Along, meets s i hI hQ, List.foldl_cons]
    constructor
    · rintro ⟨here, rest⟩
      exact (ih (keeps s i hI hQ here) here).mp rest
    · intro last
      have here := of_last lost last
      exact ⟨here, (ih (keeps s i hI hQ here) here).mpr last⟩

/-- The outputs of the run of `step` on a list of inputs. -/
def outputs (step : σ → ι → ο × σ) : σ → List ι → List ο
  | _, [] => []
  | s, i :: is => (step s i).1 :: outputs step (step s i).2 is

/-- An exact simulation: from related states, under the assumption `A` on the input, the outputs
agree exactly if the input meets `Q`, and then the next states are related. -/
structure Exact (left : σ → ι → ο × σ) (right : τ → ι → ο × τ) (R : σ → τ → Prop)
    (agree : ο → ο → Prop) (A : τ → ι → Prop) (Q : σ → ι → Prop) : Prop where
  agree_iff : ∀ s t i, R s t → A t i → (agree (left s i).1 (right t i).1 ↔ Q s i)
  next : ∀ s t i, R s t → A t i → Q s i → R (left s i).2 (right t i).2

/-- Two machines in exact simulation give agreeing outputs on a run exactly if every input of the
run meets the condition. -/
theorem Exact.outputs_iff {left : σ → ι → ο × σ} {right : τ → ι → ο × τ} {R : σ → τ → Prop}
    {agree : ο → ο → Prop} {A : τ → ι → Prop} {Q : σ → ι → Prop}
    (sim : Exact left right R agree A Q) {s : σ} {t : τ} {is : List ι} (hR : R s t)
    (hA : Along (fun t i => (right t i).2) A t is) :
    List.Forall₂ agree (outputs left s is) (outputs right t is) ↔
      Along (fun s i => (left s i).2) Q s is := by
  induction is generalizing s t with
  | nil => simp [outputs, Along]
  | cons i is ih =>
    obtain ⟨here, rest⟩ := hA
    simp only [outputs, Along, List.forall₂_cons]
    rw [sim.agree_iff s t i hR here]
    constructor
    · rintro ⟨hq, ht⟩
      exact ⟨hq, (ih (sim.next s t i hR here hq) rest).mp ht⟩
    · rintro ⟨hq, ht⟩
      exact ⟨hq, (ih (sim.next s t i hR here hq) rest).mpr ht⟩

end Runs

end Machine
