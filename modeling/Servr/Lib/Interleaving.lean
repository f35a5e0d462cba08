import Mathlib.Data.List.Induction

/-! Machines whose steps may be refused: the histories of their runs, what has happened in a history
and has not ended since, and, where each input belongs to one of several parties, what a party sees
when the steps of the others are left out. -/

namespace Interleaving

variable {σ ι ο : Type*}

/-- The history of the run of `step` on a list of inputs, each with its output, and the state where
the run ends. -/
def run (step : σ → ι → Option (ο × σ)) : σ → List ι → Option (List (ι × ο) × σ)
  | s, [] => some ([], s)
  | s, i :: is =>
    match step s i with
    | none => none
    | some (o, t) => (run step t is).map fun (h, u) => ((i, o) :: h, u)

/-- The history alone. -/
def history (step : σ → ι → Option (ο × σ)) (s : σ) (is : List ι) : Option (List (ι × ο)) :=
  (run step s is).map Prod.fst

variable {step : σ → ι → Option (ο × σ)}

theorem history_eq_some {s : σ} {is : List ι} {h : List (ι × ο)} :
    history step s is = some h ↔ ∃ u, run step s is = some (h, u) := by
  simp [history]

theorem run_cons_eq_some {s u : σ} {i : ι} {is : List ι} {h : List (ι × ο)} :
    run step s (i :: is) = some (h, u) ↔
      ∃ o t rest, step s i = some (o, t) ∧ run step t is = some (rest, u) ∧ h = (i, o) :: rest := by
  rw [run]
  split
  · rename_i refused
    simp [refused]
  · rename_i o t taken
    constructor
    · intro eq
      obtain ⟨⟨rest, v⟩, ran, eq⟩ := Option.map_eq_some_iff.mp eq
      cases eq
      exact ⟨o, t, rest, taken, ran, rfl⟩
    · rintro ⟨o', t', rest, taken', ran, rfl⟩
      cases taken.symm.trans taken'
      rw [ran]
      rfl

/-- A run that one more step goes on. -/
theorem run_append_singleton {s t u : σ} {i : ι} {is : List ι} {h : List (ι × ο)} {o : ο}
    (ran : run step s is = some (h, t)) (taken : step t i = some (o, u)) :
    run step s (is ++ [i]) = some (h ++ [(i, o)], u) := by
  induction is generalizing s h with
  | nil =>
    cases ran
    exact run_cons_eq_some.mpr ⟨o, u, [], taken, rfl, rfl⟩
  | cons j js ih =>
    obtain ⟨p, v, rest, first, onward, rfl⟩ := run_cons_eq_some.mp ran
    exact run_cons_eq_some.mpr ⟨p, v, rest ++ [(i, o)], first, ih onward, rfl⟩

/-- What holds at the start and what every step keeps, with the history so far, holds where a run
ends. -/
theorem run_invariant {P : List (ι × ο) → σ → Prop} {s u : σ} {is : List ι} {h : List (ι × ο)}
    (ran : run step s is = some (h, u)) (first : P [] s)
    (keeps : ∀ h s i o t, P h s → step s i = some (o, t) → P (h ++ [(i, o)]) t) : P h u := by
  suffices from_here : ∀ past, P past s → P (past ++ h) u from from_here [] first
  clear first
  induction is generalizing s h with
  | nil =>
    cases ran
    intro past here
    rwa [List.append_nil]
  | cons i is ih =>
    obtain ⟨o, t, rest, taken, onward, rfl⟩ := run_cons_eq_some.mp ran
    intro past here
    have there := ih onward (past ++ [(i, o)]) (keeps past s i o t here taken)
    rwa [List.append_assoc] at there

/-- The step that made an entry of a history, in the state that the run had reached. -/
theorem run_split {s u : σ} {is : List ι} {before after : List (ι × ο)} {i : ι} {o : ο}
    (ran : run step s is = some (before ++ (i, o) :: after, u)) :
    ∃ is' t v, run step s is' = some (before, t) ∧ step t i = some (o, v) := by
  induction before generalizing s is with
  | nil =>
    cases is with
    | nil => simp [run] at ran
    | cons j js =>
      obtain ⟨o', t, rest, taken, -, eq⟩ := run_cons_eq_some.mp ran
      cases eq
      exact ⟨[], s, t, rfl, taken⟩
  | cons e before ih =>
    cases is with
    | nil => simp [run] at ran
    | cons j js =>
      obtain ⟨o', t, rest, taken, onward, eq⟩ := run_cons_eq_some.mp ran
      cases eq
      obtain ⟨is', t', v, ran', taken'⟩ := ih onward
      exact ⟨j :: is', t', v, run_cons_eq_some.mpr ⟨o', t, before, taken, ran', rfl⟩, taken'⟩

/-! ### What has begun and not ended since -/

section Since

variable {ε : Type*} {Begins Ends : ε → Prop}

/-- Something in the history begins it, and nothing later ends it. -/
def Since (Begins Ends : ε → Prop) (h : List ε) : Prop :=
  ∃ before e after, h = before ++ e :: after ∧ Begins e ∧ ∀ f ∈ after, ¬ Ends f

theorem not_since_nil : ¬ Since Begins Ends [] := by
  rintro ⟨before, e, after, eq, -⟩
  simp at eq

theorem since_append_singleton {h : List ε} {e : ε} :
    Since Begins Ends (h ++ [e]) ↔ Begins e ∨ (Since Begins Ends h ∧ ¬ Ends e) := by
  constructor
  · rintro ⟨before, f, after, eq, begins, lasts⟩
    rcases List.eq_nil_or_concat after with rfl | ⟨after, g, rfl⟩
    · obtain ⟨-, same⟩ := List.append_inj' eq rfl
      cases same
      exact .inl begins
    · rw [List.concat_eq_append, ← List.cons_append, ← List.append_assoc] at eq
      obtain ⟨rfl, same⟩ := List.append_inj' eq rfl
      cases same
      exact .inr ⟨⟨before, f, after, rfl, begins, fun k mem => lasts k (by simp [mem])⟩,
        lasts e (by simp)⟩
  · rintro (begins | ⟨⟨before, f, after, rfl, begins, lasts⟩, last⟩)
    · exact ⟨h, e, [], rfl, begins, by simp⟩
    · refine ⟨before, f, after ++ [e], by simp, begins, fun k mem => ?_⟩
      rcases List.mem_append.mp mem with mem | mem
      · exact lasts k mem
      · rw [List.mem_singleton.mp mem]
        exact last

/-- Entries that tell the same of what they begin and end. -/
theorem since_congr {Begins' Ends' : ε → Prop} {h : List ε}
    (begins : ∀ e ∈ h, Begins e ↔ Begins' e) (ends : ∀ e ∈ h, Ends e ↔ Ends' e) :
    Since Begins Ends h ↔ Since Begins' Ends' h := by
  induction h using List.reverseRecOn with
  | nil => exact iff_of_false not_since_nil not_since_nil
  | append_singleton h e ih =>
    rw [since_append_singleton, since_append_singleton, begins e (by simp), ends e (by simp),
      ih (fun f mem => begins f (by simp [mem])) (fun f mem => ends f (by simp [mem]))]

theorem since_and {p : Prop} {h : List ε} :
    Since (fun e => p ∧ Begins e) (fun e => p ∧ Ends e) h ↔ p ∧ Since Begins Ends h := by
  by_cases holds : p <;> simp [Since, holds]

theorem since_map {ε' : Type*} {f : ε' → ε} {h : List ε'} :
    Since Begins Ends (h.map f) ↔ Since (fun e => Begins (f e)) (fun e => Ends (f e)) h := by
  induction h using List.reverseRecOn with
  | nil => exact iff_of_false not_since_nil not_since_nil
  | append_singleton h e ih =>
    rw [List.map_append, List.map_singleton, since_append_singleton, since_append_singleton, ih]

end Since

/-- What holds of every entry of a list, with the entries before it. -/
theorem forall_split_append_singleton {ε : Type*} {P : List ε → ε → Prop} {h : List ε} {e : ε} :
    (∀ before f after, h ++ [e] = before ++ f :: after → P before f) ↔
      (∀ before f after, h = before ++ f :: after → P before f) ∧ P h e := by
  constructor
  · intro all
    exact ⟨fun before f after eq => all before f (after ++ [e]) (by simp [eq]), all h e [] rfl⟩
  · rintro ⟨all, last⟩ before f after eq
    rcases List.eq_nil_or_concat after with rfl | ⟨after, g, rfl⟩
    · obtain ⟨rfl, same⟩ := List.append_inj' eq rfl
      cases same
      exact last
    · rw [List.concat_eq_append, ← List.cons_append, ← List.append_assoc] at eq
      exact all before f after (List.append_inj' eq rfl).1

/-- What happens once each, in an order that does not go against that of a list, is in the order of
the list. -/
theorem sublist_of_pairwise {ε : Type*} {R : ε → ε → Prop} {l m : List ε} (once : l.Nodup)
    (among : l ⊆ m) (ordered : m.Pairwise R) (agrees : l.Pairwise fun a b => ¬ R b a) :
    l.Sublist m := by
  induction m generalizing l with
  | nil => exact List.subset_nil.mp among ▸ List.Sublist.refl []
  | cons x m ih =>
    obtain ⟨first, ordered⟩ := List.pairwise_cons.mp ordered
    have later {l : List ε} (absent : x ∉ l) (among : l ⊆ x :: m) : l ⊆ m := fun y mem =>
      (List.mem_cons.mp (among mem)).resolve_left fun eq => absent (eq ▸ mem)
    by_cases mem : x ∈ l
    · cases l with
      | nil => contradiction
      | cons y l =>
        obtain ⟨absent, distinct⟩ := List.nodup_cons.mp once
        obtain ⟨before, follows⟩ := List.pairwise_cons.mp agrees
        rcases List.mem_cons.mp mem with rfl | mem
        · have tail := later absent (List.Subset.trans (List.subset_cons_self x l) among)
          exact (ih distinct tail ordered follows).cons_cons x
        · have ne : y ≠ x := fun eq => absent (eq ▸ mem)
          have here : y ∈ m := (List.mem_cons.mp (among List.mem_cons_self)).resolve_left ne
          exact absurd (first y here) (before x mem)
    · exact (ih once (later mem among) ordered agrees).cons x

/-! ### Unwinding -/

section Unwinding

variable {own : ι → Bool} {R : σ → σ → Prop}

/-- A relation between the states of a machine and the states of the same machine with one party
alone: the steps of the party are matched, with their outputs, and those of the others change
nothing that the party sees. -/
structure Unwinding (step : σ → ι → Option (ο × σ)) (own : ι → Bool) (R : σ → σ → Prop) :
    Prop where
  matched : ∀ {s t s' i o}, R s t → own i = true → step s i = some (o, s') →
    ∃ t', step t i = some (o, t') ∧ R s' t'
  unseen : ∀ {s t s' i o}, R s t → own i = false → step s i = some (o, s') → R s' t

/-- The party alone takes its own steps of a run with the same outputs. -/
theorem Unwinding.alone (unwinding : Unwinding step own R) {s t s' : σ} {is : List ι}
    {h : List (ι × ο)} (related : R s t) (ran : run step s is = some (h, s')) :
    ∃ t', run step t (is.filter own) = some (h.filter fun e => own e.1, t') ∧ R s' t' := by
  induction is generalizing s t h with
  | nil =>
    cases ran
    exact ⟨t, rfl, related⟩
  | cons i is ih =>
    obtain ⟨o, u, rest, taken, onward, rfl⟩ := run_cons_eq_some.mp ran
    cases mine : own i with
    | true =>
      obtain ⟨v, taken', related'⟩ := unwinding.matched related mine taken
      obtain ⟨t', ran', last⟩ := ih related' onward
      refine ⟨t', ?_, last⟩
      rw [List.filter_cons_of_pos mine, List.filter_cons_of_pos (by exact mine)]
      exact run_cons_eq_some.mpr ⟨o, v, _, taken', ran', rfl⟩
    | false =>
      obtain ⟨t', ran', last⟩ := ih (unwinding.unseen related mine taken) onward
      refine ⟨t', ?_, last⟩
      rw [List.filter_cons_of_neg (by simp [mine]), List.filter_cons_of_neg (by simp [mine])]
      exact ran'

/-- Two runs in which the party takes the same steps give it the same outputs. -/
theorem Unwinding.noninterference (unwinding : Unwinding step own R) {s t u s' t' : σ}
    {is js : List ι} {h k : List (ι × ο)} (left : R s u) (right : R t u)
    (ran : run step s is = some (h, s')) (ran' : run step t js = some (k, t'))
    (same : is.filter own = js.filter own) :
    (h.filter fun e => own e.1) = k.filter fun e => own e.1 := by
  obtain ⟨v, alone, -⟩ := unwinding.alone left ran
  obtain ⟨w, alone', -⟩ := unwinding.alone right ran'
  rw [same, alone', Option.some.injEq, Prod.mk.injEq] at alone
  exact alone.1.symm

end Unwinding

end Interleaving
