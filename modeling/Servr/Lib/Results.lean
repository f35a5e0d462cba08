import Mathlib.Data.List.Forall2

/-! Results of fallible functions: when a sequence of them succeeds, and when a function succeeds on
every element of a list. -/

namespace Results

variable {ε α β γ : Type}

theorem bind_eq_ok {x : Except ε α} {f : α → Except ε β} {b : β} :
    x >>= f = .ok b ↔ ∃ a, x = .ok a ∧ f a = .ok b := by
  cases x <;> simp [bind, Except.bind]

theorem bind_eq_error {x : Except ε α} {f : α → Except ε β} {e : ε} :
    (x >>= f) = .error e ↔ x = .error e ∨ ∃ a, x = .ok a ∧ f a = .error e := by
  cases x <;> simp [bind, Except.bind]

theorem mapError_eq_error {δ : Type*} {x : Except δ α} {f : δ → ε} {e : ε} :
    x.mapError f = .error e ↔ ∃ d, x = .error d ∧ f d = e := by
  cases x <;> simp [Except.mapError]

theorem toOption_eq_some {x : Except ε α} {a : α} : x.toOption = some a ↔ x = .ok a := by
  cases x <;> simp [Except.toOption]

theorem mapM_eq_ok {f : α → Except ε β} {as : List α} {bs : List β} :
    as.mapM f = .ok bs ↔ List.Forall₂ (fun a b => f a = .ok b) as bs := by
  induction as generalizing bs with
  | nil => simp [pure, Except.pure, eq_comm]
  | cons a as ih =>
    simp only [List.mapM_cons, bind_eq_ok, ih, List.forall₂_cons_left_iff]
    constructor
    · rintro ⟨b, hb, bs', hbs, same⟩
      cases same
      exact ⟨b, bs', hb, hbs, rfl⟩
    · rintro ⟨b, bs', hb, hbs, rfl⟩
      exact ⟨b, hb, bs', hbs, rfl⟩

theorem exists_forall₂ {R : α → β → Prop} {as : List α} (h : ∀ a ∈ as, ∃ b, R a b) :
    ∃ bs, List.Forall₂ R as bs := by
  induction as with
  | nil => exact ⟨[], .nil⟩
  | cons a as ih =>
    obtain ⟨b, hb⟩ := h a List.mem_cons_self
    obtain ⟨bs, hbs⟩ := ih fun a' mem => h a' (List.mem_cons_of_mem _ mem)
    exact ⟨b :: bs, .cons hb hbs⟩

theorem exists_of_mem_left {R : α → β → Prop} {as : List α} {bs : List β}
    (h : List.Forall₂ R as bs) {a : α} (mem : a ∈ as) : ∃ b ∈ bs, R a b := by
  induction h with
  | nil => exact absurd mem List.not_mem_nil
  | cons here rest ih =>
    rcases List.mem_cons.mp mem with rfl | mem
    · exact ⟨_, List.mem_cons_self, here⟩
    · obtain ⟨b, inRest, hb⟩ := ih mem
      exact ⟨b, List.mem_cons_of_mem _ inRest, hb⟩

theorem exists_of_mem_right {R : α → β → Prop} {as : List α} {bs : List β}
    (h : List.Forall₂ R as bs) {b : β} (mem : b ∈ bs) : ∃ a ∈ as, R a b :=
  exists_of_mem_left h.flip mem

/-- A list that is written and read element by element comes back exactly if each element does. -/
theorem mapM_map_eq_ok {f : β → Except ε α} {g : α → β} {P : α → Prop}
    (h : ∀ a a', f (g a) = .ok a' ↔ a' = a ∧ P a) {as as' : List α} :
    (as.map g).mapM f = .ok as' ↔ as' = as ∧ ∀ a ∈ as, P a := by
  rw [mapM_eq_ok, List.forall₂_map_left_iff]
  simp only [h]
  constructor
  · intro each
    induction each with
    | nil => simp
    | cons here _ ih => exact ⟨by rw [here.1, ih.1], List.forall_mem_cons.mpr ⟨here.2, ih.2⟩⟩
  · rintro ⟨rfl, all⟩
    exact List.forall₂_same.mpr fun a mem => ⟨rfl, all a mem⟩

end Results
