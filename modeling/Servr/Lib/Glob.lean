import Mathlib.Data.List.Forall2
import Mathlib.Data.List.Basic

/-! Patterns in which one letter stands for any run of letters: when a text splits along a pattern,
and why only the last star of a pattern that has been passed needs to be tried again. -/

namespace Glob

variable {α : Type*} {star b c : α} {pattern rest word text tail : List α}

/-- The text is made of one run for each letter of the pattern: any run for the star, and the letter
itself for any other. -/
def Splits (star : α) (pattern text : List α) : Prop :=
  ∃ runs, List.Forall₂ (fun b run => b = star ∨ run = [b]) pattern runs ∧ runs.flatten = text

theorem splits_nil : Splits star [] text ↔ text = [] := by
  constructor
  · rintro ⟨runs, each, rfl⟩
    rw [List.forall₂_nil_left_iff.mp each, List.flatten_nil]
  · rintro rfl
    exact ⟨[], .nil, rfl⟩

theorem splits_cons : Splits star (b :: pattern) text ↔
    ∃ run tail, text = run ++ tail ∧ (b = star ∨ run = [b]) ∧ Splits star pattern tail := by
  constructor
  · rintro ⟨runs, each, rfl⟩
    obtain ⟨run, others, here, rest, rfl⟩ := List.forall₂_cons_left_iff.mp each
    exact ⟨run, others.flatten, List.flatten_cons, here, others, rest, rfl⟩
  · rintro ⟨run, tail, rfl, here, others, each, rfl⟩
    exact ⟨run :: others, .cons here each, List.flatten_cons⟩

theorem splits_star :
    Splits star (star :: pattern) text ↔
      ∃ run tail, text = run ++ tail ∧ Splits star pattern tail := by
  simp [splits_cons]

theorem splits_letter (h : b ≠ star) :
    Splits star (b :: pattern) text ↔ ∃ tail, text = b :: tail ∧ Splits star pattern tail := by
  simp [splits_cons, h]

theorem splits_letter_cons (h : b ≠ star) :
    Splits star (b :: pattern) (c :: text) ↔ c = b ∧ Splits star pattern text := by
  rw [splits_letter h]
  constructor
  · rintro ⟨tail, same, rest⟩
    cases same
    exact ⟨rfl, rest⟩
  · rintro ⟨rfl, rest⟩
    exact ⟨text, rfl, rest⟩

/-- A star takes nothing, or the first letter and what a star takes of the rest. -/
theorem splits_star_cons : Splits star (star :: pattern) (c :: text) ↔
    Splits star pattern (c :: text) ∨ Splits star (star :: pattern) text := by
  simp only [splits_star]
  constructor
  · rintro ⟨run, tail, whole, rest⟩
    cases run with
    | nil => exact .inl (whole ▸ rest)
    | cons first run =>
      cases whole
      exact .inr ⟨run, tail, rfl, rest⟩
  · rintro (rest | ⟨run, tail, rfl, rest⟩)
    · exact ⟨[], c :: text, rfl, rest⟩
    · exact ⟨c :: run, tail, rfl, rest⟩

theorem splits_star_append (run : List α) (h : Splits star (star :: pattern) text) :
    Splits star (star :: pattern) (run ++ text) := by
  rw [splits_star] at h ⊢
  obtain ⟨first, tail, rfl, rest⟩ := h
  exact ⟨run ++ first, tail, (List.append_assoc ..).symm, rest⟩

theorem splits_star_nil : Splits star (star :: pattern) [] ↔ Splits star pattern [] := by
  simp [splits_star]

/-- Letters before a pattern are letters before its text. -/
theorem splits_append (free : star ∉ word) : Splits star (word ++ rest) text ↔
    ∃ tail, text = word ++ tail ∧ Splits star rest tail := by
  induction word generalizing text with
  | nil => simp
  | cons b word ih =>
    simp only [List.mem_cons, not_or] at free
    rw [List.cons_append, splits_letter (Ne.symm free.1)]
    constructor
    · rintro ⟨inner, rfl, h⟩
      obtain ⟨tail, rfl, after⟩ := (ih free.2).mp h
      exact ⟨tail, rfl, after⟩
    · rintro ⟨tail, rfl, h⟩
      exact ⟨word ++ tail, rfl, (ih free.2).mpr ⟨tail, rfl, h⟩⟩

theorem splits_append_append (free : star ∉ word) :
    Splits star (word ++ rest) (word ++ text) ↔ Splits star rest text := by
  rw [splits_append free]
  constructor
  · rintro ⟨tail, same, h⟩
    rwa [List.append_cancel_left same]
  · exact fun h => ⟨text, rfl, h⟩

/-- Once the letters between two stars have been found, the first star need not be tried again: what
it could take more, the second one can. -/
theorem splits_star_word_star (free : star ∉ word) :
    Splits star (star :: (word ++ star :: rest)) (word ++ text) ↔
      Splits star (star :: rest) text := by
  constructor
  · intro h
    obtain ⟨run, _, whole, later⟩ := splits_star.mp h
    obtain ⟨tail, rfl, after⟩ := (splits_append free).mp later
    -- the last letters of the text are those of `tail`, which is no longer than `text`
    have suffix : tail <:+ text := by
      refine @List.suffix_of_suffix_length_le _ _ (word ++ text) _ ?_ ⟨word, rfl⟩ ?_
      · exact ⟨run ++ word, by rw [whole, List.append_assoc]⟩
      · have := congrArg List.length whole
        simp only [List.length_append] at this
        omega
    obtain ⟨more, rfl⟩ := suffix
    exact splits_star_append more after
  · intro h
    exact splits_star.mpr ⟨[], _, rfl, (splits_append_append free).mpr h⟩

/-- A star before letters that are the whole text takes nothing. -/
theorem splits_star_word (free : star ∉ word) :
    Splits star (star :: (word ++ rest)) word ↔ Splits star rest [] := by
  constructor
  · intro h
    obtain ⟨run, _, whole, later⟩ := splits_star.mp h
    obtain ⟨tail, rfl, after⟩ := (splits_append free).mp later
    have none : tail = [] := by
      have := congrArg List.length whole
      simp only [List.length_append] at this
      exact List.eq_nil_of_length_eq_zero (by omega)
    exact none ▸ after
  · intro h
    exact splits_star.mpr
      ⟨[], word, rfl, (splits_append free).mpr ⟨[], (List.append_nil _).symm, h⟩⟩

end Glob
