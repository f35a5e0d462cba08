import Mathlib.Data.List.Basic

/-! Texts of lines that each end with a separator: how they split into their lines, and that no
other lines make the same text. -/

namespace Lines

variable {α : Type*}

/-- The text of some lines, with `sep` after each. -/
def terminated (sep : α) (lines : List (List α)) : List α := lines.flatMap (· ++ [sep])

theorem terminated_cons (sep : α) (line : List α) (lines : List (List α)) :
    terminated sep (line :: lines) = line ++ sep :: terminated sep lines := by
  simp [terminated]

theorem terminated_append (sep : α) (lines more : List (List α)) :
    terminated sep (lines ++ more) = terminated sep lines ++ terminated sep more :=
  List.flatMap_append

variable [DecidableEq α]

/-- The pieces of a text, each up to and with the separator that ends it. -/
def splitInclusive (sep : α) : List α → List (List α)
  | [] => []
  | a :: as =>
    if a = sep then [a] :: splitInclusive sep as
    else
      match splitInclusive sep as with
      | [] => [[a]]
      | piece :: pieces => (a :: piece) :: pieces

variable {sep : α}

theorem splitInclusive_line {line : List α} (free : sep ∉ line) (rest : List α) :
    splitInclusive sep (line ++ sep :: rest) = (line ++ [sep]) :: splitInclusive sep rest := by
  induction line with
  | nil => exact if_pos rfl
  | cons a line ih =>
    simp only [List.mem_cons, not_or] at free
    rw [List.cons_append, splitInclusive, if_neg (Ne.symm free.1), ih free.2]
    rfl

theorem splitInclusive_terminated {lines : List (List α)} (free : ∀ line ∈ lines, sep ∉ line) :
    splitInclusive sep (terminated sep lines) = lines.map (· ++ [sep]) := by
  induction lines with
  | nil => rfl
  | cons line lines ih =>
    obtain ⟨here, rest⟩ := List.forall_mem_cons.mp free
    rw [terminated_cons, splitInclusive_line here, ih rest, List.map_cons]

theorem terminated_inj {lines lines' : List (List α)} (free : ∀ line ∈ lines, sep ∉ line)
    (free' : ∀ line ∈ lines', sep ∉ line) (same : terminated sep lines = terminated sep lines') :
    lines = lines' := by
  have pieces := congrArg (splitInclusive sep) same
  rw [splitInclusive_terminated free, splitInclusive_terminated free'] at pieces
  exact List.map_injective_iff.mpr (List.append_left_injective [sep]) pieces

end Lines
