import Mathlib.Data.List.Basic

/-! The words of a list of letters, some of which are blank: the words of words joined by a blank,
and which lists are their own words joined by one blank. -/

namespace Words

variable {α : Type*} {blank : α → Bool} {sep : α} {text word : List α} {ws : List (List α)}

/-- The longest runs of letters that are not blank. -/
def words (blank : α → Bool) (text : List α) : List (List α) :=
  (text.splitOnP blank).filter fun w => !w.isEmpty

/-- A word is not empty, and no letter of it is blank. -/
def IsWord (blank : α → Bool) (w : List α) : Prop := w ≠ [] ∧ ∀ c ∈ w, blank c = false

/-- Words joined by `sep`. -/
def join (sep : α) (ws : List (List α)) : List α := [sep].intercalate ws

theorem join_cons (sep : α) (w : List α) (ws : List (List α)) :
    join sep (w :: ws) = w ++ ws.flatMap (sep :: ·) := by
  induction ws generalizing w with
  | nil => simp [join]
  | cons w' ws ih =>
    have rest := ih w'
    rw [join] at rest ⊢
    rw [List.intercalate_cons_cons, rest, List.flatMap_cons, List.append_assoc,
      List.singleton_append, List.cons_append]

theorem words_append (before after : List α) (h : blank sep = true) :
    words blank (before ++ sep :: after) = words blank before ++ words blank after := by
  rw [words, List.splitOnP_append_cons before after h, List.filter_append]
  rfl

theorem words_of_isWord (h : IsWord blank word) : words blank word = [word] := by
  rw [words, List.splitOnP_eq_singleton h.2]
  simp [h.1]

theorem words_nil : words blank [] = [] := by
  simp [words]

/-- The words of words joined by a blank are these words. -/
theorem words_join (h : blank sep = true) (each : ∀ w ∈ ws, IsWord blank w) :
    words blank (join sep ws) = ws := by
  induction ws with
  | nil => exact words_nil
  | cons w ws ih =>
    rw [List.forall_mem_cons] at each
    cases ws with
    | nil =>
      rw [join, List.intercalate_singleton]
      exact words_of_isWord each.1
    | cons w' ws =>
      have rest := ih each.2
      rw [join] at rest ⊢
      rw [List.intercalate_cons_cons, List.append_assoc, List.singleton_append, words_append _ _ h,
        words_of_isWord each.1, rest, List.singleton_append]

theorem blank_of_mem_splitOnP {w : List α} (mem : w ∈ text.splitOnP blank) :
    ∀ c ∈ w, blank c = false := by
  induction text generalizing w with
  | nil =>
    rw [List.splitOnP_nil, List.mem_singleton] at mem
    simp [mem]
  | cons a as ih =>
    rw [List.splitOnP_cons_eq_if_modifyHead] at mem
    split at mem
    · rcases List.mem_cons.mp mem with rfl | mem
      · simp
      · exact ih mem
    · rename_i letter
      obtain ⟨first, rest, parts⟩ := List.exists_cons_of_ne_nil (List.splitOnP_ne_nil blank as)
      rw [parts] at ih mem
      rw [List.modifyHead_cons] at mem
      rcases List.mem_cons.mp mem with rfl | mem
      · exact List.forall_mem_cons.mpr ⟨by simpa using letter, ih List.mem_cons_self⟩
      · exact ih (List.mem_cons_of_mem _ mem)

theorem isWord_of_mem_words (mem : word ∈ words blank text) : IsWord blank word := by
  obtain ⟨inSplit, nonempty⟩ := List.mem_filter.mp mem
  exact ⟨by simpa using nonempty, blank_of_mem_splitOnP inSplit⟩

/-- Every blank letter is `sep`, between two letters that are not blank. -/
def SingleSpaced (blank : α → Bool) (sep : α) (text : List α) : Prop :=
  ∀ before c after, text = before ++ c :: after → blank c = true →
    c = sep ∧ (∃ b ∈ before.getLast?, blank b = false) ∧ ∃ a ∈ after.head?, blank a = false

theorem singleSpaced_of_isWord (h : IsWord blank word) : SingleSpaced blank sep word := by
  intro before c after whole isBlank
  have mem : c ∈ word := by simp [whole]
  rw [h.2 c mem] at isBlank
  contradiction

theorem getLast_word (hw : IsWord blank word) : ∃ b ∈ word.getLast?, blank b = false :=
  ⟨_, List.getLast?_eq_getLast_of_ne_nil hw.1, hw.2 _ (List.getLast_mem hw.1)⟩

/-- A word, `sep` and a single-spaced text that starts with a letter are single-spaced. -/
theorem singleSpaced_append {rest : List α} (hw : IsWord blank word)
    (first : ∃ a ∈ rest.head?, blank a = false) (h : SingleSpaced blank sep rest) :
    SingleSpaced blank sep (word ++ sep :: rest) := by
  intro before c after whole isBlank
  rcases List.append_eq_append_iff.mp whole with ⟨more, rfl, tail⟩ | ⟨more, rfl, tail⟩
  · rcases List.cons_eq_append_iff.mp tail with ⟨rfl, same⟩ | ⟨more, rfl, inside⟩
    · cases same
      rw [List.append_nil]
      exact ⟨rfl, getLast_word hw, first⟩
    · obtain ⟨same, ⟨b, last, letter⟩, next⟩ := h more c after inside isBlank
      refine ⟨same, ⟨b, ?_, letter⟩, next⟩
      cases more with
      | nil => contradiction
      | cons m ms =>
        rw [Option.mem_def] at last ⊢
        rw [List.getLast?_append_of_ne_nil _ (List.cons_ne_nil _ _), List.getLast?_cons_cons]
        exact last
  · rcases List.cons_eq_append_iff.mp tail with ⟨rfl, same⟩ | ⟨more, rfl, inside⟩
    · cases same
      rw [List.append_nil] at hw
      exact ⟨rfl, getLast_word hw, first⟩
    · have letter := hw.2 c (List.mem_append_right _ List.mem_cons_self)
      rw [letter] at isBlank
      contradiction

theorem singleSpaced_join (each : ∀ w ∈ ws, IsWord blank w) :
    SingleSpaced blank sep (join sep ws) := by
  induction ws with
  | nil =>
    intro before c after whole
    simp [join] at whole
  | cons w ws ih =>
    rw [List.forall_mem_cons] at each
    cases ws with
    | nil =>
      rw [join, List.intercalate_singleton]
      exact singleSpaced_of_isWord each.1
    | cons w' ws =>
      have rest := ih each.2
      have letter : ∃ a ∈ (join sep (w' :: ws)).head?, blank a = false := by
        obtain ⟨nonempty, letters⟩ := each.2 w' List.mem_cons_self
        obtain ⟨a, w', rfl⟩ := List.exists_cons_of_ne_nil nonempty
        refine ⟨a, ?_, letters a List.mem_cons_self⟩
        cases ws <;> simp [join, List.intercalate_cons_cons]
      rw [join] at rest letter ⊢
      rw [List.intercalate_cons_cons, List.append_assoc, List.singleton_append]
      exact singleSpaced_append each.1 letter rest

/-- What follows the first blank of a single-spaced text is single-spaced and starts with a
letter. -/
theorem SingleSpaced.tail {before after : List α}
    (h : SingleSpaced blank sep (before ++ sep :: after)) (hs : blank sep = true) :
    (∃ a ∈ after.head?, blank a = false) ∧ SingleSpaced blank sep after := by
  have letter := (h before sep after rfl hs).2.2
  refine ⟨letter, fun first c rest whole isBlank => ?_⟩
  obtain ⟨same, ⟨b, last, isLetter⟩, next⟩ := h (before ++ sep :: first) c rest
    (by rw [whole, List.append_assoc, List.cons_append]) isBlank
  refine ⟨same, ⟨b, ?_, isLetter⟩, next⟩
  cases first with
  | nil =>
    -- a blank at the front is no letter
    obtain ⟨a, head, isLetter⟩ := letter
    rw [whole, List.nil_append, List.head?_cons, Option.mem_def, Option.some_inj] at head
    rw [← head, isBlank] at isLetter
    contradiction
  | cons f fs =>
    rw [Option.mem_def] at last ⊢
    rwa [List.getLast?_append_of_ne_nil _ (List.cons_ne_nil _ _), List.getLast?_cons_cons] at last

/-- A list is a beginning without blanks and, unless that is all, a blank and what follows it. -/
theorem first_blank (blank : α → Bool) (text : List α) :
    (∀ c ∈ text, blank c = false) ∨ ∃ before c after, text = before ++ c :: after ∧
      blank c = true ∧ ∀ b ∈ before, blank b = false := by
  induction text with
  | nil => exact .inl (by simp)
  | cons c cs ih =>
    cases hc : blank c with
    | true => exact .inr ⟨[], c, cs, rfl, hc, by simp⟩
    | false =>
      rcases ih with none | ⟨before, b, after, rfl, hb, letters⟩
      · exact .inl (List.forall_mem_cons.mpr ⟨hc, none⟩)
      · exact .inr ⟨c :: before, b, after, rfl, hb, List.forall_mem_cons.mpr ⟨hc, letters⟩⟩

/-- A single-spaced text is words joined by `sep`. -/
theorem SingleSpaced.exists_words (hs : blank sep = true) (h : SingleSpaced blank sep text) :
    ∃ ws, (∀ w ∈ ws, IsWord blank w) ∧ text = join sep ws := by
  induction n : text.length using Nat.strongRecOn generalizing text with
  | _ n ih =>
    rcases first_blank blank text with letters | ⟨before, c, after, rfl, isBlank, letters⟩
    · by_cases empty : text = []
      · exact ⟨[], by simp, empty⟩
      · refine ⟨[text], by simpa using ⟨empty, letters⟩, ?_⟩
        rw [join, List.intercalate_singleton]
    · obtain ⟨rfl, ⟨b, last, -⟩, -⟩ := h before c after rfl isBlank
      obtain ⟨⟨a, head, -⟩, rest⟩ := h.tail hs
      obtain ⟨ws, each, rfl⟩ := ih after.length (by simp [← n]; omega) rest rfl
      have word : IsWord blank before := by
        refine ⟨?_, letters⟩
        rintro rfl
        contradiction
      have more : ws ≠ [] := by
        rintro rfl
        contradiction
      refine ⟨before :: ws, List.forall_mem_cons.mpr ⟨word, each⟩, ?_⟩
      rw [join, join, List.intercalate_cons_of_ne_nil more, List.append_assoc,
        List.singleton_append]

/-- The words of a text joined by `sep` are the text exactly if it is single-spaced. -/
theorem join_words_iff (hs : blank sep = true) :
    join sep (words blank text) = text ↔ SingleSpaced blank sep text := by
  constructor
  · intro same
    rw [← same]
    exact singleSpaced_join fun w mem => isWord_of_mem_words mem
  · intro h
    obtain ⟨ws, each, rfl⟩ := h.exists_words hs
    rw [words_join hs each]

end Words
