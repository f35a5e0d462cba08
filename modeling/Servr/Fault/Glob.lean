import Mathlib.Data.Prod.Lex
import Servr.Fault
import Servr.Lib.Glob

/-! `glob_match` against the meaning of a pattern: both loops end, no index is out of range, and the
answer says whether the text splits along the pattern. -/

namespace Servr

open Glob

variable {pattern text : List UInt8}

theorem index_drop {i : Nat} {b : UInt8} {bs : List UInt8} (h : pattern.drop i = b :: bs) :
    index pattern i = .ok b := by
  have here : pattern[i]? = some b := by
    rw [← List.head?_drop, h, List.head?_cons]
  rw [index, here]

theorem lt_length_of_drop {i : Nat} {b : UInt8} {bs : List UInt8} (h : pattern.drop i = b :: bs) :
    i < pattern.length := by
  by_contra large
  rw [List.drop_eq_nil_of_le (by omega)] at h
  contradiction

theorem drop_succ {i : Nat} {b : UInt8} {bs : List UInt8} (h : pattern.drop i = b :: bs) :
    pattern.drop (i + 1) = bs := by
  rw [← List.tail_drop, h, List.tail_cons]

theorem patternIs_eq (pattern : List UInt8) (p : Nat) (b : UInt8) :
    patternIs pattern p b = .ok ((pattern.drop p).head? == some b) := by
  unfold patternIs
  split
  · rename_i lt
    rw [List.drop_eq_getElem_cons lt, index_drop (List.drop_eq_getElem_cons lt)]
    rfl
  · rw [List.drop_eq_nil_of_le (by omega)]
    rfl

/-! ### One step of the first loop -/

section Step

variable {s : GlobScan} {b c : UInt8} {bs cs : List UInt8}

theorem scanStep_star (hp : pattern.drop s.p = star :: bs) (ht : text.drop s.t = c :: cs) :
    scanStep pattern text s =
      .ok (.inl { s with star := some s.p, resume := s.t, p := s.p + 1 }) := by
  rw [scanStep, if_pos (lt_length_of_drop ht), patternIs_eq, hp]
  rfl

theorem scanStep_letter (hp : pattern.drop s.p = b :: bs) (free : b ≠ star)
    (ht : text.drop s.t = b :: cs) :
    scanStep pattern text s = .ok (.inl { s with p := s.p + 1, t := s.t + 1 }) := by
  have notStar : ((pattern.drop s.p).head? == some star) = false := by simp [hp, free]
  have same : ((pattern.drop s.p).head? == some b) = true := by simp [hp]
  rw [scanStep, if_pos (lt_length_of_drop ht), patternIs_eq, notStar, index_drop ht]
  simp only [bind, Except.bind, patternIs_eq, same]
  rfl

/-- The pattern does not go on with the letter that the text goes on with. -/
def Mismatch (pattern text : List UInt8) (s : GlobScan) : Prop :=
  ∃ c cs, text.drop s.t = c :: cs ∧
    (pattern.drop s.p).head? ≠ some star ∧ (pattern.drop s.p).head? ≠ some c

theorem scanStep_mismatch (h : Mismatch pattern text s) :
    scanStep pattern text s = .ok (match s.star with
      | some at_ => .inl { s with p := at_ + 1, resume := s.resume + 1, t := s.resume + 1 }
      | none => .inr none) := by
  obtain ⟨c, cs, ht, notStar, other⟩ := h
  have notStar : ((pattern.drop s.p).head? == some star) = false := by simpa using notStar
  have other : ((pattern.drop s.p).head? == some c) = false := by simpa using other
  rw [scanStep, if_pos (lt_length_of_drop ht), patternIs_eq, notStar, index_drop ht]
  simp only [bind, Except.bind, patternIs_eq, other]
  cases s.star <;> rfl

theorem Mismatch.not_splits (h : Mismatch pattern text s) :
    ¬Splits star (pattern.drop s.p) (text.drop s.t) := by
  obtain ⟨c, cs, ht, notStar, other⟩ := h
  rw [ht]
  cases hp : pattern.drop s.p with
  | nil => simp [splits_nil]
  | cons b bs =>
    rw [hp, List.head?_cons, ne_eq, Option.some_inj] at notStar other
    rw [splits_letter_cons notStar]
    exact fun h => other h.1.symm

/-- In the text, the first loop takes the step of a star, of a letter or of a mismatch. -/
theorem scan_cases (pattern : List UInt8) (ht : text.drop s.t = c :: cs) :
    (∃ bs, pattern.drop s.p = star :: bs) ∨
    (∃ bs, pattern.drop s.p = c :: bs ∧ c ≠ star) ∨ Mismatch pattern text s := by
  by_cases starred : (pattern.drop s.p).head? = some star
  · obtain ⟨bs, hp⟩ := List.head?_eq_some_iff.mp starred
    exact .inl ⟨bs, hp⟩
  · by_cases same : (pattern.drop s.p).head? = some c
    · obtain ⟨bs, hp⟩ := List.head?_eq_some_iff.mp same
      exact .inr (.inl ⟨bs, hp, fun eq => starred (eq ▸ same)⟩)
    · exact .inr (.inr ⟨c, cs, ht, starred, same⟩)

end Step

/-! ### What the first loop knows -/

/-- Since the last star, the letters of `word` have been found, and the text splits along the
pattern exactly if the rest does: from that star, or before any star from where the loop stands. -/
def Known (pattern text : List UInt8) (s : GlobScan) : Prop :=
  match s.star with
  | none => Splits star pattern text ↔ Splits star (pattern.drop s.p) (text.drop s.t)
  | some at_ => ∃ word, star ∉ word ∧ pattern.drop (at_ + 1) = word ++ pattern.drop s.p ∧
    text.drop s.resume = word ++ text.drop s.t ∧
    (Splits star pattern text ↔
      Splits star (star :: pattern.drop (at_ + 1)) (text.drop s.resume))

/-- The invariant of the first loop. -/
structure Scanning (pattern text : List UInt8) (s : GlobScan) : Prop where
  p_le : s.p ≤ pattern.length
  star_lt : ∀ at_, s.star = some at_ → at_ < s.p
  resume_le : s.resume ≤ s.t
  known : Known pattern text s

/-- What is left to try and, while that stays, what is left of the pattern. -/
def scanMeasure (pattern text : List UInt8) (s : GlobScan) : ℕ ×ₗ ℕ :=
  toLex (text.length - s.resume, pattern.length - s.p)

section Keeps

variable {s : GlobScan} {b c : UInt8} {bs cs : List UInt8}

theorem Scanning.star (inv : Scanning pattern text s) (hp : pattern.drop s.p = star :: bs) :
    Scanning pattern text { s with star := some s.p, resume := s.t, p := s.p + 1 } := by
  refine ⟨lt_length_of_drop hp, ?_, Nat.le_refl _, [], List.not_mem_nil, rfl, rfl, ?_⟩
  · intro at_ same
    exact Nat.lt_succ_of_le (Option.some_inj.mp same).ge
  have known := inv.known
  unfold Known at known
  rw [drop_succ hp]
  split at known
  · rw [known, hp]
  · obtain ⟨word, free, hpattern, htext, iff⟩ := known
    rw [iff, hpattern, htext, hp]
    exact splits_star_word_star free

theorem Scanning.letter (inv : Scanning pattern text s) (hp : pattern.drop s.p = c :: bs)
    (free : c ≠ Servr.star) (ht : text.drop s.t = c :: cs) :
    Scanning pattern text { s with p := s.p + 1, t := s.t + 1 } := by
  have known := inv.known
  refine ⟨lt_length_of_drop hp, fun at_ hs => Nat.lt_succ_of_lt (inv.star_lt at_ hs),
    Nat.le_succ_of_le inv.resume_le, ?_⟩
  unfold Known at known ⊢
  simp only [drop_succ hp, drop_succ ht]
  split at known
  · rw [known, hp, ht, splits_letter_cons free, and_iff_right rfl]
  · obtain ⟨word, wordFree, hpattern, htext, iff⟩ := known
    refine ⟨word ++ [c], ?_, ?_, ?_, iff⟩
    · simp [wordFree, free.symm]
    · rw [hpattern, hp, List.append_assoc, List.singleton_append]
    · rw [htext, ht, List.append_assoc, List.singleton_append]

theorem Scanning.backtrack (inv : Scanning pattern text s) (h : Mismatch pattern text s) {at_ : Nat}
    (hs : s.star = some at_) :
    Scanning pattern text
      { s with p := at_ + 1, resume := s.resume + 1, t := s.resume + 1 } := by
  have known := inv.known
  have p_lt := inv.star_lt at_ hs
  have p_le := inv.p_le
  refine ⟨by dsimp only; omega, ?_, Nat.le_refl _, ?_⟩
  · intro at' same
    rw [hs, Option.some_inj] at same
    exact Nat.lt_succ_of_le same.ge
  simp only [Known, hs] at known ⊢
  obtain ⟨word, free, hpattern, htext, iff⟩ := known
  refine ⟨[], List.not_mem_nil, rfl, rfl, ?_⟩
  -- the star does not take nothing, for the letters after it end in the mismatch
  have failed : ¬Splits Servr.star (pattern.drop (at_ + 1)) (text.drop s.resume) := by
    rw [hpattern, htext, splits_append_append free]
    exact h.not_splits
  obtain ⟨c, cs, ht, -, -⟩ := h
  have inside : s.resume < text.length :=
    Nat.lt_of_le_of_lt inv.resume_le (lt_length_of_drop ht)
  rw [iff, List.drop_eq_getElem_cons inside] at *
  rw [splits_star_cons]
  simp only [failed, false_or]

theorem Scanning.refuted (inv : Scanning pattern text s) (h : Mismatch pattern text s)
    (hs : s.star = none) : ¬Splits Servr.star pattern text := by
  have known := inv.known
  simp only [Known, hs] at known
  rw [known]
  exact h.not_splits

theorem Scanning.over (inv : Scanning pattern text s) (ended : text.length ≤ s.t) :
    Splits Servr.star pattern text ↔ Splits Servr.star (pattern.drop s.p) [] := by
  have known := inv.known
  unfold Known at known
  rw [List.drop_eq_nil_of_le ended] at known
  split at known
  · exact known
  · obtain ⟨word, free, hpattern, htext, iff⟩ := known
    rw [iff, hpattern, htext, List.append_nil, splits_star_word free]

end Keeps

/-! ### The loops -/

/-- What the result of the first loop says. -/
def Scanned (pattern text : List UInt8) : Option Nat → Prop
  | none => ¬Splits star pattern text
  | some p => p ≤ pattern.length ∧
    (Splits star pattern text ↔ Splits star (pattern.drop p) [])

theorem scan_total (pattern text : List UInt8) :
    ∃ r, Scanned pattern text r ∧ Loop.Returns (scanStep pattern text) ⟨0, 0, none, 0⟩ r := by
  have first : Scanning pattern text ⟨0, 0, none, 0⟩ :=
    ⟨Nat.zero_le _, fun _ none => by contradiction, Nat.le_refl _, Iff.rfl⟩
  refine Loop.total (scanMeasure pattern text) (fun s inv => ?_) first
  have resume_le := inv.resume_le
  rcases Nat.lt_or_ge s.t text.length with inside | ended
  · have ht := List.drop_eq_getElem_cons inside
    rcases scan_cases pattern ht with ⟨bs, hp⟩ | ⟨bs, hp, free⟩ | mismatch
    · have := lt_length_of_drop hp
      refine .inl ⟨_, scanStep_star hp ht, inv.star hp, ?_⟩
      simp only [scanMeasure, Prod.Lex.toLex_lt_toLex]
      omega
    · have := lt_length_of_drop hp
      refine .inl ⟨_, scanStep_letter hp free ht, inv.letter hp free ht, ?_⟩
      simp only [scanMeasure, Prod.Lex.toLex_lt_toLex, true_and]
      omega
    · have step := scanStep_mismatch mismatch
      cases hs : s.star with
      | none =>
        rw [hs] at step
        exact .inr ⟨none, step, inv.refuted mismatch hs⟩
      | some at_ =>
        have next := inv.backtrack mismatch hs
        rw [hs] at step next
        refine .inl ⟨_, step, next, ?_⟩
        simp only [scanMeasure, Prod.Lex.toLex_lt_toLex]
        omega
  · refine .inr ⟨some s.p, ?_, inv.p_le, inv.over ended⟩
    rw [scanStep, if_neg (by omega)]
    rfl

theorem trail_total (pattern : List UInt8) (p : Nat) (h : p ≤ pattern.length) :
    ∃ answer, (answer = true ↔ Splits star (pattern.drop p) []) ∧
      Loop.Returns (trailStep pattern) p answer := by
  refine Loop.total (I := fun q => q ≤ pattern.length ∧
    (Splits star (pattern.drop q) [] ↔ Splits star (pattern.drop p) []))
    (fun q => pattern.length - q) (fun q inv => ?_) ⟨h, Iff.rfl⟩
  obtain ⟨le, iff⟩ := inv
  unfold trailStep
  rw [patternIs_eq]
  cases hq : pattern.drop q with
  | nil =>
    have := List.drop_eq_nil_iff.mp hq
    refine .inr ⟨true, ?_, ?_⟩
    · simp [bind, Except.bind, pure, Except.pure]
      omega
    · rw [← iff, hq]
      simp [splits_nil]
  | cons b bs =>
    have lt := lt_length_of_drop hq
    by_cases hb : b = star
    · subst hb
      refine .inl ⟨q + 1, ?_, ⟨lt, ?_⟩, by omega⟩
      · simp [bind, Except.bind, pure, Except.pure]
      · rw [← iff, drop_succ hq, hq, splits_star_nil]
    · refine .inr ⟨false, ?_, ?_⟩
      · simp [bind, Except.bind, pure, Except.pure, hb]
        omega
      · rw [← iff, hq]
        simp [splits_letter hb]

/-- With enough steps, `glob_match` returns, and it returns `true` exactly for the texts that split
along the pattern. -/
theorem globMatch_exact (pattern text : List UInt8) :
    ∃ answer, (answer = true ↔ Splits star pattern text) ∧
      ∃ enough, ∀ fuel, enough ≤ fuel → globMatch fuel pattern text = some (.ok answer) := by
  obtain ⟨r, meaning, enough, scans⟩ := scan_total pattern text
  cases r with
  | none =>
    refine ⟨false, by simpa [Scanned] using meaning, enough, fun fuel le => ?_⟩
    rw [globMatch, scans fuel le]
  | some p =>
    obtain ⟨le, rest⟩ := meaning
    obtain ⟨answer, correct, enough', trails⟩ := trail_total pattern p le
    refine ⟨answer, correct.trans rest.symm, max enough enough', fun fuel le => ?_⟩
    rw [globMatch, scans fuel (le_of_max_le_left le)]
    exact trails fuel (le_of_max_le_right le)

end Servr
