import Servr.Config
import Servr.Lib.Lines
import Servr.Text

/-! The metric faults of `telemetry/src/chaos.rs`, which rewrite the text of a scrape: what they
make of comments, blank lines and samples. -/

namespace Servr.Telemetry

open Ieee (Double)
open Lines (terminated splitInclusive)

/-! ### The rewriting -/

/-- `x < y` of two doubles. -/
def lt (x y : Double) : Bool := y.ge x && !x.ge y

/-- Whether corruption applies to this export, with the roll that it draws. -/
def fires (fault : TelemetryFault) (roll : Double) : Bool :=
  lt (.finite (.ofRat 0)) fault.rate && lt roll fault.rate

/-- `s.strip_suffix(c)`. -/
def stripSuffix (c : Char) (cs : List Char) : Option (List Char) :=
  if cs.getLast? = some c then some cs.dropLast else none

/-- `s.lines()`: what the newlines end, less a carriage return before the newline. -/
def lines (cs : List Char) : List (List Char) :=
  (splitInclusive '\n' cs).map fun piece =>
    match stripSuffix '\n' piece with
    | none => piece
    | some line => (stripSuffix '\r' line).getD line

/-- The body of the loop of `reset_counters`, less the newline. -/
def resetLine (line : List Char) : List Char :=
  if line.head? = some '#' ∨ line = [] then line
  else
    match rsplitOnce ' ' line with
    | some (series, _) => series ++ [' ', '1']
    | none => line

/-- Sets every sample to 1. -/
def resetCounters (rendered : List Char) : List Char :=
  (lines rendered).flatMap fun line => resetLine line ++ ['\n']

/-- `{nonce:016x}`. -/
def hex16 (nonce : UInt64) : List Char :=
  (List.range 16).map fun i => Nat.digitChar (nonce.toNat / 16 ^ (15 - i) % 16)

def bombHelp : String :=
  "# HELP testbed_cardinality_bomb Deliberate cardinality explosion (TelemetryFault)"

def bombType : String := "# TYPE testbed_cardinality_bomb counter"

def bombOpen : List Char := "testbed_cardinality_bomb\x7bscrape=\"".toList
def bombMiddle : List Char := "\",series=\"".toList
def bombClose : List Char := "\"\x7d".toList

/-- The series of a sample of `bomb`. -/
def bombSeries (nonce : UInt64) (i : Nat) : List Char :=
  bombOpen ++ hex16 nonce ++ bombMiddle ++ Nat.toDigits 10 i ++ bombClose

/-- One synthetic metric with `series` unique label values. -/
def bomb (nonce : UInt64) (series : UInt32) : List Char :=
  bombHelp.toList ++ ['\n'] ++ bombType.toList ++ ['\n'] ++
    (List.range series.toNat).flatMap fun i => bombSeries nonce i ++ [' ', '1', '\n']

/-- `corrupt_metrics`, with the roll and the nonce that it draws. -/
def corruptMetrics (rendered : List Char) (fault : TelemetryFault) (roll : Double)
    (nonce : UInt64) : List Char :=
  if fires fault roll then
    let out := if fault.counterReset then resetCounters rendered else rendered
    match fault.cardinalityBomb with
    | some series => out ++ bomb nonce series
    | none => out
  else rendered

/-! ### Expositions -/

inductive Line
  | comment (text : List Char)
  | blank
  | sample (series value : List Char)
  deriving DecidableEq

namespace Line

def text : Line → List Char
  | comment text => '#' :: text
  | blank => []
  | sample series value => series ++ ' ' :: value

/-- A line has no newline; a series is not empty and does not start like a comment, and a value is
not empty and has no space. -/
def WellFormed : Line → Prop
  | comment text => '\n' ∉ text
  | blank => True
  | sample series value => series ≠ [] ∧ series.head? ≠ some '#' ∧ '\n' ∉ series ∧
      value ≠ [] ∧ ' ' ∉ value ∧ '\n' ∉ value

def reset : Line → Line
  | sample series _ => sample series ['1']
  | line => line

def series : Line → Option (List Char)
  | sample series _ => some series
  | comment _ | blank => none

def EndsWithReturn : Line → Prop
  | comment text => text.getLast? = some '\r'
  | blank | sample .. => False

instance : DecidablePred WellFormed
  | comment _ => inferInstanceAs (Decidable (¬_))
  | blank => .isTrue trivial
  | sample .. => inferInstanceAs (Decidable (_ ∧ _))

instance : DecidablePred EndsWithReturn
  | comment _ => inferInstanceAs (Decidable (_ = _))
  | blank | sample .. => .isFalse id

end Line

namespace Line

variable {line : Line}

theorem newline_notMem (h : line.WellFormed) : '\n' ∉ line.text := by
  cases line with
  | comment text =>
    rw [Line.text, List.mem_cons, not_or]
    exact ⟨by simp, h⟩
  | blank => exact List.not_mem_nil
  | sample series value =>
    obtain ⟨-, -, free, -, -, free'⟩ := h
    rw [Line.text, List.mem_append, List.mem_cons]
    simp [free, free']

theorem reset_wellFormed (h : line.WellFormed) : line.reset.WellFormed := by
  cases line with
  | comment | blank => exact h
  | sample series value => exact ⟨h.1, h.2.1, h.2.2.1, by simp⟩

@[simp] theorem reset_reset (line : Line) : line.reset.reset = line.reset := by cases line <;> rfl

/-- What `lines` leaves of a line. -/
def chomped (line : Line) : List Char := (stripSuffix '\r' line.text).getD line.text

theorem stripSuffix_append_singleton (c : Char) (cs : List Char) :
    stripSuffix c (cs ++ [c]) = some cs := by
  rw [stripSuffix, if_pos List.getLast?_concat, List.dropLast_concat]

/-- The last space of a sample is the one before its value, with a carriage return or without. -/
theorem resetLine_sample {series value : List Char} (nonempty : series ≠ [])
    (head : series.head? ≠ some '#') (free : ' ' ∉ value) :
    resetLine (series ++ ' ' :: value) = series ++ [' ', '1'] := by
  have first : (series ++ ' ' :: value).head? ≠ some '#' := by
    rw [List.head?_append_of_ne_nil _ nonempty]
    exact head
  rw [resetLine, if_neg (not_or.mpr ⟨first, by simp⟩), rsplitOnce_append series free]

theorem chomped_comment {text : List Char} (h : ¬(comment text).EndsWithReturn) :
    (comment text).chomped = '#' :: text := by
  have other : ('#' :: text).getLast? ≠ some '\r' := by
    cases text with
    | nil => simp
    | cons c cs =>
      rw [List.getLast?_cons_cons]
      exact h
  rw [chomped, Line.text, stripSuffix, if_neg other, Option.getD_none]

theorem chomped_comment_return (text : List Char) :
    (comment (text ++ ['\r'])).chomped = '#' :: text := by
  rw [chomped, Line.text, ← List.cons_append, stripSuffix_append_singleton, Option.getD_some]

theorem resetLine_comment (text : List Char) : resetLine ('#' :: text) = '#' :: text :=
  if_pos (.inl rfl)

/-- A line comes out as it is to be, unless it is a comment that ends with a carriage return. -/
theorem resetLine_chomped (h : line.WellFormed) (kept : ¬line.EndsWithReturn) :
    resetLine line.chomped = line.reset.text := by
  cases line with
  | comment text =>
    rw [chomped_comment kept, resetLine_comment]
    rfl
  | blank => rfl
  | sample series value =>
    obtain ⟨nonempty, head, -, some_, free, -⟩ := h
    show _ = series ++ [' ', '1']
    by_cases ends : value.getLast? = some '\r'
    · obtain ⟨value, rfl⟩ := List.getLast?_eq_some_iff.mp ends
      have text : (sample series (value ++ ['\r'])).text =
          (series ++ ' ' :: value) ++ ['\r'] := by
        simp [Line.text]
      rw [chomped, text, stripSuffix_append_singleton, Option.getD_some]
      exact resetLine_sample nonempty head fun mem => free (List.mem_append_left _ mem)
    · have last : (series ++ ' ' :: value).getLast? ≠ some '\r' := by
        rw [List.getLast?_append_of_ne_nil _ (by simp)]
        cases value with
        | nil => contradiction
        | cons c cs =>
          rw [List.getLast?_cons_cons]
          exact ends
      rw [chomped, Line.text, stripSuffix, if_neg last, Option.getD_none]
      exact resetLine_sample nonempty head free

theorem resetLine_chomped_iff (h : line.WellFormed) :
    resetLine line.chomped = line.reset.text ↔ ¬line.EndsWithReturn := by
  refine ⟨fun same ends => ?_, resetLine_chomped h⟩
  cases line with
  | comment text =>
    obtain ⟨text, rfl⟩ := List.getLast?_eq_some_iff.mp ends
    rw [chomped_comment_return, resetLine_comment] at same
    have same : '#' :: text = '#' :: (text ++ ['\r']) := same
    simp at same
  | blank | sample => exact ends

theorem newline_notMem_resetLine (h : line.WellFormed) : '\n' ∉ resetLine line.chomped := by
  by_cases ends : line.EndsWithReturn
  · cases line with
    | comment text =>
      obtain ⟨text, rfl⟩ := List.getLast?_eq_some_iff.mp ends
      have free : '\n' ∉ text := fun mem => h (List.mem_append_left _ mem)
      rw [chomped_comment_return, resetLine_comment]
      simp [free]
    | blank | sample => exact ends.elim
  · rw [resetLine_chomped h ends]
    exact newline_notMem (reset_wellFormed h)

end Line

/-- An exposition: comments, blank lines and samples without timestamps. -/
@[ext] structure Exposition where
  lines : List Line
  wellFormed : ∀ line ∈ lines, line.WellFormed

namespace Exposition

def text (e : Exposition) : List Char := terminated '\n' (e.lines.map Line.text)

/-- The same lines, with each sample at 1. -/
def reset (e : Exposition) : Exposition where
  lines := e.lines.map Line.reset
  wellFormed := by
    intro line mem
    obtain ⟨line, inLines, rfl⟩ := List.mem_map.mp mem
    exact Line.reset_wellFormed (e.wellFormed line inLines)

def series (e : Exposition) : List (List Char) := e.lines.filterMap Line.series

theorem newline_notMem (e : Exposition) : ∀ line ∈ e.lines.map Line.text, '\n' ∉ line := by
  intro line mem
  obtain ⟨line, inLines, rfl⟩ := List.mem_map.mp mem
  exact Line.newline_notMem (e.wellFormed line inLines)

@[simp] theorem reset_reset (e : Exposition) : e.reset.reset = e.reset := by
  apply Exposition.ext
  simp [reset]

theorem resetCounters_text (e : Exposition) :
    resetCounters e.text = terminated '\n' (e.lines.map fun line => resetLine line.chomped) := by
  have pieces : splitInclusive '\n' e.text = (e.lines.map Line.text).map (· ++ ['\n']) :=
    Lines.splitInclusive_terminated e.newline_notMem
  have read : Telemetry.lines e.text = e.lines.map Line.chomped := by
    rw [Telemetry.lines, pieces, List.map_map, List.map_map]
    refine List.map_congr_left fun line _ => ?_
    simp only [Function.comp_apply, Line.stripSuffix_append_singleton]
    rfl
  rw [resetCounters, read, terminated, List.flatMap_map, List.flatMap_map]

/-- A reset rewrites the samples and keeps the rest, if no comment ends with a carriage return. -/
theorem resetCounters_eq {e : Exposition} (kept : ∀ line ∈ e.lines, ¬line.EndsWithReturn) :
    resetCounters e.text = e.reset.text := by
  rw [resetCounters_text, text, reset, List.map_map]
  refine congrArg _ (List.map_congr_left fun line mem => ?_)
  exact Line.resetLine_chomped (e.wellFormed line mem) (kept line mem)

/-- Whatever a reset is followed by, it has kept the lines only if no comment ends so. -/
theorem kept_of_resetCounters_append {e added added' : Exposition}
    (same : resetCounters e.text ++ added.text = e.reset.text ++ added'.text) :
    ∀ line ∈ e.lines, ¬line.EndsWithReturn := by
  rw [resetCounters_text, text, text, text, ← Lines.terminated_append,
    ← Lines.terminated_append] at same
  have free : ∀ line ∈ (e.lines.map fun line => resetLine line.chomped) ++
      added.lines.map Line.text, '\n' ∉ line := by
    refine List.forall_mem_append.mpr ⟨fun line mem => ?_, added.newline_notMem⟩
    obtain ⟨line, inLines, rfl⟩ := List.mem_map.mp mem
    exact Line.newline_notMem_resetLine (e.wellFormed line inLines)
  have free' := List.forall_mem_append.mpr ⟨e.reset.newline_notMem, added'.newline_notMem⟩
  obtain ⟨lines, -⟩ := List.append_inj (Lines.terminated_inj free free' same) (by simp [reset])
  rw [reset, List.map_map] at lines
  exact fun line mem => (Line.resetLine_chomped_iff (e.wellFormed line mem)).mp
    (List.map_inj_left.mp lines line mem)

end Exposition

/-! ### The bomb -/

theorem newline_notMem_hex16 (nonce : UInt64) : '\n' ∉ hex16 nonce := by
  have digit : ∀ n < 16, Nat.digitChar n ≠ '\n' := by decide
  intro mem
  obtain ⟨k, -, same⟩ := List.mem_map.mp mem
  exact digit _ (Nat.mod_lt _ (by decide)) same

theorem newline_notMem_toDigits (i : Nat) : '\n' ∉ Nat.toDigits 10 i := by
  intro mem
  have digit := Nat.isDigit_of_mem_toDigits (by decide) (by decide) mem
  contradiction

theorem newline_notMem_bombSeries (nonce : UInt64) (i : Nat) : '\n' ∉ bombSeries nonce i := by
  have opening : '\n' ∉ bombOpen := by decide +kernel
  have middle : '\n' ∉ bombMiddle := by decide +kernel
  have closing : '\n' ∉ bombClose := by decide +kernel
  simp only [bombSeries, List.mem_append, not_or]
  exact ⟨⟨⟨⟨opening, newline_notMem_hex16 nonce⟩, middle⟩, newline_notMem_toDigits i⟩, closing⟩

theorem bombSeries_injective (nonce : UInt64) : Function.Injective (bombSeries nonce) := by
  intro i j same
  have digits : Nat.toDigits 10 i = Nat.toDigits 10 j :=
    List.append_cancel_left (List.append_cancel_right same)
  have read := congrArg parseDigits digits
  rw [parseDigits_toDigits, parseDigits_toDigits] at read
  exact Option.some.inj read

theorem head?_bombSeries (nonce : UInt64) (i : Nat) : (bombSeries nonce i).head? = some 't' := by
  have opening : bombOpen.head? = some 't' := by decide +kernel
  simp only [bombSeries, List.head?_append, opening, Option.some_or]

def Exposition.ofBomb (nonce : UInt64) (series : UInt32) : Exposition where
  lines := .comment bombHelp.toList.tail :: .comment bombType.toList.tail ::
    (List.range series.toNat).map fun i => .sample (bombSeries nonce i) ['1']
  wellFormed := by
    have help : '\n' ∉ bombHelp.toList.tail := by decide +kernel
    have type : '\n' ∉ bombType.toList.tail := by decide +kernel
    refine List.forall_mem_cons.mpr ⟨help, List.forall_mem_cons.mpr ⟨type, fun line mem => ?_⟩⟩
    obtain ⟨i, -, rfl⟩ := List.mem_map.mp mem
    have head := head?_bombSeries nonce i
    refine ⟨fun empty => ?_, ?_, newline_notMem_bombSeries nonce i, by simp⟩
    · rw [empty, List.head?_nil] at head
      simp at head
    · rw [head]
      decide

theorem text_ofBomb (nonce : UInt64) (series : UInt32) :
    (Exposition.ofBomb nonce series).text = bomb nonce series := by
  have help : bombHelp.toList = '#' :: bombHelp.toList.tail := by decide +kernel
  have type : bombType.toList = '#' :: bombType.toList.tail := by decide +kernel
  rw [bomb, help, type]
  simp [Exposition.text, Exposition.ofBomb, terminated, Line.text, List.flatMap_map]

theorem series_ofBomb (nonce : UInt64) (series : UInt32) :
    (Exposition.ofBomb nonce series).series = (List.range series.toNat).map (bombSeries nonce) := by
  show ((List.range series.toNat).map fun i => Line.sample (bombSeries nonce i) ['1']).filterMap
    Line.series = _
  rw [List.filterMap_map]
  exact congrFun List.filterMap_eq_map _

/-! ### What a fault makes of an exposition -/

def Exposition.added (fault : TelemetryFault) (nonce : UInt64) : Exposition :=
  match fault.cardinalityBomb with
  | some series => .ofBomb nonce series
  | none => ⟨[], by simp⟩

theorem corruptMetrics_eq {fault : TelemetryFault} {roll : Double} (fired : fires fault roll)
    (rendered : List Char) (nonce : UInt64) :
    corruptMetrics rendered fault roll nonce =
      (if fault.counterReset then resetCounters rendered else rendered) ++
        (Exposition.added fault nonce).text := by
  rw [corruptMetrics, if_pos fired, Exposition.added]
  cases fault.cardinalityBomb with
  | none => exact (List.append_nil _).symm
  | some series => rw [text_ofBomb]

/-- The fault resets the samples or leaves the lines as they are, and appends as many samples as the
bomb has, all of different series; without a bomb, doing it once more changes nothing. -/
structure Corrupted (e : Exposition) (fault : TelemetryFault) (out : List Char) : Prop where
  appends : ∃ added : Exposition,
    out = (if fault.counterReset then e.reset else e).text ++ added.text ∧
    added.series.length = (fault.cardinalityBomb.elim 0 UInt32.toNat) ∧ added.series.Nodup ∧
    (fault.cardinalityBomb = none → added.lines = [])
  again : fault.cardinalityBomb = none → ∀ roll nonce, fires fault roll →
    corruptMetrics out fault roll nonce = out

theorem Line.endsWithReturn_reset (line : Line) :
    line.reset.EndsWithReturn ↔ line.EndsWithReturn := by
  cases line <;> rfl

/-- A fault that fires keeps the scrape well formed exactly if it does not reset comments that end
with a carriage return. -/
theorem corrupted_iff (e : Exposition) (fault : TelemetryFault) (roll : Double) (nonce : UInt64)
    (fired : fires fault roll) :
    Corrupted e fault (corruptMetrics e.text fault roll nonce) ↔
      (fault.counterReset → ∀ line ∈ e.lines, ¬line.EndsWithReturn) := by
  constructor
  · rintro ⟨⟨added, out, -⟩, -⟩ resets
    rw [corruptMetrics_eq fired, if_pos resets, if_pos resets] at out
    exact Exposition.kept_of_resetCounters_append out
  · intro kept
    have base : (if fault.counterReset then resetCounters e.text else e.text) =
        (if fault.counterReset then e.reset else e).text := by
      split
      · rename_i resets
        exact Exposition.resetCounters_eq (kept resets)
      · rfl
    rw [corruptMetrics_eq fired, base]
    refine ⟨⟨Exposition.added fault nonce, rfl, ?_⟩, fun noBomb roll' nonce' fired' => ?_⟩
    · unfold Exposition.added
      cases fault.cardinalityBomb with
      | none => exact ⟨rfl, List.nodup_nil, fun _ => rfl⟩
      | some series =>
        simp only [series_ofBomb, List.length_map, List.length_range, Option.elim_some, true_and]
        refine ⟨List.nodup_range.map (bombSeries_injective nonce), fun none => ?_⟩
        contradiction
    · have nothing (nonce : UInt64) : (Exposition.added fault nonce).text = [] := by
        rw [Exposition.added, noBomb]
        rfl
      rw [corruptMetrics_eq fired', nothing, nothing, List.append_nil, List.append_nil]
      split
      · rename_i resets
        have still : ∀ line ∈ e.reset.lines, ¬line.EndsWithReturn := by
          intro line mem
          obtain ⟨line, inLines, rfl⟩ := List.mem_map.mp mem
          rw [Line.endsWithReturn_reset]
          exact kept resets line inLines
        rw [Exposition.resetCounters_eq still, Exposition.reset_reset]
      · rfl

def resetting : TelemetryFault :=
  { TelemetryFault.default with rate := .finite (.ofRat 1), counterReset := true }

/-- It resets, and appends two series. -/
def bombing : TelemetryFault := { resetting with cardinalityBomb := some 2 }

def labelled : Exposition where
  lines := [.comment " TYPE m counter".toList, .blank,
    .sample "m\x7ba=\"x y\"\x7d".toList "42".toList]
  wellFormed := by decide +kernel

theorem corrupted_iff_labelled :
    let out := corruptMetrics labelled.text bombing (.finite (.ofRat 0)) 7
    Corrupted labelled bombing out ∧
      labelled.reset.lines.map Line.series = labelled.lines.map Line.series ∧
      ∃ added : Exposition, out = labelled.reset.text ++ added.text ∧ added.series.length = 2 ∧
        added.series.Nodup := by
  intro out
  have corrupted := (corrupted_iff labelled bombing (.finite (.ofRat 0)) 7 (by decide +kernel)).mpr
    fun _ => by decide +kernel
  obtain ⟨added, whole, two, distinct, -⟩ := corrupted.appends
  exact ⟨corrupted, by decide +kernel, added, whole, two, distinct⟩

def returning : Exposition where
  lines := [.comment " HELP m x\r\r".toList]
  wellFormed := by decide +kernel

/-- Each reset strips one of them. -/
theorem returns_stripped :
    ¬(∀ e fault roll nonce, fires fault roll →
      Corrupted e fault (corruptMetrics e.text fault roll nonce)) ∧
      returning.text = "# HELP m x\r\r\n".toList ∧
      resetCounters returning.text = "# HELP m x\r\n".toList ∧
      resetCounters (resetCounters returning.text) = "# HELP m x\n".toList := by
  refine ⟨fun all => ?_, by decide +kernel, by decide +kernel, by decide +kernel⟩
  have fired : fires resetting (.finite (.ofRat 0)) := by decide +kernel
  obtain ⟨⟨added, out, -⟩, -⟩ := all returning resetting (.finite (.ofRat 0)) 0 fired
  rw [corruptMetrics_eq fired] at out
  exact Exposition.kept_of_resetCounters_append out _ List.mem_cons_self (by decide +kernel)

end Servr.Telemetry
