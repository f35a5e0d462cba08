import Servr.Data
import Servr.Telemetry.Metrics
import Servr.Trace

/-! The span faults of `telemetry/src/chaos.rs`, which rewrite a batch on its way out, and the fault
of `telemetry/src/propagation.rs`, which rewrites a trace header on its way in: what they touch. -/

namespace Servr.Telemetry

open Ieee (Double)

/-! ### Times -/

def UNIX_EPOCH : Int := 0

/-- The times that a platform can represent, in nanoseconds since the epoch. -/
structure Platform where
  first : Int
  last : Int
  epoch : first ≤ UNIX_EPOCH ∧ UNIX_EPOCH ≤ last

namespace Platform

variable (platform : Platform)

def Holds (time : Int) : Prop := platform.first ≤ time ∧ time ≤ platform.last

instance : DecidablePred platform.Holds := fun _ => inferInstanceAs (Decidable (_ ∧ _))

def checkedAdd (time : Int) (delta : Nat) : Option Int :=
  if platform.Holds (time + delta) then some (time + delta) else none

def checkedSub (time : Int) (delta : Nat) : Option Int :=
  if platform.Holds (time - delta) then some (time - delta) else none

end Platform

/-- Widest skew applied in either direction: 100 years, in milliseconds. -/
def MAX_SKEW_MS : Int := 100 * 365 * 24 * 60 * 60 * 1000

def clampSkew (ms : Int64) : Int := max (-MAX_SKEW_MS) (min ms.toInt MAX_SKEW_MS)

/-- Shifts a timestamp by `ms`, clamped to `MAX_SKEW_MS`. -/
def shift (platform : Platform) (time : Int) (ms : Int64) : Int :=
  let ms := clampSkew ms
  let delta := ms.natAbs * 1000000
  let shifted := if 0 ≤ ms then platform.checkedAdd time delta else platform.checkedSub time delta
  shifted.getD UNIX_EPOCH

/-- The clamped skew in nanoseconds. -/
def skewNanos (ms : Int64) : Int := clampSkew ms * 1000000

/-- The widest skew in nanoseconds. -/
def century : Int := MAX_SKEW_MS * 1000000

theorem abs_skewNanos_le (ms : Int64) : -century ≤ skewNanos ms ∧ skewNanos ms ≤ century := by
  have lower : -MAX_SKEW_MS ≤ clampSkew ms := le_max_left _ _
  have upper : clampSkew ms ≤ MAX_SKEW_MS :=
    max_le (by decide) (min_le_right _ _)
  unfold skewNanos century
  omega

/-- A shift is by the clamped skew where the platform can represent that, and else to the epoch. -/
theorem shift_eq (platform : Platform) (time : Int) (ms : Int64) :
    shift platform time ms =
      if platform.Holds (time + skewNanos ms) then time + skewNanos ms else UNIX_EPOCH := by
  unfold shift skewNanos
  dsimp only
  by_cases forward : 0 ≤ clampSkew ms
  · have moved : time + ((clampSkew ms).natAbs * 1000000 : ℕ) =
        time + clampSkew ms * 1000000 := by omega
    rw [if_pos forward, Platform.checkedAdd, moved]
    split <;> rfl
  · have moved : time - ((clampSkew ms).natAbs * 1000000 : ℕ) =
        time + clampSkew ms * 1000000 := by omega
    rw [if_neg forward, Platform.checkedSub, moved]
    split <;> rfl

/-- A time to which every skew can be applied. -/
def Platform.Roomy (platform : Platform) (time : Int) : Prop :=
  platform.first + century ≤ time ∧ time + century ≤ platform.last

theorem shift_of_roomy {platform : Platform} {time : Int} (h : platform.Roomy time)
    (ms : Int64) : shift platform time ms = time + skewNanos ms := by
  have bounds := abs_skewNanos_le ms
  rw [shift_eq]
  refine if_pos ⟨?_, ?_⟩
  · have := h.1
    omega
  · have := h.2
    omega

theorem holds_shift (platform : Platform) (time : Int) (ms : Int64) :
    platform.Holds (shift platform time ms) := by
  rw [shift_eq]
  split
  · assumption
  · exact platform.epoch

/-! ### Spans -/

/-- `opentelemetry::Value`, of which the faults make texts only. -/
inductive AttributeValue (ν : Type)
  | string (text : List Char)
  | other (value : ν)
  deriving DecidableEq

/-- A span, with `ρ` for what else it carries. -/
structure SpanData (ν ρ : Type) where
  traceId : TraceId
  spanId : SpanId
  parentSpanId : SpanId
  startTime : Int
  endTime : Int
  attributes : List (String × AttributeValue ν)
  rest : ρ
  deriving DecidableEq

/-- Zero, which stands for no span. -/
def INVALID : SpanId := .fill 8 0

/-- A random, non-zero span id, with what is left of the draws: the loop goes on until one is not
zero, and with too few draws it has not returned. -/
def orphanParent : List SpanId → Option (SpanId × List SpanId)
  | [] => none
  | id :: draws => if id ≠ INVALID then some (id, draws) else orphanParent draws

variable {ν ρ : Type} (platform : Platform) (fault : TelemetryFault)

def SpanData.skewed (span : SpanData ν ρ) : SpanData ν ρ :=
  match fault.clockSkewMs with
  | some ms => { span with
      startTime := shift platform span.startTime ms
      endTime := shift platform span.endTime ms }
  | none => span

/-- The attribute that a fault adds. -/
def bloat : List (String × AttributeValue ν) :=
  match fault.attributeBloatBytes with
  | some bytes => [("testbed.bloat", .string (List.replicate bytes.toNat 'x'))]
  | none => []

def corruptSpan (span : SpanData ν ρ) (draws : List SpanId) :
    Option (SpanData ν ρ × List SpanId) := do
  let (span, draws) ←
    if fault.orphanSpans then
      (orphanParent draws).map fun (id, draws) => ({ span with parentSpanId := id }, draws)
    else some (span, draws)
  let span := span.skewed platform fault
  return ({ span with attributes := span.attributes ++ bloat fault }, draws)

/-- Applies every span-shaped fault to a batch. -/
def corruptBatch : List (SpanData ν ρ) → List SpanId →
    Option (List (SpanData ν ρ) × List SpanId)
  | [], draws => some ([], draws)
  | span :: batch, draws => do
    let (span, draws) ← corruptSpan platform fault span draws
    let (batch, draws) ← corruptBatch batch draws
    return (span :: batch, draws)

/-! ### What a fault makes of a span -/

/-- A fault moves a time by its skew. -/
structure Moved (time moved : Int) : Prop where
  holds : platform.Holds time → platform.Holds moved
  exact_ : platform.Roomy time → moved = time + fault.clockSkewMs.elim 0 skewNanos
  still : fault.clockSkewMs = none → moved = time

/-- A fault gives a span another parent, moves its times and pads its attributes, each if it is set,
and leaves the rest: the span keeps its identity. -/
structure Damaged (span damaged : SpanData ν ρ) : Prop where
  traceId : damaged.traceId = span.traceId
  spanId : damaged.spanId = span.spanId
  rest : damaged.rest = span.rest
  kept : ¬fault.orphanSpans → damaged.parentSpanId = span.parentSpanId
  orphan : fault.orphanSpans → damaged.parentSpanId ≠ INVALID
  startTime : Moved platform fault span.startTime damaged.startTime
  endTime : Moved platform fault span.endTime damaged.endTime
  attributes : damaged.attributes = span.attributes ++ bloat fault

variable {platform : Platform} {fault : TelemetryFault} {span damaged : SpanData ν ρ}
  {batch out : List (SpanData ν ρ)} {draws left : List SpanId}

/-- A skew moves a span and does not change how long it lasted. -/
theorem Damaged.duration (h : Damaged platform fault span damaged)
    (start : platform.Roomy span.startTime) (stop : platform.Roomy span.endTime) :
    damaged.endTime - damaged.startTime = span.endTime - span.startTime := by
  rw [h.startTime.exact_ start, h.endTime.exact_ stop]
  omega

theorem orphanParent_ne {id : SpanId} (h : orphanParent draws = some (id, left)) :
    id ≠ INVALID := by
  induction draws with
  | nil => contradiction
  | cons drawn draws ih =>
    rw [orphanParent] at h
    split at h
    · cases h
      assumption
    · exact ih h

/-- The draws that the loop takes. -/
def taken (draws : List SpanId) : List SpanId := draws.filter (· ≠ INVALID)

/-- The loop returns exactly if one of the draws is not zero, and takes the first of those. -/
theorem orphanParent_cases (draws : List SpanId) :
    orphanParent draws = none ∧ taken draws = [] ∨
      ∃ id left, orphanParent draws = some (id, left) ∧ taken draws = id :: taken left := by
  induction draws with
  | nil => exact .inl ⟨rfl, rfl⟩
  | cons drawn draws ih =>
    unfold orphanParent taken
    by_cases zero : drawn = INVALID
    · rw [if_neg (not_not_intro zero), List.filter_cons_of_neg (by simpa using zero)]
      exact ih
    · rw [if_pos zero, List.filter_cons_of_pos (by simpa using zero)]
      exact .inr ⟨drawn, draws, rfl, rfl⟩

theorem moved_skewed (span : SpanData ν ρ) :
    Moved platform fault span.startTime (span.skewed platform fault).startTime ∧
      Moved platform fault span.endTime (span.skewed platform fault).endTime := by
  unfold SpanData.skewed
  cases skew : fault.clockSkewMs with
  | none =>
    have still (time : Int) : Moved platform fault time time :=
      ⟨id, fun _ => by simp [skew], fun _ => rfl⟩
    exact ⟨still _, still _⟩
  | some ms =>
    have moved (time : Int) : Moved platform fault time (shift platform time ms) := by
      refine ⟨fun _ => holds_shift platform time ms, fun roomy => ?_, fun none => ?_⟩
      · rw [shift_of_roomy roomy, skew]
        rfl
      · rw [skew] at none
        contradiction
    exact ⟨moved _, moved _⟩

theorem skewed_frame (span : SpanData ν ρ) :
    (span.skewed platform fault).traceId = span.traceId ∧
      (span.skewed platform fault).spanId = span.spanId ∧
      (span.skewed platform fault).parentSpanId = span.parentSpanId ∧
      (span.skewed platform fault).attributes = span.attributes ∧
      (span.skewed platform fault).rest = span.rest := by
  unfold SpanData.skewed
  split <;> exact ⟨rfl, rfl, rfl, rfl, rfl⟩

/-- The last two faults on a span that has its parent. -/
theorem damaged_skewed (parented : SpanData ν ρ) (parent : SpanId)
    (same : parented = { span with parentSpanId := parent })
    (kept : ¬fault.orphanSpans → parent = span.parentSpanId)
    (orphan : fault.orphanSpans → parent ≠ INVALID) :
    Damaged platform fault span
      { parented.skewed platform fault with
        attributes := (parented.skewed platform fault).attributes ++ bloat fault } := by
  subst same
  obtain ⟨start, stop⟩ := @moved_skewed ν ρ platform fault { span with parentSpanId := parent }
  obtain ⟨traceId, spanId, parentId, attributes, rest⟩ :=
    @skewed_frame ν ρ platform fault { span with parentSpanId := parent }
  exact {
    traceId := traceId
    spanId := spanId
    rest := rest
    kept := fun off => parentId.trans (kept off)
    orphan := fun on => parentId.symm ▸ orphan on
    startTime := start
    endTime := stop
    attributes := congrArg (· ++ bloat fault) attributes }

theorem corruptSpan_damaged
    (h : corruptSpan platform fault span draws = some (damaged, left)) :
    Damaged platform fault span damaged := by
  unfold corruptSpan at h
  by_cases on : fault.orphanSpans
  · rw [if_pos on] at h
    cases drawn : orphanParent draws with
    | none => simp [drawn] at h
    | some result =>
      obtain ⟨id, after⟩ := result
      simp only [drawn, Option.map_some, Option.bind_eq_bind, Option.bind_some, Option.pure_def,
        Option.some.injEq, Prod.mk.injEq] at h
      rw [← h.1]
      exact damaged_skewed _ id rfl (absurd on) fun _ => orphanParent_ne drawn
  · rw [if_neg on] at h
    simp only [Option.bind_eq_bind, Option.bind_some, Option.pure_def, Option.some.injEq,
      Prod.mk.injEq] at h
    rw [← h.1]
    exact damaged_skewed _ span.parentSpanId rfl (fun _ => rfl) fun set => absurd set on

/-- A span takes one of the draws that are not zero if it is to be an orphan. -/
theorem corruptSpan_cases (span : SpanData ν ρ) (draws : List SpanId) :
    corruptSpan platform fault span draws = none ∧ fault.orphanSpans ∧ taken draws = [] ∨
      ∃ damaged left, corruptSpan platform fault span draws = some (damaged, left) ∧
        (taken draws).length = (taken left).length + if fault.orphanSpans then 1 else 0 := by
  unfold corruptSpan
  by_cases on : fault.orphanSpans
  · simp only [if_pos on]
    obtain ⟨none, empty⟩ | ⟨id, left, drawn, cut⟩ := orphanParent_cases draws
    · left
      rw [none]
      exact ⟨rfl, on, empty⟩
    · right
      rw [drawn]
      exact ⟨_, left, rfl, by rw [cut]; rfl⟩
  · simp only [if_neg on]
    exact .inr ⟨_, draws, rfl, rfl⟩

/-- A batch comes out with as many spans, in their order. -/
theorem corruptBatch_damaged (h : corruptBatch platform fault batch draws = some (out, left)) :
    List.Forall₂ (Damaged platform fault) batch out := by
  induction batch generalizing draws out with
  | nil =>
    cases h
    exact .nil
  | cons span batch ih =>
    simp only [corruptBatch, Option.bind_eq_bind, Option.bind_eq_some_iff, Option.pure_def,
      Option.some.injEq, Prod.mk.injEq] at h
    obtain ⟨⟨damaged, after⟩, first, ⟨rest, last⟩, others, rfl, rfl⟩ := h
    exact .cons (corruptSpan_damaged first) (ih others)

/-- The loops of a batch return exactly if there are draws enough that are not zero. -/
theorem corruptBatch_isSome_iff (batch : List (SpanData ν ρ)) (draws : List SpanId) :
    (corruptBatch platform fault batch draws).isSome ↔
      (fault.orphanSpans → batch.length ≤ (taken draws).length) := by
  induction batch generalizing draws with
  | nil => simp [corruptBatch]
  | cons span batch ih =>
    rw [corruptBatch]
    obtain ⟨none, on, empty⟩ | ⟨damaged, left, some_, count⟩ :=
      @corruptSpan_cases _ _ platform fault span draws
    · simp [none, on, empty]
    · have rest := ih left
      simp only [some_, Option.bind_eq_bind, Option.bind_some, Option.isSome_bind, Option.pure_def]
      rw [Option.any_eq_true_iff_get]
      simp only [Option.isSome_some, exists_prop, and_true]
      rw [rest, count, List.length_cons]
      refine imp_congr_right fun on => ?_
      rw [if_pos on]
      omega

end Servr.Telemetry
