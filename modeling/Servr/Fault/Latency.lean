import Mathlib.Data.Rat.Floor
import Servr.Fault.Effects

/-! The latency that `resolve` adds up, over any arithmetic for its rolls and over exact rationals,
against the sum over the rules that fire. -/

namespace Servr

open Ieee (Double)

def Arithmetic.rational : Arithmetic ℚ where
  ge roll rate := match rate with
    | .finite x => decide (x.value ≤ roll)
    | .infinite neg => neg
    | .nan => false
  jitter roll jitterMs :=
    min ⌊roll * (jitterMs.elim 0 fun j => (j.toNat : ℚ))⌋₊ (2 ^ 64 - 1)

variable {ν : Type}

/-- The milliseconds that a rule that fires is to add, if it sets a latency. -/
def latency (a : Arithmetic ν) (rule : FaultSpec × ν) : Option Nat :=
  rule.1.latencyMs.map fun base => base.toNat + a.jitter rule.2 rule.1.jitterMs

/-- A delay to which the milliseconds in `ms` are added. -/
def delayed (delay : Option Nat) (ms : List Nat) : Option Nat :=
  if ms = [] then delay else some (delay.getD 0 + ms.sum)

theorem delayed_cons (delay : Option Nat) (m : Nat) (ms : List Nat) :
    delayed delay (m :: ms) = delayed (some (delay.getD 0 + m)) ms := by
  unfold delayed
  rw [if_neg (List.cons_ne_nil m ms), List.sum_cons]
  split
  · rename_i nil
    rw [nil, List.sum_nil, Nat.add_zero]
  · rw [Option.getD_some, Nat.add_assoc]

/-- A `Duration` holds these milliseconds. -/
def HoldsMs (ms : Nat) : Prop := ms / 1000 < 2 ^ 64

instance (ms : Nat) : Decidable (HoldsMs ms) := inferInstanceAs (Decidable (_ < _))

theorem delayMsIn_eq (a : Arithmetic ν) (spec : FaultSpec) (roll : ν) :
    (spec.delayMsIn a roll).map UInt64.toNat = (latency a (spec, roll)).map (· % 2 ^ 64) := by
  unfold FaultSpec.delayMsIn latency
  cases spec.latencyMs with
  | none => rfl
  | some base =>
    simp only [Option.map_some, UInt64.toNat_add, UInt64.toNat_ofNat', Nat.add_mod_mod]

namespace Effects

/-- The delay after the rules of a list: what is left of their milliseconds, summed up, unless that
is more than a `Duration` holds. -/
theorem map_delay_resolveFromIn (a : Arithmetic ν) (roll : Nat → ν) (specs : List FaultSpec)
    (i : Nat) (e : Effects) (holds : HoldsMs (e.delay.getD 0)) :
    let ms := ((firingIn a roll specs i).filterMap (latency a)).map (· % 2 ^ 64)
    (resolveFromIn a roll specs i e).map (·.delay) =
      if HoldsMs (e.delay.getD 0 + ms.sum) then some (delayed e.delay ms) else none := by
  induction specs generalizing i e with
  | nil => simp [resolveFromIn, firingIn, delayed, holds]
  | cons spec specs ih =>
    rw [resolveFromIn, firingIn]
    by_cases loses : a.ge (roll i) spec.rate = true
    · rw [if_pos loses, if_pos loses]
      exact ih (i + 1) e holds
    · rw [if_neg loses, if_neg loses, List.filterMap_cons]
      have same := delayMsIn_eq a spec (roll (i + 1))
      cases adds : spec.delayMsIn a (roll (i + 1)) with
      | none =>
        rw [adds] at same
        have none : latency a (spec, roll (i + 1)) = none := by simpa using same.symm
        rw [none, addIn, adds]
        exact ih (i + 2) _ holds
      | some added =>
        rw [adds] at same
        obtain ⟨m, some_, left⟩ := Option.map_eq_some_iff.mp same.symm
        simp only [some_, List.map_cons, List.sum_cons, left, delayed_cons, addIn, adds, addDelay,
          addDuration]
        by_cases here : HoldsMs (e.delay.getD 0 + added.toNat)
        · have cond : (e.delay.getD 0 + added.toNat) / 1000 < 2 ^ 64 := here
          rw [if_pos cond]
          have rest := ih (i + 2) { e with
            delay := some (e.delay.getD 0 + added.toNat)
            status := (spec.status.bind StatusCode.fromU16).or e.status
            truncateAt := spec.truncateBodyAt.or e.truncateAt
            dropConnection := e.dropConnection || spec.dropConnection
            names := e.names ++ spec.effects } here
          simpa [Nat.add_assoc] using rest
        · have cond : ¬(e.delay.getD 0 + added.toNat) / 1000 < 2 ^ 64 := here
          rw [if_neg cond, if_neg]
          · rfl
          · unfold HoldsMs at here ⊢
            omega

/-! ### The exact sum -/

theorem sum_mod_le (m : Nat) (ms : List Nat) : (ms.map (· % m)).sum ≤ ms.sum := by
  induction ms with
  | nil => exact le_rfl
  | cons x ms ih =>
    have le := Nat.mod_le x m
    simp only [List.map_cons, List.sum_cons]
    omega

/-- What is left of the summands adds up to their sum exactly if nothing is lost of any. -/
theorem sum_mod_eq_iff {m : Nat} (positive : 0 < m) (ms : List Nat) :
    (ms.map (· % m)).sum = ms.sum ↔ ∀ x ∈ ms, x < m := by
  induction ms with
  | nil => simp
  | cons x ms ih =>
    have le := Nat.mod_le x m
    have rest := sum_mod_le m ms
    rw [List.forall_mem_cons, ← ih, ← Nat.mod_eq_iff_lt positive.ne', List.map_cons, List.sum_cons,
      List.sum_cons]
    omega

/-- Each of these milliseconds is a `u64`, and a `Duration` holds their sum. -/
structure Fits (ms : List Nat) : Prop where
  each : ∀ m ∈ ms, m < 2 ^ 64
  sum : HoldsMs ms.sum

/-- The delay is the sum over the rules that fire exactly if that sum fits. -/
theorem delay_eq_iff (a : Arithmetic ν) (roll : Nat → ν) (specs : List FaultSpec) :
    (∃ e, resolveIn a specs roll = some e ∧
        e.delay = delayed none ((firingIn a roll specs 0).filterMap (latency a))) ↔
      Fits ((firingIn a roll specs 0).filterMap (latency a)) := by
  have delay := map_delay_resolveFromIn a roll specs 0 default (by decide)
  generalize (firingIn a roll specs 0).filterMap (latency a) = ms at *
  simp only [default, Option.getD_none, Nat.zero_add] at delay
  have lost := sum_mod_eq_iff (show 0 < 2 ^ 64 by decide) ms
  constructor
  · rintro ⟨e, resolved, exact_⟩
    have resolved : resolveFromIn a roll specs 0 ⟨none, none, none, false, []⟩ = some e := resolved
    rw [resolved] at delay
    split at delay
    · rename_i holds
      have same : delayed none ms = delayed none (ms.map (· % 2 ^ 64)) := by
        rw [← exact_]
        exact Option.some.inj delay
      have sums : (ms.map (· % 2 ^ 64)).sum = ms.sum := by
        cases ms with
        | nil => rfl
        | cons m ms =>
          simp only [delayed, List.map_cons, reduceCtorEq, if_false, Option.getD_none,
            Nat.zero_add, Option.some.injEq] at same
          rw [same]
          rfl
      exact ⟨lost.mp sums, sums ▸ holds⟩
    · contradiction
  · rintro ⟨each, holds⟩
    have kept : ms.map (· % 2 ^ 64) = ms :=
      List.map_congr_left (fun m mem => Nat.mod_eq_of_lt (each m mem)) |>.trans (List.map_id ms)
    rw [kept, if_pos holds] at delay
    obtain ⟨e, resolved, exact_⟩ := Option.map_eq_some_iff.mp delay
    exact ⟨e, resolved, exact_⟩

end Effects

def exactMs (rule : FaultSpec × ℚ) : Option Nat :=
  rule.1.latencyMs.map fun base =>
    base.toNat + ⌊rule.2 * (rule.1.jitterMs.elim 0 fun j => (j.toNat : ℚ))⌋₊

/-- The latencies of the rules, and the jitters of those of them that set a latency. -/
def latencies (rules : List (FaultSpec × ℚ)) : List Nat :=
  rules.filterMap fun rule => rule.1.latencyMs.map UInt64.toNat

def jitters (rules : List (FaultSpec × ℚ)) : List Nat :=
  rules.filterMap fun rule => rule.1.latencyMs.map fun _ => rule.1.jitterMs.elim 0 UInt64.toNat

/-- The delay is the sum over the rules that fire and set a latency. -/
structure Summed (rules : List (FaultSpec × ℚ)) (e : Effects) : Prop where
  exact : e.delay = delayed none (rules.filterMap exactMs)
  least : (latencies rules).sum ≤ e.delay.getD 0
  most : e.delay.getD 0 ≤ (latencies rules).sum + (jitters rules).sum

theorem floor_mul_jitter_le {roll : ℚ} (below : roll < 1) (jitterMs : Option UInt64) :
    ⌊roll * (jitterMs.elim 0 fun j => (j.toNat : ℚ))⌋₊ ≤ jitterMs.elim 0 UInt64.toNat := by
  cases jitterMs with
  | none => simp
  | some j =>
    apply Nat.floor_le_of_le
    exact mul_le_of_le_one_left (Nat.cast_nonneg _) below.le

theorem latency_rational {rule : FaultSpec × ℚ} (below : rule.2 < 1) :
    latency .rational rule = exactMs rule := by
  have le := floor_mul_jitter_le below rule.1.jitterMs
  have bound : rule.1.jitterMs.elim 0 UInt64.toNat ≤ 2 ^ 64 - 1 := by
    cases rule.1.jitterMs with
    | none => exact Nat.zero_le _
    | some j => exact Nat.le_pred_of_lt j.toNat_lt
  unfold latency exactMs Arithmetic.rational
  simp only [Nat.min_eq_left (le.trans bound)]

theorem firingIn_rolls {roll : Nat → ν} {a : Arithmetic ν} {specs : List FaultSpec} {i : Nat}
    {rule : FaultSpec × ν} (mem : rule ∈ firingIn a roll specs i) : ∃ j, rule.2 = roll j := by
  induction specs generalizing i with
  | nil => simp [firingIn] at mem
  | cons spec specs ih =>
    rw [firingIn] at mem
    split at mem
    · exact ih mem
    · rcases List.mem_cons.mp mem with rfl | mem
      · exact ⟨i + 1, rfl⟩
      · exact ih mem

theorem sum_exactMs_bounds {rules : List (FaultSpec × ℚ)} (below : ∀ rule ∈ rules, rule.2 < 1) :
    (latencies rules).sum ≤ (rules.filterMap exactMs).sum ∧
      (rules.filterMap exactMs).sum ≤ (latencies rules).sum + (jitters rules).sum := by
  induction rules with
  | nil => exact ⟨le_rfl, le_rfl⟩
  | cons rule rules ih =>
    obtain ⟨here, rest⟩ := List.forall_mem_cons.mp below
    obtain ⟨least, most⟩ := ih rest
    have jitter := floor_mul_jitter_le here rule.1.jitterMs
    unfold latencies jitters at *
    cases sets : rule.1.latencyMs with
    | none =>
      have none : exactMs rule = none := by rw [exactMs, sets, Option.map_none]
      simp only [List.filterMap_cons, none, sets, Option.map_none]
      exact ⟨least, most⟩
    | some base =>
      have adds := congrArg (Option.map fun base : UInt64 => base.toNat +
        ⌊rule.2 * (rule.1.jitterMs.elim 0 fun j => (j.toNat : ℚ))⌋₊) sets
      have adds : exactMs rule = some (base.toNat +
        ⌊rule.2 * (rule.1.jitterMs.elim 0 fun j => (j.toNat : ℚ))⌋₊) := adds
      simp only [List.filterMap_cons, adds, sets, Option.map_some, List.sum_cons]
      omega

theorem getD_delayed_none (ms : List Nat) : (delayed none ms).getD 0 = ms.sum := by
  unfold delayed
  split
  · rename_i nil
    rw [nil]
    rfl
  · exact Nat.zero_add _

/-- With rolls below one, `resolve` adds up the latencies of the rules that fire and the integer
parts of their jitters exactly if each of these is a `u64` and a `Duration` holds the sum. -/
theorem summed_iff (specs : List FaultSpec) (roll : Nat → ℚ)
    (rolls : ∀ i, 0 ≤ roll i ∧ roll i < 1) :
    (∃ e, Effects.resolveIn .rational specs roll = some e ∧
        Summed (firingIn .rational roll specs 0) e) ↔
      Effects.Fits ((firingIn .rational roll specs 0).filterMap exactMs) := by
  have below : ∀ rule ∈ firingIn .rational roll specs 0, rule.2 < 1 := by
    intro rule mem
    obtain ⟨j, same⟩ := firingIn_rolls mem
    exact same ▸ (rolls j).2
  have bounds := sum_exactMs_bounds below
  have sums := Effects.delay_eq_iff .rational roll specs
  rw [List.filterMap_congr fun rule mem => latency_rational (below rule mem)] at sums
  rw [← sums]
  refine exists_congr fun e => and_congr_right fun _ => ⟨Summed.exact, fun exact_ => ?_⟩
  have total := getD_delayed_none ((firingIn .rational roll specs 0).filterMap exactMs)
  rw [← exact_] at total
  exact ⟨exact_, total ▸ bounds.1, total ▸ bounds.2⟩

def slow (latencyMs jitterMs : UInt64) : FaultSpec :=
  { FaultSpec.default with
    rate := .finite (.ofRat 1), latencyMs := some latencyMs, jitterMs := some jitterMs }

theorem summed_iff_slow :
    (∃ e, Effects.resolveIn .rational [slow 500 100] (fun _ => 1 / 2) = some e ∧
        Summed (firingIn .rational (fun _ => 1 / 2) [slow 500 100] 0) e) ∧
      ((firingIn .rational (fun _ => 1 / 2) [slow 500 100] 0).filterMap exactMs) = [550] := by
  have rules : (firingIn .rational (fun _ => 1 / 2) [slow 500 100] 0).filterMap exactMs =
      [550] := by
    decide +kernel
  refine ⟨(summed_iff _ _ fun _ => by norm_num).mpr (rules ▸ ⟨by decide, by decide⟩), rules⟩

/-- A latency of `2 ^ 64 - 1` milliseconds and a jitter of one add up to none. -/
theorem slow_wraps :
    ¬(∀ (specs : List FaultSpec) (roll : Nat → ℚ), (∀ i, 0 ≤ roll i ∧ roll i < 1) →
      ∃ e, Effects.resolveIn .rational specs roll = some e ∧
        Summed (firingIn .rational roll specs 0) e) ∧
      (Effects.resolveIn .rational [slow (.ofNat (2 ^ 64 - 1)) 2] (fun _ => 1 / 2)).map (·.delay) =
        some (some 0) := by
  have wraps : (Effects.resolveIn .rational [slow (.ofNat (2 ^ 64 - 1)) 2] (fun _ => 1 / 2)).map
      (·.delay) = some (some 0) := by
    decide +kernel
  refine ⟨fun all => ?_, wraps⟩
  obtain ⟨e, resolved, summed⟩ := all [slow (.ofNat (2 ^ 64 - 1)) 2] (fun _ => 1 / 2)
    fun _ => by norm_num
  rw [resolved, Option.map_some, Option.some_inj, summed.exact] at wraps
  exact absurd wraps (by decide +kernel)

end Servr
