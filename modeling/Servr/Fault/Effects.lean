import Servr.Fault

/-! The effects that `resolve` reports against the effects that it sets: the rules that fire decide
both, and they agree unless every status among those rules is one that no response can carry. -/

namespace Servr

open Ieee (Double)

variable {ν : Type}

/-- The rules of a list that fire, from the `i`-th roll on, each with its second roll: a rule draws
one roll, and a second one when it fires. -/
def firingIn (a : Arithmetic ν) (roll : Nat → ν) : List FaultSpec → Nat → List (FaultSpec × ν)
  | [], _ => []
  | spec :: specs, i =>
    if a.ge (roll i) spec.rate then firingIn a roll specs (i + 1)
    else (spec, roll (i + 1)) :: firingIn a roll specs (i + 2)

/-- The rules that fire in the code. -/
def firing (roll : Nat → Double) (specs : List FaultSpec) (i : Nat) : List FaultSpec :=
  (firingIn .double roll specs i).map Prod.fst

@[simp] theorem firing_nil (roll : Nat → Double) (i : Nat) : firing roll [] i = [] := rfl

theorem firing_cons (roll : Nat → Double) (spec : FaultSpec) (specs : List FaultSpec) (i : Nat) :
    firing roll (spec :: specs) i =
      if (roll i).ge spec.rate then firing roll specs (i + 1)
      else spec :: firing roll specs (i + 2) := by
  rw [firing, firingIn]
  split
  · exact (if_pos ‹_›).symm
  · exact (if_neg ‹_›).symm

/-- A rule that names a status that a response can carry. -/
def FaultSpec.SetsStatus (spec : FaultSpec) : Prop := ∃ s, spec.status = some s ∧ ValidStatus s

theorem FaultSpec.setsStatus_iff {spec : FaultSpec} :
    spec.SetsStatus ↔ (spec.status.bind StatusCode.fromU16).isSome := by
  unfold SetsStatus StatusCode.fromU16
  cases spec.status with
  | none => simp
  | some s =>
    by_cases valid : ValidStatus s <;> simp [valid]

section Names

variable {spec : FaultSpec}

theorem FaultSpec.latency_mem : "latency" ∈ spec.effects ↔ spec.latencyMs.isSome := by
  unfold effects
  split_ifs <;> simp [*]

theorem FaultSpec.status_mem : "status" ∈ spec.effects ↔ spec.status.isSome := by
  unfold effects
  split_ifs <;> simp [*]

theorem FaultSpec.truncate_mem : "truncate" ∈ spec.effects ↔ spec.truncateBodyAt.isSome := by
  unfold effects
  split_ifs <;> simp [*]

theorem FaultSpec.drop_mem : "drop" ∈ spec.effects ↔ spec.dropConnection := by
  unfold effects
  split_ifs <;> simp [*]

theorem FaultSpec.effects_eq_nil : spec.effects = [] ↔
    ¬(spec.latencyMs.isSome ∨ spec.status.isSome ∨ spec.truncateBodyAt.isSome ∨
      spec.dropConnection) := by
  unfold effects
  split_ifs <;> simp [*]

end Names

namespace Effects

/-- The effects are those of the rules `fs`, and the names are the names of these rules. -/
structure Made (e : Effects) (fs : List FaultSpec) : Prop where
  names : e.names = fs.flatMap FaultSpec.effects
  delay : e.delay.isSome ↔ ∃ spec ∈ fs, spec.latencyMs.isSome
  status : e.status.isSome ↔ ∃ spec ∈ fs, spec.SetsStatus
  truncate : e.truncateAt.isSome ↔ ∃ spec ∈ fs, spec.truncateBodyAt.isSome
  drop : e.dropConnection ↔ ∃ spec ∈ fs, spec.dropConnection

theorem made_default : default.Made [] := by
  constructor <;> simp [default]

theorem addDelay_isSome {delay delay' : Option Nat} {ms : Option UInt64}
    (h : addDelay delay ms = some delay') : delay'.isSome ↔ delay.isSome ∨ ms.isSome := by
  cases ms with
  | none =>
    cases h
    simp
  | some ms =>
    obtain ⟨sum, -, rfl⟩ := Option.map_eq_some_iff.mp h
    simp

/-- A rule that fires adds its names and its effects. -/
theorem Made.add {e e' : Effects} {fs : List FaultSpec} {spec : FaultSpec} {roll : Double}
    (made : e.Made fs) (h : e.add spec roll = some e') : e'.Made (fs ++ [spec]) := by
  obtain ⟨delay, sum, rfl⟩ := Option.map_eq_some_iff.mp h
  have last (P : FaultSpec → Prop) : (∃ s ∈ fs ++ [spec], P s) ↔ (∃ s ∈ fs, P s) ∨ P spec := by
    simp [or_and_right, exists_or]
  constructor
  · simp [made.names]
  · rw [last, ← made.delay, addDelay_isSome sum, FaultSpec.delayMsIn, Option.isSome_map]
  · rw [last, ← made.status, FaultSpec.setsStatus_iff, Option.isSome_or, Bool.or_eq_true, or_comm]
  · rw [last, ← made.truncate, Option.isSome_or, Bool.or_eq_true, or_comm]
  · rw [last, ← made.drop, Bool.or_eq_true]

theorem Made.resolveFrom {roll : Nat → Double} {specs fs : List FaultSpec} {i : Nat}
    {e e' : Effects} (made : e.Made fs) (h : resolveFrom roll specs i e = some e') :
    e'.Made (fs ++ firing roll specs i) := by
  induction specs generalizing fs i e with
  | nil =>
    cases h
    simpa using made
  | cons spec specs ih =>
    rw [resolveFrom_cons] at h
    rw [firing_cons]
    split at h
    · rename_i loses
      rw [if_pos loses]
      exact ih made h
    · rename_i fires
      obtain ⟨next, added, rest⟩ := Option.bind_eq_some_iff.mp h
      rw [if_neg fires, List.append_cons]
      exact ih (made.add added) rest

theorem made_resolve {roll : Nat → Double} {specs : List FaultSpec} {e : Effects}
    (h : resolve specs roll = some e) : e.Made (firing roll specs 0) :=
  made_default.resolveFrom h

/-- The names say which effects are set. -/
structure Reported (e : Effects) : Prop where
  latency : "latency" ∈ e.names ↔ e.delay.isSome
  status : "status" ∈ e.names ↔ e.status.isSome
  truncate : "truncate" ∈ e.names ↔ e.truncateAt.isSome
  drop : "drop" ∈ e.names ↔ e.dropConnection
  fired : e.fired ↔ e.delay.isSome ∨ e.status.isSome ∨ e.truncateAt.isSome ∨ e.dropConnection

/-- The rules that fire set a status if they name one. -/
def StatusValid (fs : List FaultSpec) : Prop :=
  (∃ spec ∈ fs, spec.status.isSome) → ∃ spec ∈ fs, spec.SetsStatus

theorem Made.fired_iff {e : Effects} {fs : List FaultSpec} (made : e.Made fs) :
    e.fired ↔ e.delay.isSome ∨ (∃ spec ∈ fs, spec.status.isSome) ∨ e.truncateAt.isSome ∨
      e.dropConnection := by
  have nonempty : e.fired ↔ ∃ spec ∈ fs, spec.effects ≠ [] := by
    simp [fired, made.names]
  rw [nonempty, made.delay, made.truncate, made.drop]
  simp only [ne_eq, FaultSpec.effects_eq_nil, not_not, and_or_left, exists_or]

theorem Made.reported_iff {e : Effects} {fs : List FaultSpec} (made : e.Made fs) :
    e.Reported ↔ StatusValid fs := by
  have named {name : String} {P : FaultSpec → Prop}
      (h : ∀ spec : FaultSpec, name ∈ spec.effects ↔ P spec) :
      name ∈ e.names ↔ ∃ spec ∈ fs, P spec := by
    simp [made.names, h]
  have sets : (∃ spec ∈ fs, spec.SetsStatus) → ∃ spec ∈ fs, spec.status.isSome := by
    rintro ⟨spec, mem, s, named, -⟩
    exact ⟨spec, mem, by simp [named]⟩
  constructor
  · intro reported some
    exact made.status.mp (reported.status.mp ((named fun _ => FaultSpec.status_mem).mpr some))
  · intro valid
    have status : (∃ spec ∈ fs, spec.status.isSome) ↔ e.status.isSome := by
      rw [made.status]
      exact ⟨valid, sets⟩
    exact {
      latency := (named fun _ => FaultSpec.latency_mem).trans made.delay.symm
      status := (named fun _ => FaultSpec.status_mem).trans status
      truncate := (named fun _ => FaultSpec.truncate_mem).trans made.truncate.symm
      drop := (named fun _ => FaultSpec.drop_mem).trans made.drop.symm
      fired := by rw [made.fired_iff, status] }

/-- What `resolve` reports is what it sets, exactly if among the rules that fire there is one with a
status from 100 to 999 whenever there is one with a status. -/
theorem resolve_reported_iff {roll : Nat → Double} {specs : List FaultSpec} {e : Effects}
    (h : resolve specs roll = some e) : e.Reported ↔ StatusValid (firing roll specs 0) :=
  (made_resolve h).reported_iff

/-- A rule that always fires, with a status. -/
def withStatus (status : UInt16) : FaultSpec :=
  { FaultSpec.default with rate := .finite (.ofRat 1), status := some status }

theorem resolve_reported_iff_unavailable :
    (⟨none, StatusCode.fromU16 503, none, false, ["status"]⟩ : Effects).Reported ↔
      StatusValid (firing (fun _ => .finite (.ofRat 0)) [withStatus 503] 0) :=
  resolve_reported_iff (by decide +kernel)

/-- A rule with the status 0 is reported as a status and sets none. -/
theorem status_zero_not_reported : ∃ e,
    resolve [withStatus 0] (fun _ => .finite (.ofRat 0)) = some e ∧
      e.fired ∧ e.status = none ∧ ¬e.Reported := by
  refine ⟨⟨none, none, none, false, ["status"]⟩, by decide +kernel, rfl, rfl, fun reported => ?_⟩
  simpa using reported.status

/-! `resolve` returns unless the sum of the delays is more than a `Duration` holds, which takes over
a thousand rules. -/

theorem addDelay_of_le {delay : Option Nat} {n : Nat} (ms : Option UInt64)
    (bound : delay.getD 0 ≤ n * (2 ^ 64 - 1)) (small : n < 1000) :
    ∃ delay', addDelay delay ms = some delay' ∧ delay'.getD 0 ≤ (n + 1) * (2 ^ 64 - 1) := by
  cases ms with
  | none => exact ⟨delay, rfl, bound.trans (Nat.mul_le_mul_right _ (Nat.le_succ n))⟩
  | some ms =>
    have lt := ms.toNat_lt
    have fits : (delay.getD 0 + ms.toNat) / 1000 < 2 ^ 64 := by omega
    refine ⟨some (delay.getD 0 + ms.toNat), ?_, ?_⟩
    · rw [addDelay, addDuration, if_pos fits, Option.map_some]
    · rw [Option.getD_some]
      omega

theorem resolveFrom_isSome {roll : Nat → Double} {specs : List FaultSpec} {i n : Nat} {e : Effects}
    (bound : e.delay.getD 0 ≤ n * (2 ^ 64 - 1)) (few : n + specs.length ≤ 1000) :
    ∃ e', resolveFrom roll specs i e = some e' := by
  induction specs generalizing i n e with
  | nil => exact ⟨e, rfl⟩
  | cons spec specs ih =>
    rw [List.length_cons] at few
    rw [resolveFrom_cons]
    split
    · exact ih bound (by omega)
    · obtain ⟨delay, sum, bound⟩ := addDelay_of_le (spec.delayMs (roll (i + 1))) bound (by omega)
      rw [FaultSpec.delayMs] at sum
      rw [add, addIn, sum, Option.map_some, Option.bind_some]
      exact ih bound (by omega)

theorem resolve_isSome {specs : List FaultSpec} (roll : Nat → Double) (few : specs.length ≤ 1000) :
    ∃ e, resolve specs roll = some e :=
  resolveFrom_isSome (n := 0) (Nat.zero_le _) (by omega)

end Effects

end Servr
