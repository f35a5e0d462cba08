import Servr.Clock
import Servr.Lib.Machine

/-! The accounts of virtual time: along a run of clock operations and passing real time, `now()` is
the starting virtual time, the real time that passed while the clock was running, and the sum of
the advances, exactly as long as these come in whole milliseconds and no freeze of a frozen clock
captures a later elapsed time. -/

namespace Servr.Clock

/-- What happens to a clock between reset and reset.  Durations are in nanoseconds. -/
inductive Op
  | advance (d : Nat)
  | freeze
  | resume
  | pass (d : Nat)

/-- A clock, the real time since its epoch, and the accounts of a run: the real time that passed
while the clock was running, and the sum of the advances, in nanoseconds. -/
structure Timeline where
  clock : Clock
  elapsed : Nat
  ran : Nat
  advanced : Nat

namespace Timeline

def now (s : Timeline) : Option DateTime := s.clock.now s.elapsed

def step (s : Timeline) : Op → Timeline
  | .advance d => { s with clock := s.clock.advance d, advanced := s.advanced + d }
  | .freeze => { s with clock := s.clock.freeze s.elapsed }
  | .resume => { s with clock := s.clock.resume s.elapsed }
  | .pass d =>
    { s with elapsed := s.elapsed + d, ran := if s.clock.frozen then s.ran else s.ran + d }

/-- The sum that `now` forms is in range, and so is the date. -/
def Fits (s : Timeline) : Prop := InI64 (s.clock.virtualMs s.elapsed) ∧ s.now.isSome

instance (s : Timeline) : Decidable s.Fits := inferInstanceAs (Decidable (_ ∧ _))

/-- The sums that an operation forms stay in range, and those of `now` before and after it. -/
def StepFits (s : Timeline) (op : Op) : Prop :=
  s.Fits ∧ (s.step op).Fits ∧
  match op with
  | .advance d => InI64 (s.clock.offsetMs + millis d)
  | .resume =>
    InI64 (runningElapsedMs s.elapsed - s.clock.frozenElapsedMs) ∧
    InI64 (s.clock.offsetMs - (runningElapsedMs s.elapsed - s.clock.frozenElapsedMs))
  | .freeze | .pass _ => True

/-- The account at `s` of a run that started at virtual time `start`. -/
def Accounts (start : DateTime) (s : Timeline) : Prop :=
  s.now.map (·.nanos) = some (start.nanos + (s.ran + s.advanced))

/-- What the clock counts of an operation is all of it.  A freeze finds the clock running, or in the
millisecond of its last capture; an advance, and a stretch of real time that the clock runs
through, is a whole number of milliseconds that an `i64` holds. -/
def Exact (s : Timeline) (op : Op) : Prop :=
  match op with
  | .advance d => 1000000 ∣ d ∧ d / 1000000 < 2 ^ 63
  | .freeze => s.clock.frozen = true → s.clock.frozenElapsedMs = runningElapsedMs s.elapsed
  | .resume => True
  | .pass d =>
    s.clock.frozen = false → d = 0 ∨ 1000000 ∣ d ∧ (s.elapsed + d) / 1000000 < 2 ^ 63

/-- How far virtual time moves in a step beyond what its accounts record, in nanoseconds. -/
def drift (s : Timeline) (op : Op) : Int :=
  match op with
  | .advance d => millis d * 1000000 - d
  | .freeze =>
    if s.clock.frozen then (runningElapsedMs s.elapsed - s.clock.frozenElapsedMs) * 1000000 else 0
  | .resume => 0
  | .pass d =>
    if s.clock.frozen then 0
    else (runningElapsedMs (s.elapsed + d) - runningElapsedMs s.elapsed) * 1000000 - d

theorem drift_eq_zero {s : Timeline} {op : Op} : s.drift op = 0 ↔ s.Exact op := by
  cases op with
  | advance d =>
    simp only [drift, Exact, millis, saturatingI64]
    omega
  | freeze =>
    cases frozen : s.clock.frozen
    · simp [drift, Exact, frozen]
    · simp only [drift, Exact, frozen, if_true, forall_true_left]
      omega
  | resume => simp [drift, Exact]
  | pass d =>
    cases frozen : s.clock.frozen
    · simp only [drift, Exact, frozen, Bool.false_eq_true, if_false, forall_true_left,
        runningElapsedMs, millis, saturatingI64]
      omega
    · simp [drift, Exact, frozen]

/-- One step moves virtual time by what it adds to the accounts, and by its drift. -/
theorem virtualMs_step {s : Timeline} {op : Op} (h : s.StepFits op) :
    ((s.step op).clock.virtualMs (s.step op).elapsed - s.clock.virtualMs s.elapsed) * 1000000 =
      ((s.step op).ran + (s.step op).advanced) - (s.ran + s.advanced) + s.drift op := by
  obtain ⟨-, -, sums⟩ := h
  cases op with
  | advance d =>
    simp only [step, drift, virtualMs_advance sums]
    omega
  | freeze =>
    simp only [step, drift]
    cases frozen : s.clock.frozen
    · simp [virtualMs_freeze_running frozen]
    · rw [virtualMs_freeze_frozen frozen, if_pos rfl]
      omega
  | resume =>
    simp only [step, drift, virtualMs_resume sums.1 sums.2]
    omega
  | pass d =>
    cases frozen : s.clock.frozen <;>
      simp only [step, drift, virtualMs, elapsedMs, frozen, if_true, Bool.false_eq_true,
        if_false] <;> omega

@[simp] theorem epochWall_step (s : Timeline) (op : Op) :
    (s.step op).clock.epochWall = s.clock.epochWall := by
  cases op <;> simp [step]

/-- The accounts that hold before a step hold after it exactly if the step does not drift. -/
theorem accounts_step {start : DateTime} {s : Timeline} {op : Op} (h : s.Accounts start)
    (fits : s.StepFits op) : (s.step op).Accounts start ↔ s.Exact op := by
  obtain ⟨before, hBefore⟩ := Option.isSome_iff_exists.mp fits.1.2
  obtain ⟨after, hAfter⟩ := Option.isSome_iff_exists.mp fits.2.1.2
  have moved := virtualMs_step fits
  rw [Accounts, hBefore, Option.map_some, Option.some_inj] at h
  rw [Accounts, hAfter, Option.map_some, Option.some_inj, ← drift_eq_zero]
  rw [now, now_eq fits.1.1, DateTime.addMillis_eq_some] at hBefore
  rw [now, now_eq fits.2.1.1, epochWall_step, DateTime.addMillis_eq_some] at hAfter
  omega

instance (s : Timeline) (op : Op) : Decidable (s.StepFits op) := by
  cases op <;> unfold StepFits <;> infer_instance

instance (s : Timeline) (op : Op) : Decidable (s.Exact op) := by
  cases op <;> unfold Exact <;> infer_instance

instance (start : DateTime) (s : Timeline) : Decidable (s.Accounts start) :=
  inferInstanceAs (Decidable (_ = _))

/-- A clock `elapsed` nanoseconds after its epoch, with its accounts open. -/
def opening (c : Clock) (elapsed : Nat) : Timeline := ⟨c, elapsed, 0, 0⟩

/-- From any clock, along any run with sums in range, the accounts of virtual time hold after every
operation exactly if every operation is counted in full: it comes in whole milliseconds, and no
freeze of a frozen clock captures a later elapsed time. -/
theorem accounts_throughout_iff (c : Clock) (elapsed : Nat) (start : DateTime) (ops : List Op)
    (now : c.now elapsed = some start)
    (fits : Machine.Along step StepFits (opening c elapsed) ops) :
    Machine.Throughout step (Accounts start) (opening c elapsed) ops ↔
      Machine.Along step Exact (opening c elapsed) ops := by
  refine Machine.throughout_iff_along (fun _ _ h hf => accounts_step h hf) ?_ fits
  have opened : (opening c elapsed).now = some start := now
  rw [Accounts, opened]
  simp [opening]

/-- An advance of a clock frozen for 5 ms and a fraction, which is resumed and runs on for 2 ms. -/
theorem accounts_throughout_iff_frozen :
    let ops := [.freeze, .pass 5000017, .advance 30000000000, .resume, .pass 2000000]
    let s := opening (Clock.new DateTime.unixEpoch) 0
    Machine.Throughout step (Accounts DateTime.unixEpoch) s ops ↔ Machine.Along step Exact s ops :=
  accounts_throughout_iff (Clock.new DateTime.unixEpoch) 0 DateTime.unixEpoch _ (by decide)
    (by decide)

/-- A second freeze 5 ms after the first moves the virtual time of a frozen clock by 5 ms. -/
theorem freeze_again_jumps : ¬∀ (c : Clock) (elapsed : Nat) (start : DateTime) (ops : List Op),
    c.now elapsed = some start → Machine.Along step StepFits (opening c elapsed) ops →
      Machine.Throughout step (Accounts start) (opening c elapsed) ops := by
  intro accounts
  have := accounts (Clock.new DateTime.unixEpoch) 0 DateTime.unixEpoch
    [.freeze, .pass 5000000, .freeze] (by decide) (by decide)
  exact absurd this (by decide)

end Timeline

end Servr.Clock
