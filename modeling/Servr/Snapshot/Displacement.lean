import Servr.Clock.Accounting
import Servr.Snapshot

/-! What a snapshot keeps of the distance between virtual time and wall time.  A clock that was
captured while it runs comes back at the distance that it had; one that was captured while it is
frozen loses the real time since the freeze, which only `resume` takes into the offset. -/

namespace Servr.Snapshot.Displacement

open Clock (Timeline runningElapsedMs)

/-- The whole milliseconds by which virtual time is behind wall time, rounded down. -/
def lagMs (wall virtualNow : DateTime) : Int := (wall.nanos - virtualNow.nanos) / 1000000

/-- A clock of this process after a run of operations and passing real time.  It booted at the wall
time `wall` with the offset and the flag of a snapshot, or with offset 0 and running. -/
def after (wall : DateTime) (offset : Int) (frozen : Bool) (elapsed : Nat) (ops : List Clock.Op) :
    Timeline :=
  ops.foldl Timeline.step (Timeline.opening (Clock.restore wall offset frozen elapsed) elapsed)

/-- Where the clock is frozen, the whole milliseconds since its epoch are still as many as the last
freeze captured. -/
def JustFrozen (s : Timeline) : Prop :=
  s.clock.frozen = true → s.clock.frozenElapsedMs = runningElapsedMs s.elapsed

instance (s : Timeline) : Decidable (JustFrozen s) := inferInstanceAs (Decidable (_ → _))

theorem epochWall_restore (wall : DateTime) (offset : Int) (frozen : Bool) (elapsed : Nat) :
    (Clock.restore wall offset frozen elapsed).epochWall = wall := by
  cases frozen <;> rfl

theorem epochWall_after (wall : DateTime) (offset : Int) (frozen : Bool) (elapsed : Nat)
    (ops : List Clock.Op) : (after wall offset frozen elapsed ops).clock.epochWall = wall := by
  unfold after
  induction ops using List.reverseRecOn with
  | nil => exact epochWall_restore wall offset frozen elapsed
  | append_singleton ops op ih => simpa using ih

/-- A restored clock has the offset that it is given, at the instant of the restore. -/
theorem virtualMs_restore (wall : DateTime) (offset : Int) (frozen : Bool) (elapsed : Nat) :
    (Clock.restore wall offset frozen elapsed).virtualMs elapsed =
      runningElapsedMs elapsed + offset := by
  cases frozen <;> rfl

theorem offsetMs_restore (wall : DateTime) (offset : Int) (frozen : Bool) (elapsed : Nat) :
    (Clock.restore wall offset frozen elapsed).offsetMs = offset := by
  cases frozen <;> rfl

/-- Two times whose distance is counted from one monotonic reading. -/
theorem lagMs_eq {c : Clock} {elapsed : Nat} {wall virtualNow : DateTime}
    (together : wall.nanos = c.epochWall.nanos + elapsed) (fits : InI64 (c.virtualMs elapsed))
    (now : c.now elapsed = some virtualNow) :
    lagMs wall virtualNow = runningElapsedMs elapsed - c.virtualMs elapsed := by
  rw [Clock.now_eq fits, DateTime.addMillis_eq_some] at now
  have low := c.epochWall.low
  have high := wall.high
  simp only [minNanos, maxNanos] at low high
  simp only [lagMs, runningElapsedMs, Clock.millis, saturatingI64]
  omega

/-- What the resume of a clock takes off its offset: the time since it was frozen. -/
theorem offsetMs_resume {c : Clock} {elapsed : Nat}
    (skip : InI64 (runningElapsedMs elapsed - c.frozenElapsedMs))
    (sum : InI64 (c.offsetMs - (runningElapsedMs elapsed - c.frozenElapsedMs))) :
    (c.resume elapsed).offsetMs =
      if c.frozen then c.offsetMs - (runningElapsedMs elapsed - c.frozenElapsedMs)
      else c.offsetMs := by
  unfold Clock.resume
  split
  · simp only [asI64_of_mem skip, asI64_of_mem sum]
  · rfl

/-- A clock that is resumed at the instant of its restore has the offset that was restored. -/
theorem offsetMs_resume_restore {offset : Int} (h : InI64 offset) (wall : DateTime) (frozen : Bool)
    (elapsed : Nat) :
    ((Clock.restore wall offset frozen elapsed).resume elapsed).offsetMs = offset := by
  cases frozen with
  | false => rfl
  | true =>
    have skipped : asI64 (runningElapsedMs elapsed - runningElapsedMs elapsed) = 0 := by
      rw [Int.sub_self]
      rfl
    show asI64 (offset - asI64 (runningElapsedMs elapsed - runningElapsedMs elapsed)) = offset
    rw [skipped, Int.sub_zero, asI64_of_mem h]

/-- A snapshot of a clock in any state reached by advances, freezes, resumes and passing real time
restores its distance from wall time exactly if the clock runs or no whole millisecond has passed
since it was frozen; and that is exactly when it makes no difference whether the clock is resumed
before the capture or after the restore. -/
theorem displacement_iff {wall : DateTime} {offset : Int} {frozen : Bool} {elapsed : Nat}
    {ops : List Clock.Op} {s : Timeline} (reached : s = after wall offset frozen elapsed ops)
    (fits : s.StepFits .resume) {plane : State} (clock : plane.clock = s.clock)
    {created : DateTime} (together : created.nanos = wall.nanos + s.elapsed) {snapshot : Snapshot}
    (captured : capture plane created s.elapsed = some snapshot) {wall' read virtualNow : DateTime}
    {elapsed' : Nat} (together' : read.nanos = wall'.nanos + elapsed')
    (fits' : InI64 snapshot.clockOffsetMs ∧
      InI64 (runningElapsedMs elapsed' + snapshot.clockOffsetMs))
    (restored : (snapshot.restoreClock wall' elapsed').now elapsed' = some virtualNow) :
    (lagMs read virtualNow = lagMs snapshot.createdAt snapshot.virtualNow ↔ JustFrozen s) ∧
    ∀ resumed,
      capture (plane.apply (.resume s.elapsed)) created s.elapsed = some resumed →
      (((snapshot.restoreClock wall' elapsed').resume elapsed').offsetMs =
        (resumed.restoreClock wall' elapsed').offsetMs ↔ JustFrozen s) := by
  have epoch : s.clock.epochWall = wall := reached ▸ epochWall_after wall offset frozen elapsed ops
  obtain ⟨createdAt, now, offsetMs, -⟩ := clock_capture captured
  obtain ⟨⟨fitsNow, -⟩, -, skip, sum⟩ := fits
  rw [clock] at now offsetMs
  rw [restoreClock] at restored ⊢
  constructor
  · have later : lagMs read virtualNow = -snapshot.clockOffsetMs := by
      rw [lagMs_eq (by rw [together', epochWall_restore]) (by rw [virtualMs_restore]; exact fits'.2)
        restored, virtualMs_restore]
      omega
    have before : lagMs snapshot.createdAt snapshot.virtualNow =
        runningElapsedMs s.elapsed - s.clock.virtualMs s.elapsed :=
      lagMs_eq (by rw [createdAt, together, epoch]) fitsNow now
    rw [later, before, offsetMs, JustFrozen, Clock.virtualMs, Clock.elapsedMs]
    cases s.clock.frozen
    · simp
    · simp
      omega
  · intro resumed capturedResumed
    obtain ⟨-, -, resumedMs, -⟩ := clock_capture capturedResumed
    have folded : resumed.clockOffsetMs = (s.clock.resume s.elapsed).offsetMs := by
      rw [resumedMs, ← clock]
      rfl
    rw [offsetMs_resume_restore fits'.1, restoreClock, offsetMs_restore, folded,
      offsetMs_resume skip sum, offsetMs, JustFrozen]
    cases s.clock.frozen
    · simp
    · simp
      omega

/-- A control plane over the clock of `s`. -/
def planeAt (s : Timeline) : State := State.plain s.clock

def oneHour : DateTime := ⟨3600000000000, by decide, by decide⟩

/-- A clock that is frozen, advanced by a second and captured at once, restored an hour later. -/
theorem displacement_iff_advanced :
    let s := after DateTime.unixEpoch 0 false 0 [.freeze, .advance 1000000000]
    ∃ snapshot virtualNow, capture (planeAt s) DateTime.unixEpoch s.elapsed = some snapshot ∧
      (snapshot.restoreClock oneHour 0).now 0 = some virtualNow ∧
      (lagMs oneHour virtualNow = lagMs snapshot.createdAt snapshot.virtualNow ↔ JustFrozen s) := by
  intro s
  have now : (planeAt s).clock.now s.elapsed = some ⟨1000000000, by decide, by decide⟩ := by decide
  have captured : capture (planeAt s) DateTime.unixEpoch s.elapsed = some _ := capture_eq now
  have restored : (Clock.restore oneHour 1000 true 0).now 0 =
      some ⟨3601000000000, by decide, by decide⟩ := by decide
  have together : oneHour.nanos = oneHour.nanos + (0 : Nat) := by decide
  exact ⟨_, _, captured, restored, (displacement_iff rfl (by decide) rfl (by decide) captured
    together (by decide) restored).1⟩

/-- A clock that is frozen for an hour is an hour behind when it is captured, and not when it is
restored. -/
theorem frozen_hour_lost : ¬∀ (wall : DateTime) (offset : Int) (frozen : Bool) (elapsed : Nat)
    (ops : List Clock.Op) (s : Timeline), s = after wall offset frozen elapsed ops →
    s.StepFits .resume → ∀ plane : State, plane.clock = s.clock →
    ∀ created : DateTime, created.nanos = wall.nanos + s.elapsed →
    ∀ snapshot, capture plane created s.elapsed = some snapshot →
    ∀ wall' read virtualNow : DateTime, ∀ elapsed' : Nat, read.nanos = wall'.nanos + elapsed' →
    InI64 snapshot.clockOffsetMs ∧ InI64 (runningElapsedMs elapsed' + snapshot.clockOffsetMs) →
    (snapshot.restoreClock wall' elapsed').now elapsed' = some virtualNow →
    lagMs read virtualNow = lagMs snapshot.createdAt snapshot.virtualNow := by
  intro kept
  have now : (planeAt (after DateTime.unixEpoch 0 false 0 [.freeze, .pass 3600000000000])).clock.now
      3600000000000 = some DateTime.unixEpoch := by decide
  have same := kept DateTime.unixEpoch 0 false 0 [.freeze, .pass 3600000000000] _ rfl (by decide) _
    rfl oneHour (by decide) _ (capture_eq now) oneHour oneHour oneHour 0 (by decide) (by decide)
    (by decide)
  exact absurd same (by decide)

end Servr.Snapshot.Displacement
