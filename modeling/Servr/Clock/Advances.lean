import Servr.Clock
import Servr.Lib.Machine

/-! The requests that advance the clock, one after another since a reset: which sequences of them
leave a clock whose `now()` returns, and whose sums do not wrap. -/

namespace Servr.Clock

/-- What happens to a clock after a reset: real time passes, in nanoseconds, and requests of
`/_admin/clock/advance` come in. -/
inductive Tick
  | pass (d : Nat)
  | advance (ms : UInt64)

/-- A clock, the real time since its epoch, and the milliseconds that were asked for. -/
structure Advancing where
  clock : Clock
  elapsed : Nat
  asked : Nat

namespace Advancing

def now (s : Advancing) : Option DateTime := s.clock.now s.elapsed

/-- `Duration::from_millis(ms)`, in nanoseconds. -/
def fromMillis (ms : UInt64) : Nat := ms.toNat * 1000000

def step (s : Advancing) : Tick → Advancing
  | .pass d => { s with elapsed := s.elapsed + d }
  | .advance ms =>
    { s with clock := s.clock.advance (fromMillis ms), asked := s.asked + ms.toNat }

/-- The sums of a step do not wrap: that of the offset, and that which `now` forms after it. -/
def NoWrap (s : Advancing) (tick : Tick) : Prop :=
  (match tick with
    | .advance ms => InI64 (s.clock.offsetMs + millis (fromMillis ms))
    | .pass _ => True) ∧
  InI64 ((s.step tick).clock.virtualMs (s.step tick).elapsed)

/-- Nothing wraps in a step, and `now` returns after it what is no earlier than before. -/
def Sound (s : Advancing) (tick : Tick) : Prop :=
  s.NoWrap tick ∧ ∃ t t', s.now = some t ∧ (s.step tick).now = some t' ∧ t ≤ t'

/-- The wall time of the epoch, the time since then and what was asked for add up to a date. -/
def InRange (s : Advancing) : Prop :=
  s.clock.epochWall.nanos + (s.elapsed / 1000000 + s.asked : Nat) * 1000000 ≤ maxNanos

/-- The clock runs, and its offset is what was asked for. -/
structure Exact (s : Advancing) : Prop where
  running : s.clock.frozen = false
  offset : s.clock.offsetMs = s.asked

theorem millis_fromMillis (ms : UInt64) : millis (fromMillis ms) = saturatingI64 ms.toNat := by
  rw [millis, fromMillis, Nat.mul_div_cancel _ (by decide)]

theorem virtualMs_eq {s : Advancing} (exact : s.Exact) :
    s.clock.virtualMs s.elapsed = saturatingI64 (s.elapsed / 1000000) + s.asked := by
  rw [virtualMs, elapsedMs, exact.running, exact.offset]
  rfl

/-- In range, no sum wraps and `now` returns the exact date. -/
theorem now_of_inRange {s : Advancing} (exact : s.Exact) (fits : s.InRange) :
    InI64 (s.clock.virtualMs s.elapsed) ∧ ∃ t, s.now = some t ∧
      t.nanos = s.clock.epochWall.nanos + (s.elapsed / 1000000 + s.asked : Nat) * 1000000 := by
  have low := s.clock.epochWall.low
  have value : s.clock.virtualMs s.elapsed = (s.elapsed / 1000000 + s.asked : Nat) := by
    rw [virtualMs_eq exact, saturatingI64]
    simp only [InRange, minNanos, maxNanos] at fits low
    push_cast at fits ⊢
    omega
  have small : InI64 (s.clock.virtualMs s.elapsed) := by
    rw [value]
    simp only [InRange, minNanos, maxNanos] at fits low
    constructor <;> norm_num <;> omega
  refine ⟨small, ⟨_, ?_, fits⟩, ?_, rfl⟩
  · omega
  · rw [now, now_eq small, DateTime.addMillis_eq_some, value]

/-- Out of range, a sum wraps or `now` panics. -/
theorem inRange_of_now {s : Advancing} (running : s.clock.frozen = false)
    (offset : saturatingI64 s.asked ≤ s.clock.offsetMs)
    (fits : InI64 (s.clock.virtualMs s.elapsed)) {t : DateTime} (now : s.now = some t) :
    s.InRange := by
  rw [Advancing.now, now_eq fits, DateTime.addMillis_eq_some] at now
  have high := t.high
  have low := s.clock.epochWall.low
  rw [now, virtualMs, elapsedMs, running, runningElapsedMs, millis] at high
  simp only [Bool.false_eq_true, if_false, saturatingI64] at high offset
  simp only [InRange, minNanos, maxNanos] at high low ⊢
  push_cast
  omega

@[simp] theorem epochWall_step (s : Advancing) (tick : Tick) :
    (s.step tick).clock.epochWall = s.clock.epochWall := by
  cases tick <;> rfl

theorem le_step (s : Advancing) (tick : Tick) : s.elapsed / 1000000 + s.asked ≤
    (s.step tick).elapsed / 1000000 + (s.step tick).asked := by
  cases tick with
  | pass d => exact Nat.add_le_add_right (Nat.div_le_div_right (Nat.le_add_right _ _)) _
  | advance ms => exact Nat.add_le_add_left (Nat.le_add_right _ _) _

theorem InRange.of_step {s : Advancing} {tick : Tick} (h : (s.step tick).InRange) : s.InRange := by
  have later := s.le_step tick
  unfold InRange at h ⊢
  rw [epochWall_step] at h
  omega

/-- What was asked for fits in the offset as long as the sums are in range. -/
theorem exact_step {s : Advancing} {tick : Tick} (exact : s.Exact) (fits : (s.step tick).InRange) :
    (s.step tick).Exact := by
  cases tick with
  | pass d => exact ⟨exact.running, exact.offset⟩
  | advance ms =>
    have low := s.clock.epochWall.low
    simp only [InRange, step, epochWall_advance, minNanos, maxNanos] at fits low
    refine ⟨exact.running, ?_⟩
    simp only [step, Clock.advance, millis_fromMillis, exact.offset, saturatingI64]
    rw [asI64_of_mem (by constructor <;> norm_num <;> omega)]
    push_cast
    omega

/-- From a clock in range, a step is sound exactly if the clock is in range after it. -/
theorem sound_iff {s : Advancing} {tick : Tick} (exact : s.Exact) (fits : s.InRange) :
    s.Sound tick ↔ (s.step tick).InRange := by
  constructor
  · rintro ⟨⟨offset, sum⟩, t, t', -, now', -⟩
    refine inRange_of_now ?_ ?_ sum now'
    · cases tick <;> exact exact.running
    · cases tick with
      | pass d =>
        rw [step, exact.offset]
        exact min_le_left _ _
      | advance ms =>
        simp only [step, Clock.advance]
        rw [asI64_of_mem offset, exact.offset, millis_fromMillis]
        simp only [saturatingI64]
        omega
  · intro fits'
    have exact' := exact_step exact fits'
    obtain ⟨-, t, now, ht⟩ := now_of_inRange exact fits
    obtain ⟨sum, t', now', ht'⟩ := now_of_inRange exact' fits'
    refine ⟨⟨?_, sum⟩, t, t', now, now', ?_⟩
    · cases tick with
      | pass d => trivial
      | advance ms =>
        have low := s.clock.epochWall.low
        simp only [InRange, step, epochWall_advance, minNanos, maxNanos] at fits' low
        dsimp only
        rw [exact.offset, millis_fromMillis, saturatingI64]
        constructor <;> norm_num <;> omega
    · rw [DateTime.le_iff, ht, ht', epochWall_step]
      have later := s.le_step tick
      omega

theorem survives_from {s : Advancing} {ticks : List Tick} (exact : s.Exact) (fits : s.InRange) :
    Machine.Along step Sound s ticks ↔ (ticks.foldl step s).InRange :=
  Machine.along_iff_last (fun _ _ exact _ fits => exact_step exact fits)
    (fun _ _ => InRange.of_step) (fun _ _ => sound_iff) exact fits

/-- A clock `elapsed` nanoseconds after its epoch, just reset. -/
def opening (c : Clock) (elapsed : Nat) : Advancing := ⟨c.reset, elapsed, 0⟩

/-- `now` returns after the reset, and every step after it is sound. -/
def Survives (c : Clock) (elapsed : Nat) (ticks : List Tick) : Prop :=
  (opening c elapsed).now.isSome ∧ Machine.Along step Sound (opening c elapsed) ticks

/-- The real time that passes in a sequence, and the milliseconds that it asks for. -/
def passed : List Tick → Nat
  | [] => 0
  | .pass d :: ticks => d + passed ticks
  | .advance _ :: ticks => passed ticks

def asks : List Tick → Nat
  | [] => 0
  | .pass _ :: ticks => asks ticks
  | .advance ms :: ticks => ms.toNat + asks ticks

theorem foldl_step (s : Advancing) (ticks : List Tick) :
    (ticks.foldl step s).clock.epochWall = s.clock.epochWall ∧
    (ticks.foldl step s).elapsed = s.elapsed + passed ticks ∧
    (ticks.foldl step s).asked = s.asked + asks ticks := by
  induction ticks generalizing s with
  | nil => exact ⟨rfl, rfl, rfl⟩
  | cons tick ticks ih =>
    obtain ⟨wall, elapsed, asked⟩ := ih (s.step tick)
    rw [List.foldl_cons, wall, elapsed, asked, epochWall_step]
    cases tick with
    | pass d => exact ⟨rfl, Nat.add_assoc .., rfl⟩
    | advance ms => exact ⟨rfl, rfl, Nat.add_assoc ..⟩

/-- After a reset, `now` keeps returning, never goes back and nothing wraps, through any advances
and any real time, exactly if the wall time of the epoch, the real time and the sum of the advances
add up to no more than the last date there is. -/
theorem survives_iff (c : Clock) (elapsed : Nat) (ticks : List Tick) :
    Survives c elapsed ticks ↔ c.epochWall.nanos +
      ((elapsed + passed ticks) / 1000000 + asks ticks : Nat) * 1000000 ≤ maxNanos := by
  have exact : (opening c elapsed).Exact := ⟨rfl, rfl⟩
  have last : (ticks.foldl step (opening c elapsed)).InRange ↔ c.epochWall.nanos +
      ((elapsed + passed ticks) / 1000000 + asks ticks : Nat) * 1000000 ≤ maxNanos := by
    obtain ⟨wall, passes, asked⟩ := foldl_step (opening c elapsed) ticks
    rw [InRange, wall, passes, asked]
    simp only [opening, Clock.reset, Nat.zero_add]
  rw [← last, Survives]
  constructor
  · rintro ⟨returns, sound⟩
    obtain ⟨t, now⟩ := Option.isSome_iff_exists.mp returns
    have small : InI64 ((opening c elapsed).clock.virtualMs (opening c elapsed).elapsed) := by
      rw [virtualMs_eq exact]
      simp only [opening, saturatingI64]
      constructor <;> norm_num
      omega
    have first : (opening c elapsed).InRange := inRange_of_now rfl (Int.le_refl 0) small now
    exact (survives_from exact first).mp sound
  · intro fits
    have first : (opening c elapsed).InRange := Machine.of_last (fun _ _ => InRange.of_step) fits
    obtain ⟨-, t, now, -⟩ := now_of_inRange exact first
    exact ⟨Option.isSome_iff_exists.mpr ⟨t, now⟩, (survives_from exact first).mpr fits⟩

/-- A clock that has run for a millisecond accepts a request with the largest number of
milliseconds, and from then on `now` panics. -/
theorem largest_advance_panics :
    let s := opening (Clock.new DateTime.unixEpoch) 1000000
    let request := Tick.advance 18446744073709551615
    s.now.isSome ∧ (s.step request).now = none ∧
      ¬Survives (Clock.new DateTime.unixEpoch) 1000000 [request] := by
  have panics : ((opening (Clock.new DateTime.unixEpoch) 1000000).step
      (.advance 18446744073709551615)).now = none := by decide +kernel
  refine ⟨by decide +kernel, panics, ?_⟩
  rintro ⟨-, ⟨-, -, t, -, now, -⟩, -⟩
  rw [panics] at now
  contradiction

end Advancing

end Servr.Clock
