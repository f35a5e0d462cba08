import Servr.Time

/-! The virtual clock of `core/src/clock.rs`.  Each operation reads or writes the atomics of a
`Clock`; the monotonic time since the clock's `epoch`, which `Instant::elapsed` reads, is an
argument `elapsed` in nanoseconds. -/

namespace Servr

/-- The fields of a `Clock`, with the epoch itself left to the `elapsed` argument of its methods. -/
structure Clock where
  epochWall : DateTime
  offsetMs : Int
  frozen : Bool
  /-- Elapsed-since-epoch captured at the moment of freezing, in milliseconds. -/
  frozenElapsedMs : Int
  deriving DecidableEq

namespace Clock

/-- Whole milliseconds of a `Duration` in nanoseconds, as an `i64`. -/
def millis (d : Nat) : Int := saturatingI64 (d / 1000000)

/-- What `running_elapsed_ms` reads from the monotonic clock. -/
def runningElapsedMs (elapsed : Nat) : Int := millis elapsed

def elapsedMs (c : Clock) (elapsed : Nat) : Int :=
  if c.frozen then c.frozenElapsedMs else runningElapsedMs elapsed

/-- Current virtual time, where `none` is the panic of a sum that chrono cannot hold. -/
def now (c : Clock) (elapsed : Nat) : Option DateTime :=
  c.epochWall.addMillis (asI64 (c.elapsedMs elapsed + c.offsetMs))

/-- Moves virtual time forward by `d` nanoseconds, of which the clock counts whole milliseconds. -/
def advance (c : Clock) (d : Nat) : Clock :=
  { c with offsetMs := asI64 (c.offsetMs + millis d) }

def freeze (c : Clock) (elapsed : Nat) : Clock :=
  { c with frozenElapsedMs := runningElapsedMs elapsed, frozen := true }

def resume (c : Clock) (elapsed : Nat) : Clock :=
  if c.frozen then
    let skipped := asI64 (runningElapsedMs elapsed - c.frozenElapsedMs)
    { c with frozen := false, offsetMs := asI64 (c.offsetMs - skipped) }
  else c

def reset (c : Clock) : Clock := { c with offsetMs := 0, frozen := false, frozenElapsedMs := 0 }

/-- A clock running in step with the wall time `wall`, at zero offset. -/
def new (wall : DateTime) : Clock :=
  { epochWall := wall, offsetMs := 0, frozen := false, frozenElapsedMs := 0 }

/-- A clock pinned to `at_`, already frozen. -/
def frozenAt (at_ : DateTime) (elapsed : Nat) : Clock :=
  freeze { epochWall := at_, offsetMs := 0, frozen := true, frozenElapsedMs := 0 } elapsed

/-- A clock carrying `offset`, frozen or not, for a restored snapshot. -/
def restore (wall : DateTime) (offset : Int) (frozen : Bool) (elapsed : Nat) : Clock :=
  let clock := { new wall with offsetMs := offset }
  if frozen then clock.freeze elapsed else clock

/-- Virtual milliseconds since the epoch, before `now` adds them to the epoch's wall time. -/
def virtualMs (c : Clock) (elapsed : Nat) : Int := c.elapsedMs elapsed + c.offsetMs

theorem runningElapsedMs_mono {e f : Nat} (h : e ≤ f) : runningElapsedMs e ≤ runningElapsedMs f :=
  saturatingI64_mono (Nat.div_le_div_right h)

theorem millis_nonneg (d : Nat) : 0 ≤ millis d := saturatingI64_nonneg _

theorem now_eq {c : Clock} {elapsed : Nat} (h : InI64 (c.virtualMs elapsed)) :
    c.now elapsed = c.epochWall.addMillis (c.virtualMs elapsed) := by
  rw [now, ← virtualMs, asI64_of_mem h]

/-! What one operation does to the virtual milliseconds, sums in range. -/

theorem virtualMs_advance {c : Clock} {d : Nat} (h : InI64 (c.offsetMs + millis d))
    (elapsed : Nat) : (c.advance d).virtualMs elapsed = c.virtualMs elapsed + millis d := by
  simp only [virtualMs, advance, elapsedMs, asI64_of_mem h]
  omega

theorem virtualMs_freeze_running {c : Clock} (h : c.frozen = false) (elapsed : Nat) :
    (c.freeze elapsed).virtualMs elapsed = c.virtualMs elapsed := by
  simp [virtualMs, freeze, elapsedMs, h]

/-- A freeze of a frozen clock captures the elapsed time again: virtual time moves by all the real
time since the first capture. -/
theorem virtualMs_freeze_frozen {c : Clock} (h : c.frozen = true) (elapsed : Nat) :
    (c.freeze elapsed).virtualMs elapsed =
      c.virtualMs elapsed + (runningElapsedMs elapsed - c.frozenElapsedMs) := by
  simp only [virtualMs, freeze, elapsedMs, h, if_true]
  omega

theorem virtualMs_resume {c : Clock} {elapsed : Nat}
    (skip : InI64 (runningElapsedMs elapsed - c.frozenElapsedMs))
    (sum : InI64 (c.offsetMs - (runningElapsedMs elapsed - c.frozenElapsedMs))) :
    (c.resume elapsed).virtualMs elapsed = c.virtualMs elapsed := by
  unfold resume
  split
  · rename_i frozen
    simp only [virtualMs, elapsedMs, frozen, asI64_of_mem skip, asI64_of_mem sum, if_true,
      Bool.false_eq_true, if_false]
    omega
  · rfl

@[simp] theorem epochWall_advance (c : Clock) (d : Nat) :
    (c.advance d).epochWall = c.epochWall := rfl

@[simp] theorem epochWall_freeze (c : Clock) (elapsed : Nat) :
    (c.freeze elapsed).epochWall = c.epochWall := rfl

@[simp] theorem epochWall_resume (c : Clock) (elapsed : Nat) :
    (c.resume elapsed).epochWall = c.epochWall := by
  unfold resume
  split <;> rfl

end Clock

end Servr
