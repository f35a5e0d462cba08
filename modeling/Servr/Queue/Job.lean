import Servr.Lib.Cjson
import Servr.Time
import Servr.Trace

/-! Jobs, as `queue/src/job.rs` has them. -/

namespace Servr

abbrev Uuid := HexId 16

@[ext] structure RunId where
  uuid : Uuid
  deriving DecidableEq

@[ext] structure JobId where
  uuid : Uuid
  deriving DecidableEq

inductive JobState
  | scheduled
  | running
  | succeeded
  | failed
  | dead
  deriving DecidableEq, Repr

def JobState.isTerminal : JobState → Bool
  | .succeeded | .dead => true
  | .scheduled | .running | .failed => false

/-- The name that serde gives a state. -/
def JobState.name : JobState → String
  | .scheduled => "scheduled"
  | .running => "running"
  | .succeeded => "succeeded"
  | .failed => "failed"
  | .dead => "dead"

@[ext] structure Job where
  id : JobId
  run : RunId
  kind : String
  payload : Json.Value
  state : JobState
  /-- Attempts made so far. -/
  attempt : UInt32
  maxAttempts : UInt32
  /-- Virtual time the job becomes runnable. -/
  dueAt : DateTime
  backoffMs : List UInt64
  enqueuedTrace : Option TraceId
  enqueuedSpan : Option SpanId
  lastError : Option String

namespace Job

/-- `Job::new`, with the identifier that `JobId::new` draws as an argument. -/
def new (id : JobId) (run : RunId) (kind : String) (dueAt : DateTime) : Job where
  id := id
  run := run
  kind := kind
  payload := .null
  state := .scheduled
  attempt := 0
  maxAttempts := 3
  dueAt := dueAt
  backoffMs := [1000, 5000, 30000]
  enqueuedTrace := none
  enqueuedSpan := none
  lastError := none

def withPayload (j : Job) (payload : Json.Value) : Job := { j with payload := payload }

def withMaxAttempts (j : Job) (max : UInt32) : Job := { j with maxAttempts := max }

def withBackoff (j : Job) (backoffMs : List UInt64) : Job := { j with backoffMs := backoffMs }

def withTrace (j : Job) (trace : TraceId) (span : SpanId) : Job :=
  { j with enqueuedTrace := some trace, enqueuedSpan := some span }

/-- Whether another attempt is permitted after the one just failed. -/
def canRetry (j : Job) : Bool := j.attempt < j.maxAttempts

/-- Virtual delay before the next attempt: the entry of the attempt just made, or the last one. -/
def nextBackoffMs (j : Job) : UInt64 :=
  match j.backoffMs.getLast? with
  | none => 0
  | some last => (j.backoffMs[j.attempt.toNat - 1]?).getD last

/-- What a claim makes of a job: running, with one more attempt.  The counter wraps, as `u32`
arithmetic does in a release build. -/
def claimed (j : Job) : Job := { j with state := .running, attempt := j.attempt + 1 }

/-- A job as it is first enqueued. -/
structure Fresh (j : Job) : Prop where
  scheduled : j.state = .scheduled
  unattempted : j.attempt = 0

theorem fresh_new (id : JobId) (run : RunId) (kind : String) (dueAt : DateTime) :
    (new id run kind dueAt).Fresh := ⟨rfl, rfl⟩

@[simp] theorem claimed_id (j : Job) : j.claimed.id = j.id := rfl
@[simp] theorem claimed_state (j : Job) : j.claimed.state = .running := rfl
@[simp] theorem claimed_attempt (j : Job) : j.claimed.attempt = j.attempt + 1 := rfl
@[simp] theorem claimed_kind (j : Job) : j.claimed.kind = j.kind := rfl
@[simp] theorem claimed_maxAttempts (j : Job) : j.claimed.maxAttempts = j.maxAttempts := rfl
@[simp] theorem claimed_dueAt (j : Job) : j.claimed.dueAt = j.dueAt := rfl

theorem toNat_claimed_attempt {j : Job} (h : j.attempt.toNat + 1 < 2 ^ 32) :
    j.claimed.attempt.toNat = j.attempt.toNat + 1 := by
  rw [claimed_attempt, UInt32.toNat_add, UInt32.toNat_one, Nat.mod_eq_of_lt h]

theorem canRetry_iff {j : Job} : j.canRetry = true ↔ j.attempt.toNat < j.maxAttempts.toNat := by
  simp [canRetry, UInt32.lt_iff_toNat_lt]

/-- A job that may be retried has attempts left to count. -/
theorem attempt_lt_of_canRetry {j : Job} (h : j.canRetry = true) :
    j.attempt.toNat + 1 < 2 ^ 32 := by
  have less := canRetry_iff.mp h
  have bound := j.maxAttempts.toNat_lt
  omega

end Job

end Servr
