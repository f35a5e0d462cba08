import Servr.Queue.Lifecycle

/-! When jobs are due: the job that `POST /_admin/jobs` enqueues, and the retries of its failed
attempts, over runs in which jobs are enqueued and the scheduler ticks at any readings of the
clock. -/

namespace Servr

/-- The body of `POST /_admin/jobs`. -/
structure NewJob where
  kind : String
  /-- Delay in virtual milliseconds. -/
  delayMs : UInt64
  payload : Option Json.Value
  maxAttempts : Option UInt32
  backoffMs : Option (List UInt64)

/-- The job that `enqueue_job` puts, with the identifier and the span that it draws, at the reading
`now` of the clock; `none` is the panic of the sum. -/
def NewJob.job (body : NewJob) (id : JobId) (run : RunId) (trace : Option (TraceId × SpanId))
    (now : DateTime) : Option Job :=
  (now.addMillis (asI64 body.delayMs.toNat)).map fun dueAt =>
    let j := Job.new id run body.kind dueAt
    let j := body.payload.elim j j.withPayload
    let j := body.maxAttempts.elim j j.withMaxAttempts
    let j := body.backoffMs.elim j j.withBackoff
    trace.elim j fun (trace, span) => j.withTrace trace span

structure NewJob.Puts (body : NewJob) (id : JobId) (j : Job) : Prop extends j.Fresh where
  id : j.id = id
  backoffMs : j.backoffMs = body.backoffMs.getD [1000, 5000, 30000]

theorem NewJob.job_eq_some {body : NewJob} {id : JobId} {run : RunId}
    {trace : Option (TraceId × SpanId)} {now : DateTime} {j : Job}
    (h : body.job id run trace now = some j) :
    now.addMillis (asI64 body.delayMs.toNat) = some j.dueAt ∧ body.Puts id j := by
  obtain ⟨dueAt, sum, rfl⟩ := Option.map_eq_some_iff.mp h
  rw [sum]
  rcases body with ⟨kind, delayMs, _ | payload, _ | max, _ | backoffMs⟩ <;>
    rcases trace with _ | ⟨trace, span⟩ <;> exact ⟨rfl, ⟨rfl, rfl⟩, rfl, rfl⟩

namespace DueTimes

open Scheduler

/-- The milliseconds from the failure of attempt `k` to the next attempt: an entry for each attempt,
the last one also for the attempts past the end, and none in an empty list. -/
def delayAfter (backoffMs : List UInt64) (k : Nat) : Nat :=
  (backoffMs[min k backoffMs.length - 1]?).elim 0 UInt64.toNat

theorem toNat_nextBackoffMs (j : Job) :
    j.nextBackoffMs.toNat = delayAfter j.backoffMs j.attempt.toNat := by
  unfold Job.nextBackoffMs delayAfter
  cases last : j.backoffMs.getLast? with
  | none =>
    rw [List.getLast?_eq_none_iff.mp last]
    rfl
  | some ms =>
    rw [List.getLast?_eq_getElem?] at last
    by_cases inside : j.attempt.toNat ≤ j.backoffMs.length
    · -- The entry of an attempt, or for attempt zero the first of a list that is not empty.
      obtain ⟨short, -⟩ := List.getElem?_eq_some_iff.mp last
      have bound : j.attempt.toNat - 1 < j.backoffMs.length := by omega
      rw [Nat.min_eq_left inside, List.getElem?_eq_getElem bound]
      rfl
    · have past : j.backoffMs.length ≤ j.attempt.toNat - 1 := by omega
      rw [Nat.min_eq_right (by omega), last, List.getElem?_eq_none past]
      rfl

/-- A call that reads the store and the clock. -/
inductive Call
  | enqueue (body : NewJob) (id : JobId) (run : RunId) (trace : Option (TraceId × SpanId))
      (now : DateTime)
  /-- A tick that reads `now` first and `later j` while it executes `j`. -/
  | tick (sch : Scheduler) (now : DateTime) (later : Job → DateTime)

/-- The store after a call, unless the call panics. -/
def Call.run (s : MemoryStore) : Call → Option MemoryStore
  | enqueue body id run trace now => (body.job id run trace now).map s.put
  | tick sch now later => (Scheduler.tick MemoryStore.store sch now later s).map Prod.snd

/-- The store after a call of a run, in which no call has panicked. -/
def next (s : Option MemoryStore) (c : Call) : Option MemoryStore := s.bind c.run

/-- What becomes of a job that a tick takes from the store at `now` and executes at `later`, leaving
the store `t`: it was due, its attempts are counted without an overflow, and when the attempt fails
and may be retried, it is due again the delay of that attempt after the failure. -/
structure Executed (sch : Scheduler) (now later : DateTime) (t : MemoryStore) (j : Job) :
    Prop where
  onTime : j.dueAt ≤ now
  counted : j.claimed.attempt.toNat = j.attempt.toNat + 1
  retried : ∀ e, sch.outcome j.claimed = .error e → j.claimed.canRetry →
    ∃ next, t.jobs.lookup j.id = some next ∧ next.state = .scheduled ∧
      next.attempt = j.claimed.attempt ∧ next.backoffMs = j.backoffMs ∧
      later.After (delayAfter j.backoffMs j.claimed.attempt.toNat) next.dueAt

/-- A call that does not panic, and by which jobs are due when they are to be. -/
def OnTime : Option MemoryStore → Call → Prop
  | none, _ => False
  | some s, .enqueue body id run trace now =>
    ∃ j, (Call.enqueue body id run trace now).run s = some (s.put j) ∧ body.Puts id j ∧
      now.After body.delayMs.toNat j.dueAt
  | some s, .tick sch now later =>
    ∃ t, (Call.tick sch now later).run s = some t ∧
      ∀ id j, s.jobs.lookup id = some j → j.Due now → Executed sch now (later j.claimed) t j

/-- A call after which every time that it is to count to is one that chrono holds. -/
def HasRoom : Option MemoryStore → Call → Prop
  | none, _ => False
  | some _, .enqueue body _ _ _ now => now.HasRoom body.delayMs.toNat
  | some s, .tick sch now later =>
    ∀ id j, s.jobs.lookup id = some j → j.Due now → ∀ e, sch.outcome j.claimed = .error e →
      j.claimed.canRetry →
      (later j.claimed).HasRoom (delayAfter j.backoffMs j.claimed.attempt.toNat)

/-! ### One call -/

theorem settle_retry {e : String} {now : DateTime} {j : Job} (retry : j.canRetry) :
    settle (.error e) now j = (now.addMillis (asI64 j.nextBackoffMs.toNat)).map fun dueAt =>
      { j with lastError := some e, state := .scheduled, dueAt := dueAt } := by
  have same : ({ j with lastError := some e } : Job).canRetry = true := retry
  simp only [settle, same, if_true]
  rfl

/-- A job is settled unless it is to be retried at a time that chrono does not hold. -/
theorem settle_isSome {outcome : Except String Unit} {now : DateTime} {j : Job}
    (room : ∀ e, outcome = .error e → j.canRetry →
      now.HasRoom (delayAfter j.backoffMs j.attempt.toNat)) :
    ∃ next, settle outcome now j = some next := by
  cases outcome with
  | ok => exact ⟨_, rfl⟩
  | error e =>
    by_cases retry : j.canRetry
    · obtain ⟨dueAt, sum, -⟩ := (room e rfl retry).addMillis
      rw [← toNat_nextBackoffMs] at sum
      rw [settle_retry retry, sum]
      exact ⟨_, rfl⟩
    · refine ⟨{ j with lastError := some e, state := .dead }, ?_⟩
      have same : ({ j with lastError := some e } : Job).canRetry = false :=
        (Bool.not_eq_true _).mp retry
      simp only [settle, same, Bool.false_eq_true, if_false]

theorem executeEach_isSome {σ : Type} {store : JobStore σ} {sch : Scheduler}
    {later : Job → DateTime} {due : List Job}
    (settles : ∀ j ∈ due, ∃ next, settle (sch.outcome j) (later j) j = some next) (s : σ) :
    ∃ r, executeEach store sch later due s = some r := by
  induction due generalizing s with
  | nil => exact ⟨_, rfl⟩
  | cons j due ih =>
    obtain ⟨next, settled⟩ := settles j List.mem_cons_self
    obtain ⟨⟨rest, t⟩, others⟩ :=
      ih (fun j' mem => settles j' (List.mem_cons_of_mem _ mem)) (persist store next s)
    have first : execute store sch (later j) j s =
        some (⟨[sch.call j], stepEvents j next⟩, persist store next s) :=
      congrArg (Option.map _) settled
    refine ⟨(Passed.append ⟨[sch.call j], stepEvents j next⟩ rest, t), ?_⟩
    rw [executeEach, first]
    exact congrArg (Option.map _) others

/-- The jobs that are scheduled have attempts left for the counter to hold. -/
def CanCount (s : MemoryStore) : Prop :=
  ∀ id j, s.jobs.lookup id = some j → j.state = .scheduled → j.attempt.toNat + 1 < 2 ^ 32

theorem onTime_enqueue_iff {s : MemoryStore} {body : NewJob} {id : JobId} {run : RunId}
    {trace : Option (TraceId × SpanId)} {now : DateTime} :
    OnTime (some s) (.enqueue body id run trace now) ↔
      HasRoom (some s) (.enqueue body id run trace now) := by
  constructor
  · rintro ⟨j, -, -, after⟩
    exact after.hasRoom
  · intro room
    obtain ⟨dueAt, sum, after⟩ := DateTime.HasRoom.addMillis room
    cases built : body.job id run trace now with
    | none => simp [NewJob.job, sum] at built
    | some j =>
      obtain ⟨same, puts⟩ := NewJob.job_eq_some built
      obtain rfl : dueAt = j.dueAt := Option.some.inj (sum.symm.trans same)
      exact ⟨j, by rw [Call.run, built]; rfl, puts, after⟩

theorem executed_of_tick {s t : MemoryStore} {sch : Scheduler} {now : DateTime}
    {later : Job → DateTime} {passed : Passed} {id : JobId} {j : Job} (canCount : CanCount s)
    (run : Scheduler.tick MemoryStore.store sch now later s = some (passed, t))
    (found : s.jobs.lookup id = some j) (due : j.Due now)
    (room : ∀ e, sch.outcome j.claimed = .error e → j.claimed.canRetry →
      (later j.claimed).HasRoom (delayAfter j.backoffMs j.claimed.attempt.toNat)) :
    Executed sch now (later j.claimed) t j := by
  obtain ⟨next, settled, stored, -⟩ := Lifecycle.tick_due run found due
  obtain rfl : j.id = id := s.keyed found
  refine ⟨due.2, Job.toNat_claimed_attempt (canCount _ j found due.1), fun e failed retry => ?_⟩
  obtain ⟨dueAt, sum, after⟩ := (room e failed retry).addMillis
  have delay := toNat_nextBackoffMs j.claimed
  rw [show j.claimed.backoffMs = j.backoffMs from rfl] at delay
  rw [failed, settle_retry retry, delay, sum, Option.map_some, Option.some_inj] at settled
  subst settled
  exact ⟨_, stored, rfl, rfl, rfl, after⟩

theorem onTime_tick_iff {s : MemoryStore} (canCount : CanCount s) {sch : Scheduler}
    {now : DateTime} {later : Job → DateTime} :
    OnTime (some s) (.tick sch now later) ↔ HasRoom (some s) (.tick sch now later) := by
  constructor
  · rintro ⟨t, -, executed⟩ id j found due e failed retry
    obtain ⟨next, -, -, -, -, after⟩ := (executed id j found due).retried e failed retry
    exact after.hasRoom
  · intro room
    have settles : ∀ j ∈ (s.claimDue now).1,
        ∃ next, settle (sch.outcome j) (later j) j = some next := by
      intro j mem
      obtain ⟨j, found, due, rfl⟩ := MemoryStore.mem_claimDue.mp mem
      exact settle_isSome (room _ j found due)
    have run : ∃ r, Scheduler.tick MemoryStore.store sch now later s = some r :=
      executeEach_isSome settles _
    obtain ⟨⟨passed, t⟩, run⟩ := run
    refine ⟨t, by rw [Call.run, run]; rfl, fun id j found due => ?_⟩
    exact executed_of_tick canCount run found due (room id j found due)

theorem CanCount.put {s : MemoryStore} {j : Job} (h : CanCount s) (fresh : j.attempt = 0) :
    CanCount (s.put j) := by
  intro id j' found scheduled
  rw [MemoryStore.lookup_put] at found
  split at found
  · cases found
    rw [fresh]
    decide
  · exact h id j' found scheduled

theorem CanCount.tick {s t : MemoryStore} {sch : Scheduler} {now : DateTime}
    {later : Job → DateTime} {passed : Passed} (h : CanCount s)
    (run : Scheduler.tick MemoryStore.store sch now later s = some (passed, t)) : CanCount t := by
  intro id next found scheduled
  cases before : s.jobs.lookup id with
  | none =>
    obtain ⟨same, -⟩ := Lifecycle.tick_frame id run (by simp [before])
    rw [same, before] at found
    contradiction
  | some j =>
    by_cases due : j.Due now
    · obtain ⟨next', settled, stored, -⟩ := Lifecycle.tick_due run before due
      obtain rfl : next' = next := Option.some.inj (stored.symm.trans found)
      obtain ⟨back, ⟨-, state⟩ | ⟨-, retry, -⟩ | ⟨-, -, state⟩⟩ := settle_cases settled
      · rw [state] at scheduled
        contradiction
      · exact back.attempt ▸ Job.attempt_lt_of_canRetry retry
      · rw [state] at scheduled
        contradiction
    · obtain ⟨same, -⟩ := Lifecycle.tick_frame id run fun j' found' =>
        Option.some.inj (before.symm.trans found') ▸ due
      exact h id next (same ▸ found) scheduled

/-! ### Runs -/

def Inv : Option MemoryStore → Prop
  | none => False
  | some s => CanCount s

theorem Inv.next {s : Option MemoryStore} {c : Call} (h : Inv s) (onTime : OnTime s c) :
    Inv (next s c) := by
  cases s with
  | none => exact h
  | some s =>
    cases c with
    | enqueue body id run trace now =>
      obtain ⟨j, put, puts, -⟩ := onTime
      rw [DueTimes.next, Option.bind_some, put]
      exact CanCount.put h puts.unattempted
    | tick sch now later =>
      obtain ⟨t, ran, -⟩ := onTime
      rw [DueTimes.next, Option.bind_some, ran]
      obtain ⟨⟨passed, t⟩, run, rfl⟩ := Option.map_eq_some_iff.mp ran
      exact CanCount.tick h run

/-- Whatever jobs are enqueued and whenever the scheduler ticks, no call panics and all jobs are due
when they are to be exactly if every time that a call is to count to is one that chrono holds. -/
theorem onTime_run_iff (calls : List Call) :
    Machine.Along next OnTime (some MemoryStore.new) calls ↔
      Machine.Along next HasRoom (some MemoryStore.new) calls := by
  refine Machine.along_congr (I := Inv) (fun s c inv => ?_) (fun _ _ inv => inv.next)
    (fun id j found => by simp at found)
  cases s with
  | none => exact inv.elim
  | some s =>
    cases c with
    | enqueue => exact onTime_enqueue_iff
    | tick => exact onTime_tick_iff inv

def endless : NewJob := ⟨"noop", .ofNat (2 ^ 64 - 1), none, none, none⟩

/-- The delay becomes `-1`: the job is due before it is enqueued, and the next tick runs it. -/
theorem endless_due_at_once :
    ¬(∀ calls, Machine.Along next OnTime (some MemoryStore.new) calls) ∧
      (endless.job ⟨HexId.fill 16 0⟩ ⟨HexId.fill 16 0⟩ none DateTime.unixEpoch).map
        (·.dueAt.nanos) = some (-1000000) := by
  refine ⟨fun all => ?_, by decide +kernel⟩
  obtain ⟨⟨j, -, -, after⟩, -⟩ :=
    all [.enqueue endless ⟨HexId.fill 16 0⟩ ⟨HexId.fill 16 0⟩ none DateTime.unixEpoch]
  exact absurd after.hasRoom (by decide +kernel)

end DueTimes

end Servr
