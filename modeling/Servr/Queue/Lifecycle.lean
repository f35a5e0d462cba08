import Servr.Clock
import Servr.Lib.Machine
import Servr.Queue.Scheduler

/-! The life of a job over whole runs with a `MemoryStore`: jobs are enqueued, the clock is
advanced, time passes and the scheduler ticks, in any order.  The invariant ties the stored record
of a job to the executions of it and to the events that it left on the bus. -/

namespace Servr.Lifecycle

open Scheduler

/-- An execution on record, with the reading of the clock of its tick and the scheduler that ran
it. -/
structure Attempt extends Execution where
  now : DateTime
  scheduler : Scheduler

/-- The clock and the real time since its epoch, the store, the bus, and a record of every
execution that a tick has returned. -/
structure System where
  clock : Clock
  elapsed : Nat
  store : MemoryStore
  events : List JobTransition
  attempts : List Attempt

namespace System

def attemptsOf (s : System) (id : JobId) : List Attempt := s.attempts.filter fun a => a.job.id = id

/-- How often the handler of a job has been invoked. -/
def invocations (s : System) (id : JobId) : Nat :=
  ((s.attemptsOf id).filter (·.answer.isSome)).length

def Fresh (s : System) : Prop := s.store = MemoryStore.new ∧ s.events = [] ∧ s.attempts = []

end System

/-- The executions that a tick at `now` has returned, as they go on record. -/
def attemptsAt (sch : Scheduler) (now : DateTime) (executions : List Execution) : List Attempt :=
  executions.map fun e => ⟨e, now, sch⟩

/-- Steps of a system whose handlers are for the kinds in `registered`.  What a handler returns may
differ from tick to tick, and so may the order of the map of jobs. -/
inductive Step (registered : String → Bool) : System → System → Prop
  | enqueue {s} (j : Job) : j.Fresh → s.store.jobs.lookup j.id = none →
      Step registered s { s with store := s.store.put j }
  | advance {s} (d : Nat) : Step registered s { s with clock := s.clock.advance d }
  | pass {s} (d : Nat) : Step registered s { s with elapsed := s.elapsed + d }
  | reorder {s} (store : MemoryStore) : store.jobs.entries.Perm s.store.jobs.entries →
      Step registered s { s with store := store }
  /-- A tick that reads `now` first and `later j` while it executes `j`. -/
  | tick {s} (sch : Scheduler) (now : DateTime) (later : Job → DateTime)
      {passed : Passed} {store : MemoryStore} :
      (∀ kind, (sch.handlers kind).isSome = registered kind) →
      s.clock.now s.elapsed = some now →
      Scheduler.tick MemoryStore.store sch now later s.store = some (passed, store) →
      Step registered s { s with
        store := store
        events := s.events ++ passed.events
        attempts := s.attempts ++ attemptsAt sch now passed.executions }

/-! ### The life of one job -/

/-- The events of `n` executions that each ended in a retry. -/
def retries (id : JobId) (n : Nat) : List JobTransition :=
  (List.range n).flatMap fun k =>
    [⟨id, .scheduled, .running, .ofNat (k + 1)⟩, ⟨id, .running, .scheduled, .ofNat (k + 1)⟩]

/-- The events of a job up to its stored state: a retry for each attempt of a scheduled job, and
for another all retries but the last attempt, which led to the state. -/
def history (j : Job) : List JobTransition :=
  if j.state = .scheduled then retries j.id j.attempt.toNat
  else retries j.id (j.attempt.toNat - 1) ++
    [⟨j.id, .scheduled, .running, j.attempt⟩, ⟨j.id, .running, j.state, j.attempt⟩]

/-- The last execution failed: no handler returned `Ok`. -/
def LastFailed (attempts : List Attempt) : Prop :=
  ∃ a, attempts.getLast? = some a ∧ a.answer ≠ some (.ok ())

/-- The handler of the kind was called with the job, if there is one, and this is what it
returned. -/
def Attempt.Handled (a : Attempt) : Prop :=
  a.answer = (a.scheduler.handlers a.job.kind).map fun handler => handler a.job

/-- A stored job with its events and its executions. -/
structure Lives (registered : String → Bool) (j : Job) (events : List JobTransition)
    (attempts : List Attempt) : Prop where
  between : j.state = .scheduled ∨ j.state = .succeeded ∨ j.state = .dead
  counted : attempts.length = j.attempt.toNat
  bounded : j.attempt.toNat ≤ max 1 j.maxAttempts.toNat
  retryable : j.state = .scheduled → j.attempt = 0 ∨ j.canRetry = true
  invoked : ∀ a ∈ attempts, a.answer.isSome = registered j.kind
  handled : ∀ a ∈ attempts, a.Handled
  onTime : ∀ a ∈ attempts, a.job.dueAt ≤ a.now
  dead_iff : j.state = .dead ↔ LastFailed attempts ∧ j.maxAttempts ≤ j.attempt
  path : events = history j

variable {registered : String → Bool}

theorem Lives.fresh {j : Job} (h : j.Fresh) : Lives registered j [] [] where
  between := .inl h.scheduled
  counted := by simp [h.unattempted]
  bounded := by simp [h.unattempted]
  retryable := fun _ => .inl h.unattempted
  invoked := fun _ mem => absurd mem List.not_mem_nil
  handled := fun _ mem => absurd mem List.not_mem_nil
  onTime := fun _ mem => absurd mem List.not_mem_nil
  dead_iff := by simp [h.scheduled, LastFailed]
  path := by simp [history, h.scheduled, h.unattempted, retries]

theorem retries_succ (id : JobId) (n : Nat) :
    retries id (n + 1) = retries id n ++
      [⟨id, .scheduled, .running, .ofNat (n + 1)⟩, ⟨id, .running, .scheduled, .ofNat (n + 1)⟩] := by
  simp [retries, List.range_succ]

/-- An attempt of a scheduled job is counted without wrapping, within the bound. -/
theorem Lives.next_attempt {j : Job} {events : List JobTransition} {attempts : List Attempt}
    (h : Lives registered j events attempts) (scheduled : j.state = .scheduled) :
    j.claimed.attempt.toNat = j.attempt.toNat + 1 ∧
      j.attempt.toNat + 1 ≤ max 1 j.maxAttempts.toNat := by
  rcases h.retryable scheduled with zero | retry
  · rw [Job.toNat_claimed_attempt (by simp [zero])]
    simp [zero]
  · have less := Job.canRetry_iff.mp retry
    exact ⟨Job.toNat_claimed_attempt (Job.attempt_lt_of_canRetry retry), by omega⟩

/-- A claimed job goes back dead exactly if its execution failed with no attempt left. -/
theorem dead_iff_failed {j next : Job} {outcome : Except String Unit} {later : DateTime}
    (settled : settle outcome later j = some next) :
    next.state = .dead ↔ (∃ e, outcome = .error e) ∧ next.maxAttempts ≤ next.attempt := by
  obtain ⟨back, cases⟩ := settle_cases settled
  have canRetry : j.canRetry = true ↔ ¬next.maxAttempts ≤ next.attempt := by
    rw [Job.canRetry_iff, UInt32.le_iff_toNat_le, back.attempt, back.maxAttempts, not_le]
  rcases cases with ⟨ok, state⟩ | ⟨-, retry, state⟩ | ⟨failed, spent, state⟩
  · simp [ok, state]
  · simp [state, canRetry.mp retry]
  · have large : next.maxAttempts ≤ next.attempt := by
      by_contra less
      simp [canRetry.mpr less] at spent
    simp [state, failed, large]

/-- The two events of an execution continue the history of a scheduled job. -/
theorem history_execute {j next : Job} (back : Settled j.claimed next)
    (scheduled : j.state = .scheduled) (attempt : next.attempt.toNat = j.attempt.toNat + 1) :
    history j ++ stepEvents j.claimed next = history next := by
  have id : next.id = j.id := back.id
  have same : next.attempt = .ofNat (j.attempt.toNat + 1) := by
    rw [← attempt, UInt32.ofNat_toNat]
  have step : stepEvents j.claimed next =
      [⟨j.id, .scheduled, .running, next.attempt⟩, ⟨j.id, .running, next.state, next.attempt⟩] := by
    simp [stepEvents, Job.transition, back.attempt, id]
  rw [step, history, if_pos scheduled, history, attempt, Nat.add_sub_cancel, id]
  split
  · rename_i again
    rw [retries_succ, again, same]
  · rfl

/-- An execution fails unless the handler of the job has returned `Ok`. -/
theorem failed_iff (sch : Scheduler) (j : Job) :
    (∃ e, sch.outcome j = .error e) ↔ (sch.call j).answer ≠ some (.ok ()) := by
  rw [outcome, Execution.outcome]
  rcases (sch.call j).answer with _ | ⟨e | _⟩ <;> simp

theorem Lives.execute {j next : Job} {events : List JobTransition} {attempts : List Attempt}
    {sch : Scheduler} {now later : DateTime} (h : Lives registered j events attempts)
    (kinds : ∀ kind, (sch.handlers kind).isSome = registered kind) (due : j.Due now)
    (settled : settle (sch.outcome j.claimed) later j.claimed = some next) :
    Lives registered next (events ++ stepEvents j.claimed next)
      (attempts ++ [⟨sch.call j.claimed, now, sch⟩]) := by
  obtain ⟨back, cases⟩ := settle_cases settled
  obtain ⟨scheduled, onTime⟩ := due
  obtain ⟨count, bound⟩ := h.next_attempt scheduled
  have attempt : next.attempt.toNat = j.attempt.toNat + 1 := by rw [back.attempt, count]
  have last : LastFailed (attempts ++ [⟨sch.call j.claimed, now, sch⟩]) ↔
      ∃ e, sch.outcome j.claimed = .error e := by
    rw [failed_iff]
    simp [LastFailed]
  refine
    { between := ?_
      counted := by rw [List.length_append, h.counted, attempt]; rfl
      bounded := by rw [attempt, back.maxAttempts]; exact bound
      retryable := ?_
      invoked := ?_
      handled := ?_
      onTime := ?_
      dead_iff := by rw [last]; exact dead_iff_failed settled
      path := by rw [h.path]; exact history_execute back scheduled attempt }
  · rcases cases with ⟨-, state⟩ | ⟨-, -, state⟩ | ⟨-, -, state⟩ <;> simp [state]
  · intro again
    rcases cases with ⟨-, state⟩ | ⟨-, retry, -⟩ | ⟨-, -, state⟩
    · simp [state] at again
    · have less := Job.canRetry_iff.mp retry
      rw [← back.attempt, ← back.maxAttempts] at less
      exact .inr (Job.canRetry_iff.mpr less)
    · simp [state] at again
  · intro a mem
    rcases List.mem_append.mp mem with old | new
    · rw [h.invoked a old, back.kind, Job.claimed_kind]
    · obtain rfl := List.mem_singleton.mp new
      rw [back.kind, ← kinds]
      simp [call]
  · intro a mem
    rcases List.mem_append.mp mem with old | new
    · exact h.handled a old
    · obtain rfl := List.mem_singleton.mp new
      rfl
  · intro a mem
    rcases List.mem_append.mp mem with old | new
    · exact h.onTime a old
    · obtain rfl := List.mem_singleton.mp new
      exact onTime

/-! ### Runs -/

/-- Every stored job lives, and nothing is on record of a job that is not stored. -/
def Inv (registered : String → Bool) (s : System) : Prop :=
  ∀ id,
    match s.store.jobs.lookup id with
    | some j => Lives registered j (eventsOf id s.events) (s.attemptsOf id)
    | none => eventsOf id s.events = [] ∧ s.attemptsOf id = []

/-- What a tick puts on record of one job. -/
theorem filter_attemptsAt {s store : MemoryStore} {sch : Scheduler} {now : DateTime}
    {later : Job → DateTime} {passed : Passed}
    (run : Scheduler.tick MemoryStore.store sch now later s = some (passed, store)) (id : JobId) :
    (attemptsAt sch now passed.executions).filter (fun a => a.job.id = id) =
      attemptsAt sch now (((s.claimDue now).1.filter fun j => j.id = id).map sch.call) := by
  have all : passed.executions = (s.claimDue now).1.map sch.call := executions_executeEach run
  rw [all, attemptsAt, List.filter_map, List.filter_map]
  rfl

/-- A tick passes over a job that is not due: its record stays, and it leaves no events and no
executions. -/
theorem tick_frame {s store : MemoryStore} {sch : Scheduler} {now : DateTime}
    {later : Job → DateTime} {passed : Passed} (id : JobId)
    (run : Scheduler.tick MemoryStore.store sch now later s = some (passed, store))
    (notDue : ∀ j, s.jobs.lookup id = some j → ¬j.Due now) :
    store.jobs.lookup id = s.jobs.lookup id ∧ eventsOf id passed.events = [] ∧
      (attemptsAt sch now passed.executions).filter (fun a => a.job.id = id) = [] := by
  obtain ⟨-, frame, -⟩ :=
    MemoryStore.records.executeEach trivial (s.nodup_claimDue now) (fun _ _ _ _ => trivial) run
  have absent : id ∉ (s.claimDue now).1.map (·.id) := by
    rw [s.map_id_claimDue]
    intro mem
    obtain ⟨j, found, due⟩ := MemoryStore.mem_due.mp mem
    exact notDue j found due
  obtain ⟨same, none⟩ := frame id absent
  refine ⟨same.trans ?_, none, ?_⟩
  · rw [s.lookup_claimDue]
    cases found : s.jobs.lookup id with
    | none => rfl
    | some j => simp [notDue j found]
  · rw [filter_attemptsAt run, List.filter_eq_nil_iff.mpr]
    · rfl
    · intro j mem same
      exact absent (List.mem_map.mpr ⟨j, mem, by simpa using same⟩)

theorem tick_due {s store : MemoryStore} {sch : Scheduler} {now : DateTime}
    {later : Job → DateTime} {passed : Passed} {id : JobId} {j : Job}
    (run : Scheduler.tick MemoryStore.store sch now later s = some (passed, store))
    (found : s.jobs.lookup id = some j) (due : j.Due now) :
    ∃ next, settle (sch.outcome j.claimed) (later j.claimed) j.claimed = some next ∧
      store.jobs.lookup id = some next ∧ eventsOf id passed.events = stepEvents j.claimed next ∧
      (attemptsAt sch now passed.executions).filter (fun a => a.job.id = id) =
        [⟨sch.call j.claimed, now, sch⟩] := by
  have nodup := s.nodup_claimDue now
  obtain ⟨-, -, each⟩ := MemoryStore.records.executeEach trivial nodup (fun _ _ _ _ => trivial) run
  have key : j.claimed.id = id := s.keyed (j := j) found
  have mem : j.claimed ∈ (s.claimDue now).1 :=
    MemoryStore.mem_claimDue.mpr ⟨j, by rw [key, found], due, rfl⟩
  obtain ⟨next, settled, path, stored, -⟩ := each j.claimed mem
  have alone := filter_id_eq nodup mem
  rw [key] at path alone stored
  refine ⟨next, settled, stored not_false, path, ?_⟩
  rw [filter_attemptsAt run, alone]
  rfl

theorem Inv.tick {s : System} {sch : Scheduler} {now : DateTime} {later : Job → DateTime}
    {passed : Passed} {store : MemoryStore} (h : Inv registered s)
    (kinds : ∀ kind, (sch.handlers kind).isSome = registered kind)
    (run : Scheduler.tick MemoryStore.store sch now later s.store = some (passed, store)) :
    Inv registered { s with
      store := store
      events := s.events ++ passed.events
      attempts := s.attempts ++ attemptsAt sch now passed.executions } := by
  intro id
  have mine := h id
  simp only [System.attemptsOf, eventsOf_append, List.filter_append]
  cases found : s.store.jobs.lookup id with
  | none =>
    obtain ⟨same, noEvents, noAttempts⟩ := tick_frame id run (by simp [found])
    rw [found] at mine
    simp only [same, found, noEvents, noAttempts, List.append_nil]
    exact mine
  | some j =>
    rw [found] at mine
    by_cases due : j.Due now
    · obtain ⟨next, settled, stored, path, alone⟩ := tick_due run found due
      simp only [stored, path, alone]
      exact mine.execute kinds due settled
    · obtain ⟨same, noEvents, noAttempts⟩ := tick_frame id run fun j' found' =>
        Option.some.inj (found.symm.trans found') ▸ due
      simp only [same, found, noEvents, noAttempts, List.append_nil]
      exact mine

theorem Inv.step {s t : System} (h : Inv registered s) (hs : Step registered s t) :
    Inv registered t := by
  cases hs with
  | enqueue j fresh new =>
    intro id
    have mine := h id
    simp only [MemoryStore.lookup_put]
    by_cases same : id = j.id
    · subst same
      rw [new] at mine
      obtain ⟨events, attempts⟩ := mine
      have attempts : System.attemptsOf { s with store := s.store.put j } j.id = [] := attempts
      rw [if_pos rfl, events, attempts]
      exact Lives.fresh fresh
    · rw [if_neg same]
      exact mine
  | advance | pass => exact h
  | reorder store perm =>
    intro id
    have mine := h id
    have same : store.jobs.lookup id = s.store.jobs.lookup id :=
      AList.perm_lookup perm
    simp only [same]
    exact mine
  | tick sch now later kinds _ run => exact h.tick kinds run

theorem reachable_inv {s : System}
    (h : Machine.Reachable System.Fresh (Step registered) s) : Inv registered s := by
  refine h.invariant (fun s fresh id => ?_) fun _ _ _ ih next => ih.step next
  obtain ⟨store, events, attempts⟩ := fresh
  simp [store, events, attempts, System.attemptsOf, eventsOf]

/-- A step leaves a job in a terminal state as it is, and does not execute it. -/
theorem step_terminal {s t : System} {id : JobId} {j : Job} (hs : Step registered s t)
    (found : s.store.jobs.lookup id = some j) (terminal : j.state.isTerminal = true) :
    t.store.jobs.lookup id = some j ∧ t.attemptsOf id = s.attemptsOf id := by
  cases hs with
  | enqueue j' _ new =>
    have ne : id ≠ j'.id := by
      rintro rfl
      simp [found] at new
    exact ⟨by rw [MemoryStore.lookup_put, if_neg ne, found], rfl⟩
  | advance | pass => exact ⟨found, rfl⟩
  | reorder store perm => exact ⟨(AList.perm_lookup perm).trans found, rfl⟩
  | @tick sch now later passed store kinds _ run =>
    have notDue : ¬j.Due now := fun due => by simp [due.1, JobState.isTerminal] at terminal
    obtain ⟨same, -, none⟩ := tick_frame id run fun j' found' =>
      Option.some.inj (found.symm.trans found') ▸ notDue
    refine ⟨same.trans found, ?_⟩
    rw [System.attemptsOf, List.filter_append, none, List.append_nil]
    rfl

/-- In every reachable state no job is running; the handler of a job, when its kind has one, has
been called as often as the job counts attempts, never more than it may be nor before it was due,
and what is on record of each call is what it returned; the job is dead exactly if its last
execution failed with no attempt left; and its events are its history.  A job that has succeeded or
is dead stays as it is and is not executed again. -/
theorem lifecycle {s : System} (h : Machine.Reachable System.Fresh (Step registered) s) :
    (∀ id j, s.store.jobs.lookup id = some j →
      j.state ≠ .running ∧
      (s.invocations id = (if registered j.kind then j.attempt.toNat else 0) ∧
        j.attempt.toNat ≤ max 1 j.maxAttempts.toNat ∧
        ∀ a ∈ s.attemptsOf id, a.Handled ∧ a.job.dueAt ≤ a.now) ∧
      (j.state = .dead ↔ LastFailed (s.attemptsOf id) ∧ j.maxAttempts ≤ j.attempt) ∧
      (j.state = .scheduled ∨ j.state.isTerminal = true) ∧
      eventsOf id s.events = history j) ∧
    ∀ t, Relation.ReflTransGen (Step registered) s t → ∀ id j,
      s.store.jobs.lookup id = some j → j.state.isTerminal = true →
        t.store.jobs.lookup id = some j ∧ t.attemptsOf id = s.attemptsOf id := by
  refine ⟨fun id j found => ?_, fun t run id j found terminal => ?_⟩
  · have lives := reachable_inv h id
    rw [found] at lives
    refine ⟨?_, ⟨?_, lives.bounded, fun a mem => ⟨lives.handled a mem, lives.onTime a mem⟩⟩,
      lives.dead_iff, ?_, lives.path⟩
    · rcases lives.between with state | state | state <;> simp [state]
    · rw [System.invocations]
      cases kind : registered j.kind with
      | true =>
        have all : (s.attemptsOf id).filter (·.answer.isSome) = s.attemptsOf id :=
          List.filter_eq_self.mpr fun a mem => (lives.invoked a mem).trans kind
        rw [all, lives.counted, if_pos rfl]
      | false =>
        have none : (s.attemptsOf id).filter (·.answer.isSome) = [] :=
          List.filter_eq_nil_iff.mpr fun a mem => by simp [lives.invoked a mem, kind]
        rw [none]
        rfl
    · rcases lives.between with state | state | state <;> simp [state, JobState.isTerminal]
  · refine h.keeps run (P := fun t => t.store.jobs.lookup id = some j ∧
      t.attemptsOf id = s.attemptsOf id) ⟨found, rfl⟩ fun u v _ same next => ?_
    obtain ⟨stored, attempts⟩ := step_terminal next same.1 terminal
    exact ⟨stored, attempts.trans same.2⟩

def failing : Job :=
  ((Job.new ⟨⟨List.replicate 16 0, rfl⟩⟩ ⟨⟨List.replicate 16 0, rfl⟩⟩ "fail"
    DateTime.unixEpoch).withMaxAttempts 2).withBackoff []

/-- The job is dead after two ticks, with two calls of its handler and four events. -/
theorem lifecycle_failing :
    let registered := fun kind => (Scheduler.new.handlers kind).isSome
    ∃ s j, Machine.Reachable System.Fresh (Step registered) s ∧
      s.store.jobs.lookup failing.id = some j ∧ j.state = .dead ∧ s.invocations failing.id = 2 ∧
      (∀ a ∈ s.attemptsOf failing.id, a.Handled) ∧ (eventsOf failing.id s.events).length = 4 ∧
      eventsOf failing.id s.events = history j := by
  have start : Machine.Reachable System.Fresh
      (Step fun kind => (Scheduler.new.handlers kind).isSome)
      ⟨Clock.new DateTime.unixEpoch, 0, MemoryStore.new, [], []⟩ := .start ⟨rfl, rfl, rfl⟩
  have enqueued := start.next (.enqueue failing ⟨rfl, rfl⟩ rfl)
  have first := enqueued.next (.tick Scheduler.new DateTime.unixEpoch
    (fun _ => DateTime.unixEpoch) (fun _ => rfl) (by decide) rfl)
  have second := first.next (.tick Scheduler.new DateTime.unixEpoch
    (fun _ => DateTime.unixEpoch) (fun _ => rfl) (by decide) rfl)
  refine ⟨_, _, second, rfl, rfl, ?_, ?_, rfl, ?_⟩
  · exact ((lifecycle second).1 failing.id _ rfl).2.1.1
  · exact fun a mem => (((lifecycle second).1 failing.id _ rfl).2.1.2.2 a mem).1
  · exact ((lifecycle second).1 failing.id _ rfl).2.2.2.2

end Servr.Lifecycle
