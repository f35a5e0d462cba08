import Servr.Queue.Lifecycle

/-! The queue drains: whatever the handlers do, each tick that does not come before a job is due
uses up an attempt of it, until none is left. -/

namespace Servr

/-- Attempts that a stored job may still come to. -/
def Job.left (j : Job) : Nat :=
  if j.state.isTerminal then 0 else max 1 j.maxAttempts.toNat - j.attempt.toNat

namespace Lifecycle

open Scheduler

variable {registered : String → Bool}

/-- A job is not scheduled for later than `now`. -/
def Timely (s : System) (now : DateTime) (id : JobId) : Prop :=
  ∀ j, s.store.jobs.lookup id = some j → j.state = .scheduled → j.dueAt ≤ now

/-- A run in which every tick returns, with how many of its ticks came in time for each job. -/
inductive Run (registered : String → Bool) (s : System) : (JobId → Nat) → System → Prop
  | refl : Run registered s (fun _ => 0) s
  | step {count : JobId → Nat} {t u : System} : Run registered s count t →
      Step registered t u → Run registered s count u
  | tick {count : JobId → Nat} {t : System} (sch : Scheduler) (now : DateTime)
      (later : Job → DateTime) (timely : JobId → Bool) {passed : Passed} {store : MemoryStore} :
      Run registered s count t →
      (∀ kind, (sch.handlers kind).isSome = registered kind) →
      t.clock.now t.elapsed = some now →
      Scheduler.tick MemoryStore.store sch now later t.store = some (passed, store) →
      (∀ id, timely id = true → Timely t now id) →
      Run registered s (fun id => count id + (timely id).toNat) { t with
        store := store
        events := t.events ++ passed.events
        attempts := t.attempts ++ attemptsAt sch now passed.executions }

theorem Run.reachable {s t : System} {count : JobId → Nat} (run : Run registered s count t)
    (h : Machine.Reachable System.Fresh (Step registered) s) :
    Machine.Reachable System.Fresh (Step registered) t := by
  induction run with
  | refl => exact h
  | step _ next ih => exact ih.next next
  | tick sch now later timely _ kinds reads ticks _ ih =>
    exact ih.next (.tick sch now later kinds reads ticks)

theorem left_eq_zero_iff {j : Job} {events : List JobTransition} {attempts : List Attempt}
    (h : Lives registered j events attempts) : j.left = 0 ↔ j.state.isTerminal = true := by
  rw [Job.left]
  split
  · rename_i terminal
    exact iff_of_true rfl terminal
  · rename_i unfinished
    have scheduled : j.state = .scheduled := by
      rcases h.between with state | state | state
      · exact state
      · simp [state, JobState.isTerminal] at unfinished
      · simp [state, JobState.isTerminal] at unfinished
    have room := (h.next_attempt scheduled).2
    refine iff_of_false ?_ unfinished
    omega

/-- An execution uses up an attempt. -/
theorem left_settle {j next : Job} {events : List JobTransition} {attempts : List Attempt}
    {outcome : Except String Unit} {later : DateTime} (h : Lives registered j events attempts)
    (scheduled : j.state = .scheduled) (settled : settle outcome later j.claimed = some next) :
    next.left ≤ j.left - 1 := by
  obtain ⟨back, cases⟩ := settle_cases settled
  obtain ⟨count, -⟩ := h.next_attempt scheduled
  have unfinished : j.left = max 1 j.maxAttempts.toNat - j.attempt.toNat := by
    rw [Job.left, scheduled]
    rfl
  rcases cases with ⟨-, state⟩ | ⟨-, -, state⟩ | ⟨-, -, state⟩
  · simp [Job.left, state, JobState.isTerminal]
  · have after : next.left = max 1 j.maxAttempts.toNat - (j.attempt.toNat + 1) := by
      rw [Job.left, state, back.attempt, back.maxAttempts, count]
      rfl
    omega
  · simp [Job.left, state, JobState.isTerminal]

/-- A tick takes nothing back, and one that comes in time for a job uses up an attempt of it. -/
theorem Inv.left_tick {s : System} {sch : Scheduler} {now : DateTime} {later : Job → DateTime}
    {passed : Passed} {store : MemoryStore} {id : JobId} {j : Job}
    (h : Inv registered s) (found : s.store.jobs.lookup id = some j)
    (run : Scheduler.tick MemoryStore.store sch now later s.store = some (passed, store)) :
    ∃ j', store.jobs.lookup id = some j' ∧ j'.left ≤ j.left ∧
      (Timely s now id → j'.left ≤ j.left - 1) := by
  have lives := h id
  rw [found] at lives
  by_cases due : j.Due now
  · obtain ⟨next, settled, stored, -⟩ := tick_due run found due
    have fewer := left_settle lives due.1 settled
    exact ⟨next, stored, by omega, fun _ => fewer⟩
  · obtain ⟨same, -⟩ := tick_frame id run fun j' found' =>
      Option.some.inj (found.symm.trans found') ▸ due
    refine ⟨j, same.trans found, le_refl _, fun timely => ?_⟩
    have terminal : j.state.isTerminal = true := by
      rcases lives.between with state | state | state
      · exact absurd ⟨state, timely j found state⟩ due
      · rw [state]
        rfl
      · rw [state]
        rfl
    have none := (left_eq_zero_iff lives).mpr terminal
    omega

theorem Inv.left_step {s t : System} {id : JobId} {j : Job} (h : Inv registered s)
    (hs : Step registered s t) (found : s.store.jobs.lookup id = some j) :
    ∃ j', t.store.jobs.lookup id = some j' ∧ j'.left ≤ j.left := by
  cases hs with
  | enqueue j' fresh new =>
    have ne : id ≠ j'.id := by
      rintro rfl
      simp [found] at new
    exact ⟨j, by rw [MemoryStore.lookup_put, if_neg ne, found], le_refl _⟩
  | advance | pass => exact ⟨j, found, le_refl _⟩
  | reorder store perm => exact ⟨j, (AList.perm_lookup perm).trans found, le_refl _⟩
  | tick sch now later kinds _ run =>
    obtain ⟨j', stored, le, -⟩ := h.left_tick found run
    exact ⟨j', stored, le⟩

/-- The attempts that a job has left after a run. -/
theorem Run.left {s t : System} {count : JobId → Nat} (run : Run registered s count t)
    (h : Machine.Reachable System.Fresh (Step registered) s) {id : JobId} {j : Job}
    (found : s.store.jobs.lookup id = some j) :
    ∃ j', t.store.jobs.lookup id = some j' ∧ j'.left ≤ j.left - count id := by
  induction run with
  | refl => exact ⟨j, found, le_refl _⟩
  | @step count t u run next ih =>
    obtain ⟨j', stored, le⟩ := ih
    obtain ⟨j'', stored', le'⟩ := (reachable_inv (run.reachable h)).left_step next stored
    exact ⟨j'', stored', le'.trans le⟩
  | @tick count t sch now later timely passed store run kinds reads ticks inTime ih =>
    obtain ⟨j', stored, le⟩ := ih
    obtain ⟨j'', stored', kept, fewer⟩ :=
      (reachable_inv (run.reachable h)).left_tick stored ticks
    refine ⟨j'', stored', ?_⟩
    cases given : timely id with
    | false =>
      dsimp only
      rw [given, Bool.toNat_false]
      omega
    | true =>
      have one := fewer (inTime id given)
      dsimp only
      rw [given, Bool.toNat_true]
      omega

/-- Jobs that are not finished, counted. -/
theorem depth_eq_zero_iff {store : MemoryStore} : MemoryStore.store.depth store = .ok 0 ↔
    ∀ id j, store.jobs.lookup id = some j → j.state.isTerminal = true := by
  have counted : MemoryStore.store.depth store =
      .ok (store.list.filter fun j => !j.state.isTerminal).length := rfl
  rw [counted, Except.ok.injEq, List.length_eq_zero_iff, List.filter_eq_nil_iff]
  constructor
  · intro finished id j found
    have listed := finished j (MemoryStore.mem_list.mpr (by rwa [store.keyed found]))
    simpa using listed
  · intro finished j mem
    simpa using finished j.id j (MemoryStore.mem_list.mp mem)

/-- However a run in which every tick returns goes on from a reachable state: each tick that comes
in time for a job, unless it is finished, uses up one of its attempts, and once as many have come in
time as it has left, it has succeeded or is dead.  Once that is so for every job and none has been
enqueued since, the depth of the queue is zero. -/
theorem queue_drains {s t : System} {count : JobId → Nat}
    (h : Machine.Reachable System.Fresh (Step registered) s) (run : Run registered s count t) :
    (∀ id j, s.store.jobs.lookup id = some j → ∃ j', t.store.jobs.lookup id = some j' ∧
      j'.left ≤ j.left - count id ∧ (j'.left = 0 ↔ j'.state.isTerminal = true)) ∧
    ((∀ id, s.store.jobs.lookup id = none → t.store.jobs.lookup id = none) →
      (∀ id j, s.store.jobs.lookup id = some j → j.left ≤ count id) →
      MemoryStore.store.depth t.store = .ok 0) := by
  have each : ∀ id j, s.store.jobs.lookup id = some j → ∃ j', t.store.jobs.lookup id = some j' ∧
      j'.left ≤ j.left - count id ∧ (j'.left = 0 ↔ j'.state.isTerminal = true) := by
    intro id j found
    obtain ⟨j', stored, le⟩ := run.left h found
    have lives := reachable_inv (run.reachable h) id
    rw [stored] at lives
    exact ⟨j', stored, le, left_eq_zero_iff lives⟩
  refine ⟨each, fun closed enough => depth_eq_zero_iff.mpr fun id j stored => ?_⟩
  cases before : s.store.jobs.lookup id with
  | none =>
    have after := closed id before
    simp [stored] at after
  | some j₀ =>
    obtain ⟨j', stored', le, finished⟩ := each id j₀ before
    have inTime := enough id j₀ before
    obtain rfl := Option.some.inj (stored.symm.trans stored')
    exact finished.mp (by omega)

/-- A queue with one job, which may be attempted twice. -/
def oneFailing : System :=
  ⟨Clock.new DateTime.unixEpoch, 0, MemoryStore.new.put failing, [], []⟩

/-- Two ticks at the epoch finish it. -/
theorem queue_drains_failing : ∃ (t : System) (j : Job),
    t.store.jobs.lookup failing.id = some j ∧ j.state.isTerminal = true := by
  have start : Machine.Reachable System.Fresh
      (Step fun kind => (Scheduler.new.handlers kind).isSome)
      ⟨Clock.new DateTime.unixEpoch, 0, MemoryStore.new, [], []⟩ := .start ⟨rfl, rfl, rfl⟩
  have enqueued : Machine.Reachable System.Fresh _ oneFailing :=
    start.next (.enqueue failing ⟨rfl, rfl⟩ rfl)
  -- The job is due at the epoch, and so is its retry.
  have inTime {s : System} {j : Job} (stored : s.store.jobs.lookup failing.id = some j)
      (due : j.dueAt = DateTime.unixEpoch) (id : JobId) (ours : decide (id = failing.id) = true) :
      Timely s DateTime.unixEpoch id := by
    intro j' found _
    rw [of_decide_eq_true ours, stored] at found
    exact Option.some.inj found ▸ due.le
  have first := Run.tick Scheduler.new DateTime.unixEpoch (fun _ => DateTime.unixEpoch)
    (fun id => decide (id = failing.id)) (@Run.refl _ oneFailing) (fun _ => rfl) (by decide) rfl
    (inTime rfl rfl)
  have second := Run.tick Scheduler.new DateTime.unixEpoch (fun _ => DateTime.unixEpoch)
    (fun id => decide (id = failing.id)) first (fun _ => rfl) (by decide) rfl (inTime rfl rfl)
  obtain ⟨j, stored, left, finished⟩ := (queue_drains enqueued second).1 failing.id failing rfl
  have two : failing.left = 2 := by decide
  refine ⟨_, j, stored, finished.mp ?_⟩
  simp only [decide_true, Bool.toNat_true, two] at left
  omega

end Lifecycle

end Servr
