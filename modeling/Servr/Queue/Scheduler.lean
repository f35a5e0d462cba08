import Mathlib.Logic.Function.Basic
import Servr.Queue.Store

/-! The scheduler of `queue/src/scheduler.rs` over any job store.  Of an event the model keeps the
`JobTransition`; a reading of the clock is an argument.  What a pass returns shows the handlers that
it has called. -/

namespace Servr

/-- What a job kind does: `Ok`, or the error that schedules a retry or dead-letters the job. -/
abbrev Handler := Job → Except String Unit

structure Scheduler where
  handlers : String → Option Handler

/-- `EventKind::JobTransition`. -/
structure JobTransition where
  job : JobId
  from_ : JobState
  to_ : JobState
  attempt : UInt32
  deriving DecidableEq

/-- The event that `emit` puts on the bus. -/
def Job.transition (j : Job) (from_ to_ : JobState) : JobTransition :=
  ⟨j.id, from_, to_, j.attempt⟩

/-- An execution: the job as it was claimed, and what the handler of its kind returned, if there is
one. -/
structure Execution where
  job : Job
  answer : Option (Except String Unit)

/-- What an execution comes to.  Unknown kinds fail. -/
def Execution.outcome (e : Execution) : Except String Unit :=
  match e.answer with
  | some answer => answer
  | none => .error s!"no handler registered for kind {debugStr e.job.kind}"

/-- What a pass leaves behind: its executions and its events. -/
structure Passed where
  executions : List Execution
  events : List JobTransition

def Passed.append (here rest : Passed) : Passed :=
  ⟨here.executions ++ rest.executions, here.events ++ rest.events⟩

namespace Scheduler

def register (sch : Scheduler) (kind : String) (handler : Handler) : Scheduler where
  handlers := Function.update sch.handlers kind (some handler)

/-- `Scheduler::new`, with the two handlers that are always available. -/
def new : Scheduler :=
  (register ⟨fun _ => none⟩ "noop" fun _ => .ok ()).register "fail" fun j =>
    .error s!"deliberate failure on attempt {j.attempt.toNat}"

/-- The handler of a job is called, if its kind has one. -/
def call (sch : Scheduler) (j : Job) : Execution :=
  ⟨j, (sch.handlers j.kind).map fun handler => handler j⟩

def outcome (sch : Scheduler) (j : Job) : Except String Unit := (sch.call j).outcome

/-- The job that `execute` writes back, where a retry is due `next_backoff_ms` after the reading
`now` of the clock; `none` is the panic of that sum. -/
def settle (outcome : Except String Unit) (now : DateTime) (j : Job) : Option Job :=
  match outcome with
  | .ok () => some { j with state := .succeeded, lastError := none }
  | .error e =>
    let next := { j with lastError := some e }
    if next.canRetry then
      (now.addMillis (asI64 next.nextBackoffMs.toNat)).map fun dueAt =>
        { next with state := .scheduled, dueAt := dueAt }
    else some { next with state := .dead }

variable {σ : Type}

/-- Puts a job back.  An error of the store is logged and no more. -/
def persist (store : JobStore σ) (j : Job) (s : σ) : σ := (store.put s j).2

/-- `execute`: the call of the handler of a claimed job, its events, and the store after it. -/
def execute (store : JobStore σ) (sch : Scheduler) (now : DateTime) (j : Job) (s : σ) :
    Option (Passed × σ) :=
  let execution := sch.call j
  (settle execution.outcome now j).map fun next =>
    (⟨[execution], [j.transition .scheduled .running, next.transition .running next.state]⟩,
      persist store next s)

/-- The loop of `tick`, where `later j` is the reading of the clock while `j` is executed. -/
def executeEach (store : JobStore σ) (sch : Scheduler) (later : Job → DateTime) :
    List Job → σ → Option (Passed × σ)
  | [], s => some (⟨[], []⟩, s)
  | j :: due, s =>
    (execute store sch (later j) j s).bind fun (here, s) =>
      (executeEach store sch later due s).map fun (rest, s) => (here.append rest, s)

/-- One pass at the reading `now` of the clock.  A claim that fails is logged and no more. -/
def tick (store : JobStore σ) (sch : Scheduler) (now : DateTime) (later : Job → DateTime) (s : σ) :
    Option (Passed × σ) :=
  match store.claimDue s now with
  | (.ok due, s) => executeEach store sch later due s
  | (.error (.err _), s) => some (⟨[], []⟩, s)
  | (.error .panic, _) => none

/-! ### What becomes of a claimed job -/

/-- A job goes back as it was claimed but for its state, its due time and its last error. -/
structure Settled (j next : Job) : Prop where
  id : next.id = j.id
  kind : next.kind = j.kind
  payload : next.payload = j.payload
  attempt : next.attempt = j.attempt
  maxAttempts : next.maxAttempts = j.maxAttempts

/-- The states in which a job goes back, by the outcome of the handler. -/
theorem settle_cases {outcome : Except String Unit} {now : DateTime} {j next : Job}
    (h : settle outcome now j = some next) :
    Settled j next ∧
      (outcome = .ok () ∧ next.state = .succeeded ∨
        (∃ e, outcome = .error e) ∧ j.canRetry = true ∧ next.state = .scheduled ∨
        (∃ e, outcome = .error e) ∧ j.canRetry = false ∧ next.state = .dead) := by
  cases outcome with
  | ok =>
    cases h
    exact ⟨⟨rfl, rfl, rfl, rfl, rfl⟩, .inl ⟨rfl, rfl⟩⟩
  | error e =>
    have same : ({ j with lastError := some e } : Job).canRetry = j.canRetry := rfl
    simp only [settle, same] at h
    split at h
    · rename_i retry
      obtain ⟨dueAt, -, rfl⟩ := Option.map_eq_some_iff.mp h
      exact ⟨⟨rfl, rfl, rfl, rfl, rfl⟩, .inr (.inl ⟨⟨e, rfl⟩, retry, rfl⟩)⟩
    · rename_i retry
      cases h
      exact ⟨⟨rfl, rfl, rfl, rfl, rfl⟩, .inr (.inr ⟨⟨e, rfl⟩, by simpa using retry, rfl⟩)⟩

def stepEvents (j next : Job) : List JobTransition :=
  [j.transition .scheduled .running, next.transition .running next.state]

theorem execute_eq_some {store : JobStore σ} {sch : Scheduler} {now : DateTime} {j : Job} {s t : σ}
    {passed : Passed} (h : execute store sch now j s = some (passed, t)) :
    ∃ next, settle (sch.outcome j) now j = some next ∧
      passed = ⟨[sch.call j], stepEvents j next⟩ ∧ t = persist store next s := by
  obtain ⟨next, settled, same⟩ := Option.map_eq_some_iff.mp h
  cases same
  exact ⟨next, settled, rfl, rfl⟩

theorem executeEach_cons_eq_some {store : JobStore σ} {sch : Scheduler} {later : Job → DateTime}
    {j : Job} {due : List Job} {s t : σ} {passed : Passed}
    (h : executeEach store sch later (j :: due) s = some (passed, t)) :
    ∃ next rest, settle (sch.outcome j) (later j) j = some next ∧
      executeEach store sch later due (persist store next s) = some (rest, t) ∧
      passed = Passed.append ⟨[sch.call j], stepEvents j next⟩ rest := by
  obtain ⟨⟨here, s'⟩, first, h⟩ := Option.bind_eq_some_iff.mp h
  obtain ⟨⟨rest, t'⟩, others, same⟩ := Option.map_eq_some_iff.mp h
  cases same
  obtain ⟨next, settled, rfl, rfl⟩ := execute_eq_some first
  exact ⟨next, rest, settled, others, rfl⟩

/-- Each job of the list is executed once, in its order. -/
theorem executions_executeEach {store : JobStore σ} {sch : Scheduler} {later : Job → DateTime}
    {due : List Job} {s t : σ} {passed : Passed}
    (h : executeEach store sch later due s = some (passed, t)) :
    passed.executions = due.map sch.call := by
  induction due generalizing s passed with
  | nil =>
    cases h
    rfl
  | cons j due ih =>
    obtain ⟨next, rest, -, others, rfl⟩ := executeEach_cons_eq_some h
    rw [List.map_cons, ← ih others]
    rfl

def eventsOf (id : JobId) (events : List JobTransition) : List JobTransition :=
  events.filter fun e => e.job = id

theorem eventsOf_append (id : JobId) (as bs : List JobTransition) :
    eventsOf id (as ++ bs) = eventsOf id as ++ eventsOf id bs := List.filter_append ..

theorem eventsOf_stepEvents {j next : Job} (h : Settled j next) (id : JobId) :
    eventsOf id (stepEvents j next) = if j.id = id then stepEvents j next else [] := by
  by_cases same : j.id = id <;> simp [eventsOf, stepEvents, Job.transition, h.id, same]

/-! ### Executions over a map of records -/

section Records

variable {α : Type}

/-- A store whose `put` writes the record `rep j` of a job, except that it leaves the records as
they are for the jobs on which it fails. -/
structure Records (store : JobStore σ) (fails : Job → Prop) (Inv : σ → Prop) (Ok : Job → Prop)
    (record : σ → JobId → Option α) (rep : Job → α) : Prop where
  inv : ∀ {s j}, Inv s → Ok j → Inv (persist store j s)
  put : ∀ {s j}, Inv s → Ok j → ¬fails j → ∀ id,
    record (persist store j s) id = if id = j.id then some (rep j) else record s id
  err : ∀ {s j}, Inv s → Ok j → fails j → ∀ id, record (persist store j s) id = record s id

variable {store : JobStore σ} {fails : Job → Prop} {Inv : σ → Prop} {Ok : Job → Prop}
  {record : σ → JobId → Option α} {rep : Job → α}

theorem Records.persist_of_ne (recs : Records store fails Inv Ok record rep) {s : σ} {j : Job}
    {id : JobId} (inv : Inv s) (ok : Ok j) (ne : id ≠ j.id) :
    record (persist store j s) id = record s id := by
  by_cases bad : fails j
  · exact recs.err inv ok bad id
  · rw [recs.put inv ok bad id, if_neg ne]

/-- What the executions of a list of distinct jobs do: each job leaves its two events, and the
record of what it became unless the store failed on that. -/
theorem Records.executeEach (recs : Records store fails Inv Ok record rep) {sch : Scheduler}
    {later : Job → DateTime} {due : List Job} {s t : σ} {passed : Passed}
    (inv : Inv s) (nodup : (due.map (·.id)).Nodup)
    (ok : ∀ j ∈ due, ∀ next, settle (sch.outcome j) (later j) j = some next → Ok next)
    (h : executeEach store sch later due s = some (passed, t)) :
    Inv t ∧
    (∀ id, id ∉ due.map (·.id) → record t id = record s id ∧ eventsOf id passed.events = []) ∧
    ∀ j ∈ due, ∃ next, settle (sch.outcome j) (later j) j = some next ∧
      eventsOf j.id passed.events = stepEvents j next ∧
      (¬fails next → record t j.id = some (rep next)) ∧
      (fails next → record t j.id = record s j.id) := by
  induction due generalizing s passed with
  | nil =>
    cases h
    exact ⟨inv, fun _ _ => ⟨rfl, rfl⟩, fun _ mem => absurd mem List.not_mem_nil⟩
  | cons j due ih =>
    obtain ⟨next, rest, settled, others, rfl⟩ := executeEach_cons_eq_some h
    obtain ⟨new, nodup⟩ := List.nodup_cons.mp nodup
    have okNext : Ok next := ok j List.mem_cons_self next settled
    have back := (settle_cases settled).1
    obtain ⟨invT, frame, each⟩ := ih (recs.inv inv okNext) nodup
      (fun j' mem => ok j' (List.mem_cons_of_mem _ mem)) others
    refine ⟨invT, fun id notDue => ?_, fun j' mem => ?_⟩
    · simp only [List.map_cons, List.mem_cons, not_or] at notDue
      obtain ⟨same, none⟩ := frame id notDue.2
      rw [same, recs.persist_of_ne inv okNext (back.id ▸ notDue.1), Passed.append, eventsOf_append,
        none, eventsOf_stepEvents back, if_neg (Ne.symm notDue.1)]
      exact ⟨rfl, rfl⟩
    · rcases List.mem_cons.mp mem with rfl | mem
      · -- No later job of the list is this one, so its record stays as `persist` left it.
        obtain ⟨same, none⟩ := frame j'.id new
        refine ⟨next, settled, ?_, fun good => ?_, fun bad => ?_⟩
        · rw [Passed.append, eventsOf_append, eventsOf_stepEvents back, if_pos rfl, none,
            List.append_nil]
        · rw [same, recs.put inv okNext good, if_pos back.id.symm]
        · rw [same, recs.err inv okNext bad]
      · have ne : j'.id ≠ j.id := fun eq => new (List.mem_map.mpr ⟨j', mem, eq⟩)
        obtain ⟨next', settled', events', good, bad⟩ := each j' mem
        refine ⟨next', settled', ?_, good, fun fail => ?_⟩
        · rw [Passed.append, eventsOf_append, eventsOf_stepEvents back, if_neg (Ne.symm ne),
            List.nil_append, events']
        · rw [bad fail, recs.persist_of_ne inv okNext (back.id ▸ ne)]

/-- A part of each record, when `put` writes the part of the job's. -/
theorem Records.map {β : Type} (recs : Records store fails Inv Ok record rep) (part : α → β) :
    Records store fails Inv Ok (fun s id => (record s id).map part) fun j => part (rep j) where
  inv := recs.inv
  put := by
    intro s j inv ok good id
    rw [recs.put inv ok good]
    split <;> rfl
  err := by
    intro s j inv ok bad id
    rw [recs.err inv ok bad]

end Records

end Scheduler

open Scheduler in
/-- A `MemoryStore` as a map of jobs: no `put` fails. -/
theorem MemoryStore.records : Records MemoryStore.store (fun _ => False) (fun _ => True)
    (fun _ => True) (fun s id => s.jobs.lookup id) id where
  inv := fun _ _ => trivial
  put := fun _ _ _ id => MemoryStore.lookup_put _ _ id
  err := fun _ _ bad => bad.elim

end Servr
