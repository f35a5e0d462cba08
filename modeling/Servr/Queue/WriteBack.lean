import Servr.Queue.Contract

/-! Ticks over a store whose puts may fail.  The scheduler logs such an error and emits the event
nevertheless, so the store and the events of a job agree after a tick exactly if no put of the job
has failed. -/

namespace Servr

open Scheduler

variable {σ : Type}

/-- A store whose `put` returns an error for the jobs in `fails`, and has then written nothing.  A
tick puts each job once, so any of its puts may fail. -/
def JobStore.failing (store : JobStore σ) (fails : JobId → Option StoreError) : JobStore σ :=
  { store with
    put := fun s j =>
      match fails j.id with
      | some e => (.error (.err e), s)
      | none => store.put s j }

/-- Every job of a batch is stored in the state to which its last event says that it went, and none
of them is left running. -/
def WrittenBack (store : JobStore σ) (t : σ) (events : List JobTransition) (batch : List Job) :
    Prop :=
  ∀ j ∈ batch, ∃ last stored, (eventsOf j.id events).getLast? = some last ∧
    store.get t j.id = .ok stored ∧ stored.state = last.to_ ∧ stored.state ≠ .running

namespace WriteBack

variable {store : JobStore σ} {fails : JobId → Option StoreError} {Inv : σ → Prop}
  {Ok : Job → Prop} {Decodes : σ → DateTime → Prop} {s t : σ} {sch : Scheduler} {now : DateTime}
  {later : Job → DateTime} {passed : Passed}

theorem persist_failing (j : Job) :
    persist (store.failing fails) j s = if (fails j.id).isSome then s else persist store j s := by
  cases fail : fails j.id <;> simp [persist, JobStore.failing, fail]

theorem records_failing {α : Type} {record : σ → JobId → Option α} {rep : Job → α}
    (recs : Records store (fun _ => False) Inv Ok record rep) :
    Records (store.failing fails) (fun j => (fails j.id).isSome) Inv Ok record rep where
  inv := by
    intro s j inv ok
    rw [persist_failing]
    split
    · exact inv
    · exact recs.inv inv ok
  put := by
    intro s j inv ok good id
    rw [persist_failing, if_neg good]
    exact recs.put inv ok not_false id
  err := by
    intro s j inv ok bad id
    rw [persist_failing, if_pos bad]

theorem get_of_summary {id : JobId} {state : JobState} {attempt : UInt32}
    (h : store.summary s id = some (state, attempt)) :
    ∃ j, store.get s id = .ok j ∧ j.state = state := by
  obtain ⟨j, found, same⟩ := Option.map_eq_some_iff.mp h
  cases same
  exact ⟨j, Results.toOption_eq_some.mp found, rfl⟩

/-- A tick writes back the jobs that it claimed exactly if no put of one of them fails. -/
theorem writtenBack_iff_of_contract (contract : store.Contract Inv Ok Decodes) (inv : Inv s)
    (run : tick (store.failing fails) sch now later s = some (passed, t)) {batch : List Job}
    {claimed : σ} (claim : store.claimDue s now = (.ok batch, claimed)) :
    WrittenBack store t passed.events batch ↔ ∀ j ∈ batch, fails j.id = none := by
  obtain ⟨inv, ok, out⟩ := contract.claim inv claim
  have executed : executeEach (store.failing fails) sch later batch claimed = some (passed, t) := by
    rw [tick, show (store.failing fails).claimDue s now = _ from claim] at run
    exact run
  obtain ⟨-, -, each⟩ := (records_failing contract.records).executeEach inv out.nodup
    (fun j mem _ settled => contract.settled (settle_cases settled).1 (ok j mem)) executed
  constructor
  · intro back j mem
    by_contra fail
    have fail : (fails j.id).isSome := Option.isSome_iff_ne_none.mpr fail
    -- The record is still that of the claim.
    obtain ⟨next, settled, -, -, same⟩ := each j mem
    have id := (settle_cases settled).1.id
    obtain ⟨n, -, -, -, running⟩ := out.claimed j mem
    obtain ⟨old, found, state⟩ := get_of_summary ((same (id ▸ fail)).trans running)
    obtain ⟨-, stored, -, found', -, notRunning⟩ := back j mem
    rw [found] at found'
    cases found'
    exact notRunning state
  · intro good j mem
    obtain ⟨next, settled, path, stored, -⟩ := each j mem
    obtain ⟨back, cases⟩ := settle_cases settled
    obtain ⟨new, found, state⟩ := get_of_summary (stored (by simp [back.id, good j mem]))
    refine ⟨next.transition .running next.state, new, ?_, found, state, ?_⟩
    · rw [path]
      rfl
    · rw [state]
      rcases cases with ⟨-, state⟩ | ⟨-, -, state⟩ | ⟨-, -, state⟩ <;> simp [state]

/-- A tick over a store of either kind writes back the jobs that it claimed exactly if no put of one
of them fails. -/
theorem writtenBack_iff {Text : Type} {w : Wire Text} (lawful : w.Lawful)
    (fails : JobId → Option StoreError) (sch : Scheduler) (now : DateTime)
    (later : Job → DateTime) (passed : Passed) :
    (∀ s t : MemoryStore,
      tick (MemoryStore.store.failing fails) sch now later s = some (passed, t) →
        (WrittenBack MemoryStore.store t passed.events (s.claimDue now).1 ↔
          ∀ j ∈ (s.claimDue now).1, fails j.id = none)) ∧
    ∀ s t : Redis Text, Machine.Reachable (· = Redis.empty) (RedisStore.Call w) s →
      tick ((RedisStore.store w).failing fails) sch now later s = some (passed, t) →
        ∀ batch claimed, RedisStore.claimDue w s now = (.ok batch, claimed) →
          (WrittenBack (RedisStore.store w) t passed.events batch ↔
            ∀ j ∈ batch, fails j.id = none) := by
  constructor
  · intro s t run
    exact writtenBack_iff_of_contract MemoryStore.contract trivial run rfl
  · intro s t reachable run batch claimed claim
    exact writtenBack_iff_of_contract (RedisStore.contract lawful)
      (RedisStore.reachable_filed reachable) run claim

/-- A `noop` job that was put is written back in either store, when no put fails. -/
theorem writtenBack_noop :
    (∃ (passed : Passed) (t : MemoryStore), WrittenBack MemoryStore.store t passed.events
      ((MemoryStore.new.put (RedisStore.noop 0)).claimDue DateTime.unixEpoch).1) ∧
    ∃ (passed : Passed) (t : Redis Json.Value),
      WrittenBack (RedisStore.store Plain.wire) t passed.events
        [RedisStore.afterTrip Plain.wire (RedisStore.noop 0)] := by
  have both := fun passed => writtenBack_iff Plain.wire_lawful (fun _ => none) Scheduler.new
    DateTime.unixEpoch (fun _ => DateTime.unixEpoch) passed
  constructor
  · obtain ⟨passed, t, run⟩ : ∃ passed t, tick (MemoryStore.store.failing fun _ => none)
        Scheduler.new DateTime.unixEpoch (fun _ => DateTime.unixEpoch)
        (MemoryStore.new.put (RedisStore.noop 0)) = some (passed, t) := ⟨_, _, rfl⟩
    exact ⟨passed, t, ((both passed).1 _ t run).mpr fun _ _ => rfl⟩
  · have start : Machine.Reachable (· = Redis.empty) (RedisStore.Call Plain.wire) Redis.empty :=
      .start rfl
    obtain ⟨claimed, claim⟩ := RedisStore.claim_noop
    obtain ⟨passed, t, run⟩ : ∃ passed t, tick ((RedisStore.store Plain.wire).failing fun _ => none)
        Scheduler.new DateTime.unixEpoch (fun _ => DateTime.unixEpoch)
        (RedisStore.put Plain.wire Redis.empty (RedisStore.noop 0)) = some (passed, t) := by
      rw [tick, show ((RedisStore.store Plain.wire).failing fun _ => none).claimDue
        (RedisStore.put Plain.wire Redis.empty (RedisStore.noop 0)) DateTime.unixEpoch = _
        from claim]
      exact ⟨_, _, rfl⟩
    exact ⟨passed, t, ((both passed).2 _ t (start.next (.put _)) run _ _ claim).mpr
      fun _ _ => rfl⟩

/-- When the put of an executed `noop` job fails, the job stays running. -/
theorem noop_stranded : ¬∀ (fails : JobId → Option StoreError) (sch : Scheduler) (now : DateTime)
    (later : Job → DateTime) (s t : MemoryStore) (passed : Passed),
    tick (MemoryStore.store.failing fails) sch now later s = some (passed, t) →
      WrittenBack MemoryStore.store t passed.events (s.claimDue now).1 := by
  intro all
  have back := all (fun _ => some (.backend "connection refused")) Scheduler.new
    DateTime.unixEpoch (fun _ => DateTime.unixEpoch) (MemoryStore.new.put (RedisStore.noop 0)) _ _
    rfl
  obtain ⟨last, stored, -, found, -, notRunning⟩ :=
    back (RedisStore.noop 0).claimed List.mem_cons_self
  cases found
  exact notRunning rfl

end WriteBack

end Servr
