import Servr.Queue.DueSet
import Servr.Queue.Scheduler

/-! What the two stores give to a scheduler: of each job its state and its attempts, a put that
replaces both, and a claim that hands out scheduled jobs and leaves them running. -/

namespace Servr

variable {σ : Type}

open Scheduler

/-- The state and the attempts of a job that `get` reads. -/
def JobStore.summary (store : JobStore σ) (s : σ) (id : JobId) : Option (JobState × UInt32) :=
  (store.get s id).toOption.map fun j => (j.state, j.attempt)

/-- What a claim does that takes a store from `s` to `s'` and returns `jobs`: it hands out scheduled
jobs, each of them once and with its next attempt, leaves these running and all others as they
were. -/
structure HandsOut (store : JobStore σ) (s s' : σ) (jobs : List Job) : Prop where
  nodup : (jobs.map (·.id)).Nodup
  claimed : ∀ j ∈ jobs, ∃ n, store.summary s j.id = some (.scheduled, n) ∧ j.state = .running ∧
    j.attempt = n + 1 ∧ store.summary s' j.id = some (.running, n + 1)
  others : ∀ id, id ∉ jobs.map (·.id) → store.summary s' id = store.summary s id

/-- The contract of `JobStore`, of stores that are in `Inv` and jobs that are `Ok`, where a claim of
records that decode fails only before it has written anything. -/
structure JobStore.Contract (store : JobStore σ) (Inv : σ → Prop) (Ok : Job → Prop)
    (Decodes : σ → DateTime → Prop) : Prop where
  records : Records store (fun _ => False) Inv Ok store.summary fun j => (j.state, j.attempt)
  settled : ∀ {j next}, Settled j next → Ok j → Ok next
  claim : ∀ {s s' now jobs}, Inv s → store.claimDue s now = (.ok jobs, s') →
    Inv s' ∧ (∀ j ∈ jobs, Ok j) ∧ HandsOut store s s' jobs
  err : ∀ {s s' now f}, Inv s → Decodes s now → store.claimDue s now = (.error f, s') → s' = s

/-! ### The store in memory -/

namespace MemoryStore

theorem toOption_get (s : MemoryStore) (id : JobId) :
    (store.get s id).toOption = s.jobs.lookup id := by
  show (get s id).toOption = _
  unfold get
  cases s.jobs.lookup id <;> rfl

theorem summary_eq (s : MemoryStore) (id : JobId) :
    store.summary s id = (s.jobs.lookup id).map fun j => (j.state, j.attempt) := by
  rw [JobStore.summary, toOption_get]

theorem handsOut (s : MemoryStore) (now : DateTime) :
    HandsOut store s (s.claimDue now).2 (s.claimDue now).1 where
  nodup := s.nodup_claimDue now
  claimed := by
    intro j mem
    obtain ⟨j', found, due, rfl⟩ := mem_claimDue.mp mem
    refine ⟨j'.attempt, ?_, rfl, rfl, ?_⟩
    · rw [summary_eq, found, Option.map_some, due.1]
    · rw [summary_eq, lookup_claimDue, found, Option.map_some, if_pos due]
      rfl
  others := by
    intro id notMem
    rw [summary_eq, summary_eq, lookup_claimDue]
    cases found : s.jobs.lookup id with
    | none => rfl
    | some j =>
      have notDue : ¬j.Due now := fun due =>
        notMem (s.map_id_claimDue now ▸ mem_due.mpr ⟨j, found, due⟩)
      rw [Option.map_some, if_neg notDue]

theorem contract :
    store.Contract (fun _ : MemoryStore => True) (fun _ => True) (fun _ _ => True) where
  records := by
    have summaries : store.summary = fun s id =>
        (s.jobs.lookup id).map fun j => (j.state, j.attempt) :=
      funext fun s => funext fun id => summary_eq s id
    rw [summaries]
    exact MemoryStore.records.map fun j => (j.state, j.attempt)
  settled := fun _ _ => trivial
  claim := by
    intro s s' now jobs _ h
    cases h
    exact ⟨trivial, fun _ _ => trivial, s.handsOut now⟩
  err := by
    intro s s' now f _ _ h
    cases h

end MemoryStore

/-! ### The store in Redis -/

namespace RedisStore

open Json

variable {Text : Type} {w : Wire Text}

theorem toOption_get (s : Redis Text) (id : JobId) :
    ((store w).get s id).toOption = record w s (key w id) := by
  show (get w s id).toOption = _
  unfold get record
  cases s.jobs.lookup (key w id) <;> rfl

theorem summary_eq (s : Redis Text) (id : JobId) :
    (store w).summary s id = (record w s (key w id)).map fun j => (j.state, j.attempt) := by
  rw [JobStore.summary, toOption_get]

theorem summary_encode (lawful : w.Lawful) {s : Redis Text} {id : JobId} {j : Job}
    (found : s.jobs.lookup (key w id) = some (w.encode j)) (depth : j.payload.depth ≤ 126) :
    (store w).summary s id = some (j.state, j.attempt) := by
  rw [summary_eq, record, found, Option.bind_some, decode_encode lawful depth]
  rfl

theorem Filed.due (lawful : w.Lawful) {s : Redis Text} {now : DateTime} (h : Filed w s)
    (fine : AllClaimable w s now) {id : String} (mem : id ∈ dueIds s now) :
    ∃ j, s.jobs.lookup id = some (w.encode j) ∧ key w j.id = id ∧ j.state = .scheduled ∧
      j.payload.depth ≤ 126 ∧ claimedJob w (w.encode j) = some (afterTrip w j) := by
  obtain ⟨b, hb, -⟩ := mem_dueIds.mp mem
  obtain ⟨j, found, same, scheduled, -⟩ := h id b hb
  obtain ⟨j', hj'⟩ := Option.isSome_iff_exists.mp (fine id mem _ found)
  obtain ⟨claimable, rfl⟩ := (claimedJob_encode lawful).mp hj'
  exact ⟨j, found, same, scheduled, claimable.depth, hj'⟩

/-- A claim hands out a job for every id that is due, in their order. -/
theorem map_key_handedOut (lawful : w.Lawful) {s : Redis Text} {now : DateTime} (h : Filed w s)
    (fine : AllClaimable w s now) :
    (handedOut w s now).map (fun j => key w j.id) = dueIds s now := by
  rw [handedOut, List.map_filterMap]
  refine (List.filterMap_congr fun id mem => ?_).trans List.filterMap_some
  obtain ⟨j, found, same, -, -, claimed⟩ := h.due lawful fine mem
  rw [found, Option.bind_some, claimed, ← same]
  rfl

/-- What a claim does not hand out is not due. -/
theorem notMem_dueIds (lawful : w.Lawful) {s : Redis Text} {now : DateTime} (h : Filed w s)
    (fine : AllClaimable w s now) {id : JobId} (notMem : id ∉ (handedOut w s now).map (·.id)) :
    key w id ∉ dueIds s now := by
  rw [← map_key_handedOut lawful h fine]
  intro mem
  obtain ⟨j, out, same⟩ := List.mem_map.mp mem
  exact notMem (List.mem_map.mpr ⟨j, out, key_injective lawful same⟩)

theorem handsOut (lawful : w.Lawful) {s s' : Redis Text} {now : DateTime} (h : Filed w s)
    (fine : AllClaimable w s now) (claimed : Claimed w s now s') :
    HandsOut (store w) s s' (handedOut w s now) := by
  have keys := map_key_handedOut lawful h fine
  refine ⟨?_, fun j' mem => ?_, fun id notMem => ?_⟩
  · have nodup := nodup_dueIds s now
    rw [← keys] at nodup
    apply List.Nodup.of_map (key w)
    rwa [List.map_map]
  · obtain ⟨id, due, raw, found, hj'⟩ := mem_handedOut.mp mem
    obtain ⟨j, found', rfl, scheduled, depth, hj⟩ := h.due lawful fine due
    obtain rfl := Option.some.inj (found.symm.trans found')
    obtain rfl := Option.some.inj (hj'.symm.trans hj)
    obtain ⟨encoded, hencoded, decoded⟩ := claimedJob_eq_some.mp hj
    refine ⟨j.attempt, ?_, rfl, rfl, ?_⟩
    · rw [← scheduled]
      exact summary_encode lawful found depth
    · rw [summary_eq, record, claimed.lookup]
      have same : key w (afterTrip w j).id = key w j.id := rfl
      rw [same, if_pos due, found, Option.bind_some, hencoded, Option.bind_some, decoded]
      rfl
  · rw [summary_eq, summary_eq, record, record, claimed.lookup,
      if_neg (notMem_dueIds lawful h fine notMem)]

theorem contract (lawful : w.Lawful) :
    (store w).Contract (Filed w) (Readable w) (AllClaimable w) where
  records :=
    { inv := fun filed _ => filed.put _
      put := by
        intro s j _ readable _ id
        have depth := (readable_iff lawful).mp readable
        by_cases same : id = j.id
        · rw [if_pos same, same]
          exact summary_encode lawful (lookup_put_self s j) depth
        · have ne : key w id ≠ key w j.id := fun eq => same (key_injective lawful eq)
          rw [if_neg same, summary_eq, summary_eq, record, record]
          show (((put w s j).jobs.lookup (key w id)).bind _ : Option Job).map _ = _
          rw [lookup_put, if_neg ne]
      err := fun _ _ bad => bad.elim }
  settled := by
    intro j next back
    rw [readable_iff lawful, readable_iff lawful, back.payload]
    exact fun depth => depth
  claim := by
    intro s s' now jobs filed h
    obtain ⟨-, fine⟩ := of_claimDue_eq_ok h
    have after := filed.claim now
    rw [show claimDue w s now = _ from h] at after
    obtain ⟨rfl, claimed⟩ := claimDue_ok_spec h
    refine ⟨after, fun j' mem => ?_, handsOut lawful filed fine claimed⟩
    obtain ⟨id, due, raw, found, hj'⟩ := mem_handedOut.mp mem
    obtain ⟨j, found', -, -, depth, hj⟩ := filed.due lawful fine due
    obtain rfl := Option.some.inj (found.symm.trans found')
    obtain rfl := Option.some.inj (hj'.symm.trans hj)
    exact (readable_iff lawful).mpr ((depth_trip w.readDecimal j.payload).trans_le depth)
  err := by
    intro s s' now f _ fine h
    by_cases fits : Fits w s now
    · obtain ⟨s'', run, -⟩ := claimDue_eq_ok fits fine
      exact absurd (h.symm.trans run) (by simp)
    · exact (Prod.mk.inj (h.symm.trans (claimDue_of_not_fits fits))).2

end RedisStore

end Servr
