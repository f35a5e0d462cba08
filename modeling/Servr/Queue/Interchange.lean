import Servr.Queue.Contract

/-! The two stores side by side.  On the same calls they return the same results exactly as long as
every claim finds the due times of the scheduled jobs on the same side of its own in nanoseconds as
in milliseconds: the store in Redis compares milliseconds. -/

namespace Servr.Interchange

open RedisStore

variable {σ Text : Type} {w : Wire Text}

/-! ### Calls and what they return -/

inductive Call
  | put (j : Job)
  | claimDue (now : DateTime)
  | get (id : JobId)
  | list

inductive Reply
  | done (r : StoreResult Unit)
  | job (r : StoreResult Job)
  | jobs (r : StoreResult (List Job))

def call (store : JobStore σ) (s : σ) : Call → Reply × σ
  | .put j => (.done (store.put s j).1, (store.put s j).2)
  | .claimDue now => (.jobs (store.claimDue s now).1, (store.claimDue s now).2)
  | .get id => (.job (store.get s id), s)
  | .list => (.jobs (store.list s), s)

/-- The same results, lists of jobs compared as sets. -/
def Agree : Reply → Reply → Prop
  | .jobs (.ok as), .jobs (.ok bs) => ∀ j, j ∈ as ↔ j ∈ bs
  | r, r' => r = r'

/-- The codecs are faithful on a job: its record reads as the job, and the record that the script
makes of it, when it is scheduled, as the job claimed. -/
structure Faithful (w : Wire Text) (j : Job) : Prop where
  read : w.decode (w.encode j) = .ok j
  rewritten : j.state = .scheduled → claimedJob w (w.encode j) = some j.claimed

/-- The jobs that are put are such jobs, and the script accepts the size of every batch. -/
def Assumed (w : Wire Text) (s : Redis Text) : Call → Prop
  | .put j => Faithful w j
  | .claimDue now => Fits w s now
  | .get _ | .list => True

/-- No scheduled job is due later than a claim and yet in the same millisecond. -/
def Punctual (s : MemoryStore) : Call → Prop
  | .claimDue now => ∀ id j, s.jobs.lookup id = some j → j.state = .scheduled →
      j.dueAt.timestampMillis ≤ now.timestampMillis → j.dueAt ≤ now
  | .put _ | .get _ | .list => True

/-! ### Stores that hold the same jobs -/

/-- A record that reads as the job, and that a claim can rewrite when the job is scheduled. -/
def Holds (w : Wire Text) (j : Job) (raw : Text) : Prop :=
  w.decode raw = .ok j ∧ (j.state = .scheduled → claimedJob w raw = some j.claimed)

/-- The hash has a record for each job in memory and no others, and the due set the scores of the
scheduled jobs and no others. -/
structure Mirror (w : Wire Text) (m : MemoryStore) (s : Redis Text) : Prop where
  entry : ∀ id, Option.Rel (Holds w) (m.jobs.lookup id) (s.jobs.lookup (key w id))
  keyed : ∀ k raw, s.jobs.lookup k = some raw → ∃ id, k = key w id
  due : ∀ k b, s.due.score k = some b ↔
    ∃ id j, k = key w id ∧ m.jobs.lookup id = some j ∧ j.state = .scheduled ∧ b = score j.dueAt

theorem mirror_empty : Mirror w MemoryStore.new Redis.empty where
  entry := fun _ => .none
  keyed := by
    intro k raw found
    rw [show (Redis.empty : Redis Text).jobs.lookup k = none from AList.lookup_empty k] at found
    contradiction
  due := by
    intro k b
    rw [show (Redis.empty : Redis Text).due.score k = none from SortedSet.score_empty k]
    simp

section Mirror

variable {m : MemoryStore} {s : Redis Text}

theorem Mirror.record (h : Mirror w m s) {id : JobId} {j : Job}
    (found : m.jobs.lookup id = some j) :
    ∃ raw, s.jobs.lookup (key w id) = some raw ∧ Holds w j raw := by
  have entry := h.entry id
  rw [found] at entry
  generalize s.jobs.lookup (key w id) = r at entry
  cases entry with
  | some holds => exact ⟨_, rfl, holds⟩

theorem Mirror.absent (h : Mirror w m s) {id : JobId} (unknown : m.jobs.lookup id = none) :
    s.jobs.lookup (key w id) = none := by
  have entry := h.entry id
  rw [unknown] at entry
  generalize s.jobs.lookup (key w id) = r at entry ⊢
  cases entry
  rfl

theorem Mirror.job (h : Mirror w m s) {k : String} {raw : Text}
    (found : s.jobs.lookup k = some raw) :
    ∃ id j, k = key w id ∧ m.jobs.lookup id = some j ∧ Holds w j raw := by
  obtain ⟨id, rfl⟩ := h.keyed k raw found
  have entry := h.entry id
  rw [found] at entry
  generalize hm : m.jobs.lookup id = r at entry
  cases entry with
  | some holds => exact ⟨id, _, rfl, hm, holds⟩

theorem Mirror.put (lawful : w.Lawful) (h : Mirror w m s) {j : Job} (faithful : Faithful w j) :
    Mirror w (m.put j) (RedisStore.put w s j) where
  entry := by
    intro id
    rw [MemoryStore.lookup_put, lookup_put]
    by_cases same : id = j.id
    · rw [if_pos same, if_pos (congrArg (key w) same)]
      exact .some ⟨faithful.read, faithful.rewritten⟩
    · rw [if_neg same, if_neg fun eq => same (key_injective lawful eq)]
      exact h.entry id
  keyed := by
    intro k raw found
    rw [lookup_put] at found
    split at found
    · exact ⟨j.id, ‹_›⟩
    · exact h.keyed k raw found
  due := by
    intro k b
    rw [score_put]
    simp only [MemoryStore.lookup_put]
    by_cases same : k = key w j.id
    · have only {id : JobId} (eq : k = key w id) : id = j.id :=
        key_injective lawful (eq.symm.trans same)
      rw [if_pos same]
      constructor
      · intro hb
        split at hb
        · cases hb
          exact ⟨j.id, j, same, if_pos rfl, ‹_›, rfl⟩
        · contradiction
      · rintro ⟨id, j', eq, found, scheduled, rfl⟩
        rw [if_pos (only eq)] at found
        cases found
        rw [if_pos scheduled]
    · rw [if_neg same, h.due]
      refine exists_congr fun id => exists_congr fun j' => and_congr_right fun eq => ?_
      rw [if_neg fun same' => same (by rw [eq, same'])]

/-- The ids that the script selects are those of the scheduled jobs due by the millisecond. -/
theorem Mirror.mem_dueIds (h : Mirror w m s) {k : String} {now : DateTime} :
    k ∈ dueIds s now ↔ ∃ id j, k = key w id ∧ m.jobs.lookup id = some j ∧ j.state = .scheduled ∧
      j.dueAt.timestampMillis ≤ now.timestampMillis := by
  rw [RedisStore.mem_dueIds]
  simp only [h.due]
  constructor
  · rintro ⟨-, ⟨id, j, eq, found, scheduled, rfl⟩, le⟩
    exact ⟨id, j, eq, found, scheduled, score_le_iff.mp le⟩
  · rintro ⟨id, j, eq, found, scheduled, le⟩
    exact ⟨_, ⟨id, j, eq, found, scheduled, rfl⟩, score_le_iff.mpr le⟩

theorem Mirror.allClaimable (h : Mirror w m s) (now : DateTime) : AllClaimable w s now := by
  intro k mem raw found
  obtain ⟨id, j, rfl, stored, scheduled, -⟩ := h.mem_dueIds.mp mem
  obtain ⟨raw', found', -, claimed⟩ := h.record stored
  obtain rfl := Option.some.inj (found.symm.trans found')
  rw [claimed scheduled]
  rfl

theorem Mirror.mem_handedOut (h : Mirror w m s) {now : DateTime} {j' : Job} :
    j' ∈ handedOut w s now ↔ ∃ id j, m.jobs.lookup id = some j ∧ j.state = .scheduled ∧
      j.dueAt.timestampMillis ≤ now.timestampMillis ∧ j' = j.claimed := by
  rw [RedisStore.mem_handedOut]
  constructor
  · rintro ⟨k, mem, raw, found, hj'⟩
    obtain ⟨id, j, rfl, stored, scheduled, le⟩ := h.mem_dueIds.mp mem
    obtain ⟨raw', found', -, claimed⟩ := h.record stored
    obtain rfl := Option.some.inj (found.symm.trans found')
    exact ⟨id, j, stored, scheduled, le, Option.some.inj (hj'.symm.trans (claimed scheduled))⟩
  · rintro ⟨id, j, stored, scheduled, le, rfl⟩
    obtain ⟨raw, found, -, claimed⟩ := h.record stored
    exact ⟨key w id, h.mem_dueIds.mpr ⟨id, j, rfl, stored, scheduled, le⟩, raw, found,
      claimed scheduled⟩

/-- The two stores hand out the same jobs exactly if the claim is punctual. -/
theorem Mirror.claim_iff (h : Mirror w m s) (now : DateTime) :
    (∀ j, j ∈ (m.claimDue now).1 ↔ j ∈ handedOut w s now) ↔ Punctual m (.claimDue now) := by
  constructor
  · intro same id j stored scheduled le
    have mem := (same j.claimed).mpr (h.mem_handedOut.mpr ⟨id, j, stored, scheduled, le, rfl⟩)
    obtain ⟨j', stored', due, -⟩ := MemoryStore.mem_claimDue.mp mem
    rw [Job.claimed_id, m.keyed stored] at stored'
    obtain rfl := Option.some.inj (stored.symm.trans stored')
    exact due.2
  · intro punctual j
    rw [h.mem_handedOut, MemoryStore.mem_claimDue]
    constructor
    · rintro ⟨j', stored, due, rfl⟩
      exact ⟨_, j', stored, due.1, DateTime.timestampMillis_mono due.2, rfl⟩
    · rintro ⟨id, j', stored, scheduled, le, rfl⟩
      refine ⟨j', ?_, ⟨scheduled, punctual id j' stored scheduled le⟩, rfl⟩
      rw [Job.claimed_id, m.keyed stored, stored]

/-- When a claim is punctual the script selects the jobs that are due. -/
theorem Mirror.due_iff (lawful : w.Lawful) (h : Mirror w m s) {now : DateTime}
    (punctual : Punctual m (.claimDue now)) {id : JobId} {j : Job}
    (stored : m.jobs.lookup id = some j) : key w id ∈ dueIds s now ↔ j.Due now := by
  rw [h.mem_dueIds]
  constructor
  · rintro ⟨id', j', eq, stored', scheduled, le⟩
    obtain rfl := key_injective lawful eq
    obtain rfl := Option.some.inj (stored.symm.trans stored')
    exact ⟨scheduled, punctual id j stored scheduled le⟩
  · rintro ⟨scheduled, le⟩
    exact ⟨id, j, rfl, stored, scheduled, DateTime.timestampMillis_mono le⟩

theorem Mirror.claim (lawful : w.Lawful) (h : Mirror w m s) {now : DateTime} {s' : Redis Text}
    (punctual : Punctual m (.claimDue now)) (claimed : Claimed w s now s') :
    Mirror w (m.claimDue now).2 s' := by
  have due {id : JobId} {j : Job} (stored : m.jobs.lookup id = some j) :
      key w id ∈ dueIds s now ↔ j.Due now := h.due_iff lawful punctual stored
  refine ⟨fun id => ?_, fun k raw found => ?_, fun k b => ?_⟩
  · rw [m.lookup_claimDue, claimed.lookup]
    cases stored : m.jobs.lookup id with
    | none =>
      simp only [h.absent stored, Option.map_none, Option.bind_none, ite_self]
      exact .none
    | some j =>
      obtain ⟨raw, found, read, rewritten⟩ := h.record stored
      rw [found, Option.map_some]
      by_cases isDue : j.Due now
      · obtain ⟨encoded, hencoded, decoded⟩ := claimedJob_eq_some.mp (rewritten isDue.1)
        rw [if_pos ((due stored).mpr isDue), if_pos isDue, Option.bind_some, hencoded]
        exact .some ⟨decoded, fun running => by simp at running⟩
      · rw [if_neg (mt (due stored).mp isDue), if_neg isDue]
        exact .some ⟨read, rewritten⟩
  · rw [claimed.lookup] at found
    split at found
    · obtain ⟨raw', found', -⟩ := Option.bind_eq_some_iff.mp found
      exact h.keyed k raw' found'
    · exact h.keyed k raw found
  · rw [claimed.score]
    simp only [m.lookup_claimDue, Option.map_eq_some_iff]
    constructor
    · intro hb
      split at hb
      · contradiction
      · obtain ⟨id, j, rfl, stored, scheduled, rfl⟩ := (h.due k b).mp hb
        have notDue : ¬j.Due now := mt (due stored).mpr ‹_›
        exact ⟨id, j, rfl, ⟨j, stored, if_neg notDue⟩, scheduled, rfl⟩
    · rintro ⟨id, -, rfl, ⟨j, stored, rfl⟩, scheduled, rfl⟩
      by_cases isDue : j.Due now
      · rw [if_pos isDue] at scheduled
        contradiction
      · rw [if_neg isDue] at scheduled ⊢
        rw [if_neg (mt (due stored).mp isDue)]
        exact (h.due _ _).mpr ⟨id, j, rfl, stored, scheduled, rfl⟩

theorem Mirror.get (h : Mirror w m s) (id : JobId) :
    MemoryStore.store.get m id = (store w).get s id := by
  show MemoryStore.get m id = RedisStore.get w s id
  unfold MemoryStore.get RedisStore.get
  have entry := h.entry id
  generalize m.jobs.lookup id = a at entry ⊢
  generalize s.jobs.lookup (key w id) = b at entry ⊢
  cases entry with
  | none => rfl
  | some holds => exact holds.1.symm

theorem Mirror.list (h : Mirror w m s) :
    ∃ jobs, RedisStore.list w s = .ok jobs ∧ ∀ j, j ∈ m.list ↔ j ∈ jobs := by
  have readable : ∀ raw ∈ s.jobs.entries.map Sigma.snd, ∃ j, w.decode raw = .ok j := by
    intro raw mem
    obtain ⟨k, found⟩ := AList.mem_values.mp mem
    obtain ⟨id, j, -, -, read, -⟩ := h.job found
    exact ⟨j, read⟩
  obtain ⟨jobs, each⟩ := Results.exists_forall₂ readable
  refine ⟨jobs, Results.mapM_eq_ok.mpr each, fun j => ⟨fun mem => ?_, fun mem => ?_⟩⟩
  · obtain ⟨raw, found, read, -⟩ := h.record (MemoryStore.mem_list.mp mem)
    obtain ⟨j', inJobs, read'⟩ :=
      Results.exists_of_mem_left each (AList.mem_values.mpr ⟨_, found⟩)
    rw [read] at read'
    cases read'
    exact inJobs
  · obtain ⟨raw, inValues, read⟩ := Results.exists_of_mem_right each mem
    obtain ⟨k, found⟩ := AList.mem_values.mp inValues
    obtain ⟨id, j', -, stored, read', -⟩ := h.job found
    rw [read] at read'
    cases read'
    exact MemoryStore.mem_list.mpr (by rwa [m.keyed stored])

end Mirror

/-- The store in memory simulates the one in Redis as long as claims are punctual. -/
theorem simulation (lawful : w.Lawful) :
    Machine.Exact (call MemoryStore.store) (call (store w)) (Mirror w) Agree (Assumed w)
      Punctual where
  agree_iff := by
    intro m s c h assumed
    cases c with
    | put j => exact iff_of_true rfl trivial
    | claimDue now =>
      obtain ⟨s', run, -⟩ := claimDue_eq_ok assumed (h.allClaimable now)
      rw [← h.claim_iff now]
      simp only [call, store, run]
      exact Iff.rfl
    | get id => exact iff_of_true (congrArg Reply.job (h.get id)) trivial
    | list =>
      obtain ⟨jobs, run, same⟩ := h.list
      refine iff_of_true ?_ trivial
      simp only [call, store, run]
      exact same
  next := by
    intro m s c h assumed punctual
    cases c with
    | put j => exact h.put lawful assumed
    | claimDue now =>
      obtain ⟨s', run, claimed⟩ := claimDue_eq_ok assumed (h.allClaimable now)
      simp only [call, store, run]
      exact h.claim lawful punctual claimed
    | get | list => exact h

/-- Started empty, the two stores return the same results on a sequence of calls exactly if every
claim is punctual, and the store in memory hands out the scheduled jobs that are due. -/
theorem interchangeable_iff (lawful : w.Lawful) (calls : List Call)
    (assumed : Machine.Along (fun s c => (call (store w) s c).2) (Assumed w) Redis.empty calls) :
    (List.Forall₂ Agree (Machine.outputs (call MemoryStore.store) MemoryStore.new calls)
        (Machine.outputs (call (store w)) Redis.empty calls) ↔
      Machine.Along (fun m c => (call MemoryStore.store m c).2) Punctual MemoryStore.new calls) ∧
    ∀ (m : MemoryStore) (now : DateTime) (j : Job), j ∈ (m.claimDue now).1 ↔
      ∃ j', m.jobs.lookup j.id = some j' ∧ j'.Due now ∧ j = j'.claimed :=
  ⟨(simulation lawful).outputs_iff mirror_empty assumed, fun _ _ _ => MemoryStore.mem_claimDue⟩

def noopAt (dueAt : DateTime) : Job := { noop 0 with dueAt := dueAt }

theorem faithful_noopAt (dueAt : DateTime) : Faithful Plain.wire (noopAt dueAt) where
  read := decode_encode Plain.wire_lawful (by simp [noopAt, noop, Job.new, Json.Value.depth])
  rewritten := fun _ => by
    have claimable : Claimable (noopAt dueAt) :=
      ⟨by simp [noopAt, noop, Job.new], by simp [noopAt, noop, Job.new],
        by simp [noopAt, noop, Job.new], by simp [noopAt, noop, Job.new, Json.Value.depth]⟩
    have survives : (noopAt dueAt).payload.Survives Plain.wire.readDecimal := trivial
    exact (claimedJob_encode Plain.wire_lawful).mpr
      ⟨claimable, (afterTrip_eq_claimed.mpr survives).symm⟩

def putAndClaim (dueAt : DateTime) : List Call :=
  [.put (noopAt dueAt), .claimDue DateTime.unixEpoch]

theorem assumed_putAndClaim (dueAt : DateTime) :
    Machine.Along (fun s c => (call (store Plain.wire) s c).2) (Assumed Plain.wire) Redis.empty
      (putAndClaim dueAt) := by
  refine ⟨faithful_noopAt dueAt, ?_, trivial⟩
  show (dueIds (RedisStore.put Plain.wire Redis.empty (noopAt dueAt)) DateTime.unixEpoch).length ≤
    8000
  have one : dueIds (RedisStore.put Plain.wire Redis.empty (noopAt dueAt)) DateTime.unixEpoch ⊆
      [key Plain.wire (noopAt dueAt).id] := by
    intro k mem
    obtain ⟨b, hb, -⟩ := RedisStore.mem_dueIds.mp mem
    rw [score_put] at hb
    split at hb
    · exact List.mem_singleton.mpr ‹_›
    · exact absurd hb (by simp [Redis.empty, SortedSet.score_empty])
  have length := ((nodup_dueIds _ _).subperm one).length_le
  simp only [List.length_singleton] at length
  omega

/-- The stores agree on a job that is due at the epoch. -/
theorem agree_at_epoch :
    List.Forall₂ Agree
      (Machine.outputs (call MemoryStore.store) MemoryStore.new (putAndClaim DateTime.unixEpoch))
      (Machine.outputs (call (store Plain.wire)) Redis.empty (putAndClaim DateTime.unixEpoch)) := by
  refine (interchangeable_iff Plain.wire_lawful _ (assumed_putAndClaim _)).1.mpr
    ⟨trivial, fun id j found _ _ => ?_, trivial⟩
  have found : (MemoryStore.new.put (noopAt DateTime.unixEpoch)).jobs.lookup id = some j := found
  rw [MemoryStore.lookup_put] at found
  split at found
  · cases found
    exact le_refl _
  · contradiction

/-- They disagree on a job that is due half a millisecond later. -/
theorem disagree_within_milli : ¬∀ calls : List Call,
    Machine.Along (fun s c => (call (store Plain.wire) s c).2) (Assumed Plain.wire) Redis.empty
      calls →
      List.Forall₂ Agree (Machine.outputs (call MemoryStore.store) MemoryStore.new calls)
        (Machine.outputs (call (store Plain.wire)) Redis.empty calls) := by
  intro agree
  have late := agree (putAndClaim ⟨500000, by decide, by decide⟩) (assumed_putAndClaim _)
  obtain ⟨-, punctual, -⟩ :=
    ((simulation Plain.wire_lawful).outputs_iff mirror_empty (assumed_putAndClaim _)).mp late
  have due := punctual (noop 0).id (noopAt ⟨500000, by decide, by decide⟩) rfl rfl (by decide)
  exact absurd due (by decide)

end Servr.Interchange
