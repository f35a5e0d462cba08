import Servr.Lib.Machine
import Servr.Queue.Batch

/-! The hash and the due set of a `RedisStore` stay in step: in every state that puts and claims of
any number of clients reach, the due set holds the ids of the scheduled jobs, each with the
milliseconds of its due time. -/

namespace Servr.RedisStore

open Json

variable {Text : Type} {w : Wire Text}

/-- The job that `get` reads under an id. -/
def record (w : Wire Text) (s : Redis Text) (id : String) : Option Job :=
  (s.jobs.lookup id).bind fun raw => (w.decode raw).toOption

/-! ### Any puts and claims -/

/-- The calls that clients make, each of them atomic. -/
inductive Call (w : Wire Text) : Redis Text → Redis Text → Prop
  | put {s} (j : Job) : Call w s (RedisStore.put w s j)
  | claim {s} (now : DateTime) : Call w s (claimDue w s now).2

/-- An id with a score is that of a record as it was put, of a scheduled job with that score. -/
def Filed (w : Wire Text) (s : Redis Text) : Prop :=
  ∀ id b, s.due.score id = some b →
    ∃ j, s.jobs.lookup id = some (w.encode j) ∧ key w j.id = id ∧ j.state = .scheduled ∧
      b = score j.dueAt

theorem filed_empty : Filed w Redis.empty := by
  intro id b hb
  rw [show (Redis.empty : Redis Text).due.score id = none from SortedSet.score_empty id] at hb
  contradiction

theorem Filed.put {s : Redis Text} (h : Filed w s) (j : Job) : Filed w (RedisStore.put w s j) := by
  intro id b
  rw [score_put, lookup_put]
  by_cases same : id = key w j.id
  · rw [if_pos same, if_pos same]
    split
    · intro hb
      cases hb
      exact ⟨j, rfl, same.symm, ‹_›, rfl⟩
    · intro hb
      contradiction
  · rw [if_neg same, if_neg same]
    exact h id b

/-- A claim takes ids out of the due set, and touches the records of no others. -/
theorem Filed.claim {s : Redis Text} (h : Filed w s) (now : DateTime) :
    Filed w (claimDue w s now).2 := by
  intro id b hb
  by_cases mem : id ∈ dueIds s now
  · by_cases fits : Fits w s now
    · have gone := score_of_fits fits (Prod.mk.eta (p := claimDue w s now)).symm mem
      rw [gone] at hb
      contradiction
    · rw [claimDue_of_not_fits fits] at hb ⊢
      exact h id b hb
  · obtain ⟨sameRecord, sameScore⟩ := claimDue_of_notMem (w := w) mem
    rw [sameScore] at hb
    rw [sameRecord]
    exact h id b hb

theorem reachable_filed {s : Redis Text} (h : Machine.Reachable (· = Redis.empty) (Call w) s) :
    Filed w s := by
  refine h.invariant (fun _ empty => empty ▸ filed_empty) fun _ _ _ ih next => ?_
  cases next with
  | put j => exact ih.put j
  | claim now => exact ih.claim now

/-! ### Records that read as jobs -/

/-- A job whose record reads as a job. -/
def Readable (w : Wire Text) (j : Job) : Prop := ∃ j', w.decode (w.encode j) = .ok j'

/-- The calls of which all records read as jobs. -/
inductive Step (w : Wire Text) : Redis Text → Redis Text → Prop
  | put {s} (j : Job) : Readable w j → Step w s (RedisStore.put w s j)
  | claim {s} (now : DateTime) : AllClaimable w s now → Step w s (claimDue w s now).2

/-- What the two keys hold under one id: nothing; a record as it was put, with its score if the job
is scheduled; or the record of a claim, which is of a running job and has no score. -/
inductive Entry (w : Wire Text) (id : String) : Option Text → Option ℚ → Prop
  | none : Entry w id none none
  | put (j : Job) : key w j.id = id → j.payload.depth ≤ 126 →
      Entry w id (some (w.encode j)) (if j.state = .scheduled then some (score j.dueAt) else none)
  | claimed {raw} (j : Job) : key w j.id = id → w.decode raw = .ok j → j.state = .running →
      Entry w id (some raw) none

def InStep (w : Wire Text) (s : Redis Text) : Prop :=
  ∀ id, Entry w id (s.jobs.lookup id) (s.due.score id)

theorem inStep_empty : InStep w Redis.empty := by
  intro id
  have noRecord : (Redis.empty : Redis Text).jobs.lookup id = none := AList.lookup_empty id
  have noScore : (Redis.empty : Redis Text).due.score id = none := SortedSet.score_empty id
  rw [noRecord, noScore]
  exact .none

theorem readable_iff (lawful : w.Lawful) {j : Job} : Readable w j ↔ j.payload.depth ≤ 126 := by
  constructor
  · rintro ⟨j', h⟩
    obtain ⟨v, read, -⟩ := decode_eq_ok.mp h
    rw [Wire.encode, lawful.written, depth_toValue] at read
    split at read
    · omega
    · contradiction
  · intro depth
    exact ⟨_, decode_encode lawful depth⟩

theorem InStep.put {s : Redis Text} (h : InStep w s) {j : Job} (depth : j.payload.depth ≤ 126) :
    InStep w (RedisStore.put w s j) := by
  intro id
  rw [lookup_put, score_put]
  by_cases same : id = key w j.id
  · rw [if_pos same, if_pos same]
    exact .put j same.symm depth
  · rw [if_neg same, if_neg same]
    exact h id

theorem InStep.filed {s : Redis Text} (h : InStep w s) : Filed w s := by
  intro id b hb
  have entry := h id
  rw [hb] at entry
  generalize hr : s.jobs.lookup id = r at entry
  generalize hs : some b = t at entry
  cases entry with
  | none => contradiction
  | put j same depth =>
    split at hs
    · cases hs
      exact ⟨j, rfl, same, ‹_›, rfl⟩
    · contradiction
  | claimed => contradiction

theorem InStep.claim (lawful : w.Lawful) {s s' : Redis Text} {now : DateTime} (h : InStep w s)
    (fine : AllClaimable w s now) (claimed : Claimed w s now s') : InStep w s' := by
  intro id
  rw [claimed.lookup, claimed.score]
  by_cases mem : id ∈ dueIds s now
  · obtain ⟨b, hb, -⟩ := mem_dueIds.mp mem
    obtain ⟨j, found, same, -, -⟩ := h.filed id b hb
    obtain ⟨j', hj'⟩ := Option.isSome_iff_exists.mp (fine id mem _ found)
    obtain ⟨encoded, hencoded, decoded⟩ := claimedJob_eq_some.mp hj'
    obtain ⟨-, rfl⟩ := (claimedJob_encode lawful).mp hj'
    rw [if_pos mem, if_pos mem, found, Option.bind_some, hencoded]
    exact .claimed (afterTrip w j) same decoded rfl
  · rw [if_neg mem, if_neg mem]
    exact h id

theorem InStep.step (lawful : w.Lawful) {s t : Redis Text} (h : InStep w s) (hs : Step w s t) :
    InStep w t := by
  cases hs with
  | put j readable => exact h.put ((readable_iff lawful).mp readable)
  | claim now fine =>
    by_cases fits : Fits w s now
    · obtain ⟨s', run, claimed⟩ := claimDue_eq_ok fits fine
      rw [run]
      exact h.claim lawful fine claimed
    · rw [claimDue_of_not_fits fits]
      exact h

theorem reachable_inStep (lawful : w.Lawful) {s : Redis Text}
    (h : Machine.Reachable (· = Redis.empty) (Step w) s) : InStep w s :=
  h.invariant (fun _ empty => empty ▸ inStep_empty) fun _ _ _ ih next => ih.step lawful next

theorem InStep.score_eq (lawful : w.Lawful) {s : Redis Text} (h : InStep w s) (id : String) :
    s.due.score id = (record w s id).bind fun j =>
      if j.state = .scheduled then some (score j.dueAt) else none := by
  have entry := h id
  rw [record]
  generalize s.jobs.lookup id = r at entry
  generalize s.due.score id = t at entry
  cases entry with
  | none => rfl
  | put j same depth =>
    rw [Option.bind_some, decode_encode lawful depth]
    rfl
  | claimed j same decoded running =>
    rw [Option.bind_some, decoded]
    simp [Except.toOption, running]

/-- In every reachable state the due set holds exactly the ids whose record is that of a scheduled
job, each with the due time of the record in milliseconds; so a claim selects an id exactly if its
record is that of a scheduled job and due. -/
theorem due_set (lawful : w.Lawful) {s : Redis Text}
    (h : Machine.Reachable (· = Redis.empty) (Step w) s) (id : String) :
    (∀ b, s.due.score id = some b ↔
      ∃ j, record w s id = some j ∧ j.state = .scheduled ∧ b = j.dueAt.timestampMillis) ∧
    ∀ now, id ∈ dueIds s now ↔
      ∃ j, record w s id = some j ∧ j.state = .scheduled ∧
        j.dueAt.timestampMillis ≤ now.timestampMillis := by
  have inStep := reachable_inStep lawful h
  have scores (b : ℚ) : s.due.score id = some b ↔
      ∃ j, record w s id = some j ∧ j.state = .scheduled ∧ b = score j.dueAt := by
    rw [inStep.score_eq lawful, Option.bind_eq_some_iff]
    refine exists_congr fun j => and_congr_right fun _ => ?_
    by_cases scheduled : j.state = .scheduled
    · simp [scheduled, eq_comm]
    · simp [scheduled]
  refine ⟨fun b => ?_, fun now => ?_⟩
  · simp only [scores, RedisStore.score_eq]
  · rw [mem_dueIds]
    simp only [scores]
    constructor
    · rintro ⟨_, ⟨j, found, scheduled, rfl⟩, le⟩
      exact ⟨j, found, scheduled, score_le_iff.mp le⟩
    · rintro ⟨j, found, scheduled, le⟩
      exact ⟨_, ⟨j, found, scheduled, rfl⟩, score_le_iff.mpr le⟩

theorem claimedJob_noop : claimedJob Plain.wire (Plain.wire.encode (noop 0)) =
    some (afterTrip Plain.wire (noop 0)) := by
  have depth : (noop 0).payload.depth ≤ 126 := by simp [noop, Job.new, Value.depth]
  exact (claimedJob_encode Plain.wire_lawful).mpr
    ⟨⟨by decide, by decide, by simp [noop, Job.new], depth⟩, rfl⟩

theorem claim_noop : ∃ s', claimDue Plain.wire (put Plain.wire Redis.empty (noop 0))
    DateTime.unixEpoch = (.ok [afterTrip Plain.wire (noop 0)], s') := by
  have due : Selected DateTime.unixEpoch (noop 0) := ⟨rfl, le_refl _⟩
  have ids := dueIds_put_empty (w := Plain.wire) due
  have fine : AllClaimable Plain.wire (put Plain.wire Redis.empty (noop 0))
      DateTime.unixEpoch := by
    intro id mem raw found
    rw [ids, List.mem_singleton] at mem
    rw [mem, lookup_put_self] at found
    cases found
    rw [claimedJob_noop]
    rfl
  have unpacks : 1 ≤ 8000 := by norm_num
  obtain ⟨s', run, -⟩ := claimDue_eq_ok (restSound_put_empty due unpacks).fits fine
  rw [handedOut, ids, List.filterMap_cons, lookup_put_self, Option.bind_some,
    claimedJob_noop] at run
  exact ⟨s', run⟩

/-- A `noop` job that has been put and claimed is running, and no claim selects it. -/
theorem due_set_noop :
    let id := key Plain.wire (noop 0).id
    ∃ (s : Redis Value) (j : Job), Machine.Reachable (· = Redis.empty) (Step Plain.wire) s ∧
      record Plain.wire s id = some j ∧ j.state = .running ∧
      ∀ now, id ∈ dueIds s now ↔
        ∃ j, record Plain.wire s id = some j ∧ j.state = .scheduled ∧
          j.dueAt.timestampMillis ≤ now.timestampMillis := by
  have lawful := Plain.wire_lawful
  have depth : (noop 0).payload.depth ≤ 126 := by simp [noop, Job.new, Value.depth]
  have start : Machine.Reachable (· = Redis.empty) (Step Plain.wire) Redis.empty := .start rfl
  have stored := start.next (.put (noop 0) ((readable_iff lawful).mpr depth))
  obtain ⟨s', run⟩ := claim_noop
  have claimed := stored.next (.claim DateTime.unixEpoch (of_claimDue_eq_ok run).2)
  rw [run] at claimed
  have after := (claimDue_ok_spec run).2
  refine ⟨s', afterTrip Plain.wire (noop 0), claimed, ?_, rfl, (due_set lawful claimed _).2⟩
  obtain ⟨encoded, hencoded, decoded⟩ := claimedJob_eq_some.mp claimedJob_noop
  have due : Selected DateTime.unixEpoch (noop 0) := ⟨rfl, le_refl _⟩
  rw [record, after.lookup, if_pos (mem_dueIds_put due), lookup_put_self,
    Option.bind_some, hencoded, Option.bind_some, decoded]
  rfl

end Servr.RedisStore
