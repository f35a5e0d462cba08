import Servr.Lib.SortedSet
import Servr.Queue.Job

/-! The trait `JobStore` of `queue/src/store.rs` and the store in memory. -/

namespace Servr

inductive StoreError
  | notFound (id : JobId)
  | backend (message : String)
  | corrupt (message : String)
  deriving DecidableEq

abbrev StoreResult (α : Type) := Except (Fault StoreError) α

/-- A `JobStore` whose contents are of type `σ`. -/
structure JobStore (σ : Type) where
  put : σ → Job → StoreResult Unit × σ
  claimDue : σ → DateTime → StoreResult (List Job) × σ
  get : σ → JobId → StoreResult Job
  list : σ → StoreResult (List Job)

/-- Jobs not yet in a terminal state. -/
def JobStore.depth {σ : Type} (store : JobStore σ) (s : σ) : StoreResult Nat :=
  (store.list s).map fun jobs => (jobs.filter fun j => !j.state.isTerminal).length

/-- A job that a claim at `now` takes. -/
def Job.Due (now : DateTime) (j : Job) : Prop := j.state = .scheduled ∧ j.dueAt ≤ now

instance (now : DateTime) (j : Job) : Decidable (j.Due now) := inferInstanceAs (Decidable (_ ∧ _))

theorem filter_id_eq {jobs : List Job} (nodup : (jobs.map (·.id)).Nodup) {j : Job}
    (mem : j ∈ jobs) : jobs.filter (fun j' => j'.id = j.id) = [j] := by
  induction jobs with
  | nil => simp at mem
  | cons j' jobs ih =>
    obtain ⟨new, nodup⟩ := List.nodup_cons.mp nodup
    rcases List.mem_cons.mp mem with rfl | mem
    · have others : jobs.filter (fun j' => j'.id = j.id) = [] := by
        refine List.filter_eq_nil_iff.mpr fun j' mem same => new ?_
        exact List.mem_map.mpr ⟨j', mem, by simpa using same⟩
      simp [others]
    · have ne : j'.id ≠ j.id := fun eq => new (List.mem_map.mpr ⟨j, mem, eq.symm⟩)
      simp [ne, ih nodup mem]

abbrev JobMap := AList fun _ : JobId => Job

/-- A `MemoryStore`: every job is under its own identifier. -/
structure MemoryStore where
  jobs : JobMap
  keyed : ∀ {id : JobId} {j : Job}, jobs.lookup id = some j → j.id = id

namespace MemoryStore

def new : MemoryStore := ⟨∅, by simp⟩

def put (s : MemoryStore) (j : Job) : MemoryStore where
  jobs := s.jobs.insert j.id j
  keyed := by
    intro id j' h
    rw [AList.lookup_insert_if] at h
    split at h
    · cases h
      exact (‹id = j.id›).symm
    · exact s.keyed h

/-- The `filter_map` of `claim_due`: marks each job of the list and returns it. -/
def claimEach : List JobId → JobMap → List Job × JobMap
  | [], jobs => ([], jobs)
  | id :: due, jobs =>
    match jobs.lookup id with
    | none => claimEach due jobs
    | some j =>
      let (claimed, jobs) := claimEach due (jobs.insert id j.claimed)
      (j.claimed :: claimed, jobs)

/-- The identifiers that `claim_due` collects. -/
def due (s : MemoryStore) (now : DateTime) : List JobId :=
  ((s.jobs.entries.map Sigma.snd).filter fun j => j.Due now).map (·.id)

theorem claimEach_spec {due : List JobId} (nodup : due.Nodup) (jobs : JobMap) :
    (claimEach due jobs).1 = due.filterMap (fun id => (jobs.lookup id).map Job.claimed) ∧
    ∀ id, (claimEach due jobs).2.lookup id =
      if id ∈ due then (jobs.lookup id).map Job.claimed else jobs.lookup id := by
  induction due generalizing jobs with
  | nil => simp [claimEach]
  | cons id due ih =>
    obtain ⟨new, nodup⟩ := List.nodup_cons.mp nodup
    cases found : jobs.lookup id with
    | none =>
      obtain ⟨claimed, after⟩ := ih nodup jobs
      simp only [claimEach, found]
      refine ⟨by simpa [found] using claimed, fun id' => ?_⟩
      rw [after id']
      by_cases same : id' = id
      · subst same
        simp [new, found]
      · simp [same]
    | some j =>
      obtain ⟨claimed, after⟩ := ih nodup (jobs.insert id j.claimed)
      simp only [claimEach, found]
      constructor
      · rw [claimed, List.filterMap_cons, found]
        simp only [Option.map_some, List.cons.injEq, true_and]
        refine List.filterMap_congr fun id' mem => ?_
        rw [AList.lookup_insert_if, if_neg (ne_of_mem_of_not_mem mem new)]
      · intro id'
        rw [after id', AList.lookup_insert_if]
        by_cases same : id' = id
        · subst same
          simp [new, found]
        · simp [same]

theorem lookup_eq_some_iff {s : MemoryStore} {id : JobId} {j : Job} :
    s.jobs.lookup id = some j ↔ j ∈ s.jobs.entries.map Sigma.snd ∧ j.id = id := by
  constructor
  · intro h
    exact ⟨AList.mem_values.mpr ⟨id, h⟩, s.keyed h⟩
  · rintro ⟨mem, rfl⟩
    obtain ⟨id, h⟩ := AList.mem_values.mp mem
    rwa [s.keyed h]

theorem map_id_values (s : MemoryStore) :
    (s.jobs.entries.map Sigma.snd).map (·.id) = s.jobs.keys := by
  rw [AList.keys, List.keys, List.map_map]
  refine List.map_congr_left fun ⟨id, j⟩ mem => ?_
  exact s.keyed (AList.mem_lookup_iff.mpr mem)

theorem mem_due {s : MemoryStore} {now : DateTime} {id : JobId} :
    id ∈ s.due now ↔ ∃ j, s.jobs.lookup id = some j ∧ j.Due now := by
  simp only [due, List.mem_map, List.mem_filter, decide_eq_true_eq, lookup_eq_some_iff]
  constructor
  · rintro ⟨j, ⟨mem, due⟩, rfl⟩
    exact ⟨j, ⟨mem, rfl⟩, due⟩
  · rintro ⟨j, ⟨mem, rfl⟩, due⟩
    exact ⟨j, ⟨mem, due⟩, rfl⟩

theorem nodup_due (s : MemoryStore) (now : DateTime) : (s.due now).Nodup := by
  have sub : (s.due now).Sublist s.jobs.keys := by
    rw [← map_id_values]
    exact List.filter_sublist.map _
  exact s.jobs.keys_nodup.sublist sub

def claimDue (s : MemoryStore) (now : DateTime) : List Job × MemoryStore :=
  ((claimEach (s.due now) s.jobs).1,
    { jobs := (claimEach (s.due now) s.jobs).2
      keyed := by
        intro id j h
        rw [(claimEach_spec (s.nodup_due now) s.jobs).2] at h
        split at h
        · obtain ⟨j', found, rfl⟩ := Option.map_eq_some_iff.mp h
          exact s.keyed (j := j') found
        · exact s.keyed h })

def get (s : MemoryStore) (id : JobId) : StoreResult Job :=
  match s.jobs.lookup id with
  | some j => .ok j
  | none => .error (.err (.notFound id))

def list (s : MemoryStore) : List Job := s.jobs.entries.map Sigma.snd

/-- `impl JobStore for MemoryStore`. -/
def store : JobStore MemoryStore where
  put s j := (.ok (), s.put j)
  claimDue s now := (.ok (s.claimDue now).1, (s.claimDue now).2)
  get := get
  list s := .ok s.list

@[simp] theorem lookup_new (id : JobId) : new.jobs.lookup id = none := AList.lookup_empty id

theorem lookup_put (s : MemoryStore) (j : Job) (id : JobId) :
    (s.put j).jobs.lookup id = if id = j.id then some j else s.jobs.lookup id :=
  AList.lookup_insert_if s.jobs j.id id j

/-- A claim takes the jobs that are due, and marks them where they are. -/
theorem lookup_claimDue (s : MemoryStore) (now : DateTime) (id : JobId) :
    (s.claimDue now).2.jobs.lookup id =
      (s.jobs.lookup id).map fun j => if j.Due now then j.claimed else j := by
  rw [claimDue, (claimEach_spec (s.nodup_due now) s.jobs).2]
  cases found : s.jobs.lookup id with
  | none => simp
  | some j =>
    have due : id ∈ s.due now ↔ j.Due now := by simp [mem_due, found]
    by_cases h : j.Due now <;> simp [due, h]

theorem mem_claimDue {s : MemoryStore} {now : DateTime} {j : Job} :
    j ∈ (s.claimDue now).1 ↔ ∃ j', s.jobs.lookup j.id = some j' ∧ j'.Due now ∧ j = j'.claimed := by
  rw [claimDue, (claimEach_spec (s.nodup_due now) s.jobs).1]
  simp only [List.mem_filterMap, mem_due, Option.map_eq_some_iff]
  constructor
  · rintro ⟨id, ⟨j', found, due⟩, j'', found', rfl⟩
    obtain rfl : j' = j'' := Option.some.inj (found.symm.trans found')
    have key := s.keyed found
    exact ⟨j', by rwa [Job.claimed_id, key], due, rfl⟩
  · rintro ⟨j', found, due, rfl⟩
    exact ⟨j'.id, ⟨j', found, due⟩, j', found, rfl⟩

theorem map_id_claimDue (s : MemoryStore) (now : DateTime) :
    (s.claimDue now).1.map (·.id) = s.due now := by
  rw [claimDue, (claimEach_spec (s.nodup_due now) s.jobs).1, List.map_filterMap]
  refine (List.filterMap_congr fun id mem => ?_).trans (List.filterMap_some)
  obtain ⟨j, found, -⟩ := mem_due.mp mem
  simp [found, s.keyed found]

theorem nodup_claimDue (s : MemoryStore) (now : DateTime) :
    ((s.claimDue now).1.map (·.id)).Nodup :=
  s.map_id_claimDue now ▸ s.nodup_due now

theorem mem_list {s : MemoryStore} {j : Job} : j ∈ s.list ↔ s.jobs.lookup j.id = some j := by
  simp [lookup_eq_some_iff, list]

end MemoryStore

end Servr
