import Servr.Queue.Crashes

/-! The queues of many runs in one Redis, where each has two keys of its own, among the keys of
others.  Whatever the processes of other runs do, the processes of a run are schedulers over a
queue of their own. -/

namespace Servr

variable {Text : Type}

/-- What a key holds. -/
inductive RedisValue (Text : Type)
  | hash (fields : AList fun _ : String => Text)
  | zset (members : SortedSet String ℚ)

/-- A key that is absent holds an empty hash or sorted set, as a command would have it, and one that
becomes empty is removed. -/
abbrev Keyspace (Text : Type) := String → Option (RedisValue Text)

namespace RedisStore

/-- The namespace of a run. -/
def keyPrefix (run : RunId) : String := "testbed:" ++ run.uuid.display

def jobsKey (run : RunId) : String := keyPrefix run ++ ":jobs"

def dueKey (run : RunId) : String := keyPrefix run ++ ":due"

theorem keyPrefix_injective : Function.Injective keyPrefix := by
  intro run other same
  have display : run.uuid.display = other.uuid.display := by
    have chars := congrArg String.toList same
    rw [keyPrefix, keyPrefix, String.toList_append, String.toList_append] at chars
    exact String.toList_injective (List.append_cancel_left chars)
  have read := HexId.fromStr_display run.uuid
  rw [display, HexId.fromStr_display] at read
  exact RunId.ext (Except.ok.inj read).symm

theorem append_right_injective (suffix : String) :
    Function.Injective fun key : String => key ++ suffix := by
  intro key other same
  have chars := congrArg String.toList same
  simp only [String.toList_append] at chars
  exact String.toList_injective (List.append_cancel_right chars)

theorem jobsKey_injective : Function.Injective jobsKey :=
  (append_right_injective ":jobs").comp keyPrefix_injective

theorem dueKey_injective : Function.Injective dueKey :=
  (append_right_injective ":due").comp keyPrefix_injective

/-- The two kinds of keys end differently. -/
theorem jobsKey_ne_dueKey (run other : RunId) : jobsKey run ≠ dueKey other := by
  intro same
  have last := congrArg (fun key => key.toList.getLast?) same
  have jobs : ":jobs".toList = [':', 'j', 'o', 'b'] ++ ['s'] := by decide
  have due : ":due".toList = [':', 'd', 'u'] ++ ['e'] := by decide
  simp only [jobsKey, dueKey, String.toList_append, jobs, due, ← List.append_assoc,
    List.getLast?_concat] at last
  exact absurd last (by decide)

end RedisStore

namespace Keyspace

open RedisStore

/-- What a command finds that expects a hash; `none` is the error of a wrong type. -/
def hash (ks : Keyspace Text) (key : String) : Option (AList fun _ : String => Text) :=
  match ks key with
  | none => some ∅
  | some (.hash fields) => some fields
  | some (.zset _) => none

/-- What a command finds that expects a sorted set. -/
def zset (ks : Keyspace Text) (key : String) : Option (SortedSet String ℚ) :=
  match ks key with
  | none => some ∅
  | some (.zset members) => some members
  | some (.hash _) => none

def setHash (ks : Keyspace Text) (key : String) (fields : AList fun _ : String => Text) :
    Keyspace Text :=
  Function.update ks key (if fields.entries = [] then none else some (.hash fields))

def setZset (ks : Keyspace Text) (key : String) (members : SortedSet String ℚ) : Keyspace Text :=
  Function.update ks key (if members.entries = [] then none else some (.zset members))

/-- The queue of a run, in its two keys. -/
def queue (ks : Keyspace Text) (run : RunId) : Option (Redis Text) := do
  let jobs ← ks.hash (jobsKey run)
  let due ← ks.zset (dueKey run)
  return ⟨jobs, due⟩

/-- The two keys after the commands of a store. -/
def setQueue (ks : Keyspace Text) (run : RunId) (queue : Redis Text) : Keyspace Text :=
  (ks.setHash (jobsKey run) queue.jobs).setZset (dueKey run) queue.due

variable {ks ks' : Keyspace Text} {run other : RunId}

theorem queue_congr (jobs : ks' (jobsKey run) = ks (jobsKey run))
    (due : ks' (dueKey run) = ks (dueKey run)) : ks'.queue run = ks.queue run := by
  rw [queue, queue, hash, hash, zset, zset, jobs, due]

@[simp] theorem queue_setQueue (ks : Keyspace Text) (run : RunId) (queue : Redis Text) :
    (ks.setQueue run queue).queue run = some queue := by
  have jobs : (ks.setQueue run queue).hash (jobsKey run) = some queue.jobs := by
    unfold hash setQueue setZset setHash
    rw [Function.update_of_ne (jobsKey_ne_dueKey run run), Function.update_self]
    by_cases empty : queue.jobs.entries = []
    · simp only [if_pos empty, Option.some.injEq]
      exact AList.ext empty.symm
    · simp only [if_neg empty]
  have due : (ks.setQueue run queue).zset (dueKey run) = some queue.due := by
    unfold zset setQueue setZset
    rw [Function.update_self]
    by_cases empty : queue.due.entries = []
    · simp only [if_pos empty, Option.some.injEq]
      exact AList.ext empty.symm
    · simp only [if_neg empty]
  rw [Keyspace.queue, jobs, due]
  rfl

/-- The keys of one run are not those of another. -/
theorem queue_setQueue_of_ne (ks : Keyspace Text) (queue : Redis Text) (ne : other ≠ run) :
    (ks.setQueue run queue).queue other = ks.queue other := by
  apply queue_congr
  · rw [setQueue, setZset, setHash, Function.update_of_ne (jobsKey_ne_dueKey other run),
      Function.update_of_ne (jobsKey_injective.ne ne)]
  · rw [setQueue, setZset, setHash, Function.update_of_ne (dueKey_injective.ne ne),
      Function.update_of_ne (jobsKey_ne_dueKey run other).symm]

/-- A key of no run. -/
def Foreign (key : String) : Prop := ∀ run, key ≠ jobsKey run ∧ key ≠ dueKey run

theorem queue_update {key : String} (foreign : Foreign key) (value : Option (RedisValue Text)) :
    queue (Function.update ks key value) run = ks.queue run :=
  queue_congr (Function.update_of_ne (foreign run).1.symm ..)
    (Function.update_of_ne (foreign run).2.symm ..)

end Keyspace

namespace Pollers

/-- One Redis and the processes of every run. -/
structure Cluster (ι Text : Type) where
  keyspace : Keyspace Text
  poller : RunId → ι → Poller
  executed : RunId → List (JobId × UInt32)

namespace Cluster

variable {ι : Type}

/-- The processes of a run, with the queue that they find. -/
def view (c : Cluster ι Text) (run : RunId) : Option (System ι (Redis Text)) :=
  (c.keyspace.queue run).map fun queue => ⟨queue, c.poller run, c.executed run⟩

/-- What the processes of a run leave. -/
def put (c : Cluster ι Text) (run : RunId) (s : System ι (Redis Text)) : Cluster ι Text where
  keyspace := c.keyspace.setQueue run s.store
  poller := Function.update c.poller run s.poller
  executed := Function.update c.executed run s.executed

variable [DecidableEq ι]

/-- A step of the processes of one run.  Its jobs need not be readable, and a claim of records that
do not decode fails with what it has written by then. -/
def RunStep (w : Wire Text) : System ι (Redis Text) → System ι (Redis Text) → Prop :=
  CrashStep (RedisStore.store w) (fun _ => True) fun _ _ => True

/-- A step of a process, or the end of one, or what others do to their keys. -/
inductive Step (w : Wire Text) : Cluster ι Text → Cluster ι Text → Prop
  | own {c : Cluster ι Text} (run : RunId) {s t : System ι (Redis Text)} : c.view run = some s →
      RunStep w s t → Step w c (c.put run t)
  | foreign (c : Cluster ι Text) {key : String} (value : Option (RedisValue Text)) :
      Keyspace.Foreign key →
      Step w c { c with keyspace := Function.update c.keyspace key value }

/-- Before any process, whatever keys others have. -/
structure Fresh (c : Cluster ι Text) : Prop where
  absent : ∀ run, c.keyspace (RedisStore.jobsKey run) = none ∧
    c.keyspace (RedisStore.dueKey run) = none
  poller : ∀ run, c.poller run = fun _ => .idle
  executed : ∀ run, c.executed run = []

variable {w : Wire Text} {c d : Cluster ι Text} {run other : RunId}

omit [DecidableEq ι] in
@[simp] theorem view_put (c : Cluster ι Text) (run : RunId) (s : System ι (Redis Text)) :
    (c.put run s).view run = some s := by
  simp [view, put]

omit [DecidableEq ι] in
theorem view_put_of_ne (s : System ι (Redis Text)) (ne : other ≠ run) :
    (c.put run s).view other = c.view other := by
  simp [view, put, Keyspace.queue_setQueue_of_ne _ _ ne, Function.update_of_ne ne]

/-- A step is one of the processes of one run, and leaves what those of others find. -/
theorem Step.views (h : Step w c d) : (∀ run, d.view run = c.view run) ∨
    ∃ run s t, c.view run = some s ∧ d.view run = some t ∧ RunStep w s t ∧
      ∀ other, other ≠ run → d.view other = c.view other := by
  cases h with
  | @own run s t found step =>
    exact .inr ⟨run, s, t, found, view_put .., step, fun other ne => view_put_of_ne t ne⟩
  | foreign value foreign =>
    refine .inl fun run => ?_
    rw [view, view, Keyspace.queue_update foreign]

omit [DecidableEq ι] in
theorem Fresh.view (h : Fresh c) (run : RunId) :
    c.view run = some ⟨Redis.empty, fun _ => .idle, []⟩ := by
  have empty : c.keyspace.queue run = some Redis.empty := by
    rw [Keyspace.queue, Keyspace.hash, Keyspace.zset, (h.absent run).1, (h.absent run).2]
    rfl
  rw [Cluster.view, empty, h.poller, h.executed]
  rfl

/-- In every run of the processes of any number of runs over one Redis, and of whatever else has
keys there, the keys of a run always hold a queue, and its processes have got to where they could
have got without the others; and no step changes what the processes of two runs find. -/
theorem runs_share_redis (h : Machine.Reachable Fresh (Step w) c) :
    (∀ run, ∃ s, c.view run = some s ∧
      Machine.Reachable (Start Redis.empty) (RunStep w) s) ∧
    ∀ d, Step w c d → ∀ run other, d.view run ≠ c.view run → d.view other ≠ c.view other →
      run = other := by
  constructor
  · intro run
    induction h with
    | start fresh => exact ⟨_, fresh.view run, .start rfl⟩
    | @next c d _ step ih =>
      obtain ⟨s, found, reached⟩ := ih
      rcases step.views with still | ⟨moved, before, after, found', found'', step, others⟩
      · exact ⟨s, (still run).trans found, reached⟩
      · by_cases same : run = moved
        · subst same
          cases found.symm.trans found'
          exact ⟨after, found'', reached.next step⟩
        · exact ⟨s, (others run same).trans found, reached⟩
  · intro d step run other changed changed'
    rcases step.views with still | ⟨moved, -, -, -, -, -, others⟩
    · exact absurd (still run) changed
    · have mine : run = moved := by_contra fun ne => changed (others run ne)
      have mine' : other = moved := by_contra fun ne => changed' (others other ne)
      exact mine.trans mine'.symm

/-- A Redis with a key of somebody else. -/
def shared : Cluster Bool Json.Value where
  keyspace := Function.update (fun _ => none) "session" (some (.zset ∅))
  poller := fun _ _ => .idle
  executed := fun _ => []

theorem shared_fresh : shared.Fresh where
  absent run := by
    have absent {key : String} (first : key.toList.head? = some 't') :
        shared.keyspace key = none := by
      have ne : key ≠ "session" := by
        rintro rfl
        exact absurd first (by decide)
      exact Function.update_of_ne (f := fun _ => none) ne _
    exact ⟨absent (by simp [RedisStore.jobsKey, RedisStore.keyPrefix]),
      absent (by simp [RedisStore.dueKey, RedisStore.keyPrefix])⟩
  poller _ := rfl
  executed _ := rfl

/-- A job without delays, which the claim of its run cannot read back. -/
def enqueued : System Bool (Redis Json.Value) :=
  ⟨RedisStore.put Plain.wire Redis.empty RedisStore.noDelays, fun _ => .idle, []⟩

theorem enqueue_noDelays :
    RunStep Plain.wire (⟨Redis.empty, fun _ => .idle, []⟩ : System Bool _) enqueued :=
  .works (.enqueue RedisStore.noDelays ⟨rfl, rfl⟩ trivial rfl)

/-- One run loses its job to a claim that fails, and another still finds an empty queue. -/
theorem runs_share_redis_failing : ∃ (c : Cluster Bool Json.Value)
    (s t : System Bool (Redis Json.Value)), Machine.Reachable Fresh (Step Plain.wire) c ∧
    c.view ⟨.fill 16 1⟩ = some s ∧ Machine.Reachable (Start Redis.empty) (RunStep Plain.wire) s ∧
    s.store.due.score (RedisStore.key Plain.wire RedisStore.noDelays.id) = none ∧
    (∃ e, RedisStore.get Plain.wire s.store RedisStore.noDelays.id =
      .error (.err (.corrupt e))) ∧
    c.view ⟨.fill 16 2⟩ = some t ∧ Machine.Reachable (Start Redis.empty) (RunStep Plain.wire) t ∧
    t.store = Redis.empty := by
  obtain ⟨e, e', after, failed, lost, corrupt⟩ := RedisStore.claimDue_noDelays
  have first : Step Plain.wire shared (shared.put ⟨.fill 16 1⟩ enqueued) :=
    .own ⟨.fill 16 1⟩ (shared_fresh.view ⟨.fill 16 1⟩) enqueue_noDelays
  have claim : RunStep Plain.wire enqueued ⟨after, enqueued.poller, enqueued.executed⟩ :=
    .works (.claimFails true DateTime.unixEpoch _ after rfl trivial failed)
  have second := Step.own ⟨.fill 16 1⟩ (view_put shared _ enqueued) claim
  have reached := ((Machine.Reachable.start shared_fresh).next first).next second
  have other : (⟨.fill 16 2⟩ : RunId) ≠ ⟨.fill 16 1⟩ := by decide
  obtain ⟨s, found, alone⟩ := (runs_share_redis reached).1 ⟨.fill 16 1⟩
  obtain ⟨t, found', alone'⟩ := (runs_share_redis reached).1 ⟨.fill 16 2⟩
  have mine := found
  have others := found'
  rw [view_put, Option.some.injEq] at mine
  rw [view_put_of_ne _ other, view_put_of_ne _ other, shared_fresh.view, Option.some.injEq]
    at others
  subst mine others
  exact ⟨_, _, _, reached, found, alone, lost, ⟨e', corrupt⟩, found', alone', rfl⟩

end Cluster

end Pollers

end Servr
