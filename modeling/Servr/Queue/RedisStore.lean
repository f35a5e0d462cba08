import Servr.Lib.SortedSet
import Servr.Queue.Wire
import Mathlib.Data.String.Basic

/-! The store of `queue/src/redis_store.rs`: a hash of job id to record and a sorted set of job ids
by due time, and the script `CLAIM_DUE` that Redis runs over both. -/

namespace Servr

open Ieee Json

variable {Text : Type}

/-- The two keys of a queue. -/
structure Redis (Text : Type) where
  jobs : AList fun _ : String => Text
  due : SortedSet String ℚ

namespace Redis

def empty : Redis Text := ⟨∅, ∅⟩

end Redis

namespace RedisStore

/-- Due time as a sorted-set score: milliseconds since the epoch, as a double. -/
def score (at_ : DateTime) : ℚ := (F64.ofRat at_.timestampMillis).value

def key (w : Wire Text) (id : JobId) : String := w.uuidText id.uuid

/-- `put`: the pipeline of its two commands. -/
def put (w : Wire Text) (s : Redis Text) (j : Job) : Redis Text where
  jobs := s.jobs.insert (key w j.id) (w.encode j)
  due :=
    if j.state = .scheduled then s.due.zadd (key w j.id) (score j.dueAt)
    else s.due.zrem [key w j.id]

/-! ### The script -/

/-- A value in Lua arithmetic: a number, or a string that is one. -/
def luaNumber (w : Wire Text) : Lua → Option F64
  | .num x => some x
  | .str s => w.tonumber s
  | _ => none

/-- What the script does with one record; `none` is an error that ends it. -/
def rewrite (w : Wire Text) (raw : Text) : Option Text :=
  match w.cjsonDecode raw with
  | some (.table fields) => do
    let fields := setField "state" (.str "running") fields
    -- An absent `job.attempt` is `nil`, on which the addition fails.
    let attempt ← luaNumber w (← field "attempt" fields)
    w.cjsonEncode (.table (setField "attempt" (.num (.ofRat (attempt.value + 1))) fields))
  | _ => none

/-- The loop of the script over the ids that are due, with the records that it returns.  What it
has written stays written when it ends in an error. -/
def claimEach (w : Wire Text) :
    List String → (AList fun _ : String => Text) → Option (List Text) × AList fun _ : String => Text
  | [], jobs => (some [], jobs)
  | id :: due, jobs =>
    match jobs.lookup id with
    | none => claimEach w due jobs
    | some raw =>
      match rewrite w raw with
      | none => (none, jobs)
      | some encoded =>
        let (claimed, jobs) := claimEach w due (jobs.insert id encoded)
        (claimed.map (encoded :: ·), jobs)

/-- `CLAIM_DUE`, where `none` is an error. -/
def claimScript (w : Wire Text) (s : Redis Text) (now : ℚ) : Option (List Text) × Redis Text :=
  let due := s.due.rangeByScore now
  if due = [] then (some [], s)
  -- `unpack(due)` fails before `ZREM` is called.
  else if w.maxUnpack < due.length then (none, s)
  else
    let (claimed, jobs) := claimEach w due s.jobs
    (claimed, { jobs := jobs, due := s.due.zrem due })

/-! ### The store -/

def claimDue (w : Wire Text) (s : Redis Text) (now : DateTime) :
    StoreResult (List Job) × Redis Text :=
  match claimScript w s (score now) with
  | (none, s) => (.error (.err (.backend w.scriptError)), s)
  | (some claimed, s) => (claimed.mapM w.decode, s)

def get (w : Wire Text) (s : Redis Text) (id : JobId) : StoreResult Job :=
  match s.jobs.lookup (key w id) with
  | some raw => w.decode raw
  | none => .error (.err (.notFound id))

def list (w : Wire Text) (s : Redis Text) : StoreResult (List Job) :=
  (s.jobs.entries.map Sigma.snd).mapM w.decode

/-- `impl JobStore for RedisStore`. -/
def store (w : Wire Text) : JobStore (Redis Text) where
  put s j := (.ok (), put w s j)
  claimDue := claimDue w
  get := get w
  list := list w

/-! ### Scores -/

theorem score_eq (t : DateTime) : score t = t.timestampMillis :=
  F64.value_ofRat_intCast t.timestampMillis_bound

theorem score_le_iff {t u : DateTime} :
    score t ≤ score u ↔ t.timestampMillis ≤ u.timestampMillis := by
  rw [score_eq, score_eq, Int.cast_le]

theorem score_mono {t u : DateTime} (h : t ≤ u) : score t ≤ score u :=
  score_le_iff.mpr (DateTime.timestampMillis_mono h)

/-! ### What the commands do to the keys -/

variable {w : Wire Text}

theorem key_injective (lawful : w.Lawful) {a b : JobId} (h : key w a = key w b) : a = b := by
  obtain ⟨u⟩ := a
  obtain ⟨v⟩ := b
  have same : w.uuidParse (w.uuidText u) = w.uuidParse (w.uuidText v) := congrArg w.uuidParse h
  rw [lawful.uuid, lawful.uuid] at same
  cases same
  rfl

theorem lookup_put (s : Redis Text) (j : Job) (id : String) :
    (put w s j).jobs.lookup id = if id = key w j.id then some (w.encode j) else s.jobs.lookup id :=
  AList.lookup_insert_if s.jobs (key w j.id) id (w.encode j)

theorem score_put (s : Redis Text) (j : Job) (id : String) :
    (put w s j).due.score id =
      if id = key w j.id then (if j.state = .scheduled then some (score j.dueAt) else none)
      else s.due.score id := by
  unfold put
  by_cases scheduled : j.state = .scheduled
  · simp [scheduled, SortedSet.score_zadd]
  · simp [scheduled, SortedSet.score_zrem]

theorem lookup_claimEach_of_notMem {due : List String} {jobs : AList fun _ : String => Text}
    {id : String} (h : id ∉ due) : (claimEach w due jobs).2.lookup id = jobs.lookup id := by
  induction due generalizing jobs with
  | nil => rfl
  | cons id' due ih =>
    obtain ⟨ne, notMem⟩ := not_or.mp fun h' => h (List.mem_cons.mpr h')
    unfold claimEach
    split
    · exact ih notMem
    · split
      · rfl
      · exact (ih notMem).trans ((AList.lookup_insert_if ..).trans (if_neg ne))

/-- A script that does not fail returns what it makes of each record, in the order of the ids, and
leaves it in the hash. -/
theorem claimEach_spec {due : List String} (nodup : due.Nodup)
    (jobs : AList fun _ : String => Text)
    (fine : ∀ id ∈ due, ∀ raw, jobs.lookup id = some raw → (rewrite w raw).isSome) :
    (claimEach w due jobs).1 = some (due.filterMap fun id => (jobs.lookup id).bind (rewrite w)) ∧
    ∀ id, (claimEach w due jobs).2.lookup id =
      if id ∈ due then (jobs.lookup id).bind (rewrite w) else jobs.lookup id := by
  induction due generalizing jobs with
  | nil => simp [claimEach]
  | cons id due ih =>
    obtain ⟨new, nodup⟩ := List.nodup_cons.mp nodup
    have later : ∀ id' ∈ due, id' ≠ id := fun id' mem => ne_of_mem_of_not_mem mem new
    cases found : jobs.lookup id with
    | none =>
      obtain ⟨claimed, after⟩ := ih nodup jobs
        fun id' mem => fine id' (List.mem_cons_of_mem _ mem)
      simp only [claimEach, found]
      refine ⟨by simpa [found] using claimed, fun id' => ?_⟩
      rw [after id']
      by_cases same : id' = id
      · subst same
        simp [new, found]
      · simp [same]
    | some raw =>
      obtain ⟨encoded, hencoded⟩ :=
        Option.isSome_iff_exists.mp (fine id List.mem_cons_self raw found)
      obtain ⟨claimed, after⟩ := ih nodup (jobs.insert id encoded) fun id' mem raw' => by
        rw [AList.lookup_insert_if, if_neg (later id' mem)]
        exact fine id' (List.mem_cons_of_mem _ mem) raw'
      simp only [claimEach, found, hencoded]
      constructor
      · rw [claimed, List.filterMap_cons, found, Option.bind_some, hencoded]
        simp only [Option.map_some, Option.some.injEq, List.cons.injEq, true_and]
        refine List.filterMap_congr fun id' mem => ?_
        rw [AList.lookup_insert_if, if_neg (later id' mem)]
      · intro id'
        rw [after id', AList.lookup_insert_if]
        by_cases same : id' = id
        · subst same
          simp [new, found, hencoded]
        · simp [same]

theorem claimEach_fails {due : List String} (nodup : due.Nodup)
    {jobs : AList fun _ : String => Text} {id : String} {raw : Text} (mem : id ∈ due)
    (found : jobs.lookup id = some raw) (bad : rewrite w raw = none) :
    (claimEach w due jobs).1 = none := by
  induction due generalizing jobs with
  | nil => exact absurd mem List.not_mem_nil
  | cons id' due ih =>
    obtain ⟨new, nodup⟩ := List.nodup_cons.mp nodup
    rcases List.mem_cons.mp mem with rfl | mem
    · simp only [claimEach, found, bad]
    · have ne : id ≠ id' := ne_of_mem_of_not_mem mem new
      have kept (encoded : Text) : (jobs.insert id' encoded).lookup id = some raw := by
        rw [AList.lookup_insert_if, if_neg ne, found]
      unfold claimEach
      split
      · exact ih nodup mem found
      · split
        · rfl
        · exact congrArg (Option.map _) (ih nodup mem (kept _))

end RedisStore

end Servr
