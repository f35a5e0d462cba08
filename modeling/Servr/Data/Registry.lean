import Servr.Data.Isolation
import Servr.Fault

/-! The map of pools as the registry of runs: what `DataPlane::runs` lists while requests are made
one after the other.  A request for items puts the run that it names into the map, whether the run
was created or not. -/

namespace Servr.Data

open Interleaving

/-! ### Answers over HTTP -/

/-- How the crates uuid and sqlx display an identifier and an error. -/
structure Texts where
  uuid : Uuid → String
  sqlx : SqlError → String

def DataError.display (texts : Texts) : DataError → String
  | .unconfigured => "data plane is not configured; set DATABASE_URL and start Postgres"
  | .unknownRun run =>
    "run " ++ texts.uuid run.uuid ++ " does not exist; create it with POST /_admin/runs"
  | .sql e => texts.sqlx e

def ApiError.display (texts : Texts) : ApiError → String
  | .badRun text => "invalid x-testbed-run: " ++ text
  | .notFound id => "item " ++ texts.uuid id ++ " not found"
  | .data e => e.display texts

/-- `ApiError::into_response`: the status, and the `error` of the body. -/
def ApiError.intoResponse (texts : Texts) (e : ApiError) : StatusCode × String :=
  let status : StatusCode := match e with
    | .badRun _ => ⟨400, by decide⟩
    | .notFound _ => ⟨404, by decide⟩
    | .data .unconfigured => ⟨503, by decide⟩
    | .data (.unknownRun _) => ⟨404, by decide⟩
    | .data (.sql _) => ⟨500, by decide⟩
  (status, e.display texts)

/-! ### Requests made one after the other -/

/-- `DataPlane::runs`, whose order is that of a `HashMap`. -/
def System.runs (s : System) : Set RunId := {run | (s.pools run).isSome}

variable (setting : Setting)

/-- At most so many steps of a request, up to its answer. -/
def untilAnswered (r : Request) : Nat → System → Option (Answer × System)
  | 0, _ => none
  | n + 1, s =>
    match step setting s r with
    | none => none
    | some (some answer, t) => some (answer, t)
    | some (none, t) => untilAnswered r n t

/-- A request that is made alone: it takes five steps at most. -/
def serve (s : System) (r : Request) : Option (Answer × System) := untilAnswered setting r 5 s

/-- The request asks for items of the run. -/
def Request.AsksFor (run : RunId) (r : Request) : Prop :=
  (∃ header call, r.operation = .items header call) ∧ r.run setting = .ok run

/-- The run was created by a request of the sequence, and no later one has dropped it. -/
def Registered (run : RunId) (made : List (Request × Answer)) : Prop :=
  Since (fun e => e.1.operation = .createRun run ∧ e.2 = .ok .done)
    (fun e => e.1.operation = .dropRun run ∧ e.2 = .ok .done) made

/-- What the registry owes to a request that is answered in the state `t`, after others: the runs
that are listed next are those created and not dropped since, and a request for items of any other
run is refused, with the status 404, and has no pool. -/
structure RegistryExact (texts : Texts) (made : List (Request × Answer)) (r : Request)
    (answer : Answer) (t : System) : Prop where
  runs : t.runs = {run | Registered run (made ++ [(r, answer)])}
  refuses : ∀ run, r.AsksFor setting run → ¬ Registered run made →
    ∃ e : ApiError, answer = .error e ∧ e = .data (.unknownRun run) ∧
      (e.intoResponse texts).1.code = 404 ∧ t.pools run = none

/-- Every request of the sequence is answered, as the registry owes to it. -/
def ServedExactly (texts : Texts) (database : String → Option Schema) (requests : List Request) :
    Prop :=
  ∀ before r after, requests = before ++ r :: after → ∃ made s answer t,
    run (serve setting) (.boot database) before = some (made, s) ∧
      serve setting s r = some (answer, t) ∧ RegistryExact setting texts made r answer t

/-- Every request for items names a run that an earlier request of the sequence creates, on a plane
that is configured, and that none drops in between. -/
def AsksForCreated (requests : List Request) : Prop :=
  ∀ before r after, requests = before ++ r :: after → ∀ run, r.AsksFor setting run →
    setting.configured = true ∧
      Since (fun r => r.operation = .createRun run) (fun r => r.operation = .dropRun run) before

variable {setting}

/-! ### One request -/

theorem untilAnswered_answered {s t : System} {r : Request} {n : Nat} {answer : Answer}
    (does : Does setting s r (some answer) t) :
    untilAnswered setting r (n + 1) s = some (answer, t) := by
  rw [untilAnswered, does.step]

theorem untilAnswered_onward {s t : System} {r : Request} {n : Nat}
    (does : Does setting s r none t) :
    untilAnswered setting r (n + 1) s = untilAnswered setting r n t := by
  rw [untilAnswered, does.step]

theorem Inv.untilAnswered {s t : System} {r : Request} {n : Nat} {answer : Answer}
    (inv : Inv setting s) (served : untilAnswered setting r n s = some (answer, t)) :
    Inv setting t := by
  induction n generalizing s with
  | zero => contradiction
  | succ n ih =>
    unfold Data.untilAnswered at served
    split at served
    · contradiction
    · rename_i taken
      cases served
      exact inv.step (.of_step taken)
    · rename_i taken
      exact ih (inv.step (.of_step taken)) served

/-- Between two requests: nobody has the lock of the map, and no connection is out of the pools in
the map, nor of those that a request to come may build. -/
structure Quiet (setting : Setting) (s : System) : Prop where
  inv : Inv setting s
  unlocked : s.writer = none
  opened : ∀ run pool, s.pools run = some pool → s.connections pool = ⟨false, 0⟩
  fresh : ∀ pool, s.pcs pool.builder = .start → s.connections pool = ⟨false, 0⟩
  built : ∀ run pool, s.pools run = some pool → s.pcs pool.builder ≠ .start

theorem Quiet.boot (database : String → Option Schema) : Quiet setting (.boot database) where
  inv := .boot database
  unlocked := rfl
  opened _ _ _ := rfl
  fresh _ _ := rfl
  built _ _ found := by contradiction

/-- What a request that is made alone leaves behind but for the schemas: the map that it makes, and
no connection out. -/
structure Leaves (s : System) (r : Request) (pools : RunId → Option Pool) (t : System) : Prop where
  pools : t.pools = pools
  unlocked : t.writer = none
  connections : t.connections = s.connections
  pcs : t.pcs = Function.update s.pcs r .done

/-- Only a request for items may name no run, when its header is not a run's. -/
theorem Request.run_eq_error {r : Request} {e : ApiError} (bad : r.run setting = .error e) :
    ∃ header call text, r.operation = .items header call ∧ e = .badRun text := by
  unfold Request.run at bad
  split at bad
  · contradiction
  · contradiction
  · rename_i header call operation
    unfold fromRequestParts at bad
    split at bad
    · contradiction
    · rename_i value
      split at bad
      · cases bad
        exact ⟨some value, call, _, operation, rfl⟩
      · split at bad
        · contradiction
        · cases bad
          exact ⟨some value, call, _, operation, rfl⟩

/-- No statement answers that the run is unknown. -/
theorem execute_known {ticket : Nat} {schema : Option Schema} {work : Work} (run : RunId) :
    (execute setting ticket schema work).1 ≠ .error (.data (.unknownRun run)) := by
  match work, schema with
  | .migration, none | .migration, some ⟨items⟩ => simp [execute, Answer.sql]
  | .call call, none | .call call, some ⟨none⟩ => simp [execute, Answer.sql]
  | .call .list, some ⟨some table⟩ => simp [execute, list]
  | .call (.get id), some ⟨some table⟩ =>
    simp only [execute, get]
    split <;> simp
  | .call (.create name drawn now), some ⟨some table⟩ =>
    simp only [execute, create]
    split <;> simp [Answer.sql]
  | .call (.delete id), some ⟨some table⟩ =>
    simp only [execute, delete]
    split <;> simp

section Served

variable {s : System} {r : Request}

/-- A request with an open pool gets what its statement answers. -/
theorem served_ready {pool : Pool} {work : Work} (at_ : s.pcs r = .ready pool work)
    (unlocked : s.writer = none) (opened : s.connections pool = ⟨false, 0⟩) (n : Nat) :
    ∃ t, untilAnswered setting r (n + 2) s =
        some ((execute setting r.ticket (s.database pool.searchPath) work).1, t) ∧
      Leaves s r s.pools t := by
  have out : Does setting s r none (acquire s r pool work) :=
    .acquire pool work at_ (by rw [opened])
  have holding : (acquire s r pool work).pcs r = .holding pool work := by
    simp [acquire, System.goto]
  have last := @Does.execute setting _ r pool work holding
  refine ⟨_, (untilAnswered_onward out).trans (untilAnswered_answered last), ?_⟩
  constructor
  · rfl
  · exact unlocked
  · simp [executeOn, acquire, System.goto, System.setConnections, System.setSchema, opened]
  · simp [executeOn, acquire, System.goto, System.setConnections, System.setSchema]

/-- A request stands where it looks for the pool of its run, and whichever pool it gets is open. -/
structure Looks (s : System) (r : Request) (run : RunId) (work : Work) : Prop where
  finds : s.pcs r = .find run work
  unlocked : s.writer = none
  pool : ∀ pool, s.pools run = some pool →
    pool.searchPath = run.schema ∧ s.connections pool = ⟨false, 0⟩
  fresh : s.connections ⟨r, run.schema⟩ = ⟨false, 0⟩

/-- A request that looks for the pool of its run leaves one in the map. -/
theorem Looks.served {run : RunId} {work : Work} (looks : Looks s r run work) :
    ∃ t, untilAnswered setting r 4 s =
        some ((execute setting r.ticket (s.database run.schema) work).1, t) ∧
      Leaves s r (Function.update s.pools run
        (some ((s.pools run).getD ⟨r, run.schema⟩))) t := by
  have first : Does setting s r none (findPool s r run work) :=
    .find run work looks.finds looks.unlocked
  rw [untilAnswered_onward first]
  cases found : s.pools run with
  | some pool =>
    obtain ⟨path, opened⟩ := looks.pool pool found
    have ready : findPool s r run work = s.goto r (.ready pool work) := by rw [findPool, found]
    obtain ⟨t, served, leaves⟩ := @served_ready setting (s.goto r (.ready pool work)) r pool work
      (by simp [System.goto]) looks.unlocked opened 1
    rw [path] at served
    refine ⟨t, by rw [ready]; exact served, ?_, leaves.unlocked, leaves.connections, ?_⟩
    · rw [leaves.pools, Option.getD_some, ← found, Function.update_eq_self]
      rfl
    · rw [leaves.pcs, System.goto, Function.update_idem]
  | none =>
    have build : findPool s r run work = s.goto r (.build run work) := by rw [findPool, found]
    have second : Does setting (s.goto r (.build run work)) r none
        (insertPool (s.goto r (.build run work)) r run work) :=
      .insert run work (by simp [System.goto]) looks.unlocked
    have ready : insertPool (s.goto r (.build run work)) r run work =
        ((s.goto r (.build run work)).setPool run (some ⟨r, run.schema⟩)).goto r
          (.ready ⟨r, run.schema⟩ work) := by
      simp [insertPool, System.goto, found]
    rw [build, untilAnswered_onward second, ready]
    obtain ⟨t, served, leaves⟩ := @served_ready setting
      (((s.goto r (.build run work)).setPool run (some ⟨r, run.schema⟩)).goto r
        (.ready ⟨r, run.schema⟩ work)) r ⟨r, run.schema⟩ work
      (by simp [System.goto]) looks.unlocked looks.fresh 0
    refine ⟨t, served, leaves.pools, leaves.unlocked, leaves.connections, ?_⟩
    rw [leaves.pcs, System.goto, System.setPool, System.goto, Function.update_idem,
      Function.update_idem]

variable {run : RunId} (quiet : Quiet setting s)
include quiet

/-- The pool of a run that has been dropped is closed, and no other run has it. -/
theorem Quiet.closed {answer : Answer} {pool : Pool} {t : System} {connections : Connections}
    (served : serve setting s r = some (answer, t)) (found : s.pools run = some pool)
    (pools : t.pools = Function.update s.pools run none) (unlocked : t.writer = none)
    (closed : t.connections = Function.update s.connections pool connections)
    (pcs : t.pcs = Function.update s.pcs r .done) : Quiet setting t where
  inv := quiet.inv.untilAnswered served
  unlocked := unlocked
  opened run' p found' := by
    by_cases same : run' = run
    · simp [pools, same] at found'
    · have old : s.pools run' = some p := by simpa [pools, same] using found'
      have ne : p ≠ pool := by
        rintro rfl
        have path := (quiet.inv.map run' p old).path.symm.trans (quiet.inv.map run p found).path
        exact same (RunId.schema_injective path)
      rw [closed, Function.update_of_ne ne]
      exact quiet.opened run' p old
  fresh p unmade' := by
    by_cases same : p.builder = r
    · simp [pcs, same] at unmade'
    · have unbuilt : s.pcs p.builder = .start := by simpa [pcs, same] using unmade'
      have ne : p ≠ pool := by
        rintro rfl
        exact quiet.built run p found unbuilt
      rw [closed, Function.update_of_ne ne]
      exact quiet.fresh p unbuilt
  built run' p found' := by
    have old : s.pools run' = some p := by
      by_cases same : run' = run
      · simp [pools, same] at found'
      · simpa [pools, same] using found'
    by_cases same : p.builder = r
    · simp [pcs, same]
    · simpa [pcs, same] using quiet.built run' p old

variable (unmade : s.pcs r = .start)
include unmade

/-- A request that has been served leaves the plane quiet again. -/
theorem Quiet.served {answer : Answer} {pools : RunId → Option Pool} {t : System}
    (served : serve setting s r = some (answer, t)) (leaves : Leaves s r pools t)
    (pool : ∀ run p, pools run = some p → s.pools run = some p ∨ p.builder = r) :
    Quiet setting t where
  inv := quiet.inv.untilAnswered served
  unlocked := leaves.unlocked
  opened run p found := by
    rw [leaves.connections]
    rcases pool run p (leaves.pools ▸ found) with old | new
    · exact quiet.opened run p old
    · exact quiet.fresh p (new ▸ unmade)
  fresh p unmade' := by
    rw [leaves.pcs] at unmade'
    rw [leaves.connections]
    by_cases same : p.builder = r
    · simp [same] at unmade'
    · exact quiet.fresh p (by simpa [same] using unmade')
  built run p found := by
    rw [leaves.pcs]
    by_cases same : p.builder = r
    · simp [same]
    · have old := (pool run p (leaves.pools ▸ found)).resolve_right same
      simpa [same] using quiet.built run p old

/-- The request puts the run into the map: it creates it, or asks for its items. -/
def Request.Puts (setting : Setting) (run : RunId) (r : Request) : Prop :=
  setting.configured = true ∧ (r.operation = .createRun run ∨ r.AsksFor setting run)

/-- The request takes the run out of the map. -/
def Request.Takes (setting : Setting) (run : RunId) (r : Request) : Prop :=
  setting.configured = true ∧ r.operation = .dropRun run

/-- What one request does to a quiet plane: the map holds the run that it creates, or whose items it
asks for, and loses the run that it drops. -/
structure Outcome (setting : Setting) (s : System) (r : Request) (answer : Answer) (t : System) :
    Prop where
  served : serve setting s r = some (answer, t)
  quiet : Quiet setting t
  pcs : t.pcs = Function.update s.pcs r .done
  map : ∀ run, (t.pools run).isSome ↔
    r.Puts setting run ∨ ((s.pools run).isSome ∧ ¬ r.Takes setting run)
  created : ∀ run, r.operation = .createRun run → (answer = .ok .done ↔ setting.configured = true)
  dropped : ∀ run, r.operation = .dropRun run → (answer = .ok .done ↔ setting.configured = true)
  known : ∀ run, answer ≠ .error (.data (.unknownRun run))

/-- A request that is refused at once changes nothing. -/
theorem outcome_refused {e : ApiError} (does : Does setting s r (some (.error e)) (s.goto r .done))
    (known : ∀ run, e ≠ .data (.unknownRun run))
    (idle : setting.configured = true → ∀ run, r.operation ≠ .createRun run ∧
      r.operation ≠ .dropRun run ∧ ¬ r.AsksFor setting run) :
    Outcome setting s r (.error e) (s.goto r .done) := by
  have served : serve setting s r = some (.error e, s.goto r .done) := untilAnswered_answered does
  have leaves : Leaves s r s.pools (s.goto r .done) := ⟨rfl, quiet.unlocked, rfl, rfl⟩
  have puts (run : RunId) : ¬ r.Puts setting run := fun ⟨present, puts⟩ =>
    puts.elim (idle present run).1 (idle present run).2.2
  have takes (run : RunId) : ¬ r.Takes setting run := fun ⟨present, takes⟩ =>
    (idle present run).2.1 takes
  constructor
  · exact served
  · exact quiet.served unmade served leaves fun _ _ found => .inl found
  · rfl
  · simp [System.goto, puts, takes]
  · intro run operation
    exact iff_of_false (by simp) fun present => (idle present run).1 operation
  · intro run operation
    exact iff_of_false (by simp) fun present => (idle present run).2.1 operation
  · simpa using known

theorem outcome_badRun {e : ApiError} (bad : r.run setting = .error e) :
    Outcome setting s r (.error e) (s.goto r .done) := by
  obtain ⟨header, call, text, operation, rfl⟩ := Request.run_eq_error bad
  exact outcome_refused quiet unmade (.badRun (.badRun text) unmade bad) (by simp)
    (by simp [operation, Request.AsksFor, bad])

/-- Without a database every request is refused. -/
theorem outcome_unconfigured (named : r.run setting = .ok run)
    (absent : setting.configured = false) :
    Outcome setting s r (.error (.data .unconfigured)) (s.goto r .done) :=
  outcome_refused quiet unmade (.unconfigured run unmade named absent) (by simp) (by simp [absent])

/-- A request whose first step makes it look for the pool of its run. -/
theorem Quiet.begun {u : System} {work : Work} (begins : Does setting s r none u)
    (pools : u.pools = s.pools) (writer : u.writer = s.writer)
    (connections : u.connections = s.connections)
    (pcs : u.pcs = Function.update s.pcs r (.find run work)) :
    ∃ t, serve setting s r =
        some ((execute setting r.ticket (u.database run.schema) work).1, t) ∧
      Quiet setting t ∧ t.pcs = Function.update s.pcs r .done ∧
      ∀ run', (t.pools run').isSome ↔ run' = run ∨ (s.pools run').isSome := by
  have looks : Looks u r run work := by
    refine ⟨by simp [pcs], writer ▸ quiet.unlocked, fun pool found => ?_, ?_⟩
    · rw [pools] at found
      exact ⟨(quiet.inv.map run pool found).path, connections ▸ quiet.opened run pool found⟩
    · rw [connections]
      exact quiet.fresh _ unmade
  obtain ⟨t, served, leaves⟩ := @looks.served setting
  rw [pools] at leaves
  have here : Leaves s r (Function.update s.pools run
      (some ((s.pools run).getD ⟨r, run.schema⟩))) t :=
    ⟨leaves.pools, leaves.unlocked, leaves.connections.trans connections,
      leaves.pcs.trans (by rw [pcs, Function.update_idem])⟩
  have served : serve setting s r = _ := (untilAnswered_onward begins).trans served
  refine ⟨t, served, quiet.served unmade served here fun run' p found => ?_, here.pcs, ?_⟩
  · by_cases same : run' = run
    · subst same
      cases old : s.pools run' with
      | some pool => exact .inl (by simpa [old] using found)
      | none => exact .inr (by simp [old] at found; simp [← found])
    · exact .inl (by simpa [same] using found)
  · intro run'
    rw [here.pools]
    by_cases same : run' = run
    · simp [same]
    · simp [same]

variable (present : setting.configured = true)
include present

theorem outcome_createRun (named : r.run setting = .ok run)
    (operation : r.operation = .createRun run) : ∃ t, Outcome setting s r (.ok .done) t := by
  obtain ⟨t, served, after, pcs, map⟩ := quiet.begun unmade
    (.create run unmade named present operation) rfl rfl rfl rfl
  have answered : (execute setting r.ticket ((createSchema s r run).database run.schema)
      .migration).1 = .ok .done := by
    simp [createSchema, System.goto, System.setSchema, execute]
  rw [answered] at served
  refine ⟨t, served, after, pcs, fun run' => ?_, fun _ _ => by simp [present],
    fun _ _ => by simp [present], by simp⟩
  simp [map, operation, Request.Puts, Request.Takes, present, Request.AsksFor, @eq_comm _ run']

theorem outcome_items {header : Option HeaderValue} {call : Call} (named : r.run setting = .ok run)
    (operation : r.operation = .items header call) : ∃ answer t, Outcome setting s r answer t := by
  obtain ⟨t, served, after, pcs, map⟩ := quiet.begun unmade
    (.serve run header call unmade named present operation) rfl rfl rfl rfl
  refine ⟨_, t, served, after, pcs, fun run' => ?_, ?_, ?_, execute_known⟩
  · simp [map, operation, Request.Puts, Request.Takes, present, Request.AsksFor, named,
      @eq_comm _ run']
  · simp [operation]
  · simp [operation]

theorem outcome_dropRun (named : r.run setting = .ok run) (operation : r.operation = .dropRun run) :
    ∃ t, Outcome setting s r (.ok .done) t := by
  have first : Does setting s r none (removePool s r run) :=
    .remove run unmade named present operation quiet.unlocked
  have puts (run' : RunId) : ¬ r.Puts setting run' := by
    simp [Request.Puts, Request.AsksFor, operation]
  have takes (run' : RunId) : r.Takes setting run' ↔ run = run' := by
    simp [Request.Takes, present, operation]
  cases found : s.pools run with
  | none =>
    have dropping : removePool s r run = s.goto r (.dropping run) := by rw [removePool, found]
    rw [dropping] at first
    have last : Does setting (s.goto r (.dropping run)) r (some (.ok .done))
        (dropSchema (s.goto r (.dropping run)) r run) := .drop run (by simp [System.goto])
    have served : serve setting s r = _ :=
      (untilAnswered_onward first).trans (untilAnswered_answered last)
    have leaves : Leaves s r s.pools (dropSchema (s.goto r (.dropping run)) r run) :=
      ⟨rfl, quiet.unlocked, rfl, by simp [dropSchema, System.goto, System.setSchema]⟩
    refine ⟨_, served, quiet.served unmade served leaves fun _ _ old => .inl old, leaves.pcs,
      fun run' => ?_, fun _ _ => by simp [present], fun _ _ => by simp [present], by simp⟩
    rw [leaves.pools]
    by_cases same : run' = run
    · simp [same, found, puts]
    · simp [puts, takes, Ne.symm same]
  | some pool =>
    let closing := (((s.setPool run none).setConnections pool
      { s.connections pool with closed := true }).setWriter (some r)).goto r (.closing run pool)
    have closes : removePool s r run = closing := by rw [removePool, found]
    rw [closes] at first
    have second : Does setting closing r none ((closing.goto r (.dropping run)).setWriter none) :=
      .release run pool (by simp [closing, System.goto])
        (by simp [closing, System.goto, System.setWriter, System.setConnections,
          quiet.opened run pool found])
    have last : Does setting ((closing.goto r (.dropping run)).setWriter none) r (some (.ok .done))
        (dropSchema ((closing.goto r (.dropping run)).setWriter none) r run) :=
      .drop run (by simp [System.goto, System.setWriter])
    have served : serve setting s r = _ := (untilAnswered_onward first).trans
      ((untilAnswered_onward second).trans (untilAnswered_answered last))
    have pools : (dropSchema ((closing.goto r (.dropping run)).setWriter none) r run).pools =
        Function.update s.pools run none := rfl
    have pcs : (dropSchema ((closing.goto r (.dropping run)).setWriter none) r run).pcs =
        Function.update s.pcs r .done := by
      simp [dropSchema, closing, System.goto, System.setSchema, System.setWriter, System.setPool,
        System.setConnections]
    refine ⟨_, served, quiet.closed served found pools rfl rfl pcs, pcs, fun run' => ?_,
      fun _ _ => by simp [present], fun _ _ => by simp [present], by simp⟩
    rw [pools]
    by_cases same : run' = run
    · simp [same, puts, takes]
    · simp [same, puts, takes, Ne.symm same]

omit present in
/-- Every request that is made of a quiet plane is answered, and leaves it quiet. -/
theorem Quiet.outcome : ∃ answer t, Outcome setting s r answer t := by
  cases named : r.run setting with
  | error e => exact ⟨_, _, outcome_badRun quiet unmade named⟩
  | ok run =>
    by_cases present : setting.configured = true
    case neg =>
      exact ⟨_, _, outcome_unconfigured quiet unmade named (Bool.eq_false_iff.mpr present)⟩
    cases operation : r.operation with
    | createRun run' =>
      have same := named_operation named (.inl operation)
      exact ⟨_, outcome_createRun quiet unmade present named (same ▸ operation)⟩
    | dropRun run' =>
      have same := named_operation named (.inr operation)
      exact ⟨_, outcome_dropRun quiet unmade present named (same ▸ operation)⟩
    | items header call => exact outcome_items quiet unmade present named operation

end Served

/-! ### Sequences of requests -/

/-- The run was created or its items were asked for, and it was not dropped since. -/
def Listed (setting : Setting) (run : RunId) (requests : List Request) : Prop :=
  Since (Request.Puts setting run) (Request.Takes setting run) requests

/-- A sequence that has been answered. -/
structure Sequence (setting : Setting) (database : String → Option Schema)
    (requests : List Request) (made : List (Request × Answer)) (s : System) : Prop where
  ran : Interleaving.run (serve setting) (.boot database) requests = some (made, s)
  asked : made.map Prod.fst = requests
  quiet : Quiet setting s
  unmade : ∀ r, r ∉ requests → s.pcs r = .start
  map : ∀ run, (s.pools run).isSome ↔ Listed setting run requests
  done : ∀ e ∈ made, ∀ run, e.1.operation = .createRun run ∨ e.1.operation = .dropRun run →
    (e.2 = .ok .done ↔ setting.configured = true)

variable {database : String → Option Schema} {requests : List Request}

theorem Sequence.next {made : List (Request × Answer)} {s t : System} {r : Request}
    {answer : Answer} (sequence : Sequence setting database requests made s)
    (outcome : Outcome setting s r answer t) :
    Sequence setting database (requests ++ [r]) (made ++ [(r, answer)]) t where
  ran := run_append_singleton sequence.ran outcome.served
  asked := by simp [sequence.asked]
  quiet := outcome.quiet
  unmade r' new := by
    rw [List.mem_append, List.mem_singleton, not_or] at new
    rw [outcome.pcs, Function.update_of_ne new.2]
    exact sequence.unmade r' new.1
  map run := by
    rw [outcome.map, sequence.map]
    unfold Listed
    rw [since_append_singleton]
  done := by
    intro e mem run operation
    rcases List.mem_append.mp mem with mem | mem
    · exact sequence.done e mem run operation
    · cases List.mem_singleton.mp mem
      rcases operation with operation | operation
      · exact outcome.created run operation
      · exact outcome.dropped run operation

/-- Every sequence of different requests is answered. -/
theorem exists_sequence (setting : Setting) (database : String → Option Schema)
    (different : requests.Nodup) : ∃ made s, Sequence setting database requests made s := by
  induction requests using List.reverseRecOn with
  | nil =>
    exact ⟨[], _, rfl, rfl, .boot database, fun _ _ => rfl, fun _ => by
      simp [System.boot, Listed, not_since_nil], by simp⟩
  | append_singleton requests r ih =>
    obtain ⟨before, -, new⟩ := List.nodup_append.mp different
    obtain ⟨made, s, sequence⟩ := ih before
    have unmade := sequence.unmade r fun mem => new r mem r (by simp) rfl
    obtain ⟨answer, t, outcome⟩ := sequence.quiet.outcome unmade
    exact ⟨_, _, sequence.next outcome⟩

/-- The runs created and not dropped since, in terms of the requests alone. -/
theorem Sequence.registered {made : List (Request × Answer)} {s : System}
    (sequence : Sequence setting database requests made s) {run : RunId} :
    Registered run made ↔ setting.configured = true ∧
      Since (fun r => r.operation = .createRun run) (fun r => r.operation = .dropRun run)
        requests := by
  rw [← sequence.asked, since_map, ← since_and]
  refine since_congr (fun e mem => ?_) fun e mem => ?_
  · rw [and_comm, and_congr_left fun operation => sequence.done e mem run (.inl operation)]
  · rw [and_comm, and_congr_left fun operation => sequence.done e mem run (.inr operation)]

/-- Where every run whose items are asked for was created, the runs listed are those created. -/
theorem AsksForCreated.listed (asks : AsksForCreated setting requests) {run : RunId} :
    Listed setting run requests ↔ setting.configured = true ∧
      Since (fun r => r.operation = .createRun run) (fun r => r.operation = .dropRun run)
        requests := by
  rw [← since_and]
  induction requests using List.reverseRecOn with
  | nil => exact iff_of_false not_since_nil not_since_nil
  | append_singleton requests r ih =>
    obtain ⟨before, here⟩ := forall_split_append_singleton.mp asks
    rw [Listed, since_append_singleton, since_append_singleton, ← Listed, ih before]
    constructor
    · rintro (⟨present, creates | asksFor⟩ | kept)
      · exact .inl ⟨present, creates⟩
      · refine .inr ⟨since_and.mpr (here run asksFor), ?_⟩
        obtain ⟨⟨header, call, operation⟩, -⟩ := asksFor
        simp [operation]
      · exact .inr kept
    · rintro (⟨present, creates⟩ | kept)
      · exact .inl ⟨present, .inl creates⟩
      · exact .inr kept

theorem exists_outcome (setting : Setting) (database : String → Option Schema)
    {before after : List Request} {r : Request} (different : (before ++ r :: after).Nodup) :
    ∃ made s answer t, Sequence setting database before made s ∧ Outcome setting s r answer t := by
  obtain ⟨first, -, new⟩ := List.nodup_append.mp different
  obtain ⟨made, s, sequence⟩ := exists_sequence setting database first
  have unmade := sequence.unmade r fun mem => new r mem r (by simp) rfl
  obtain ⟨answer, t, outcome⟩ := sequence.quiet.outcome unmade
  exact ⟨made, s, answer, t, sequence, outcome⟩

/-- The registry is exact over a sequence of requests exactly if every request for items names a run
that was created and not dropped since. -/
theorem servedExactly_iff (setting : Setting) (texts : Texts) (database : String → Option Schema)
    (requests : List Request) (different : requests.Nodup) :
    ServedExactly setting texts database requests ↔ AsksForCreated setting requests := by
  constructor
  · rintro exact_ before r after rfl run asks
    obtain ⟨made, s, answer, t, sequence, outcome⟩ := exists_outcome setting database different
    obtain ⟨made', s', answer', t', ran, served, owed⟩ := exact_ before r after rfl
    cases ran.symm.trans sequence.ran
    cases served.symm.trans outcome.served
    by_contra unregistered
    rw [← sequence.registered] at unregistered
    obtain ⟨e, answered, rfl, -⟩ := owed.refuses run asks unregistered
    exact outcome.known run answered
  · rintro asks before r after rfl
    obtain ⟨made, s, answer, t, sequence, outcome⟩ := exists_outcome setting database different
    refine ⟨made, s, answer, t, sequence.ran, outcome.served, ?_,
      fun run asksFor unregistered => ?_⟩
    · have here : AsksForCreated setting (before ++ [r]) := fun b f a eq =>
        asks b f (a ++ after) (by rw [List.append_cons, eq, List.append_assoc, List.cons_append])
      ext run
      exact ((sequence.next outcome).map run).trans
        (here.listed.trans (sequence.next outcome).registered.symm)
    · exact absurd (sequence.registered.mpr (asks before r after rfl run asksFor)) unregistered

/-- The texts of the tests below. -/
def plainTexts : Texts where
  uuid := Plain.uuidText
  sqlx
    | .undefinedTable => "relation \"items\" does not exist"
    | _ => "error returned from database"

/-- The run of ones is created, its items are listed, and it is dropped. -/
def createdThenDropped : List Request :=
  [⟨0, .createRun ⟨.fill 16 1⟩⟩, ⟨1, .items (some otherHeader) .list⟩, ⟨2, .dropRun ⟨.fill 16 1⟩⟩]

theorem servedExactly_createdThenDropped :
    ServedExactly plainSetting plainTexts (fun _ => none) createdThenDropped := by
  refine (servedExactly_iff plainSetting plainTexts _ _ (by decide +kernel)).mpr ?_
  intro before r after eq run asks
  match before with
  | [] =>
    cases eq
    obtain ⟨⟨header, call, operation⟩, -⟩ := asks
    contradiction
  | [create] =>
    cases eq
    have named : (Except.ok ⟨.fill 16 1⟩ : Except ApiError RunId) = .ok run :=
      .trans (by decide +kernel) asks.2
    cases named
    exact ⟨rfl, [], _, [], rfl, rfl, by simp⟩
  | [create, list] =>
    cases eq
    obtain ⟨⟨header, call, operation⟩, -⟩ := asks
    contradiction
  | _ :: _ :: _ :: before => simp [createdThenDropped] at eq

/-- Nobody has created the run of ones, and its items are asked for. -/
def listUncreated : Request := ⟨0, .items (some otherHeader) .list⟩

theorem listUncreated_not_exact :
    ¬ ServedExactly plainSetting plainTexts (fun _ => none) [listUncreated] := by
  intro exact_
  obtain ⟨made, s, answer, t, ran, served, owed⟩ := exact_ [] listUncreated [] rfl
  cases ran
  have answered : (serve plainSetting (.boot fun _ => none) listUncreated).map Prod.fst =
      some (.error (.data (.sql .undefinedTable))) := by decide +kernel
  have asks : listUncreated.AsksFor plainSetting ⟨.fill 16 1⟩ :=
    ⟨⟨_, _, rfl⟩, by decide +kernel⟩
  obtain ⟨e, rfl, rfl, -⟩ := owed.refuses _ asks not_since_nil
  rw [served] at answered
  simp at answered

end Servr.Data
