import Servr.Data
import Servr.Lib.Interleaving

/-! What the requests naming one run see of a data plane: pools, connections and schema of that run,
which the requests that name other runs leave as they are. -/

namespace Servr.Data

open Interleaving

variable {setting : Setting}

theorem Request.names_iff {r : Request} {run : RunId} :
    r.names setting run = true ↔ r.run setting = .ok run := by
  rw [Request.names, decide_eq_true_iff, Request.run_eq_ok]

/-- A request that names another run. -/
theorem Request.run_ne {r : Request} {run other : RunId} (named : r.run setting = .ok other)
    (others : r.names setting run = false) : other ≠ run := by
  rintro rfl
  rw [Request.names_iff.mpr named] at others
  contradiction

/-! ### Every pool is a pool of its run -/

/-- A pool of `run`: a request that names the run has built it, and its connections find the tables
of the run's schema. -/
structure Pool.Of (setting : Setting) (run : RunId) (pool : Pool) : Prop where
  path : pool.searchPath = run.schema
  built : pool.builder.run setting = .ok run

/-- The work of a request. -/
def Work.Of (r : Request) : Work → Prop
  | .migration => ∃ run, r.operation = .createRun run
  | .call asked => ∃ header, r.operation = .items header asked

/-- The request `r`, which names `run`, may stand here. -/
def Pc.Of (setting : Setting) (run : RunId) (r : Request) : Pc → Prop
  | .start | .done => True
  | .find named work | .build named work => named = run ∧ work.Of r
  | .ready pool work | .holding pool work => pool.Of setting run ∧ work.Of r
  | .closing named pool => named = run ∧ r.operation = .dropRun run ∧ pool.Of setting run
  | .dropping named => named = run ∧ r.operation = .dropRun run

/-- What holds in every state: the pool in the map under a run is of that run, as is everything that
a request on its way has, and a request that waits for its pool to close has the lock. -/
structure Inv (setting : Setting) (s : System) : Prop where
  map : ∀ run pool, s.pools run = some pool → pool.Of setting run
  pcs : ∀ r, s.pcs r = .start ∨ s.pcs r = .done ∨
    ∃ run, r.run setting = .ok run ∧ (s.pcs r).Of setting run r
  lock : ∀ r run pool, s.pcs r = .closing run pool → s.writer = some r

namespace Inv

theorem boot (database : String → Option Schema) : Inv setting (.boot database) where
  map _ _ absent := by contradiction
  pcs _ := .inl rfl
  lock _ _ _ absent := by contradiction

variable {s t : System} {r : Request}

theorem serves (inv : Inv setting s) {pc : Pc} (at_ : s.pcs r = pc) (begun : pc ≠ .start)
    (unanswered : pc ≠ .done) : ∃ run, r.run setting = .ok run ∧ pc.Of setting run r := by
  subst at_
  exact ((inv.pcs r).resolve_left begun).resolve_left unanswered

theorem own (inv : Inv setting s) {run : RunId} (names : r.names setting run = true) {pc : Pc}
    (at_ : s.pcs r = pc) (begun : pc ≠ .start) (unanswered : pc ≠ .done) :
    pc.Of setting run r := by
  obtain ⟨run', named, of⟩ := inv.serves at_ begun unanswered
  rwa [Except.ok.inj ((Request.names_iff.mp names).symm.trans named)]

theorem others (inv : Inv setting s) {run : RunId} (others : r.names setting run = false) {pc : Pc}
    (at_ : s.pcs r = pc) (begun : pc ≠ .start) (unanswered : pc ≠ .done) :
    ∃ other ≠ run, pc.Of setting other r := by
  obtain ⟨other, named, of⟩ := inv.serves at_ begun unanswered
  exact ⟨other, Request.run_ne named others, of⟩

/-- Nobody closes a pool while the lock is free. -/
theorem no_closing (inv : Inv setting s) (free : s.writer = none) (run : RunId) (pool : Pool) :
    s.pcs r ≠ .closing run pool := by
  intro closing
  rw [inv.lock r run pool closing] at free
  contradiction

theorem goto (inv : Inv setting s) {pc : Pc}
    (serves : pc = .done ∨ ∃ run, r.run setting = .ok run ∧ pc.Of setting run r)
    (lock : ∀ run pool, pc = .closing run pool → s.writer = some r) :
    Inv setting (s.goto r pc) where
  map := inv.map
  pcs r' := by
    by_cases same : r' = r
    · subst same
      simpa [System.goto] using .inr serves
    · simpa [System.goto, same] using inv.pcs r'
  lock r' run pool closing := by
    by_cases same : r' = r
    · subst same
      exact lock run pool (by simpa [System.goto] using closing)
    · exact inv.lock r' run pool (by simpa [System.goto, same] using closing)

theorem setPool (inv : Inv setting s) {run : RunId} {pool : Option Pool}
    (of : ∀ p, pool = some p → p.Of setting run) : Inv setting (s.setPool run pool) where
  map run' pool' found := by
    by_cases same : run' = run
    · subst same
      exact of pool' (by simpa [System.setPool] using found)
    · exact inv.map run' pool' (by simpa [System.setPool, same] using found)
  pcs := inv.pcs
  lock := inv.lock

theorem setSchema (inv : Inv setting s) (name : String) (schema : Option Schema) :
    Inv setting (s.setSchema name schema) :=
  ⟨inv.map, inv.pcs, inv.lock⟩

theorem setConnections (inv : Inv setting s) (pool : Pool) (connections : Connections) :
    Inv setting (s.setConnections pool connections) :=
  ⟨inv.map, inv.pcs, inv.lock⟩

theorem setWriter (inv : Inv setting s) {writer : Option Request}
    (lock : ∀ r run pool, s.pcs r = .closing run pool → writer = some r) :
    Inv setting (s.setWriter writer) :=
  ⟨inv.map, inv.pcs, lock⟩

theorem step {answer : Option Answer} (inv : Inv setting s) (does : Does setting s r answer t) :
    Inv setting t := by
  cases does with
  | badRun e pc bad => exact inv.goto (.inl rfl) (by simp)
  | unconfigured run pc named absent => exact inv.goto (.inl rfl) (by simp)
  | create run pc named present operation =>
    exact (inv.setSchema _ _).goto (.inr ⟨run, named, rfl, run, operation⟩) (by simp)
  | remove run pc named present operation free =>
    unfold removePool
    split
    · exact inv.goto (.inr ⟨run, named, rfl, operation⟩) (by simp)
    · rename_i pool found
      refine (((inv.setPool (by simp)).setConnections _ _).setWriter ?_).goto
        (.inr ⟨run, named, rfl, operation, inv.map run pool found⟩) fun _ _ _ => rfl
      intro r' run' pool' closing
      exact absurd closing (inv.no_closing free run' pool')
  | serve run header call pc named present operation =>
    exact inv.goto (.inr ⟨run, named, rfl, header, operation⟩) (by simp)
  | find run work pc free =>
    obtain ⟨run', named, rfl, of⟩ := inv.serves pc (by simp) (by simp)
    unfold findPool
    split
    · rename_i pool found
      exact inv.goto (.inr ⟨run, named, inv.map run pool found, of⟩) (by simp)
    · exact inv.goto (.inr ⟨run, named, rfl, of⟩) (by simp)
  | insert run work pc free =>
    obtain ⟨run', named, rfl, of⟩ := inv.serves pc (by simp) (by simp)
    unfold insertPool
    split
    · rename_i pool found
      exact inv.goto (.inr ⟨run, named, inv.map run pool found, of⟩) (by simp)
    · have built : Pool.Of setting run ⟨r, run.schema⟩ := ⟨rfl, named⟩
      exact (inv.setPool fun p eq => by cases eq; exact built).goto (.inr ⟨run, named, built, of⟩)
        (by simp)
  | refuse pool work pc closed => exact inv.goto (.inl rfl) (by simp)
  | acquire pool work pc opened =>
    have serves := inv.serves pc (by simp) (by simp)
    exact (inv.setConnections _ _).goto (.inr serves) (by simp)
  | execute pool work pc =>
    exact ((inv.setSchema _ _).setConnections _ _).goto (.inl rfl) (by simp)
  | release run pool pc back =>
    obtain ⟨run', named, rfl, operation, -⟩ := inv.serves pc (by simp) (by simp)
    have dropping : (Pc.dropping run).Of setting run r := ⟨rfl, operation⟩
    refine (inv.goto (.inr ⟨run, named, dropping⟩) (by simp)).setWriter ?_
    intro r' run' pool' closing
    by_cases same : r' = r
    · subst same
      simp [System.goto] at closing
    · have closing' : s.pcs r' = .closing run' pool' := by simpa [System.goto, same] using closing
      have both := (inv.lock r' run' pool' closing').symm.trans (inv.lock r run pool pc)
      exact absurd (Option.some.inj both) same
  | drop run pc => exact (inv.setSchema _ _).goto (.inl rfl) (by simp)

end Inv

/-! ### What a run sees -/

/-- The state `t` of a data plane on which only requests naming `run` have been made is the part of
`s` that these requests see. -/
structure Agrees (setting : Setting) (run : RunId) (s t : System) : Prop where
  pool : t.pools run = s.pools run
  writer : t.writer = s.writer.filter (Request.names setting run)
  schema : t.database run.schema = s.database run.schema
  connections : ∀ pool, pool.Of setting run → t.connections pool = s.connections pool
  pcs : ∀ r, r.names setting run = true → t.pcs r = s.pcs r

namespace Agrees

variable {run other : RunId} {s t : System}

theorem boot {database database' : String → Option Schema}
    (same : database' run.schema = database run.schema) :
    Agrees setting run (.boot database) (.boot database') where
  pool := rfl
  writer := rfl
  schema := same
  connections _ _ := rfl
  pcs _ _ := rfl

/-! A change that a request naming the run makes on both sides. -/

theorem goto (agrees : Agrees setting run s t) (r : Request) (pc : Pc) :
    Agrees setting run (s.goto r pc) (t.goto r pc) where
  pool := agrees.pool
  writer := agrees.writer
  schema := agrees.schema
  connections := agrees.connections
  pcs r' names := by
    simp only [System.goto, Function.update_apply, agrees.pcs r' names]

theorem setPool (agrees : Agrees setting run s t) (pool : Option Pool) :
    Agrees setting run (s.setPool run pool) (t.setPool run pool) where
  pool := by simp [System.setPool]
  writer := agrees.writer
  schema := agrees.schema
  connections := agrees.connections
  pcs := agrees.pcs

theorem setWriter (agrees : Agrees setting run s t) {writer : Option Request}
    (own : writer.filter (Request.names setting run) = writer) :
    Agrees setting run (s.setWriter writer) (t.setWriter writer) where
  pool := agrees.pool
  writer := own.symm
  schema := agrees.schema
  connections := agrees.connections
  pcs := agrees.pcs

theorem setSchema (agrees : Agrees setting run s t) (schema : Option Schema) :
    Agrees setting run (s.setSchema run.schema schema) (t.setSchema run.schema schema) where
  pool := agrees.pool
  writer := agrees.writer
  schema := by simp [System.setSchema]
  connections := agrees.connections
  pcs := agrees.pcs

theorem setConnections (agrees : Agrees setting run s t) (pool : Pool)
    (connections : Connections) :
    Agrees setting run (s.setConnections pool connections) (t.setConnections pool connections) where
  pool := agrees.pool
  writer := agrees.writer
  schema := agrees.schema
  connections pool' of := by
    simp only [System.setConnections, Function.update_apply, agrees.connections pool' of]
  pcs := agrees.pcs

/-! A change that a request naming another run makes. -/

theorem goto_other (agrees : Agrees setting run s t) {r : Request}
    (others : r.names setting run = false) (pc : Pc) : Agrees setting run (s.goto r pc) t where
  pool := agrees.pool
  writer := agrees.writer
  schema := agrees.schema
  connections := agrees.connections
  pcs r' names := by
    have ne : r' ≠ r := by
      rintro rfl
      rw [others] at names
      contradiction
    simpa [System.goto, ne] using agrees.pcs r' names

theorem setPool_other (agrees : Agrees setting run s t) (ne : other ≠ run) (pool : Option Pool) :
    Agrees setting run (s.setPool other pool) t where
  pool := by simpa [System.setPool, ne.symm] using agrees.pool
  writer := agrees.writer
  schema := agrees.schema
  connections := agrees.connections
  pcs := agrees.pcs

theorem setWriter_other (agrees : Agrees setting run s t) {writer : Option Request}
    (same : writer.filter (Request.names setting run) =
      s.writer.filter (Request.names setting run)) :
    Agrees setting run (s.setWriter writer) t where
  pool := agrees.pool
  writer := agrees.writer.trans same.symm
  schema := agrees.schema
  connections := agrees.connections
  pcs := agrees.pcs

theorem setSchema_other (agrees : Agrees setting run s t) (ne : other ≠ run)
    (schema : Option Schema) : Agrees setting run (s.setSchema other.schema schema) t where
  pool := agrees.pool
  writer := agrees.writer
  schema := by
    have names : run.schema ≠ other.schema := RunId.schema_injective.ne ne.symm
    simpa [System.setSchema, names] using agrees.schema
  connections := agrees.connections
  pcs := agrees.pcs

theorem setConnections_other (agrees : Agrees setting run s t) (ne : other ≠ run) {pool : Pool}
    (of : pool.Of setting other) (connections : Connections) :
    Agrees setting run (s.setConnections pool connections) t where
  pool := agrees.pool
  writer := agrees.writer
  schema := agrees.schema
  connections pool' of' := by
    have differ : pool' ≠ pool := by
      rintro rfl
      exact ne (Except.ok.inj (of.built.symm.trans of'.built))
    simpa [System.setConnections, differ] using agrees.connections pool' of'
  pcs := agrees.pcs

end Agrees

section Steps

variable {run : RunId} {s s' t : System} {r : Request} {answer : Option Answer}

/-- A request that names the run takes the same step on what the run sees. -/
theorem Does.matched (inv : Inv setting s) (agrees : Agrees setting run s t)
    (own : r.names setting run = true) (does : Does setting s r answer s') :
    ∃ t', Does setting t r answer t' ∧ Agrees setting run s' t' := by
  have here := agrees.pcs r own
  have named := Request.names_iff.mp own
  have free (unlocked : s.writer = none) : t.writer = none := by
    rw [agrees.writer, unlocked]
    rfl
  cases does with
  | badRun e pc bad => exact ⟨_, .badRun e (here.trans pc) bad, agrees.goto r _⟩
  | unconfigured run' pc named' absent =>
    exact ⟨_, .unconfigured run' (here.trans pc) named' absent, agrees.goto r _⟩
  | create run' pc named' present operation =>
    cases Except.ok.inj (named.symm.trans named')
    refine ⟨_, .create run (here.trans pc) named present operation, ?_⟩
    unfold createSchema
    rw [agrees.schema]
    exact (agrees.setSchema _).goto r _
  | remove run' pc named' present operation unlocked =>
    cases Except.ok.inj (named.symm.trans named')
    refine ⟨_, .remove run (here.trans pc) named present operation (free unlocked), ?_⟩
    unfold removePool
    rw [agrees.pool]
    split
    · exact agrees.goto r _
    · rename_i pool found
      rw [agrees.connections pool (inv.map run pool found)]
      exact (((agrees.setPool none).setConnections pool _).setWriter (by simp [own])).goto r _
  | serve run' header call pc named' present operation =>
    exact ⟨_, .serve run' header call (here.trans pc) named' present operation, agrees.goto r _⟩
  | find run' work pc unlocked =>
    obtain ⟨rfl, -⟩ := inv.own own pc (by simp) (by simp)
    refine ⟨_, .find run' work (here.trans pc) (free unlocked), ?_⟩
    unfold findPool
    rw [agrees.pool]
    split <;> exact agrees.goto r _
  | insert run' work pc unlocked =>
    obtain ⟨rfl, -⟩ := inv.own own pc (by simp) (by simp)
    refine ⟨_, .insert run' work (here.trans pc) (free unlocked), ?_⟩
    unfold insertPool
    rw [agrees.pool]
    split
    · exact agrees.goto r _
    · exact (agrees.setPool _).goto r _
  | refuse pool work pc closed =>
    have of := inv.own own pc (by simp) (by simp)
    have same := agrees.connections pool of.1
    exact ⟨_, .refuse pool work (here.trans pc) (same ▸ closed), agrees.goto r _⟩
  | acquire pool work pc opened =>
    have of := inv.own own pc (by simp) (by simp)
    have same := agrees.connections pool of.1
    refine ⟨_, .acquire pool work (here.trans pc) (same ▸ opened), ?_⟩
    unfold Data.acquire
    rw [same]
    exact (agrees.setConnections pool _).goto r _
  | execute pool work pc =>
    have of := inv.own own pc (by simp) (by simp)
    have schema : t.database pool.searchPath = s.database pool.searchPath := by
      rw [of.1.path, agrees.schema]
    refine ⟨executeOn setting t r pool work, ?_, ?_⟩
    · rw [← schema]
      exact .execute pool work (here.trans pc)
    · unfold executeOn
      rw [schema, agrees.connections pool of.1, of.1.path]
      exact ((agrees.setSchema _).setConnections pool _).goto r _
  | release run' pool pc back =>
    have of := inv.own own pc (by simp) (by simp)
    have same := agrees.connections pool of.2.2
    exact ⟨_, .release run' pool (here.trans pc) (same ▸ back), (agrees.goto r _).setWriter rfl⟩
  | drop run' pc =>
    obtain ⟨rfl, -⟩ := inv.own own pc (by simp) (by simp)
    exact ⟨_, .drop run' (here.trans pc), (agrees.setSchema none).goto r _⟩

/-- A request that names another run, or none, changes nothing that the run sees. -/
theorem Does.unseen (inv : Inv setting s) (agrees : Agrees setting run s t)
    (others : r.names setting run = false) (does : Does setting s r answer s') :
    Agrees setting run s' t := by
  cases does with
  | badRun e pc bad => exact agrees.goto_other others _
  | unconfigured other pc named absent => exact agrees.goto_other others _
  | create other pc named present operation =>
    exact (agrees.setSchema_other (Request.run_ne named others) _).goto_other others _
  | remove other pc named present operation unlocked =>
    have ne := Request.run_ne named others
    unfold removePool
    split
    · exact agrees.goto_other others _
    · rename_i pool found
      refine (((agrees.setPool_other ne none).setConnections_other ne (inv.map other pool found)
        _).setWriter_other ?_).goto_other others _
      simp [System.setConnections, System.setPool, unlocked, others]
  | serve other header call pc named present operation => exact agrees.goto_other others _
  | find other work pc unlocked =>
    unfold findPool
    split <;> exact agrees.goto_other others _
  | insert other work pc unlocked =>
    obtain ⟨other', ne, rfl, -⟩ := inv.others others pc (by simp) (by simp)
    unfold insertPool
    split
    · exact agrees.goto_other others _
    · exact (agrees.setPool_other ne _).goto_other others _
  | refuse pool work pc closed => exact agrees.goto_other others _
  | acquire pool work pc opened =>
    obtain ⟨other, ne, of⟩ := inv.others others pc (by simp) (by simp)
    exact (agrees.setConnections_other ne of.1 _).goto_other others _
  | execute pool work pc =>
    obtain ⟨other, ne, of⟩ := inv.others others pc (by simp) (by simp)
    unfold executeOn
    rw [of.1.path]
    exact ((agrees.setSchema_other ne _).setConnections_other ne of.1 _).goto_other others _
  | release other pool pc back =>
    refine (agrees.goto_other others _).setWriter_other ?_
    simp [System.goto, inv.lock r other pool pc, Option.filter, others]
  | drop other pc =>
    obtain ⟨other', ne, rfl, -⟩ := inv.others others pc (by simp) (by simp)
    exact (agrees.setSchema_other ne none).goto_other others _

end Steps

/-- The requests naming a run unwind: what they see of a data plane is a data plane on which they
are alone. -/
theorem unwinding (run : RunId) : Unwinding (step setting) (Request.names setting run) fun s t =>
    Inv setting s ∧ Agrees setting run s t where
  matched := by
    rintro s t s' r answer ⟨inv, agrees⟩ own taken
    have does := Does.of_step taken
    obtain ⟨t', does', agrees'⟩ := does.matched inv agrees own
    exact ⟨t', does'.step, inv.step does, agrees'⟩
  unseen := by
    rintro s t s' r answer ⟨inv, agrees⟩ others taken
    have does := Does.of_step taken
    exact ⟨inv.step does, does.unseen inv agrees others⟩

end Servr.Data
