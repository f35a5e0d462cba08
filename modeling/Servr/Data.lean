import Mathlib.Logic.Function.Basic
import Mathlib.Data.List.Perm.Basic
import Servr.Plain
import Servr.Text

/-! The data plane of `http/src/data.rs` and the requests of `http/src/items.rs`, any number of
which run at once: a statement that the database executes is one step, and so is each look at the
map of pools. -/

namespace Servr

/-- `RunId::schema`: lowercase letters and digits, within the 63 bytes of an identifier, so that
Postgres neither folds the name nor cuts it. -/
def RunId.schema (run : RunId) : String := "run_" ++ run.uuid.display

theorem RunId.schema_injective : Function.Injective RunId.schema := by
  intro run other same
  have display : run.uuid.display = other.uuid.display := by
    have chars := congrArg String.toList same
    rw [schema, schema, String.toList_append, String.toList_append] at chars
    exact String.toList_injective (List.append_cancel_left chars)
  have read := HexId.fromStr_display run.uuid
  rw [display, HexId.fromStr_display] at read
  exact RunId.ext (Except.ok.inj read).symm

namespace Data

/-! ### The database -/

structure Item where
  id : Uuid
  name : String
  createdAt : DateTime
  deriving DecidableEq

/-- The table `items`, in order of insertion, with its primary key. -/
structure Table where
  rows : List Item
  keyed : (rows.map Item.id).Nodup

/-- A schema, with its table once the migration has been applied. -/
structure Schema where
  items : Option Table

/-- The errors of sqlx: a pool that is closed, and what Postgres answers. -/
inductive SqlError
  | poolClosed
  | noSchema
  | undefinedTable
  | uniqueViolation
  | refused
  deriving DecidableEq

/-- What Postgres and sqlx decide: the time that `TIMESTAMPTZ` keeps of a time, the rows whose
values are refused, and the order of a listing, where each request may find its own order of the
rows of one time. -/
structure Postgres where
  keeps : DateTime → DateTime
  refuses : Item → Bool
  orderBy : Nat → List Item → List Item
  perm : ∀ ticket rows, (orderBy ticket rows).Perm rows
  descending : ∀ ticket rows,
    (orderBy ticket rows).Pairwise fun item later => later.createdAt ≤ item.createdAt

namespace Table

def empty : Table := ⟨[], by simp⟩

/-- The row that keeps an item. -/
def row (pg : Postgres) (item : Item) : Item := { item with createdAt := pg.keeps item.createdAt }

/-- `INSERT INTO items`. -/
def insert (pg : Postgres) (item : Item) (table : Table) : Except SqlError Table :=
  if pg.refuses item then .error .refused
  else if fresh : item.id ∈ table.rows.map Item.id then .error .uniqueViolation
  else .ok ⟨table.rows ++ [row pg item], by
    rw [List.map_append, List.map_singleton]
    exact List.nodup_append.mpr ⟨table.keyed, by simp,
      fun id mem other only => by rintro rfl; exact fresh (List.mem_singleton.mp only ▸ mem)⟩⟩

/-- `DELETE FROM items WHERE id = $1`, with the number of rows affected. -/
def delete (id : Uuid) (table : Table) : Nat × Table :=
  ((table.rows.filter (·.id = id)).length,
    ⟨table.rows.filter (·.id ≠ id), table.keyed.sublist (List.filter_sublist.map _)⟩)

end Table

/-! ### Requests -/

inductive DataError
  | unconfigured
  | unknownRun (run : RunId)
  | sql (e : SqlError)
  deriving DecidableEq

inductive ApiError
  | badRun (text : String)
  | notFound (id : Uuid)
  | data (e : DataError)
  deriving DecidableEq

inductive Reply
  | done
  | items (items : List Item)
  | item (item : Item)
  | created (item : Item)
  | deleted
  deriving DecidableEq

/-- What a request returns.  The `DataError` of `create_run` and `drop_run` is an `ApiError` too. -/
abbrev Answer := Except ApiError Reply

def Answer.sql (e : SqlError) : Answer := .error (.data (.sql e))

/-- A request for items: its arguments, and for `create` the identifier that it draws and the
reading that it takes of the clock. -/
inductive Call
  | list
  | get (id : Uuid)
  | create (name : String) (drawn : Uuid) (now : DateTime)
  | delete (id : Uuid)
  deriving DecidableEq

inductive Operation
  | createRun (run : RunId)
  | dropRun (run : RunId)
  | items (header : Option HeaderValue) (call : Call)
  deriving DecidableEq

/-- A request, told from its equals by a ticket. -/
structure Request where
  ticket : Nat
  operation : Operation
  deriving DecidableEq

/-- Where the requests are served: the run of the process, whether there is a data plane, how the
crate uuid reads a text, and the database. -/
structure Setting where
  run : RunId
  configured : Bool
  parse : String → Except String Uuid
  pg : Postgres

variable (setting : Setting)

/-- `Run::from_request_parts`. -/
def fromRequestParts : Option HeaderValue → Except ApiError RunId
  | none => .ok setting.run
  | some header =>
    match header.toStr with
    | none => .error (.badRun "header is not valid text")
    | some raw =>
      match setting.parse raw with
      | .ok uuid => .ok ⟨uuid⟩
      | .error e => .error (.badRun (debugStr raw ++ " is not a run id: " ++ e))

/-- The run that the handler of a request takes it to name. -/
def Request.run (r : Request) : Except ApiError RunId :=
  match r.operation with
  | .createRun run | .dropRun run => .ok run
  | .items header _ => fromRequestParts setting header

/-- An operation names the run that it is given, the run of the process if it sends no header, and
the run of whose identifier its header is a text. -/
def Operation.Names (run : RunId) : Operation → Prop
  | .createRun named | .dropRun named => named = run
  | .items none _ => setting.run = run
  | .items (some header) _ => ∃ text, header.Spells text ∧ setting.parse text = .ok run.uuid

theorem fromRequestParts_eq_ok {header : Option HeaderValue} {run : RunId} (call : Call) :
    fromRequestParts setting header = .ok run ↔
      (Operation.items header call).Names setting run := by
  cases header with
  | none => exact ⟨fun same => Except.ok.inj same, fun same => congrArg _ same⟩
  | some header =>
    unfold fromRequestParts
    constructor
    · intro named
      dsimp only at named
      split at named
      · contradiction
      · rename_i raw read
        split at named
        · rename_i uuid parsed
          cases named
          exact ⟨raw, HeaderValue.toStr_eq_some.mp read, parsed⟩
        · contradiction
    · rintro ⟨text, spells, parsed⟩
      simp only [HeaderValue.toStr_eq_some.mpr spells, parsed]

/-- The handler of a request takes it to name the run that it names. -/
theorem Request.run_eq_ok {r : Request} {run : RunId} :
    r.run setting = .ok run ↔ r.operation.Names setting run := by
  unfold Request.run
  split
  · rename_i operation
    rw [operation, Except.ok.injEq]
    rfl
  · rename_i operation
    rw [operation, Except.ok.injEq]
    rfl
  · rename_i header call operation
    rw [operation]
    exact fromRequestParts_eq_ok setting call

/-- `RunId::header_value` names the run, where the crate uuid reads what it writes. -/
theorem Operation.names_headerValue {run : RunId}
    (reads : setting.parse run.headerValue = .ok run.uuid) (call : Call) :
    (Operation.items (some (asBytes run.headerValue.toList)) call).Names setting run :=
  ⟨run.headerValue, spells_headerValue run, reads⟩

instance (run : RunId) (r : Request) : Decidable (r.operation.Names setting run) :=
  decidable_of_iff (r.run setting = .ok run) (r.run_eq_ok setting)

def Request.names (run : RunId) (r : Request) : Bool := decide (r.operation.Names setting run)

/-! ### The handlers, past the pool -/

def list (ticket : Nat) (table : Table) : Answer × Table :=
  (.ok (.items (setting.pg.orderBy ticket table.rows)), table)

def get (id : Uuid) (table : Table) : Answer × Table :=
  match table.rows.find? (·.id = id) with
  | some item => (.ok (.item item), table)
  | none => (.error (.notFound id), table)

def create (name : String) (drawn : Uuid) (now : DateTime) (table : Table) : Answer × Table :=
  let item : Item := ⟨drawn, name, now⟩
  match table.insert setting.pg item with
  | .ok table => (.ok (.created item), table)
  | .error e => (.sql e, table)

def delete (id : Uuid) (table : Table) : Answer × Table :=
  match table.delete id with
  | (0, table) => (.error (.notFound id), table)
  | (_ + 1, table) => (.ok .deleted, table)

/-- What a request asks of its pool. -/
inductive Work
  | migration
  | call (call : Call)
  deriving DecidableEq

/-- The statement of a request, and its answer, on a connection whose `search_path` is this schema:
`CREATE TABLE IF NOT EXISTS` of the migration needs the schema, and the other statements need its
table. -/
def execute (ticket : Nat) (schema : Option Schema) : Work → Answer × Option Schema
  | .migration =>
    match schema with
    | none => (.sql .noSchema, none)
    | some ⟨items⟩ => (.ok .done, some ⟨some (items.getD .empty)⟩)
  | .call call =>
    match schema with
    | none | some ⟨none⟩ => (.sql .undefinedTable, schema)
    | some ⟨some table⟩ =>
      let (answer, table) := match call with
        | .list => list setting ticket table
        | .get id => get id table
        | .create name drawn now => create setting name drawn now table
        | .delete id => delete id table
      (answer, some ⟨some table⟩)

/-! ### The requests as they run -/

/-- A pool, told from others by the request that has built it.  Its connections have the
`search_path` that `after_connect` sets. -/
structure Pool where
  builder : Request
  searchPath : String
  deriving DecidableEq

/-- Whether a pool is closed, and how many of its connections are out. -/
structure Connections where
  closed : Bool
  out : Nat
  deriving DecidableEq

/-- Where a request stands: before its first step; about to look for the pool of its run; about to
build one; with a pool; with a connection of the pool; waiting, as the writer of the map, for a pool
that it has closed; about to drop the schema; answered. -/
inductive Pc
  | start
  | find (run : RunId) (work : Work)
  | build (run : RunId) (work : Work)
  | ready (pool : Pool) (work : Work)
  | holding (pool : Pool) (work : Work)
  | closing (run : RunId) (pool : Pool)
  | dropping (run : RunId)
  | done
  deriving DecidableEq

/-- The map of pools, with the request that holds its lock from one step to the next, the schemas of
the database by name, the connections of each pool, and each request. -/
structure System where
  pools : RunId → Option Pool
  writer : Option Request
  database : String → Option Schema
  connections : Pool → Connections
  pcs : Request → Pc

namespace System

/-- A data plane that has just connected. -/
def boot (database : String → Option Schema) : System where
  pools := fun _ => none
  writer := none
  database := database
  connections := fun _ => ⟨false, 0⟩
  pcs := fun _ => .start

def setPool (s : System) (run : RunId) (pool : Option Pool) : System :=
  { s with pools := Function.update s.pools run pool }

def setWriter (s : System) (writer : Option Request) : System := { s with writer := writer }

def setSchema (s : System) (name : String) (schema : Option Schema) : System :=
  { s with database := Function.update s.database name schema }

def setConnections (s : System) (pool : Pool) (connections : Connections) : System :=
  { s with connections := Function.update s.connections pool connections }

def goto (s : System) (r : Request) (pc : Pc) : System :=
  { s with pcs := Function.update s.pcs r pc }

end System

/-- The first step of `create_run`: `CREATE SCHEMA IF NOT EXISTS`. -/
def createSchema (s : System) (r : Request) (run : RunId) : System :=
  (s.setSchema run.schema (some ((s.database run.schema).getD ⟨none⟩))).goto r
    (.find run .migration)

/-- The first step of `drop_run`, which keeps the lock of the map when it finds a pool to close. -/
def removePool (s : System) (r : Request) (run : RunId) : System :=
  match s.pools run with
  | none => s.goto r (.dropping run)
  | some pool =>
    (((s.setPool run none).setConnections pool { s.connections pool with closed := true }).setWriter
      (some r)).goto r (.closing run pool)

/-- `pool`, where it reads the map. -/
def findPool (s : System) (r : Request) (run : RunId) (work : Work) : System :=
  match s.pools run with
  | some pool => s.goto r (.ready pool work)
  | none => s.goto r (.build run work)

/-- `pool`, where it has built a pool: the map keeps whichever landed first. -/
def insertPool (s : System) (r : Request) (run : RunId) (work : Work) : System :=
  match s.pools run with
  | some pool => s.goto r (.ready pool work)
  | none => (s.setPool run (some ⟨r, run.schema⟩)).goto r (.ready ⟨r, run.schema⟩ work)

/-- A connection goes out. -/
def acquire (s : System) (r : Request) (pool : Pool) (work : Work) : System :=
  (s.setConnections pool { s.connections pool with out := (s.connections pool).out + 1 }).goto r
    (.holding pool work)

/-- The statement is executed, and the connection comes back. -/
def executeOn (s : System) (r : Request) (pool : Pool) (work : Work) : System :=
  ((s.setSchema pool.searchPath
      (execute setting r.ticket (s.database pool.searchPath) work).2).setConnections pool
    { s.connections pool with out := (s.connections pool).out - 1 }).goto r .done

/-- The last step of `drop_run`: `DROP SCHEMA IF EXISTS … CASCADE`. -/
def dropSchema (s : System) (r : Request) (run : RunId) : System :=
  (s.setSchema run.schema none).goto r .done

/-- One step of a request, with its answer when that is its last: `none` where it waits for the lock
of the map or for the connections of a pool that it has closed, and after its answer. -/
def step (s : System) (r : Request) : Option (Option Answer × System) :=
  match s.pcs r with
  | .start =>
    match r.run setting with
    | .error e => some (some (.error e), s.goto r .done)
    | .ok run =>
      if setting.configured then
        match r.operation with
        | .createRun _ => some (none, createSchema s r run)
        | .dropRun _ => if s.writer = none then some (none, removePool s r run) else none
        | .items _ call => some (none, s.goto r (.find run (.call call)))
      else some (some (.error (.data .unconfigured)), s.goto r .done)
  | .find run work => if s.writer = none then some (none, findPool s r run work) else none
  | .build run work => if s.writer = none then some (none, insertPool s r run work) else none
  | .ready pool work =>
    if (s.connections pool).closed then some (some (.sql .poolClosed), s.goto r .done)
    else some (none, acquire s r pool work)
  | .holding pool work =>
    some (some (execute setting r.ticket (s.database pool.searchPath) work).1,
      executeOn setting s r pool work)
  | .closing run pool =>
    if (s.connections pool).out = 0 then some (none, (s.goto r (.dropping run)).setWriter none)
    else none
  | .dropping run => some (some (.ok .done), dropSchema s r run)
  | .done => none

/-- What one step of a request does. -/
inductive Does (s : System) (r : Request) : Option Answer → System → Prop
  | badRun (e : ApiError) (pc : s.pcs r = .start) (bad : r.run setting = .error e) :
      Does s r (some (.error e)) (s.goto r .done)
  | unconfigured (run : RunId) (pc : s.pcs r = .start) (named : r.run setting = .ok run)
      (absent : setting.configured = false) :
      Does s r (some (.error (.data .unconfigured))) (s.goto r .done)
  | create (run : RunId) (pc : s.pcs r = .start) (named : r.run setting = .ok run)
      (present : setting.configured = true) (operation : r.operation = .createRun run) :
      Does s r none (createSchema s r run)
  | remove (run : RunId) (pc : s.pcs r = .start) (named : r.run setting = .ok run)
      (present : setting.configured = true) (operation : r.operation = .dropRun run)
      (free : s.writer = none) : Does s r none (removePool s r run)
  | serve (run : RunId) (header : Option HeaderValue) (call : Call) (pc : s.pcs r = .start)
      (named : r.run setting = .ok run) (present : setting.configured = true)
      (operation : r.operation = .items header call) :
      Does s r none (s.goto r (.find run (.call call)))
  | find (run : RunId) (work : Work) (pc : s.pcs r = .find run work) (free : s.writer = none) :
      Does s r none (findPool s r run work)
  | insert (run : RunId) (work : Work) (pc : s.pcs r = .build run work) (free : s.writer = none) :
      Does s r none (insertPool s r run work)
  | refuse (pool : Pool) (work : Work) (pc : s.pcs r = .ready pool work)
      (closed : (s.connections pool).closed = true) :
      Does s r (some (.sql .poolClosed)) (s.goto r .done)
  | acquire (pool : Pool) (work : Work) (pc : s.pcs r = .ready pool work)
      (opened : (s.connections pool).closed = false) : Does s r none (acquire s r pool work)
  | execute (pool : Pool) (work : Work) (pc : s.pcs r = .holding pool work) :
      Does s r (some (execute setting r.ticket (s.database pool.searchPath) work).1)
        (executeOn setting s r pool work)
  | release (run : RunId) (pool : Pool) (pc : s.pcs r = .closing run pool)
      (back : (s.connections pool).out = 0) :
      Does s r none ((s.goto r (.dropping run)).setWriter none)
  | drop (run : RunId) (pc : s.pcs r = .dropping run) :
      Does s r (some (.ok .done)) (dropSchema s r run)

variable {setting}

/-- A request that is made of the data plane names the run that it is made for. -/
theorem named_operation {r : Request} {run named : RunId} (names : r.run setting = .ok named)
    (operation : r.operation = .createRun run ∨ r.operation = .dropRun run) : run = named := by
  rcases operation with operation | operation <;>
    exact Except.ok.inj (by rwa [Request.run, operation] at names)

theorem Does.of_step {s t : System} {r : Request} {answer : Option Answer}
    (taken : step setting s r = some (answer, t)) : Does setting s r answer t := by
  unfold step at taken
  split at taken
  case h_1 pc =>
    split at taken
    case h_1 e bad =>
      cases taken
      exact .badRun e pc bad
    case h_2 run named =>
      split at taken
      case isTrue present =>
        split at taken
        case h_1 run' operation =>
          cases taken
          have same := named_operation named (.inl operation)
          exact .create run pc named present (same ▸ operation)
        case h_2 run' operation =>
          have same := named_operation named (.inr operation)
          split at taken
          case isTrue free =>
            cases taken
            exact .remove run pc named present (same ▸ operation) free
          case isFalse => contradiction
        case h_3 header call operation =>
          cases taken
          exact .serve run header call pc named present operation
      case isFalse absent =>
        cases taken
        exact .unconfigured run pc named (Bool.eq_false_iff.mpr absent)
  case h_2 run work pc =>
    split at taken
    case isTrue free =>
      cases taken
      exact .find run work pc free
    case isFalse => contradiction
  case h_3 run work pc =>
    split at taken
    case isTrue free =>
      cases taken
      exact .insert run work pc free
    case isFalse => contradiction
  case h_4 pool work pc =>
    split at taken
    case isTrue closed =>
      cases taken
      exact .refuse pool work pc closed
    case isFalse opened =>
      cases taken
      exact .acquire pool work pc (Bool.eq_false_iff.mpr opened)
  case h_5 pool work pc =>
    cases taken
    exact .execute pool work pc
  case h_6 run pool pc =>
    split at taken
    case isTrue back =>
      cases taken
      exact .release run pool pc back
    case isFalse => contradiction
  case h_7 run pc =>
    cases taken
    exact .drop run pc
  case h_8 => contradiction

theorem Does.step {s t : System} {r : Request} {answer : Option Answer}
    (does : Does setting s r answer t) : Data.step setting s r = some (answer, t) := by
  unfold Data.step
  cases does with
  | badRun e pc bad => rw [pc, bad]
  | unconfigured run pc named absent => simp [pc, named, absent]
  | create run pc named present operation => simp [pc, named, present, operation]
  | remove run pc named present operation free =>
    simp [pc, named, present, operation, free]
  | serve run header call pc named present operation => simp [pc, named, present, operation]
  | find run work pc free => simp [pc, free]
  | insert run work pc free => simp [pc, free]
  | refuse pool work pc closed => simp [pc, closed]
  | acquire pool work pc opened => simp [pc, opened]
  | execute pool work pc => simp [pc]
  | release run pool pc back => simp [pc, back]
  | drop run pc => simp [pc]

end Data

end Servr
