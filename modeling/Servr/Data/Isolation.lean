import Mathlib.Data.List.Sort
import Servr.Data.Unwinding
import Servr.Plain

/-! Runs do not see each other: what the requests naming one run are answered depends on these
requests alone, and a listing gives the items that were created in the run and neither deleted nor
dropped since. -/

namespace Servr.Data

open Interleaving

/-- A step that a request has taken, with its answer if that was its last. -/
abbrev Entry := Request × Option Answer

variable (setting : Setting) (run : RunId)

/-- An item that was created in the run, and that is kept as `item`. -/
def Creates (item : Item) (e : Entry) : Prop :=
  e.1.names setting run = true ∧
    ∃ made, e.2 = some (.ok (.created made)) ∧ item = Table.row setting.pg made

/-- The item `id` of the run was deleted, or the run was dropped. -/
def Ends (id : Uuid) (e : Entry) : Prop :=
  e.1.names setting run = true ∧
    ((∃ header, e.1.operation = .items header (.delete id)) ∧ e.2 = some (.ok .deleted) ∨
      e.1.operation = .dropRun run ∧ e.2 = some (.ok .done))

/-- The items of the run after a history: created and neither deleted nor dropped since, or of the
rows that the schema held at the start. -/
def Live (stored : List Item) (h : List Entry) (item : Item) : Prop :=
  Since (Creates setting run item) (Ends setting run item.id) h ∨
    item ∈ stored ∧ ∀ e ∈ h, ¬ Ends setting run item.id e

/-- The rows of a schema. -/
def Schema.rows : Option Schema → List Item
  | some ⟨some table⟩ => table.rows
  | _ => []

variable {setting run}

theorem live_append_singleton {stored : List Item} {h : List Entry} {e : Entry} {item : Item} :
    Live setting run stored (h ++ [e]) item ↔ Creates setting run item e ∨
      (Live setting run stored h item ∧ ¬ Ends setting run item.id e) := by
  simp only [Live, since_append_singleton, List.forall_mem_append, List.forall_mem_singleton]
  constructor
  · rintro ((creates | ⟨since, lasts⟩) | ⟨mem, kept, lasts⟩)
    · exact .inl creates
    · exact .inr ⟨.inl since, lasts⟩
    · exact .inr ⟨.inr ⟨mem, kept⟩, lasts⟩
  · rintro (creates | ⟨since | ⟨mem, kept⟩, lasts⟩)
    · exact .inl (.inl creates)
    · exact .inl (.inr ⟨since, lasts⟩)
    · exact .inr ⟨mem, kept, lasts⟩

/-! ### What each statement does to the rows -/

theorem Table.mem_insert {pg : Postgres} {item other : Item} {table table' : Table}
    (inserted : table.insert pg item = .ok table') :
    other ∈ table'.rows ↔ other = row pg item ∨ other ∈ table.rows := by
  unfold insert at inserted
  split at inserted
  · contradiction
  · split at inserted
    · contradiction
    · cases inserted
      simp [or_comm]

theorem Table.mem_delete {id : Uuid} {item : Item} {table : Table} :
    item ∈ (table.delete id).2.rows ↔ item ∈ table.rows ∧ item.id ≠ id := by
  simp [delete]

/-- A `DELETE` that affects no row finds none with the identifier. -/
theorem Table.delete_eq_zero {id : Uuid} {item : Item} {table : Table}
    (none : (table.delete id).1 = 0) (mem : item ∈ table.rows) : item.id ≠ id := by
  have absent := List.filter_eq_nil_iff.mp (List.length_eq_zero_iff.mp none) item mem
  simpa using absent

/-- The row of an item that the statement has created is new, and the rows before stay, but for
those that it has deleted. -/
def Effect (setting : Setting) (work : Work) (answer : Answer) (before after : List Item) : Prop :=
  ∀ item, item ∈ after ↔
    (∃ made, answer = .ok (.created made) ∧ item = Table.row setting.pg made) ∨
      item ∈ before ∧ ¬ (work = .call (.delete item.id) ∧ answer = .ok .deleted)

theorem effect_create (name : String) (drawn : Uuid) (now : DateTime) (table : Table) :
    Effect setting (.call (.create name drawn now)) (create setting name drawn now table).1
      table.rows (create setting name drawn now table).2.rows := by
  intro item
  cases inserted : table.insert setting.pg ⟨drawn, name, now⟩ with
  | error e => simp [create, inserted, Answer.sql]
  | ok table' => simp [create, inserted, Table.mem_insert inserted]

theorem effect_delete (id : Uuid) (table : Table) :
    Effect setting (.call (.delete id)) (delete id table).1 table.rows
      (delete id table).2.rows := by
  intro item
  have affected := @Table.mem_delete id item table
  unfold delete
  split
  · rename_i table' eq
    rw [eq] at affected
    have others := @Table.delete_eq_zero id item table (congrArg Prod.fst eq)
    simpa [affected] using others
  · rename_i n table' eq
    rw [eq] at affected
    simp [affected, eq_comm]

/-- A statement that leaves the rows as they are, and answers neither that it has created an item
nor that it has deleted one. -/
theorem effect_same {work : Work} {answer : Answer} {rows : List Item}
    (creates : ∀ made, answer ≠ .ok (.created made)) (deletes : answer ≠ .ok .deleted) :
    Effect setting work answer rows rows := by
  intro item
  simp [creates, deletes]

theorem effect_get (id : Uuid) (table : Table) :
    Effect setting (.call (.get id)) (get id table).1 table.rows (get id table).2.rows := by
  unfold get
  split
  · exact effect_same (by simp) (by simp)
  · exact effect_same (by simp) (by simp)

theorem effect_execute (ticket : Nat) (schema : Option Schema) (work : Work) :
    Effect setting work (execute setting ticket schema work).1 (Schema.rows schema)
      (Schema.rows (execute setting ticket schema work).2) := by
  match work, schema with
  | .migration, none =>
    exact effect_same (by simp [execute, Answer.sql]) (by simp [execute, Answer.sql])
  | .migration, some ⟨none⟩ => exact effect_same (by simp [execute]) (by simp [execute])
  | .migration, some ⟨some table⟩ => exact effect_same (by simp [execute]) (by simp [execute])
  | .call call, none | .call call, some ⟨none⟩ =>
    exact effect_same (by simp [execute, Answer.sql]) (by simp [execute, Answer.sql])
  | .call .list, some ⟨some table⟩ =>
    exact effect_same (by simp [execute, list]) (by simp [execute, list])
  | .call (.get id), some ⟨some table⟩ => exact effect_get id table
  | .call (.create name drawn now), some ⟨some table⟩ => exact effect_create name drawn now table
  | .call (.delete id), some ⟨some table⟩ => exact effect_delete id table

/-! ### What each step does to the rows of the run -/

section Steps

variable {s t : System} {r : Request} {answer : Option Answer}

/-- What a request asks of its pool it deletes exactly if it is a request to delete. -/
theorem Work.Of.ends {work : Work} (of : work.Of r) (names : r.names setting run = true)
    {id : Uuid} {reply : Answer} :
    Ends setting run id (r, some reply) ↔ work = .call (.delete id) ∧ reply = .ok .deleted := by
  cases work with
  | migration =>
    obtain ⟨run', operation⟩ := of
    simp [Ends, operation]
  | call call =>
    obtain ⟨header, operation⟩ := of
    simp [Ends, operation, names]

/-- Another run's schema, like the rest that the run sees. -/
theorem Does.schema_unseen (inv : Inv setting s) (does : Does setting s r answer t)
    (others : r.names setting run = false) : t.database run.schema = s.database run.schema := by
  have agrees : Agrees setting run s
      (s.setWriter (s.writer.filter (Request.names setting run))) :=
    ⟨rfl, rfl, rfl, fun _ _ => rfl, fun _ _ => rfl⟩
  exact (does.unseen inv agrees others).schema.symm

/-- The rows of the run's schema after one step of any request. -/
theorem Does.rows (inv : Inv setting s) (does : Does setting s r answer t) (item : Item) :
    item ∈ Schema.rows (t.database run.schema) ↔ Creates setting run item (r, answer) ∨
      item ∈ Schema.rows (s.database run.schema) ∧ ¬ Ends setting run item.id (r, answer) := by
  cases names : r.names setting run with
  | false =>
    rw [does.schema_unseen inv names]
    simp [Creates, Ends, names]
  | true =>
    have named := Request.names_iff.mp names
    cases does with
    | badRun e pc bad => simp [Creates, Ends, System.goto]
    | unconfigured run' pc named' absent => simp [Creates, Ends, System.goto]
    | create run' pc named' present operation =>
      cases Except.ok.inj (named.symm.trans named')
      have same : Schema.rows ((createSchema s r run).database run.schema) =
          Schema.rows (s.database run.schema) := by
        cases found : s.database run.schema <;>
          simp [createSchema, System.goto, System.setSchema, found, Schema.rows]
      simp [Creates, Ends, same]
    | remove run' pc named' present operation free =>
      have same : (removePool s r run').database = s.database := by
        unfold removePool
        split <;> rfl
      simp [Creates, Ends, same]
    | serve run' header call pc named' present operation => simp [Creates, Ends, System.goto]
    | find run' work pc free =>
      have same : (findPool s r run' work).database = s.database := by
        unfold findPool
        split <;> rfl
      simp [Creates, Ends, same]
    | insert run' work pc free =>
      have same : (insertPool s r run' work).database = s.database := by
        unfold insertPool
        split <;> rfl
      simp [Creates, Ends, same]
    | refuse pool work pc closed => simp [Creates, Ends, System.goto, Answer.sql]
    | acquire pool work pc opened =>
      simp [Creates, Ends, Data.acquire, System.goto, System.setConnections]
    | execute pool work pc =>
      have of := inv.own names pc (by simp) (by simp)
      have after : (executeOn setting s r pool work).database run.schema =
          (Data.execute setting r.ticket (s.database run.schema) work).2 := by
        simp [executeOn, System.goto, System.setConnections, System.setSchema, of.1.path]
      rw [after, of.1.path, effect_execute r.ticket (s.database run.schema) work item,
        of.2.ends names]
      simp [Creates, names]
    | release run' pool pc back => simp [Creates, Ends, System.goto, System.setWriter]
    | drop run' pc =>
      obtain ⟨rfl, operation⟩ := inv.own names pc (by simp) (by simp)
      simp [Creates, Ends, names, operation, dropSchema, System.goto, System.setSchema, Schema.rows]

/-- Only a listing answers with items. -/
theorem execute_items {ticket : Nat} {schema : Option Schema} {work : Work} {items : List Item}
    (listed : (execute setting ticket schema work).1 = .ok (.items items)) :
    ∃ table, schema = some ⟨some table⟩ ∧ items = setting.pg.orderBy ticket table.rows := by
  match work, schema with
  | .migration, none => simp [execute, Answer.sql] at listed
  | .migration, some ⟨items⟩ => simp [execute] at listed
  | .call call, none | .call call, some ⟨none⟩ => simp [execute, Answer.sql] at listed
  | .call .list, some ⟨some table⟩ =>
    simp only [execute, list, Except.ok.injEq, Reply.items.injEq] at listed
    exact ⟨table, rfl, listed.symm⟩
  | .call (.get id), some ⟨some table⟩ =>
    simp only [execute, get] at listed
    split at listed <;> simp at listed
  | .call (.create name drawn now), some ⟨some table⟩ =>
    simp only [execute, create] at listed
    split at listed <;> simp [Answer.sql] at listed
  | .call (.delete id), some ⟨some table⟩ =>
    simp only [execute, delete] at listed
    split at listed <;> simp at listed

/-- A request naming the run that is answered with items gives the rows of the run's schema. -/
theorem Does.lists (inv : Inv setting s) (does : Does setting s r answer t)
    (names : r.names setting run = true) {items : List Item}
    (listed : answer = some (.ok (.items items))) :
    ∃ table, s.database run.schema = some ⟨some table⟩ ∧
      items = setting.pg.orderBy r.ticket table.rows := by
  cases does with
  | execute pool work pc =>
    have of := inv.own names pc (by simp) (by simp)
    obtain ⟨table, found, eq⟩ := execute_items (Option.some.inj listed)
    exact ⟨table, of.1.path ▸ found, eq⟩
  | drop run' pc => simp at listed
  | _ => simp [Answer.sql] at listed

end Steps

/-! ### Runs -/

theorem live_of_history {database : String → Option Schema} {ops : List Request} {h : List Entry}
    {s : System} (ran : Interleaving.run (step setting) (.boot database) ops = some (h, s)) :
    Inv setting s ∧ ∀ item, item ∈ Schema.rows (s.database run.schema) ↔
      Live setting run (Schema.rows (database run.schema)) h item := by
  refine run_invariant (P := fun h s => Inv setting s ∧ ∀ item,
    item ∈ Schema.rows (s.database run.schema) ↔
      Live setting run (Schema.rows (database run.schema)) h item) ran ?_ ?_
  · refine ⟨.boot database, fun item => ?_⟩
    simp [Live, not_since_nil, System.boot]
  · rintro h s r answer t ⟨inv, rows⟩ taken
    have does := Does.of_step taken
    refine ⟨inv.step does, fun item => ?_⟩
    rw [does.rows inv item, rows item, live_append_singleton]

/-- What a listing of the run may be answered after a history: the live items, each once, those
created last first. -/
structure Lists (setting : Setting) (run : RunId) (stored : List Item) (h : List Entry)
    (items : List Item) : Prop where
  exact_ : ∀ item, item ∈ items ↔ Live setting run stored h item
  once : (items.map Item.id).Nodup
  descending : items.Pairwise fun item later => later.createdAt ≤ item.createdAt

/-- Whatever the interleaving, the requests naming a run, by their argument, by no header or by a
text of its identifier, are answered as these requests alone decide, from what the run's schema held
at the start, and a listing that succeeds gives the live items. -/
theorem isolation {database : String → Option Schema} {ops : List Request} {h : List Entry}
    (ran : history (step setting) (.boot database) ops = some h) :
    (∀ (database' : String → Option Schema) (ops' : List Request) (h' : List Entry),
      history (step setting) (.boot database') ops' = some h' →
      database' run.schema = database run.schema →
      ops'.filter (Request.names setting run) = ops.filter (Request.names setting run) →
      (h'.filter fun e => e.1.names setting run) = h.filter fun e => e.1.names setting run) ∧
    ∀ before r items after, h = before ++ (r, some (.ok (.items items))) :: after →
      r.names setting run = true →
      Lists setting run (Schema.rows (database run.schema)) before items := by
  obtain ⟨s, ran⟩ := history_eq_some.mp ran
  constructor
  · intro database' ops' h' ran' stored same
    obtain ⟨s', ran'⟩ := history_eq_some.mp ran'
    exact (unwinding run).noninterference (u := .boot database)
      ⟨.boot database', .boot stored.symm⟩ ⟨.boot database, .boot rfl⟩ ran' ran same
  · rintro before r items after rfl names
    obtain ⟨ops', t, u, ran', taken⟩ := run_split ran
    obtain ⟨inv, rows⟩ := @live_of_history setting run _ _ _ _ ran'
    obtain ⟨table, found, rfl⟩ := (Does.of_step taken).lists inv names rfl
    have perm := setting.pg.perm r.ticket table.rows
    rw [found] at rows
    exact ⟨fun item => perm.mem_iff.trans (rows item),
      (perm.map Item.id).nodup_iff.mpr table.keyed, setting.pg.descending r.ticket table.rows⟩

/-! A run of requests that name two runs. -/

theorem micros_bounds (t : DateTime) :
    minNanos ≤ t.nanos - t.nanos % 1000 ∧ t.nanos - t.nanos % 1000 ≤ maxNanos := by
  have low := t.low
  have high := t.high
  simp only [minNanos] at low ⊢
  omega

/-- A database that keeps the microseconds of a time, as Postgres does since the year 2000, and
refuses names with a NUL. -/
def plainPostgres : Postgres where
  keeps t := ⟨t.nanos - t.nanos % 1000, (micros_bounds t).1, (micros_bounds t).2⟩
  refuses item := item.name.toList.contains (Char.ofNat 0)
  orderBy _ rows := rows.insertionSort fun item later => later.createdAt ≤ item.createdAt
  perm _ rows := List.perm_insertionSort _ rows
  descending _ rows := List.pairwise_insertionSort _ rows

/-- The process run is that of zeros. -/
def plainSetting : Setting where
  run := ⟨.fill 16 0⟩
  configured := true
  parse text := match Plain.uuidParse text with
    | some uuid => .ok uuid
    | none => .error "invalid character"
  pg := plainPostgres

def otherRun : RunId := ⟨.fill 16 1⟩

def otherHeader : HeaderValue := asBytes otherRun.headerValue.toList

def ownCreate : Request :=
  ⟨1, .items none (.create "mine" (.fill 16 7) ⟨946684800000001234, by decide, by decide⟩)⟩
def otherCreate : Request :=
  ⟨1, .items (some otherHeader) (.create "theirs" (.fill 16 7) DateTime.unixEpoch)⟩
def ownList : Request := ⟨2, .items none .list⟩

/-- Both runs are created and written, step by step in turn, and then the process run is listed. -/
def inTurn : List Request :=
  (List.replicate 5 [⟨0, .createRun plainSetting.run⟩, ⟨0, .createRun otherRun⟩]).flatten ++
    (List.replicate 4 [ownCreate, otherCreate]).flatten ++ List.replicate 4 ownList

def inTurnHistory : List Entry :=
  (history (step plainSetting) (.boot fun _ => none) inTurn).getD []

/-- What the process run makes of it alone. -/
def aloneHistory : List Entry :=
  (history (step plainSetting) (.boot fun _ => none)
    (inTurn.filter (Request.names plainSetting plainSetting.run))).getD []

theorem isolation_in_turn :
    otherCreate.operation.Names plainSetting otherRun ∧
      history (step plainSetting) (.boot fun _ => none) inTurn = some inTurnHistory ∧
      (aloneHistory.filter fun e => e.1.names plainSetting plainSetting.run) =
        (inTurnHistory.filter fun e => e.1.names plainSetting plainSetting.run) ∧
      Lists plainSetting plainSetting.run [] inTurnHistory.dropLast
        [⟨.fill 16 7, "mine", ⟨946684800000001000, by decide, by decide⟩⟩] := by
  have ran : history (step plainSetting) (.boot fun _ => none) inTurn = some inTurnHistory := by
    decide +kernel
  have alone : history (step plainSetting) (.boot fun _ => none)
      (inTurn.filter (Request.names plainSetting plainSetting.run)) = some aloneHistory := by
    decide +kernel
  have last : inTurnHistory = inTurnHistory.dropLast ++ [(ownList, some (.ok (.items
      [⟨.fill 16 7, "mine", ⟨946684800000001000, by decide, by decide⟩⟩])))] := by
    decide +kernel
  have both := @isolation plainSetting plainSetting.run _ _ _ ran
  exact ⟨Operation.names_headerValue plainSetting (by decide +kernel) _, ran,
    both.1 _ _ _ alone rfl (by simp), both.2 _ _ _ _ last (by decide +kernel)⟩

end Servr.Data
