import Mathlib.Logic.Function.Basic
import Servr.Lib.Delivery
import Servr.Queue.Contract

/-! Any number of schedulers over one store.  Each step is one call of a store, each of them atomic,
or one call of a handler, and the steps of different schedulers come in any order.  The schedulers
deliver jobs as the workers of `Delivery` deliver items: the ticket of a job is its record. -/

namespace Servr.Pollers

open Scheduler

/-- A scheduler between the calls of a tick: the claimed jobs that it has still to execute, and one
that it has executed and has still to put back. -/
structure Poller where
  due : List Job
  done : Option Job

namespace Poller

def idle : Poller := ⟨[], none⟩

def jobs (p : Poller) : List Job := p.done.toList ++ p.due

end Poller

/-- The store, the schedulers, and the jobs executed so far, each with the number of the attempt. -/
structure System (ι σ : Type) where
  store : σ
  poller : ι → Poller
  executed : List (JobId × UInt32)

variable {ι σ : Type} [DecidableEq ι]

/-- A step of one of the schedulers, or the enqueue of a fresh job. -/
inductive Step (store : JobStore σ) (Ok : Job → Prop) (Decodes : σ → DateTime → Prop) :
    System ι σ → System ι σ → Prop
  | enqueue {s} (j : Job) : j.Fresh → Ok j → store.summary s.store j.id = none →
      Step store Ok Decodes s { s with store := persist store j s.store }
  /-- The store returns the jobs in an order of its own. -/
  | claim {s} (i : ι) (now : DateTime) (claimed due : List Job) (after : σ) :
      s.poller i = .idle → store.claimDue s.store now = (.ok claimed, after) → due.Perm claimed →
      Step store Ok Decodes s { s with
        store := after
        poller := Function.update s.poller i ⟨due, none⟩ }
  | claimFails {s} (i : ι) (now : DateTime) (f : Fault StoreError) (after : σ) :
      s.poller i = .idle → Decodes s.store now → store.claimDue s.store now = (.error f, after) →
      Step store Ok Decodes s { s with store := after }
  /-- The handler has any outcome at any reading of the clock. -/
  | execute {s} (i : ι) (j next : Job) (rest : List Job) (outcome : Except String Unit)
      (now : DateTime) :
      s.poller i = ⟨j :: rest, none⟩ → settle outcome now j = some next →
      Step store Ok Decodes s { s with
        poller := Function.update s.poller i ⟨rest, some next⟩
        executed := s.executed ++ [(j.id, j.attempt)] }
  /-- The sum that a retry is due at is out of range. -/
  | panic {s} (i : ι) (j : Job) (rest : List Job) (outcome : Except String Unit) (now : DateTime) :
      s.poller i = ⟨j :: rest, none⟩ → settle outcome now j = none →
      Step store Ok Decodes s { s with
        poller := Function.update s.poller i .idle
        executed := s.executed ++ [(j.id, j.attempt)] }
  | put {s} (i : ι) (next : Job) (rest : List Job) : s.poller i = ⟨rest, some next⟩ →
      Step store Ok Decodes s { s with
        store := persist store next s.store
        poller := Function.update s.poller i ⟨rest, none⟩ }
  /-- A put that fails has written nothing. -/
  | putFails {s} (i : ι) (next : Job) (rest : List Job) : s.poller i = ⟨rest, some next⟩ →
      Step store Ok Decodes s { s with poller := Function.update s.poller i ⟨rest, none⟩ }

def Start (empty : σ) (s : System ι σ) : Prop := s = ⟨empty, fun _ => .idle, []⟩

/-- No two schedulers hold a job, and none holds a job twice; no attempt of a job has been executed
twice; and a job that a scheduler holds is running in the store, in the same attempt. -/
structure Exclusive (store : JobStore σ) (s : System ι σ) : Prop where
  alone : ∀ i k, ∀ j ∈ (s.poller i).jobs, ∀ j' ∈ (s.poller k).jobs, j.id = j'.id → i = k
  distinct : ∀ i, ((s.poller i).jobs.map (·.id)).Nodup
  once : s.executed.Nodup
  current : ∀ i, ∀ j ∈ (s.poller i).jobs, ∃ old, store.get s.store j.id = .ok old ∧
    old.state = .running ∧ old.attempt = j.attempt

/-! ### Schedulers deliver jobs -/

def phase : JobState → Delivery.Phase
  | .scheduled => .waiting
  | .running => .held
  | .succeeded | .failed | .dead => .closed

def ticket (summary : JobState × UInt32) : Delivery.Ticket := ⟨phase summary.1, summary.2.toNat⟩

def delivered (j : Job) : Delivery.Delivered JobId := (j.id, j.attempt.toNat)

def Poller.holding (p : Poller) : Delivery.Holding JobId :=
  ⟨p.due.map delivered, p.done.map delivered⟩

/-- What the schedulers have delivered and are delivering. -/
def System.delivery (store : JobStore σ) (s : System ι σ) : Delivery.State ι JobId where
  ticket id := (store.summary s.store id).map ticket
  holding i := (s.poller i).holding
  executed := s.executed.map fun (id, attempt) => (id, attempt.toNat)

theorem all_holding (p : Poller) : p.holding.all = p.jobs.map delivered := by
  cases p with
  | mk due done => cases done <;> rfl

theorem phase_eq_held {state : JobState} : phase state = .held ↔ state = .running := by
  cases state <;> simp [phase]

/-- A job whose attempts can be counted when it waits. -/
def Countable (state : JobState) (attempt : UInt32) : Prop :=
  state = .scheduled → attempt.toNat + 1 < 2 ^ 32

/-- The jobs of a scheduler are `Ok`, and one that it has executed does not go back running. -/
structure Poller.Sound (Ok : Job → Prop) (p : Poller) : Prop where
  ok : ∀ j ∈ p.jobs, Ok j
  done : ∀ j ∈ p.done, j.state ≠ .running ∧ Countable j.state j.attempt

/-- The store is within its contract, and the schedulers are sound. -/
structure Sound (store : JobStore σ) (Inv : σ → Prop) (Ok : Job → Prop) (s : System ι σ) :
    Prop where
  inv : Inv s.store
  countable : ∀ id st n, store.summary s.store id = some (st, n) → Countable st n
  poller : ∀ i, (s.poller i).Sound Ok

variable {store : JobStore σ} {Inv : σ → Prop} {Ok : Job → Prop} {Decodes : σ → DateTime → Prop}
  {s t : System ι σ}

omit [DecidableEq ι] in
theorem delivery_persist (contract : store.Contract Inv Ok Decodes) (inv : Inv s.store) {j : Job}
    (ok : Ok j) :
    (fun id => (store.summary (persist store j s.store) id).map ticket) =
      Function.update (s.delivery store).ticket j.id (some ⟨phase j.state, j.attempt.toNat⟩) := by
  funext id
  rw [contract.records.put inv ok not_false]
  by_cases same : id = j.id
  · rw [if_pos same, same, Function.update_self]
    rfl
  · rw [if_neg same, Function.update_of_ne same]
    rfl

theorem holding_update (store : JobStore σ) (i : ι) (p : Poller) :
    (fun k => (Function.update s.poller i p k).holding) =
      Function.update (s.delivery store).holding i p.holding :=
  Function.comp_update Poller.holding s.poller i p

theorem forall_update {P : Poller → Prop} {i : ι} {p : Poller} (here : P p)
    (others : ∀ k, P (s.poller k)) : ∀ k, P (Function.update s.poller i p k) :=
  (Function.forall_update_iff s.poller fun _ => P).mpr ⟨here, fun k _ => others k⟩

theorem Poller.Sound.settle {j next : Job} {rest : List Job} {outcome : Except String Unit}
    {now : DateTime} (contract : store.Contract Inv Ok Decodes)
    (h : Poller.Sound Ok ⟨j :: rest, none⟩) (settled : settle outcome now j = some next) :
    Poller.Sound Ok ⟨rest, some next⟩ := by
  obtain ⟨back, cases⟩ := settle_cases settled
  refine ⟨fun j' mem => ?_, fun j' mem => ?_⟩
  · rcases List.mem_cons.mp mem with rfl | mem
    · exact contract.settled back (h.ok j List.mem_cons_self)
    · exact h.ok j' (List.mem_cons_of_mem _ mem)
  · cases mem
    rw [Countable, back.attempt]
    rcases cases with ⟨-, state⟩ | ⟨-, retry, state⟩ | ⟨-, -, state⟩
    · simp [state]
    · exact ⟨by simp [state], fun _ => Job.attempt_lt_of_canRetry retry⟩
    · simp [state]

theorem Poller.Sound.rest {next : Job} {rest : List Job} (h : Poller.Sound Ok ⟨rest, some next⟩) :
    Poller.Sound Ok ⟨rest, none⟩ :=
  ⟨fun j mem => h.ok j (List.mem_cons_of_mem _ mem), fun _ mem => by cases mem⟩

theorem Poller.sound_idle : Poller.idle.Sound Ok :=
  ⟨by simp [idle, jobs], by simp [idle]⟩

theorem Sound.step (contract : store.Contract Inv Ok Decodes) (h : Sound store Inv Ok s)
    (hs : Step store Ok Decodes s t) : Sound store Inv Ok t := by
  have holding {i : ι} {p : Poller} (holds : s.poller i = p) : p.Sound Ok := holds ▸ h.poller i
  cases hs with
  | enqueue j fresh ok new =>
    refine ⟨contract.records.inv h.inv ok, fun id st n => ?_, h.poller⟩
    rw [contract.records.put h.inv ok not_false]
    split
    · intro same
      cases same
      simp [Countable, fresh.unattempted]
    · exact h.countable id st n
  | claim i now claimed due after idle run perm =>
    obtain ⟨inv, ok, out⟩ := contract.claim h.inv run
    refine ⟨inv, fun id st n stored => ?_, forall_update
      ⟨fun j mem => ok j (perm.mem_iff.mp mem), fun _ mem => by cases mem⟩ h.poller⟩
    by_cases mem : id ∈ claimed.map (·.id)
    · obtain ⟨j, inClaimed, rfl⟩ := List.mem_map.mp mem
      obtain ⟨n', -, -, -, running⟩ := out.claimed j inClaimed
      rw [running] at stored
      cases stored
      simp [Countable]
    · exact h.countable id st n ((out.others id mem).symm.trans stored)
  | claimFails i now f after idle decodes run =>
    obtain rfl := contract.err h.inv decodes run
    exact h
  | execute i j next rest outcome now holds settled =>
    exact ⟨h.inv, h.countable, forall_update ((holding holds).settle contract settled) h.poller⟩
  | panic i j rest outcome now holds =>
    exact ⟨h.inv, h.countable, forall_update Poller.sound_idle h.poller⟩
  | put i next rest holds =>
    have sound := holding holds
    have ok := sound.ok next List.mem_cons_self
    refine ⟨contract.records.inv h.inv ok, fun id st n => ?_, forall_update sound.rest h.poller⟩
    rw [contract.records.put h.inv ok not_false]
    split
    · intro same
      cases same
      exact (sound.done next rfl).2
    · exact h.countable id st n
  | putFails i next rest holds =>
    exact ⟨h.inv, h.countable, forall_update (holding holds).rest h.poller⟩

/-- A claim takes the jobs that it hands out. -/
theorem delivery_take {i : ι} {claimed due : List Job} {after : σ}
    (out : HandsOut store s.store after claimed)
    (countable : ∀ id n, store.summary s.store id = some (.scheduled, n) → Countable .scheduled n)
    (perm : due.Perm claimed) (idle : (s.delivery store).holding i = ⟨[], none⟩) :
    Delivery.Step (s.delivery store) { s.delivery store with
      ticket := fun id => (store.summary after id).map ticket
      holding := Function.update (s.delivery store).holding i ⟨due.map delivered, none⟩ } := by
  have ids : (due.map delivered).map Prod.fst = due.map (·.id) := List.map_map ..
  have same := perm.map (·.id)
  refine .take i (due.map delivered) _ idle ?_ (fun d mem => ?_) (fun d mem => ?_)
    fun id notMem => ?_
  · rw [ids]
    exact same.nodup_iff.mpr out.nodup
  · obtain ⟨j, inDue, rfl⟩ := List.mem_map.mp mem
    obtain ⟨n, waits, -, next, -⟩ := out.claimed j (perm.mem_iff.mp inDue)
    have bound : n.toNat + 1 < 2 ^ 32 := countable _ _ waits rfl
    refine ⟨n.toNat, by simp [System.delivery, delivered, waits, ticket, phase], ?_⟩
    rw [delivered, next, UInt32.toNat_add, UInt32.toNat_one, Nat.mod_eq_of_lt bound]
  · obtain ⟨j, inDue, rfl⟩ := List.mem_map.mp mem
    obtain ⟨n, -, -, next, running⟩ := out.claimed j (perm.mem_iff.mp inDue)
    simp [delivered, running, next, ticket, phase]
  · rw [ids, same.mem_iff] at notMem
    simp [System.delivery, out.others id notMem]

/-- A step of a scheduler is a step of a worker, but for the panic, which is two. -/
theorem Sound.delivery_run (contract : store.Contract Inv Ok Decodes) (h : Sound store Inv Ok s)
    (hs : Step store Ok Decodes s t) :
    Relation.ReflTransGen Delivery.Step (s.delivery store) (t.delivery store) := by
  have holding {i : ι} {p : Poller} (holds : s.poller i = p) :
      p.Sound Ok ∧ (s.delivery store).holding i = p.holding :=
    ⟨holds ▸ h.poller i, congrArg Poller.holding holds⟩
  cases hs with
  | enqueue j fresh ok new =>
    have tickets := delivery_persist contract h.inv ok
    rw [fresh.scheduled, fresh.unattempted] at tickets
    have issued := Delivery.Step.issue (s := s.delivery store) j.id (by simp [System.delivery, new])
    apply Relation.ReflTransGen.single
    unfold System.delivery
    rw [tickets]
    exact issued
  | claim i now claimed due after idle run perm =>
    obtain ⟨-, -, out⟩ := contract.claim h.inv run
    have taken := delivery_take out (fun id n => h.countable id .scheduled n) perm
      (holding idle).2
    apply Relation.ReflTransGen.single
    unfold System.delivery
    rw [holding_update store]
    exact taken
  | claimFails i now f after idle decodes run =>
    obtain rfl := contract.err h.inv decodes run
    exact .refl
  | execute i j next rest outcome now holds settled =>
    have back := (settle_cases settled).1
    have executed := Delivery.Step.execute (s := s.delivery store) i (delivered j)
      (rest.map delivered) (holding holds).2
    have same : delivered j = delivered next := by simp [delivered, back.id, back.attempt]
    apply Relation.ReflTransGen.single
    unfold System.delivery
    rw [holding_update store, List.map_append]
    simp only [Poller.holding, Option.map_some, ← same]
    exact executed
  | panic i j rest outcome now holds =>
    have run := Delivery.execute_forget (s := s.delivery store) (delivered j) (rest.map delivered)
      (holding holds).2
    unfold System.delivery
    rw [holding_update store, List.map_append]
    exact run
  | put i next rest holds =>
    have tickets := delivery_persist contract h.inv
      ((holding holds).1.ok next List.mem_cons_self)
    have open_ : phase next.state ≠ .held :=
      fun eq => ((holding holds).1.done next rfl).1 (phase_eq_held.mp eq)
    have put := Delivery.Step.putBack (s := s.delivery store) i (delivered next)
      (rest.map delivered) (phase next.state) (holding holds).2 open_
    apply Relation.ReflTransGen.single
    unfold System.delivery
    rw [holding_update store, tickets]
    exact put
  | putFails i next rest holds =>
    have forgotten := Delivery.Step.forget (s := s.delivery store) i ⟨rest.map delivered, none⟩
      (by rw [(holding holds).2]; exact List.sublist_cons_self ..)
      (by rw [(holding holds).2]; exact List.Sublist.refl _)
    apply Relation.ReflTransGen.single
    unfold System.delivery
    rw [holding_update store]
    exact forgotten

omit [DecidableEq ι] in
theorem Start.sound {empty : σ} (none : ∀ id, store.summary empty id = none) (inv : Inv empty)
    (start : Start empty s) : Sound store Inv Ok s := by
  rw [start]
  exact ⟨inv, by simp [none], fun _ => Poller.sound_idle⟩

theorem exclusive_of_contract (contract : store.Contract Inv Ok Decodes) {empty : σ}
    (none : ∀ id, store.summary empty id = none) (inv : Inv empty)
    (h : Machine.Reachable (Start empty) (Step store Ok Decodes) s) : Exclusive store s := by
  have sound {s : System ι σ} (h : Machine.Reachable (Start empty) (Step store Ok Decodes) s) :
      Sound store Inv Ok s :=
    h.invariant (fun _ start => start.sound none inv) fun _ _ _ ih next => ih.step contract next
  have inv : Delivery.Inv (s.delivery store) := by
    refine Delivery.reachable_inv (h.simulate (System.delivery store) (fun s start => ?_)
      fun s t hr hs => (sound hr).delivery_run contract hs)
    rw [start]
    exact ⟨fun _ => rfl, rfl⟩
  have held (i : ι) : ((s.delivery store).holding i).all = (s.poller i).jobs.map delivered :=
    all_holding (s.poller i)
  have mem {i : ι} {j : Job} (hj : j ∈ (s.poller i).jobs) :
      delivered j ∈ ((s.delivery store).holding i).all :=
    held i ▸ List.mem_map.mpr ⟨j, hj, rfl⟩
  refine ⟨fun i k j hj j' hj' same => inv.alone i k _ (mem hj) _ (mem hj') same, fun i => ?_, ?_,
    fun i j hj => ?_⟩
  · have distinct := inv.distinct i
    rw [Delivery.Distinct, held, List.map_map] at distinct
    exact distinct
  · exact List.Nodup.of_map _ inv.once
  · have running := inv.held i _ (mem hj)
    obtain ⟨⟨state, attempt⟩, stored, same⟩ := Option.map_eq_some_iff.mp running
    obtain ⟨old, found, same'⟩ := Option.map_eq_some_iff.mp stored
    cases same'
    obtain ⟨phase, count⟩ := Delivery.Ticket.mk.inj same
    exact ⟨old, Results.toOption_eq_some.mp found, phase_eq_held.mp phase,
      UInt32.toNat_inj.mp count⟩

/-- In every state that schedulers over a store of either kind reach, no two of them hold a job, no
attempt of a job has been executed twice, and what a scheduler puts back replaces the record of the
same attempt. -/
theorem exclusive {Text : Type} {w : Wire Text} (lawful : w.Lawful) :
    (∀ s : System ι MemoryStore, Machine.Reachable (Start MemoryStore.new)
        (Step MemoryStore.store (fun _ => True) fun _ _ => True) s →
      Exclusive MemoryStore.store s) ∧
    ∀ s : System ι (Redis Text), Machine.Reachable (Start Redis.empty)
        (Step (RedisStore.store w) (RedisStore.Readable w) (RedisStore.AllClaimable w)) s →
      Exclusive (RedisStore.store w) s := by
  refine ⟨fun s h => ?_, fun s h => ?_⟩
  · refine exclusive_of_contract MemoryStore.contract (fun id => ?_) trivial h
    rw [MemoryStore.summary_eq, MemoryStore.lookup_new]
    rfl
  · refine exclusive_of_contract (RedisStore.contract lawful) (fun id => ?_)
      RedisStore.filed_empty h
    rw [RedisStore.summary_eq]
    rfl

/-- Of two schedulers one has claimed and executed a `noop` job, in either store. -/
theorem exclusive_noop :
    (∃ s : System Bool MemoryStore, (s.poller true).done.isSome ∧ Exclusive MemoryStore.store s) ∧
    ∃ s : System Bool (Redis Json.Value), (s.poller true).done.isSome ∧
      Exclusive (RedisStore.store Plain.wire) s := by
  have both := exclusive (ι := Bool) Plain.wire_lawful
  constructor
  · have start : Machine.Reachable (Start MemoryStore.new)
        (Step MemoryStore.store (fun _ => True) fun _ _ => True)
        (⟨MemoryStore.new, fun _ => .idle, []⟩ : System Bool MemoryStore) := .start rfl
    have enqueued := start.next (.enqueue (RedisStore.noop 0) (Job.fresh_new ..) trivial rfl)
    have claimed := enqueued.next (.claim true DateTime.unixEpoch [(RedisStore.noop 0).claimed]
      [(RedisStore.noop 0).claimed] _ rfl rfl (List.Perm.refl _))
    have executed := claimed.next (.execute true (RedisStore.noop 0).claimed _ [] (.ok ())
      DateTime.unixEpoch rfl rfl)
    exact ⟨_, rfl, both.1 _ executed⟩
  · have start : Machine.Reachable (Start Redis.empty)
        (Step (RedisStore.store Plain.wire) (RedisStore.Readable Plain.wire)
          (RedisStore.AllClaimable Plain.wire))
        (⟨Redis.empty, fun _ => .idle, []⟩ : System Bool (Redis Json.Value)) := .start rfl
    have readable := (RedisStore.readable_iff Plain.wire_lawful (j := RedisStore.noop 0)).mpr
      (by simp [RedisStore.noop, Job.new, Json.Value.depth])
    have enqueued := start.next (.enqueue (RedisStore.noop 0) (Job.fresh_new ..) readable rfl)
    obtain ⟨after, run⟩ := RedisStore.claim_noop
    have claimed := enqueued.next (.claim true DateTime.unixEpoch _ _ after rfl run
      (List.Perm.refl _))
    have executed := claimed.next (.execute true (RedisStore.afterTrip Plain.wire
      (RedisStore.noop 0)) _ [] (.ok ()) DateTime.unixEpoch rfl rfl)
    exact ⟨_, rfl, both.2 _ executed⟩

end Servr.Pollers
