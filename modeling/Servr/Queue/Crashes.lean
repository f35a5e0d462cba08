import Servr.Queue.Pollers

/-! Schedulers whose processes end at any point, over a store that outlives them.  A process that
ends forgets the jobs that it holds.  Exactly these are stranded: they stay running in the store,
and nothing touches them any more.  No other job is lost, and still no attempt is executed twice. -/

namespace Servr.Pollers

open Scheduler

variable {ι σ : Type}

def Holds (poller : ι → Poller) (i : ι) (id : JobId) : Prop := ∃ j ∈ (poller i).jobs, j.id = id

/-- A job that runs in the store and that no scheduler holds. -/
structure Stranded (store : JobStore σ) (s : System ι σ) (id : JobId) : Prop where
  running : ∃ n, store.summary s.store id = some (.running, n)
  free : ∀ i, ¬Holds s.poller i id

def Finished (store : JobStore σ) (s : System ι σ) (id : JobId) : Prop :=
  ∃ state n, store.summary s.store id = some (state, n) ∧ state.isTerminal

/-- The record of a job, whatever a store has as one, and its executions stay as they are. -/
structure Unmoved {β : Type} (record : σ → JobId → β) (s t : System ι σ) (id : JobId) : Prop where
  record : record t.store id = record s.store id
  executed : ∀ n, (id, n) ∈ t.executed ↔ (id, n) ∈ s.executed

theorem Unmoved.refl {β : Type} (record : σ → JobId → β) (s : System ι σ) (id : JobId) :
    Unmoved record s s id := ⟨rfl, fun _ => Iff.rfl⟩

theorem Unmoved.trans {β : Type} {record : σ → JobId → β} {s t u : System ι σ} {id : JobId}
    (h : Unmoved record s t id) (h' : Unmoved record t u id) : Unmoved record s u id :=
  ⟨h'.record.trans h.record, fun n => (h'.executed n).trans (h.executed n)⟩

/-- A store that writes the record of a job only where it puts the job or hands it out. -/
structure WritesOwn {β : Type} (store : JobStore σ) (Inv : σ → Prop) (record : σ → JobId → β) :
    Prop where
  put : ∀ {s j id}, id ≠ j.id → record (persist store j s) id = record s id
  claim : ∀ {s s' now jobs id}, Inv s → store.claimDue s now = (.ok jobs, s') →
    id ∉ jobs.map (·.id) → record s' id = record s id

/-- A job that is in the store and does not wait there, and that no scheduler holds. -/
structure Aside (store : JobStore σ) (s : System ι σ) (id : JobId) : Prop where
  stored : ∃ state n, store.summary s.store id = some (state, n) ∧ state ≠ .scheduled
  free : ∀ i, ¬Holds s.poller i id

variable [DecidableEq ι]

/-- A step of a scheduler, or the end of the process of one. -/
inductive CrashStep (store : JobStore σ) (Ok : Job → Prop) (Decodes : σ → DateTime → Prop) :
    System ι σ → System ι σ → Prop
  | works {s t : System ι σ} : Step store Ok Decodes s t → CrashStep store Ok Decodes s t
  | crash (s : System ι σ) (i : ι) :
      CrashStep store Ok Decodes s { s with poller := Function.update s.poller i .idle }

/-- The steps in which a scheduler forgets jobs that it has not put back: its process ends, or a
retry is due out of range, or a put fails. -/
inductive Forgets (i : ι) : System ι σ → System ι σ → Prop
  | crash (s : System ι σ) : Forgets i s { s with poller := Function.update s.poller i .idle }
  | panic {s : System ι σ} (j : Job) (rest : List Job) (outcome : Except String Unit)
      (now : DateTime) : s.poller i = ⟨j :: rest, none⟩ → settle outcome now j = none →
      Forgets i s { s with
        poller := Function.update s.poller i .idle
        executed := s.executed ++ [(j.id, j.attempt)] }
  | putFails {s : System ι σ} (next : Job) (rest : List Job) : s.poller i = ⟨rest, some next⟩ →
      Forgets i s { s with poller := Function.update s.poller i ⟨rest, none⟩ }

variable {store : JobStore σ} {Inv : σ → Prop} {Ok : Job → Prop} {Decodes : σ → DateTime → Prop}
  {β : Type} {record : σ → JobId → β} {s t : System ι σ} {id : JobId}

theorem holds_update {poller : ι → Poller} {i k : ι} {p : Poller}
    (h : Holds (Function.update poller i p) k id) :
    k = i ∧ (∃ j ∈ p.jobs, j.id = id) ∨ k ≠ i ∧ Holds poller k id := by
  by_cases mine : k = i
  · subst mine
    rw [Holds, Function.update_self] at h
    exact .inl ⟨rfl, h⟩
  · rw [Holds, Function.update_of_ne mine] at h
    exact .inr ⟨mine, h⟩

theorem holds_self {poller : ι → Poller} {i : ι} {p : Poller} {j : Job} (mem : j ∈ p.jobs) :
    Holds (Function.update poller i p) i j.id := by
  rw [Holds, Function.update_self]
  exact ⟨j, mem, rfl⟩

/-- Nobody holds a job that nobody held, once a scheduler has jobs of other identifiers. -/
theorem free_update {poller : ι → Poller} {i : ι} {p : Poller}
    (free : ∀ k, ¬Holds poller k id) (others : ∀ j ∈ p.jobs, j.id ≠ id) :
    ∀ k, ¬Holds (Function.update poller i p) k id := by
  intro k held
  rcases holds_update held with ⟨-, j, mem, same⟩ | ⟨-, held⟩
  · exact others j mem same
  · exact free k held

theorem CrashStep.sound (contract : store.Contract Inv Ok Decodes) (h : Sound store Inv Ok s)
    (hs : CrashStep store Ok Decodes s t) : Sound store Inv Ok t := by
  cases hs with
  | works step => exact h.step contract step
  | crash i => exact ⟨h.inv, h.countable, forall_update Poller.sound_idle h.poller⟩

/-- A process that ends is a worker that forgets. -/
theorem CrashStep.delivery_run (contract : store.Contract Inv Ok Decodes)
    (h : Sound store Inv Ok s) (hs : CrashStep store Ok Decodes s t) :
    Relation.ReflTransGen Delivery.Step (s.delivery store) (t.delivery store) := by
  cases hs with
  | works step => exact h.delivery_run contract step
  | crash i =>
    have forgotten := Delivery.Step.forget (s := s.delivery store) i ⟨[], none⟩
      (List.nil_sublist _) (List.nil_sublist _)
    apply Relation.ReflTransGen.single
    unfold System.delivery
    rw [holding_update store]
    exact forgotten

omit [DecidableEq ι] in
/-- Schedulers are exclusive where the workers that they refine are. -/
theorem exclusive_of_delivery (inv : Delivery.Inv (s.delivery store)) : Exclusive store s := by
  have held (i : ι) : ((s.delivery store).holding i).all = (s.poller i).jobs.map delivered :=
    all_holding (s.poller i)
  have mem {i : ι} {j : Job} (hj : j ∈ (s.poller i).jobs) :
      delivered j ∈ ((s.delivery store).holding i).all := by
    rw [held]
    exact List.mem_map_of_mem hj
  constructor
  · intro i k j hj j' hj' same
    exact inv.alone i k _ (mem hj) _ (mem hj') same
  · intro i
    have distinct := inv.distinct i
    rw [Delivery.Distinct, held, List.map_map] at distinct
    exact distinct
  · exact List.Nodup.of_map _ inv.once
  · intro i j hj
    obtain ⟨⟨state, attempt⟩, stored, same⟩ := Option.map_eq_some_iff.mp (inv.held i _ (mem hj))
    obtain ⟨old, found, rfl, rfl⟩ : ∃ old, store.get s.store j.id = .ok old ∧
        old.state = state ∧ old.attempt = attempt := by
      obtain ⟨old, found, same'⟩ := Option.map_eq_some_iff.mp stored
      cases same'
      exact ⟨old, Results.toOption_eq_some.mp found, rfl, rfl⟩
    obtain ⟨phase, count⟩ := Delivery.Ticket.mk.inj same
    exact ⟨old, found, phase_eq_held.mp phase, UInt32.toNat_inj.mp count⟩

section Reached

variable {empty : σ}

theorem sound_reachable (contract : store.Contract Inv Ok Decodes)
    (none : ∀ id, store.summary empty id = none) (inv : Inv empty)
    (h : Machine.Reachable (Start empty) (CrashStep store Ok Decodes) s) :
    Sound store Inv Ok s :=
  h.invariant (fun _ start => start.sound none inv) fun _ _ _ ih next => next.sound contract ih

theorem exclusive_reachable (contract : store.Contract Inv Ok Decodes)
    (none : ∀ id, store.summary empty id = none) (inv : Inv empty)
    (h : Machine.Reachable (Start empty) (CrashStep store Ok Decodes) s) : Exclusive store s := by
  apply exclusive_of_delivery
  refine Delivery.reachable_inv (h.simulate (System.delivery store) (fun s start => ?_)
    fun s t hr hs => hs.delivery_run contract (sound_reachable contract none inv hr))
  rw [start]
  exact ⟨fun _ => rfl, rfl⟩

end Reached

/-- No step touches a job that is aside. -/
theorem Aside.step (contract : store.Contract Inv Ok Decodes) (own : WritesOwn store Inv record)
    (sound : Sound store Inv Ok s) (h : Aside store s id) (hs : CrashStep store Ok Decodes s t) :
    Aside store t id ∧ Unmoved record s t id := by
  obtain ⟨⟨state, n, stored, unscheduled⟩, free⟩ := h
  have others {i : ι} {p : Poller} (holds : s.poller i = p) : ∀ j ∈ p.jobs, j.id ≠ id := by
    rintro j mem same
    exact free i ⟨j, holds ▸ mem, same⟩
  -- It is enough that the step keeps the record, that nobody takes the job, and what is executed.
  have aside {u : System ι σ} (kept : store.summary u.store id = store.summary s.store id)
      (whole : record u.store id = record s.store id) (free : ∀ i, ¬Holds u.poller i id)
      (executed : ∀ n, (id, n) ∈ u.executed ↔ (id, n) ∈ s.executed) :
      Aside store u id ∧ Unmoved record s u id :=
    ⟨⟨⟨state, n, kept.trans stored, unscheduled⟩, free⟩, whole, executed⟩
  have same_log : ∀ n, (id, n) ∈ s.executed ↔ (id, n) ∈ s.executed := fun _ => Iff.rfl
  have logged {j : Job} (ne : j.id ≠ id) (n : UInt32) :
      (id, n) ∈ s.executed ++ [(j.id, j.attempt)] ↔ (id, n) ∈ s.executed := by
    rw [List.mem_append, List.mem_singleton]
    exact or_iff_left fun same => ne (congrArg Prod.fst same).symm
  cases hs with
  | crash i => exact aside rfl rfl (free_update free (by simp [Poller.idle, Poller.jobs])) same_log
  | works step =>
    cases step with
    | enqueue j fresh ok new =>
      have ne : id ≠ j.id := by
        rintro rfl
        rw [new] at stored
        contradiction
      exact aside ((contract.records.put sound.inv ok not_false id).trans (if_neg ne)) (own.put ne)
        free same_log
    | claim i now claimed due after idle run perm =>
      obtain ⟨-, -, out⟩ := contract.claim sound.inv run
      have unclaimed : ∀ j ∈ claimed, j.id ≠ id := by
        rintro j mem rfl
        obtain ⟨n', waits, -⟩ := out.claimed j mem
        rw [waits] at stored
        cases stored
        exact unscheduled rfl
      have absent : id ∉ claimed.map (·.id) := by
        intro mem
        obtain ⟨j, inClaimed, same⟩ := List.mem_map.mp mem
        exact unclaimed j inClaimed same
      exact aside (out.others id absent) (own.claim sound.inv run absent)
        (free_update free fun j mem => unclaimed j (perm.mem_iff.mp mem)) same_log
    | claimFails i now f after idle decodes run =>
      obtain rfl := contract.err sound.inv decodes run
      exact aside rfl rfl free same_log
    | execute i j next rest outcome now holds settled =>
      have held := others holds
      have back := (settle_cases settled).1
      refine aside rfl rfl (free_update free fun j' mem => ?_) (logged (held j List.mem_cons_self))
      rcases List.mem_cons.mp mem with rfl | mem
      · rw [back.id]
        exact held j List.mem_cons_self
      · exact held j' (List.mem_cons_of_mem _ mem)
    | panic i j rest outcome now holds =>
      exact aside rfl rfl (free_update free (by simp [Poller.idle, Poller.jobs]))
        (logged (others holds j List.mem_cons_self))
    | put i next rest holds =>
      have held := others holds
      have ok := (holds ▸ sound.poller i).ok next List.mem_cons_self
      have ne : id ≠ next.id := (held next List.mem_cons_self).symm
      exact aside ((contract.records.put sound.inv ok not_false id).trans (if_neg ne)) (own.put ne)
        (free_update free fun j mem => held j (List.mem_cons_of_mem _ mem)) same_log
    | putFails i next rest holds =>
      exact aside rfl rfl
        (free_update free fun j mem => others holds j (List.mem_cons_of_mem _ mem)) same_log

theorem Aside.run (contract : store.Contract Inv Ok Decodes) (own : WritesOwn store Inv record)
    (sound : Sound store Inv Ok s) (h : Aside store s id)
    (run : Relation.ReflTransGen (CrashStep store Ok Decodes) s t) : Unmoved record s t id := by
  have all : Sound store Inv Ok t ∧ Aside store t id ∧ Unmoved record s t id := by
    induction run with
    | refl => exact ⟨sound, h, .refl ..⟩
    | tail _ hs ih =>
      obtain ⟨sound, aside, unmoved⟩ := ih
      obtain ⟨aside', unmoved'⟩ := aside.step contract own sound hs
      exact ⟨hs.sound contract sound, aside', unmoved.trans unmoved'⟩
  exact all.2.2

/-- No step takes a job out of the store. -/
theorem stored_step (contract : store.Contract Inv Ok Decodes) (sound : Sound store Inv Ok s)
    (hs : CrashStep store Ok Decodes s t) (stored : store.summary s.store id ≠ none) :
    store.summary t.store id ≠ none := by
  have put {j : Job} (ok : Ok j) : store.summary (persist store j s.store) id ≠ none := by
    rw [contract.records.put sound.inv ok not_false]
    split
    · simp
    · exact stored
  cases hs with
  | crash => exact stored
  | works step =>
    cases step with
    | enqueue j fresh ok => exact put ok
    | claim i now claimed due after idle run =>
      obtain ⟨-, -, out⟩ := contract.claim sound.inv run
      by_cases mem : id ∈ claimed.map (·.id)
      · obtain ⟨j, inClaimed, rfl⟩ := List.mem_map.mp mem
        obtain ⟨n, -, -, -, running⟩ := out.claimed j inClaimed
        simp [running]
      · rw [out.others id mem]
        exact stored
    | claimFails i now f after idle decodes run =>
      obtain rfl := contract.err sound.inv decodes run
      exact stored
    | execute | panic | putFails => exact stored
    | put i next rest holds => exact put ((holds ▸ sound.poller i).ok next List.mem_cons_self)

theorem stored_run (contract : store.Contract Inv Ok Decodes) (sound : Sound store Inv Ok s)
    (run : Relation.ReflTransGen (CrashStep store Ok Decodes) s t)
    (stored : store.summary s.store id ≠ none) : store.summary t.store id ≠ none := by
  have all : Sound store Inv Ok t ∧ store.summary t.store id ≠ none := by
    induction run with
    | refl => exact ⟨sound, stored⟩
    | tail _ hs ih => exact ⟨hs.sound contract ih.1, stored_step contract ih.1 hs ih.2⟩
  exact all.2

/-- What a scheduler forgets is what it held. -/
theorem forgotten {i : ι} {p : Poller} (free : ∀ k, ¬Holds (Function.update s.poller i p) k id) :
    Holds s.poller i id ∨ ∀ k, ¬Holds s.poller k id := by
  by_cases held : Holds s.poller i id
  · exact .inl held
  · refine .inr fun k heldAt => ?_
    have other : k ≠ i := by
      rintro rfl
      exact held heldAt
    refine free k ?_
    rw [Holds, Function.update_of_ne other]
    exact heldAt

/-- A step strands a job only where a scheduler that held it forgets it. -/
theorem stranded_step (contract : store.Contract Inv Ok Decodes) (sound : Sound store Inv Ok s)
    (hs : CrashStep store Ok Decodes s t) (h : Stranded store t id) :
    Stranded store s id ∨ ∃ i, Forgets i s t ∧ Holds s.poller i id := by
  obtain ⟨⟨n, running⟩, free⟩ := h
  -- A scheduler that changes its jobs and forgets none held the job only if it still does.
  have keeps {i : ι} {p : Poller} (free : ∀ k, ¬Holds (Function.update s.poller i p) k id)
      (kept : ∀ j ∈ (s.poller i).jobs, ∃ j' ∈ p.jobs, j'.id = j.id) :
      ∀ k, ¬Holds s.poller k id := by
    rcases forgotten free with ⟨j, mem, same⟩ | free
    · obtain ⟨j', mem', same'⟩ := kept j mem
      refine absurd ⟨j', ?_, same'.trans same⟩ (free i)
      rw [Function.update_self]
      exact mem'
    · exact free
  cases hs with
  | crash i =>
    rcases forgotten free with held | free
    · exact .inr ⟨i, .crash s, held⟩
    · exact .inl ⟨⟨n, running⟩, free⟩
  | works step =>
    cases step with
    | enqueue j fresh ok new =>
      have changed := contract.records.put sound.inv ok not_false id
      rw [running] at changed
      split at changed
      · rw [fresh.scheduled] at changed
        cases changed
      · exact .inl ⟨⟨n, changed.symm⟩, free⟩
    | claim i now claimed due after idle run perm =>
      obtain ⟨-, -, out⟩ := contract.claim sound.inv run
      have unclaimed : id ∉ claimed.map (·.id) := by
        intro mem
        obtain ⟨j, inClaimed, rfl⟩ := List.mem_map.mp mem
        exact free i (holds_self (perm.mem_iff.mpr inClaimed))
      refine .inl ⟨⟨n, (out.others id unclaimed).symm.trans running⟩, keeps free ?_⟩
      simp [idle, Poller.idle, Poller.jobs]
    | claimFails i now f after idle decodes run =>
      obtain rfl := contract.err sound.inv decodes run
      exact .inl ⟨⟨n, running⟩, free⟩
    | execute i j next rest outcome now holds settled =>
      have back := (settle_cases settled).1
      refine .inl ⟨⟨n, running⟩, keeps free fun j' mem => ?_⟩
      rw [holds] at mem
      rcases List.mem_cons.mp mem with rfl | mem
      · exact ⟨next, List.mem_cons_self, back.id⟩
      · exact ⟨j', List.mem_cons_of_mem _ mem, rfl⟩
    | panic i j rest outcome now holds settled =>
      rcases forgotten free with held | free
      · exact .inr ⟨i, .panic j rest outcome now holds settled, held⟩
      · exact .inl ⟨⟨n, running⟩, free⟩
    | put i next rest holds =>
      have sound' := holds ▸ sound.poller i
      have changed := contract.records.put sound.inv (sound'.ok next List.mem_cons_self)
        not_false id
      rw [running] at changed
      split at changed
      · have closed := (sound'.done next rfl).1
        rw [← (Prod.mk.inj (Option.some.inj changed)).1] at closed
        exact absurd rfl closed
      · rename_i ne
        refine .inl ⟨⟨n, changed.symm⟩, ?_⟩
        rcases forgotten free with ⟨j, mem, same⟩ | free
        · rw [holds] at mem
          rcases List.mem_cons.mp mem with rfl | mem
          · exact absurd same.symm ne
          · subst same
            exact absurd (holds_self mem) (free i)
        · exact free
    | putFails i next rest holds =>
      rcases forgotten free with held | free
      · exact .inr ⟨i, .putFails next rest holds, held⟩
      · exact .inl ⟨⟨n, running⟩, free⟩

omit [DecidableEq ι] in
/-- A finished job is held by no scheduler. -/
theorem Finished.aside (exclusive : Exclusive store s) (h : Finished store s id) :
    Aside store s id := by
  obtain ⟨state, n, stored, terminal⟩ := h
  refine ⟨⟨state, n, stored, ?_⟩, fun i ⟨j, mem, same⟩ => ?_⟩
  · rintro rfl
    contradiction
  · obtain ⟨old, found, running, -⟩ := exclusive.current i j mem
    rw [JobStore.summary, ← same, found] at stored
    cases stored
    rw [running] at terminal
    contradiction

omit [DecidableEq ι] in
theorem Stranded.aside (h : Stranded store s id) : Aside store s id := by
  obtain ⟨⟨n, running⟩, free⟩ := h
  exact ⟨⟨.running, n, running, by decide⟩, free⟩

/-! ### Over Redis -/

variable {Text : Type} {w : Wire Text}

/-- The text that Redis holds of a job. -/
def text (w : Wire Text) (s : Redis Text) (id : JobId) : Option Text :=
  s.jobs.lookup (RedisStore.key w id)

theorem writesOwn (lawful : w.Lawful) :
    WritesOwn (RedisStore.store w) (RedisStore.Filed w) (text w) where
  put := by
    intro s j id ne
    show (RedisStore.put w s j).jobs.lookup (RedisStore.key w id) = _
    rw [RedisStore.lookup_put, if_neg fun same => ne (RedisStore.key_injective lawful same)]
    rfl
  claim := by
    intro s s' now jobs id filed h notMem
    obtain ⟨-, fine⟩ := RedisStore.of_claimDue_eq_ok h
    obtain ⟨rfl, claimed⟩ := RedisStore.claimDue_ok_spec h
    rw [text, claimed.lookup, if_neg (RedisStore.notMem_dueIds lawful filed fine notMem)]
    rfl

/-- The state of the store, where the schedulers and the processes are left out. -/
theorem store_reachable (lawful : w.Lawful) {s : System ι (Redis Text)}
    (h : Machine.Reachable (Start Redis.empty) (CrashStep (RedisStore.store w)
      (RedisStore.Readable w) (RedisStore.AllClaimable w)) s) :
    Machine.Reachable (· = Redis.empty) (RedisStore.Step w) s.store := by
  have contract := RedisStore.contract lawful
  have none (id : JobId) : (RedisStore.store w).summary Redis.empty id = none := by
    rw [RedisStore.summary_eq]
    rfl
  refine h.simulate System.store (fun s start => by rw [start]) fun s t hr hs => ?_
  have sound := sound_reachable contract none RedisStore.filed_empty hr
  cases hs with
  | crash => exact .refl
  | works step =>
    cases step with
    | enqueue j fresh ok => exact .single (.put j ok)
    | claim i now claimed due after idle run =>
      obtain ⟨-, fine⟩ := RedisStore.of_claimDue_eq_ok run
      have step := RedisStore.Step.claim (s := s.store) now fine
      rw [show RedisStore.claimDue w s.store now = _ from run] at step
      exact .single step
    | claimFails i now f after idle decodes run =>
      obtain rfl := contract.err sound.inv decodes run
      exact .refl
    | execute | panic | putFails => exact .refl
    | put i next rest holds =>
      exact .single (.put next ((holds ▸ sound.poller i).ok next List.mem_cons_self))

end Servr.Pollers
