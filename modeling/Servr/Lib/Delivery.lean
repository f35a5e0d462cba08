import Mathlib.Data.List.Nodup
import Mathlib.Logic.Function.Basic
import Servr.Lib.Machine

/-! Exclusive delivery.  Workers take items from a shared board, a batch at a time, execute what
they took one after the other and put each item back.  The board counts the deliveries of an
item.  While an item is held its ticket says so: that alone keeps two workers from holding it. -/

namespace Delivery

inductive Phase
  | waiting
  | held
  | closed
  deriving DecidableEq

/-- What the board says of an item: its phase and how often it has been delivered. -/
structure Ticket where
  phase : Phase
  count : ℕ

/-- An item and the number of the delivery. -/
abbrev Delivered (α : Type) := α × ℕ

/-- What a worker holds: the deliveries it has not executed, and one that it has executed and not
put back. -/
structure Holding (α : Type) where
  pending : List (Delivered α)
  finished : Option (Delivered α)

def Holding.all {α : Type} (h : Holding α) : List (Delivered α) := h.finished.toList ++ h.pending

/-- The board, the workers, and the deliveries executed so far. -/
structure State (ι α : Type) where
  ticket : α → Option Ticket
  holding : ι → Holding α
  executed : List (Delivered α)

variable {ι α : Type} [DecidableEq ι] [DecidableEq α]

inductive Step : State ι α → State ι α → Prop
  | issue {s} (a : α) : s.ticket a = none →
      Step s { s with ticket := Function.update s.ticket a (some ⟨.waiting, 0⟩) }
  /-- A worker that holds nothing takes waiting items. -/
  | take {s} (i : ι) (batch : List (Delivered α)) (ticket : α → Option Ticket) :
      s.holding i = ⟨[], none⟩ → (batch.map Prod.fst).Nodup →
      (∀ d ∈ batch, ∃ n, s.ticket d.1 = some ⟨.waiting, n⟩ ∧ d.2 = n + 1) →
      (∀ d ∈ batch, ticket d.1 = some ⟨.held, d.2⟩) →
      (∀ a, a ∉ batch.map Prod.fst → ticket a = s.ticket a) →
      Step s { s with
        ticket := ticket
        holding := Function.update s.holding i ⟨batch, none⟩ }
  | execute {s} (i : ι) (d : Delivered α) (rest : List (Delivered α)) :
      s.holding i = ⟨d :: rest, none⟩ →
      Step s { s with
        holding := Function.update s.holding i ⟨rest, some d⟩
        executed := s.executed ++ [d] }
  | putBack {s} (i : ι) (d : Delivered α) (rest : List (Delivered α)) (phase : Phase) :
      s.holding i = ⟨rest, some d⟩ → phase ≠ .held →
      Step s { s with
        ticket := Function.update s.ticket d.1 (some ⟨phase, d.2⟩)
        holding := Function.update s.holding i ⟨rest, none⟩ }
  /-- A worker forgets some of what it holds. -/
  | forget {s} (i : ι) (after : Holding α) :
      after.all.Sublist (s.holding i).all → after.pending.Sublist (s.holding i).pending →
      Step s { s with holding := Function.update s.holding i after }

theorem execute_forget {s : State ι α} {i : ι} (d : Delivered α) (rest : List (Delivered α))
    (holds : s.holding i = ⟨d :: rest, none⟩) :
    Relation.ReflTransGen Step s { s with
      holding := Function.update s.holding i ⟨[], none⟩
      executed := s.executed ++ [d] } := by
  have executed := Step.execute i d rest holds
  apply Relation.ReflTransGen.tail (.single executed)
  have idem := Function.update_idem (a := i) ⟨rest, some d⟩ ⟨[], none⟩ s.holding
  rw [← idem]
  exact .forget i ⟨[], none⟩ (List.nil_sublist _) (List.nil_sublist _)

def Fresh (s : State ι α) : Prop := (∀ i, s.holding i = ⟨[], none⟩) ∧ s.executed = []

/-- Every delivery of a holding has its ticket. -/
def Ticketed (ticket : α → Option Ticket) (h : Holding α) : Prop :=
  ∀ d ∈ h.all, ticket d.1 = some ⟨.held, d.2⟩

def Distinct (h : Holding α) : Prop := (h.all.map Prod.fst).Nodup

/-- No pending delivery of a holding has been executed. -/
def Unexecuted (executed : List (Delivered α)) (h : Holding α) : Prop :=
  ∀ d ∈ h.pending, d ∉ executed

/-- The invariant.  A held item has the ticket of its delivery and one holder, and no item was
executed in a delivery later than its ticket says. -/
structure Inv (s : State ι α) : Prop where
  held : ∀ i, Ticketed s.ticket (s.holding i)
  alone : ∀ i j, ∀ d ∈ (s.holding i).all, ∀ e ∈ (s.holding j).all, d.1 = e.1 → i = j
  distinct : ∀ i, Distinct (s.holding i)
  counted : ∀ d ∈ s.executed, ∃ t, s.ticket d.1 = some t ∧ d.2 ≤ t.count
  unexecuted : ∀ i, Unexecuted s.executed (s.holding i)
  once : s.executed.Nodup

omit [DecidableEq ι] [DecidableEq α] in
theorem Fresh.inv {s : State ι α} (h : Fresh s) : Inv s := by
  obtain ⟨nothing, none⟩ := h
  refine ⟨?_, ?_, ?_, ?_, ?_, ?_⟩ <;>
    simp [nothing, none, Holding.all, Ticketed, Distinct, Unexecuted]

section Steps

variable {s : State ι α}

omit [DecidableEq α] in
theorem alone_update (h : Inv s) {i : ι} {after : Holding α}
    (others : ∀ j, j ≠ i → ∀ d ∈ after.all, ∀ e ∈ (s.holding j).all, d.1 ≠ e.1) :
    ∀ j k, ∀ d ∈ (Function.update s.holding i after j).all,
      ∀ e ∈ (Function.update s.holding i after k).all, d.1 = e.1 → j = k := by
  intro j k d hd e he same
  by_cases hj : j = i <;> by_cases hk : k = i
  · exact hj.trans hk.symm
  · subst hj
    rw [Function.update_self] at hd
    rw [Function.update_of_ne hk] at he
    exact absurd same (others k hk d hd e he)
  · subst hk
    rw [Function.update_self] at he
    rw [Function.update_of_ne hj] at hd
    exact absurd same.symm (others j hj e he d hd)
  · rw [Function.update_of_ne hj] at hd
    rw [Function.update_of_ne hk] at he
    exact h.alone j k d hd e he same

omit [DecidableEq α] in
theorem forall_update {P : Holding α → Prop} {i : ι} {after : Holding α} (here : P after)
    (others : ∀ j, j ≠ i → P (s.holding j)) : ∀ j, P (Function.update s.holding i after j) :=
  (Function.forall_update_iff s.holding fun _ => P).mpr ⟨here, others⟩

omit [DecidableEq ι] [DecidableEq α] in
theorem Inv.first (h : Inv s) {i : ι} {d : Delivered α} {rest : List (Delivered α)}
    (all : (s.holding i).all = d :: rest) :
    s.ticket d.1 = some ⟨.held, d.2⟩ ∧ d.1 ∉ rest.map Prod.fst ∧ (rest.map Prod.fst).Nodup := by
  have distinct : ((s.holding i).all.map Prod.fst).Nodup := h.distinct i
  rw [all] at distinct
  exact ⟨h.held i d (all ▸ List.mem_cons_self), List.nodup_cons.mp distinct⟩

omit [DecidableEq ι] [DecidableEq α] in
theorem Inv.others (h : Inv s) {i : ι} {after : Holding α}
    (sub : ∀ d ∈ after.all, d ∈ (s.holding i).all) :
    ∀ j, j ≠ i → ∀ d ∈ after.all, ∀ e ∈ (s.holding j).all, d.1 ≠ e.1 :=
  fun j hj d hd e he same => hj (h.alone i j d (sub d hd) e he same).symm

theorem Inv.take (h : Inv s) {i : ι} {batch : List (Delivered α)} {ticket : α → Option Ticket}
    (nodup : (batch.map Prod.fst).Nodup)
    (waiting : ∀ d ∈ batch, ∃ n, s.ticket d.1 = some ⟨.waiting, n⟩ ∧ d.2 = n + 1)
    (taken : ∀ d ∈ batch, ticket d.1 = some ⟨.held, d.2⟩)
    (kept : ∀ a, a ∉ batch.map Prod.fst → ticket a = s.ticket a) :
    Inv { s with
      ticket := ticket
      holding := Function.update s.holding i ⟨batch, none⟩ } := by
  -- No worker holds an item that is waiting.
  have others (j : ι) (_ : j ≠ i) (d : Delivered α) (hd : d ∈ batch) (e : Delivered α)
      (he : e ∈ (s.holding j).all) : d.1 ≠ e.1 := by
    intro same
    obtain ⟨n, wait, -⟩ := waiting d hd
    rw [same, h.held j e he] at wait
    cases wait
  refine ⟨forall_update taken fun j hj e he => ?_, alone_update h others,
    forall_update nodup fun j _ => h.distinct j, fun d hd => ?_,
    forall_update (P := Unexecuted s.executed) (fun d hd executed => ?_)
      (fun j _ => h.unexecuted j), h.once⟩
  · refine (kept e.1 fun mem => ?_).trans (h.held j e he)
    obtain ⟨d, hd, same⟩ := List.mem_map.mp mem
    exact others j hj d hd e he same
  · obtain ⟨u, old, le⟩ := h.counted d hd
    by_cases mem : d.1 ∈ batch.map Prod.fst
    · obtain ⟨e, he, same⟩ := List.mem_map.mp mem
      obtain ⟨n, wait, next⟩ := waiting e he
      rw [same, old] at wait
      cases wait
      exact ⟨_, same ▸ taken e he, by simp only at le ⊢; omega⟩
    · exact ⟨u, (kept d.1 mem).trans old, le⟩
  · obtain ⟨u, old, le⟩ := h.counted d executed
    obtain ⟨n, wait, next⟩ := waiting d hd
    rw [old] at wait
    cases wait
    simp only at le
    omega

omit [DecidableEq α] in
theorem Inv.execute (h : Inv s) {i : ι} {d : Delivered α} {rest : List (Delivered α)}
    (holds : s.holding i = ⟨d :: rest, none⟩) :
    Inv { s with
      holding := Function.update s.holding i ⟨rest, some d⟩
      executed := s.executed ++ [d] } := by
  have all : (s.holding i).all = (⟨rest, some d⟩ : Holding α).all := by rw [holds]; rfl
  obtain ⟨ticket, new, -⟩ := h.first all
  have others : ∀ j, j ≠ i → ∀ e ∈ (⟨rest, some d⟩ : Holding α).all,
      ∀ e' ∈ (s.holding j).all, e.1 ≠ e'.1 := h.others fun e he => all ▸ he
  have pending (e : Delivered α) (he : e ∈ d :: rest) : e ∉ s.executed :=
    h.unexecuted i e (by rw [holds]; exact he)
  refine ⟨forall_update (fun e he => h.held i e (all ▸ he)) fun j _ => h.held j,
    alone_update h others, forall_update ?_ fun j _ => h.distinct j, fun e he => ?_,
    forall_update (P := Unexecuted (s.executed ++ [d])) (fun e he executed => ?_)
      (fun j hj e he executed => ?_), ?_⟩
  · rw [Distinct, ← all]
    exact h.distinct i
  · rcases List.mem_append.mp he with old | new
    · exact h.counted e old
    · obtain rfl := List.mem_singleton.mp new
      exact ⟨_, ticket, Nat.le_refl _⟩
  · rcases List.mem_append.mp executed with old | last
    · exact pending e (List.mem_cons_of_mem _ he) old
    · obtain rfl := List.mem_singleton.mp last
      exact new (List.mem_map.mpr ⟨e, he, rfl⟩)
  · rcases List.mem_append.mp executed with old | last
    · exact h.unexecuted j e he old
    · obtain rfl := List.mem_singleton.mp last
      exact others j hj e List.mem_cons_self e (List.mem_append_right _ he) rfl
  · refine List.nodup_append.mpr ⟨h.once, List.nodup_singleton _, fun e he e' he' same => ?_⟩
    obtain rfl := List.mem_singleton.mp he'
    exact pending e' List.mem_cons_self (same ▸ he)

omit [DecidableEq α] in
theorem Inv.forget (h : Inv s) {i : ι} {after : Holding α}
    (all : after.all.Sublist (s.holding i).all)
    (pending : after.pending.Sublist (s.holding i).pending) :
    Inv { s with holding := Function.update s.holding i after } := by
  have distinct : Distinct after := (h.distinct i).sublist (all.map _)
  exact ⟨forall_update (fun d hd => h.held i d (all.subset hd)) fun j _ => h.held j,
    alone_update h (h.others fun _ hd => all.subset hd),
    forall_update distinct fun j _ => h.distinct j, h.counted,
    forall_update (P := Unexecuted s.executed)
      (fun d hd => h.unexecuted i d (pending.subset hd)) (fun j _ => h.unexecuted j),
    h.once⟩

omit [DecidableEq ι] in
/-- The ticket of an item that nobody holds and that was last delivered as `n` may change its
phase. -/
theorem Inv.reticket (h : Inv s) {a : α} {n : ℕ} {old phase : Phase}
    (ticket : s.ticket a = some ⟨old, n⟩) (free : ∀ i, ∀ e ∈ (s.holding i).all, e.1 ≠ a) :
    Inv { s with ticket := Function.update s.ticket a (some ⟨phase, n⟩) } := by
  refine ⟨fun i e he => ?_, h.alone, h.distinct, fun e he => ?_, h.unexecuted, h.once⟩
  · exact (Function.update_of_ne (free i e he) ..).trans (h.held i e he)
  · obtain ⟨u, before, le⟩ := h.counted e he
    by_cases same : e.1 = a
    · rw [same, ticket] at before
      cases before
      exact ⟨⟨phase, n⟩, by rw [same]; exact Function.update_self .., le⟩
    · exact ⟨u, (Function.update_of_ne same ..).trans before, le⟩

theorem Inv.step {t : State ι α} (h : Inv s) (hs : Step s t) : Inv t := by
  cases hs with
  | issue a new =>
    have old {b : α} {u : Ticket} (hb : s.ticket b = some u) : b ≠ a := by
      rintro rfl
      simp [new] at hb
    refine ⟨fun i d hd => ?_, h.alone, h.distinct, fun d hd => ?_, h.unexecuted, h.once⟩
    · have ticket := h.held i d hd
      exact (Function.update_of_ne (old ticket) ..).trans ticket
    · obtain ⟨u, ticket, le⟩ := h.counted d hd
      exact ⟨u, (Function.update_of_ne (old ticket) ..).trans ticket, le⟩
  | take i batch ticket idle nodup waiting taken kept => exact h.take nodup waiting taken kept
  | execute i d rest holds => exact h.execute holds
  | forget i after all pending => exact h.forget all pending
  | putBack i d rest phase holds open_ =>
    have all : (s.holding i).all = d :: rest := by rw [holds]; rfl
    obtain ⟨ticket, new, -⟩ := h.first all
    have left : Inv { s with holding := Function.update s.holding i ⟨rest, none⟩ } := by
      apply h.forget
      · rw [all]
        exact List.sublist_cons_self ..
      · rw [holds]
    -- Once the worker has let go of the item nobody holds it.
    refine left.reticket ticket fun j e he same => ?_
    have he : e ∈ (Function.update s.holding i ⟨rest, none⟩ j).all := he
    by_cases mine : j = i
    · subst mine
      rw [Function.update_self] at he
      exact new (List.mem_map.mpr ⟨e, he, same⟩)
    · rw [Function.update_of_ne mine] at he
      exact mine (h.alone j i e he d (all ▸ List.mem_cons_self) same)

end Steps

/-- In every state that the workers reach no item has two holders, no delivery is executed twice,
and an item that is held has the ticket of its delivery. -/
theorem reachable_inv {s : State ι α} (h : Machine.Reachable Fresh Step s) : Inv s :=
  h.invariant (fun _ fresh => fresh.inv) fun _ _ _ ih next => ih.step next

end Delivery
