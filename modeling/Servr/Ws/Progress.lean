import Mathlib.Data.Prod.Lex
import Servr.Ws.Tasks

/-! A connection task to which a close has been sent comes to its end: it always has a step to take,
each of its steps lowers its rank, and no other step raises it. -/

namespace Servr.Ws

open Interleaving

/-- How many texts wait before the first close. -/
def textsBefore (queue : List Outbound) : Nat := (queue.takeWhile fun m => !m.isClose).length

/-- How far a task is from its end: what it is to do, where so many texts wait before a close, and
what is left of the publish that it makes. -/
def Task.rank (texts : Nat) (calls : Nat → Call) : Task → ℕ ×ₗ ℕ
  | .unserved | .ended _ => toLex (0, 0)
  | .leaving _ _ => toLex (1, 0)
  | .returning _ _ => toLex (2, 0)
  | .finishing _ => toLex (3, 0)
  | .closing _ _ => toLex (4, 0)
  | .selecting _ => toLex (2 * texts + 5, 0)
  | .writing _ _ => toLex (2 * texts + 6, 0)
  | .publishing _ ticket => toLex (2 * texts + 6, (calls ticket).rank)
  | .relaying _ _ => toLex (2 * texts + 7, 0)

def Server.rank (s : Server) (conn : ConnId) : ℕ ×ₗ ℕ :=
  (s.tasks conn).rank (textsBefore (s.hub.channels conn).queue) s.hub.calls

/-- The moves of a task are its own, and the steps of the publish that it makes. -/
def Server.Own (s : Server) (conn : ConnId) (move : Move) : Prop :=
  move.conn = some conn ∨ ∃ topic ticket, s.tasks conn = .publishing topic ticket ∧
    move = .proceed ticket

theorem textsBefore_cons (m : Outbound) (queue : List Outbound) :
    textsBefore (m :: queue) = if m.isClose then 0 else textsBefore queue + 1 := by
  cases close : m.isClose <;> simp [textsBefore, close]

theorem textsBefore_append {queue : List Outbound} {m : Outbound}
    (waits : ∃ m ∈ queue, m.isClose = true) : textsBefore (queue ++ [m]) = textsBefore queue := by
  induction queue with
  | nil => simp at waits
  | cons first queue ih =>
    rw [List.cons_append, textsBefore_cons, textsBefore_cons]
    cases close : first.isClose with
    | true => rfl
    | false =>
      have later : ∃ m ∈ queue, m.isClose = true := by
        obtain ⟨m, mem, isClose⟩ := waits
        rcases List.mem_cons.mp mem with rfl | mem
        · simp [close] at isClose
        · exact ⟨m, mem, isClose⟩
      rw [ih later]

section Progress

variable {h : List Event} {s t : Server} {move : Move} {shown : Shown} {conn : ConnId}

/-- The task has not read the close that has arrived. -/
def Task.Unread : Task → Prop
  | .selecting _ | .writing _ _ | .relaying _ _ | .publishing _ _ => True
  | _ => False

/-- A close that has arrived waits until the task has read it. -/
theorem ServerInv.waits (inv : ServerInv h s) (closed : closes conn (hubHistory h) ≠ [])
    (unread : (s.tasks conn).Unread) :
    ∃ m ∈ (s.hub.channels conn).queue, m.isClose = true := by
  obtain ⟨a, mem⟩ := List.exists_mem_of_ne_nil _ closed
  obtain ⟨arrived, close⟩ := List.mem_filter.mp mem
  have receiving : (s.tasks conn).Receiving := by
    cases task : s.tasks conn <;> rw [task] at unread <;> trivial
  have texts : Texts (reads conn (hubHistory h)) := by
    have agrees := (inv.tasks conn).agrees
    cases task : s.tasks conn with
    | selecting | relaying | publishing =>
      rw [task] at agrees
      exact agrees.1
    | writing topic body =>
      rw [task] at agrees
      obtain ⟨past, texts, eq, -⟩ := agrees
      rw [eq]
      simpa [Texts, or_imp, forall_and, Outbound.isClose] using texts
    | _ =>
      rw [task] at unread
      exact unread.elim
  have all := (inv.hub.channels conn).arrived ((inv.tasks conn).receiving.mpr receiving)
  have somewhere : a.2 ∈ (arrivals conn (hubHistory h)).map Prod.snd := List.mem_map_of_mem arrived
  rw [all] at somewhere
  rcases List.mem_append.mp somewhere with read | waits
  · simp [texts a.2 read] at close
  · exact ⟨a.2, waits, close⟩

/-- Where a close waits, nothing that leaves the receiver alone puts a text before it. -/
theorem HubStep.textsBefore {s t : System} {hub : Option Entry} (stepped : HubStep s t hub)
    (apart : ∀ action out, hub = some (action, out) → Apart conn action)
    (waits : ∃ m ∈ (s.channels conn).queue, m.isClose = true) :
    Ws.textsBefore (t.channels conn).queue = Ws.textsBefore (s.channels conn).queue := by
  cases hub with
  | none => rw [stepped]
  | some e =>
    obtain ⟨action, out⟩ := e
    obtain ⟨joins, drops, recvs⟩ := apart action out rfl
    rcases (Does.of_step stepped).receives conn with ⟨topic⟩ | ⟨_, m, _, queue, _⟩ | ⟨_⟩ | ⟨_⟩ |
      ⟨_, _, _, _, _, queue, _⟩
    · exact absurd rfl (joins topic)
    · rw [queue, textsBefore_append waits]
    · exact absurd rfl recvs
    · exact absurd rfl drops
    · rw [queue]

theorem ServerInv.drawn (inv : ServerInv h s) (closed : closes conn (hubHistory h) ≠ []) :
    conn ∈ s.hub.drawn := by
  by_contra unborn
  rw [closes, ((inv.hub.channels conn).unborn unborn).1] at closed
  exact closed rfl

/-- A call goes on in a step of its own. -/
theorem Server.Does.proceeds (does : Server.Does s move shown t) {ticket : Nat} {out : Output}
    (eq : shown.hub = some (.proceed ticket, out)) : move = .proceed ticket := by
  cases does with
  | handler action out' handles found sent taken tasks =>
    rw [found] at eq
    cases eq
    cases move <;> cases handles
    rfl
  | task conn' after goes taken tasks =>
    rw [eq] at goes
    generalize shown.sent = sent at goes
    generalize s.tasks conn' = before at goes
    cases goes

/-- The rank of a task does not rise with the steps of others. -/
theorem ServerInv.rank_others (inv : ServerInv h s) (closed : closes conn (hubHistory h) ≠ [])
    (does : Server.Does s move shown t) (others : ¬ s.Own conn move) :
    t.rank conn = s.rank conn := by
  have stepped := does.hub
  have tasks : t.tasks conn = s.tasks conn := by
    cases does with
    | handler action out handles found sent taken tasks => rw [tasks]
    | task conn' after goes taken tasks =>
      have ne : conn ≠ conn' := fun same => others (.inl (same ▸ goes.own))
      rw [tasks, Function.update_of_ne ne]
  have apart (action : Action) (out : Output) (eq : shown.hub = some (action, out)) :
      Apart conn action := by
    cases does with
    | handler action' out' handles found sent taken tasks =>
      rw [found] at eq
      cases eq
      exact (Move.handles_apart handles).1
    | task conn' after goes taken tasks =>
      have ne : conn ≠ conn' := fun same => others (.inl (same ▸ goes.own))
      exact goes.apart ne action out eq
  have texts (unread : (s.tasks conn).Unread) := stepped.textsBefore apart (inv.waits closed unread)
  rw [Server.rank, Server.rank, tasks]
  cases task : s.tasks conn with
  | selecting | writing | relaying =>
    rw [task] at texts
    rw [texts trivial]
    rfl
  | publishing topic ticket =>
    rw [task] at texts
    have call : t.hub.calls ticket = s.hub.calls ticket := by
      cases found : shown.hub with
      | none =>
        rw [found] at stepped
        rw [stepped]
      | some e =>
        obtain ⟨action, out⟩ := e
        rw [found] at stepped
        have stepped := Does.of_step stepped
        by_cases own : action.ticket = some ticket
        · rcases Action.ticket_eq_some own with ⟨begun, begins, rfl⟩ | rfl
          · exact absurd (stepped.begun begins).2.1 (inv.made conn topic _ task)
          · exact absurd (.inr ⟨topic, ticket, task, does.proceeds found⟩) others
        · exact stepped.calls_ne own
    rw [texts trivial, Task.rank, Task.rank, call]
  | _ => rfl

/-- A step of the task lowers its rank. -/
theorem ServerInv.rank_own (inv : ServerInv h s) (closed : closes conn (hubHistory h) ≠ [])
    (does : Server.Does s move shown t) (own : s.Own conn move) : t.rank conn < s.rank conn := by
  have stepped := does.hub
  have waits := inv.waits closed
  cases does with
  | handler action out handles found sent taken tasks =>
    rcases own with own | ⟨topic, ticket, task, rfl⟩
    · rw [(@Move.handles_apart move conn action handles).2] at own
      contradiction
    · cases handles
      have texts := taken.textsBefore (fun action' out' eq => by
        cases eq
        exact (@Move.handles_apart (.proceed ticket) conn _ rfl).1) (waits (by rw [task]; trivial))
      have lower := (Does.of_step taken).rank
      rw [Server.rank, Server.rank, tasks, task, texts]
      exact Prod.Lex.toLex_lt_toLex.mpr (.inr ⟨rfl, lower⟩)
  | task conn' after goes taken tasks =>
    have same : conn' = conn := by
      have both := goes.own
      rcases own with own | ⟨topic, ticket, task, rfl⟩
      · exact Option.some.inj (both.symm.trans own)
      · contradiction
    subst same
    have got (topic : String) (task : s.tasks conn' = .selecting topic) (out : Output)
        (eq : shown.hub = some (.recv conn', out)) : ∃ m, out = .read (some m) := by
      rw [eq] at stepped
      exact inv.got task (.of_step stepped)
    have lower {a b c d : Nat} (lt : a < c) : toLex (a, b) < toLex (c, d) :=
      Prod.Lex.toLex_lt_toLex.mpr (.inl lt)
    rw [Server.rank, Server.rank, tasks, Function.update_self]
    generalize s.tasks conn' = before at goes waits got
    generalize shown.hub = hub at goes stepped got
    generalize t.hub = next at stepped ⊢
    generalize shown.sent = sent at goes
    have empty (recv : (s.hub.channels conn').recv = none) (unread : before.Unread) : False := by
      obtain ⟨m, mem, -⟩ := waits unread
      exact Channel.recv_ne_none (List.ne_nil_of_mem mem) recv
    cases goes with
    | serve topic out => exact absurd (inv.drawn closed) (Does.of_step stepped).fresh
    | recv topic out =>
      obtain ⟨m, rfl⟩ := got topic rfl out rfl
      cases Does.of_step stepped with
      | recv _ _ channel receiving taken =>
        rcases Channel.recv_eq_some taken with ⟨first, eq, queue, -⟩ | ⟨eq, -⟩
        · cases eq
          simp only [System.setChannel, Function.update_self, queue, textsBefore_cons]
          cases m with
          | text body => exact lower (by simp [Outbound.isClose]; omega)
          | close reason => exact lower (by simp [Outbound.isClose])
        · contradiction
    | wrote topic body | unwritten topic body | closed topic reason | unclosed topic reason
    | finished topic =>
      rw [stepped]
      exact lower (by omega)
    | came _ _ recv | ignored _ _ recv | lost _ _ recv => exact (empty recv trivial).elim
    | relay topic body ticket order out =>
      rw [stepped.textsBefore (fun action out' eq => by cases eq; simp [Apart]) (waits trivial)]
      exact lower (by omega)
    | relayed topic ticket count answered =>
      rw [stepped]
      exact lower (by omega)
    | drop topic closed out | leave topic closed out => exact lower (by omega)

/-- There is a ticket for another call. -/
theorem CallsInv.exists_unmade {h : List Entry} {s : System} (inv : CallsInv h s) :
    ∃ ticket, s.calls ticket = .unmade := by
  obtain ⟨ticket, fresh⟩ :=
    Infinite.exists_notMem_finset (h.filterMap fun e => e.1.ticket).toFinset
  refine ⟨ticket, (inv.unmade ticket).mpr fun e mem own => fresh ?_⟩
  exact List.mem_toFinset.mpr (List.mem_filterMap.mpr ⟨e, mem, own⟩)

/-- A task to which a close has been sent and which has not ended has a step to take. -/
theorem ServerInv.enabled (inv : ServerInv h s) (closed : closes conn (hubHistory h) ≠ [])
    (runs : ∀ closed, s.tasks conn ≠ .ended closed) :
    ∃ move shown t, s.Own conn move ∧ s.step move = some (shown, t) := by
  have waits := inv.waits closed
  have receiving := (inv.tasks conn).receiving
  cases task : s.tasks conn with
  | unserved => exact absurd task (inv.served conn (inv.drawn closed))
  | ended closed => exact absurd task (runs closed)
  | selecting topic =>
    rw [task] at waits receiving
    obtain ⟨m, mem, -⟩ := waits trivial
    obtain ⟨⟨out, channel⟩, got⟩ :=
      Option.ne_none_iff_exists'.mp (Channel.recv_ne_none (List.ne_nil_of_mem mem))
    have taken : Ws.step s.hub (.recv conn) = some (.read out, s.hub.setChannel conn channel) := by
      simp [Ws.step, receiving.mpr trivial, got]
    exact ⟨.recv conn, _, _, .inl rfl, by simp only [Server.step, task, taken]; rfl⟩
  | writing topic body | closing topic reason =>
    exact ⟨.written conn true, _, _, .inl rfl, by simp only [Server.step, task]; rfl⟩
  | relaying topic body =>
    obtain ⟨ticket, unmade⟩ := inv.hub.calls.exists_unmade
    let order := (targets s.hub topic (some conn)).toList
    have all : Enumerates order (targets s.hub topic (some conn)) :=
      ⟨Finset.nodup_toList _, Finset.toList_toFinset _⟩
    have taken : Ws.step s.hub (.publish ticket topic body (some conn) order) = some _ :=
      if_pos ⟨unmade, all⟩
    exact ⟨.relay conn ticket order, _, _, .inl rfl, by
      simp only [Server.step, task, Server.act, taken]; rfl⟩
  | publishing topic ticket =>
    by_cases answered : ∃ count, s.hub.calls ticket = .returned count
    · obtain ⟨count, answered⟩ := answered
      exact ⟨.relayed conn, _, _, .inl rfl, by simp only [Server.step, task, answered]; rfl⟩
    · obtain ⟨out, t, taken⟩ := proceed_eq_some (inv.made conn topic ticket task)
        fun count eq => answered ⟨count, eq⟩
      have taken : Ws.step s.hub (.proceed ticket) = some (out, t) := taken
      exact ⟨.proceed ticket, _, _, .inr ⟨topic, ticket, task, rfl⟩, by
        simp only [Server.step, Server.act, taken]; rfl⟩
  | finishing topic =>
    exact ⟨.finished conn, _, _, .inl rfl, by simp only [Server.step, task]; rfl⟩
  | returning topic closed =>
    rw [task] at receiving
    have taken : Ws.step s.hub (.drop conn) = some _ := if_pos (receiving.mpr trivial)
    exact ⟨.drop conn, _, _, .inl rfl, by simp only [Server.step, task, Server.act, taken]; rfl⟩
  | leaving topic closed =>
    exact ⟨.leave conn, _, _, .inl rfl, by simp only [Server.step, task]; rfl⟩

/-- A call that has begun goes on to its return in steps of the server. -/
structure Server.GoesOn (h : List Event) (s : Server) (ticket : Nat) : Prop where
  enabled : (∀ count, .returned count ∉ log ticket (hubHistory h)) →
    ∃ shown t, s.step (.proceed ticket) = some (shown, t)
  lowers : ∀ shown t, s.step (.proceed ticket) = some (shown, t) →
    (t.hub.calls ticket).rank < (s.hub.calls ticket).rank
  keeps : ∀ move shown t, s.step move = some (shown, t) → move ≠ .proceed ticket →
    (t.hub.calls ticket).rank = (s.hub.calls ticket).rank

theorem ServerInv.goesOn (inv : ServerInv h s) {before after : List Entry} {e : Entry}
    {ticket : Nat} (eq : hubHistory h = before ++ e :: after) (own : e.1.ticket = some ticket) :
    s.GoesOn h ticket := by
  obtain ⟨enabled, lowers, keeps⟩ := inv.hub.calls.goesOn eq own
  refine ⟨fun unreturned => ?_, fun shown t taken => ?_, fun move shown t taken other => ?_⟩
  · obtain ⟨out, t, taken⟩ := enabled unreturned
    exact ⟨_, _, by simp only [Server.step, Server.act, taken]; rfl⟩
  · simp only [Server.step, Server.act, Option.map_eq_some_iff] at taken
    obtain ⟨⟨out, hub⟩, taken, same⟩ := taken
    cases same
    exact lowers out hub taken
  · have does := Server.Does.of_step taken
    have stepped := does.hub
    cases found : shown.hub with
    | none =>
      rw [found] at stepped
      rw [stepped]
    | some e =>
      obtain ⟨action, out⟩ := e
      rw [found] at stepped
      refine keeps action out t.hub stepped ?_
      rintro rfl
      exact other (does.proceeds found)

end Progress

end Servr.Ws
