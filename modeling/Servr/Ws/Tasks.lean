import Servr.Ws.Closing
import Servr.Ws.Conn

/-! What holds of the connection tasks over every history of the server: where a task stands tells
what it has read from its channel and what its client has been sent. -/

namespace Servr.Ws

open Interleaving

/-! ### The hub under the tasks -/

/-- A step of the server, with what it has shown. -/
abbrev Event := Move × Shown

/-- The steps of the hub in a history of the server. -/
def hubHistory (h : List Event) : List Entry := h.filterMap fun e => e.2.hub

/-- The frames that the client of a connection has been sent. -/
def frames (conn : ConnId) (h : List Event) : List Message :=
  h.filterMap fun e => if e.1.conn = some conn then e.2.sent else none

/-- The client has disconnected, or the socket has failed. -/
def Move.Fails (conn : ConnId) (move : Move) : Prop :=
  move = .written conn false ∨ ∃ event : Inbound, move = .inbound conn event ∧ event.IsEnd

def Failed (conn : ConnId) (h : List Event) : Prop := ∃ e ∈ h, e.1.Fails conn

theorem hubHistory_append (h k : List Event) :
    hubHistory (h ++ k) = hubHistory h ++ hubHistory k :=
  List.filterMap_append

theorem hubHistory_singleton (e : Event) : hubHistory [e] = e.2.hub.toList := by
  cases found : e.2.hub <;> simp [hubHistory, found]

theorem frames_append (conn : ConnId) (h k : List Event) :
    frames conn (h ++ k) = frames conn h ++ frames conn k :=
  List.filterMap_append

theorem failed_append {conn : ConnId} {h : List Event} {e : Event} :
    Failed conn (h ++ [e]) ↔ Failed conn h ∨ e.1.Fails conn := by
  simp [Failed, or_and_right, exists_or]

theorem Server.Does.hub {s t : Server} {move : Move} {shown : Shown}
    (does : Server.Does s move shown t) : HubStep s.hub t.hub shown.hub := by
  cases does with
  | handler action out handles hub sent taken tasks => rwa [hub]
  | task conn after goes taken tasks => exact taken

/-- A run of the server is a run of the hub. -/
theorem hub_run {moves : List Move} {h : List Event} {s : Server}
    (ran : run Server.step .new moves = some (h, s)) :
    ∃ actions, run step .new actions = some (hubHistory h, s.hub) := by
  refine run_invariant
    (P := fun h s => ∃ actions, run step .new actions = some (hubHistory h, s.hub)) ran ⟨[], rfl⟩ ?_
  rintro h s move shown t ⟨actions, ran⟩ taken
  have stepped := (Server.Does.of_step taken).hub
  rw [hubHistory_append, hubHistory_singleton]
  cases shown' : shown.hub with
  | none =>
    rw [shown'] at stepped
    refine ⟨actions, ?_⟩
    rw [stepped, Option.toList_none, List.append_nil, ran]
  | some e =>
    rw [shown'] at stepped
    exact ⟨actions ++ [e.1], run_append_singleton ran stepped⟩

/-! ### The tasks -/

/-- The task is in `pump`, which has the receiver. -/
def Task.Receiving : Task → Prop
  | .unserved | .leaving _ _ | .ended _ => False
  | _ => True

/-- There is no close among these. -/
def Texts (ms : List Outbound) : Prop := ∀ m ∈ ms, m.isClose = false

/-- What a task has read and what its client has been sent, where it stands: all that it has read,
which are texts up to a close, but for what it is writing. -/
def Task.Agrees (read : List Outbound) (sent : List Message) (failed : Prop) : Task → Prop
  | .unserved => read = [] ∧ sent = []
  | .selecting _ | .relaying _ _ | .publishing _ _ => Texts read ∧ sent = read.map Outbound.frame
  | .writing _ body => ∃ past, Texts past ∧ read = past ++ [.text body] ∧
    sent = past.map Outbound.frame
  | .closing _ reason => ∃ past, Texts past ∧ read = past ++ [.close reason] ∧
    sent = past.map Outbound.frame
  | .finishing _ | .returning _ true | .leaving _ true | .ended true => ∃ past reason, Texts past ∧
    read = past ++ [.close reason] ∧
      (sent = read.map Outbound.frame ∨ failed ∧ sent = past.map Outbound.frame)
  | .returning _ false | .leaving _ false | .ended false => failed ∧ Texts read ∧
    sent <+: read.map Outbound.frame

/-- The task of a connection after a history. -/
structure TaskInv (h : List Event) (s : Server) (conn : ConnId) : Prop where
  receiving : (s.hub.channels conn).receiving = true ↔ (s.tasks conn).Receiving
  agrees : (s.tasks conn).Agrees (reads conn (hubHistory h)) (frames conn h) (Failed conn h)

theorem TaskInv.new (conn : ConnId) : TaskInv [] .new conn where
  receiving := by simp [Server.new, System.new, Channel.gone, Task.Receiving]
  agrees := ⟨rfl, rfl⟩

/-- What has failed stays so, and the task stands where it stood. -/
theorem Task.Agrees.mono {task : Task} {read : List Outbound} {sent : List Message}
    {failed failed' : Prop} (agrees : task.Agrees read sent failed) (still : failed → failed') :
    task.Agrees read sent failed' := by
  cases task with
  | returning _ closed | leaving _ closed | ended closed =>
    cases closed with
    | true =>
      obtain ⟨past, reason, texts, eq, all | ⟨fails, some⟩⟩ := agrees
      · exact ⟨past, reason, texts, eq, .inl all⟩
      · exact ⟨past, reason, texts, eq, .inr ⟨still fails, some⟩⟩
    | false => exact ⟨still agrees.1, agrees.2⟩
  | finishing _ =>
    obtain ⟨past, reason, texts, eq, all | ⟨fails, some⟩⟩ := agrees
    · exact ⟨past, reason, texts, eq, .inl all⟩
    · exact ⟨past, reason, texts, eq, .inr ⟨still fails, some⟩⟩
  | _ => exact agrees

section Steps

variable {h : List Event} {s t : Server} {move : Move} {shown : Shown} {conn : ConnId}

/-- An action of the hub that changes nothing for the receiver of a connection. -/
def Apart (conn : ConnId) (action : Action) : Prop :=
  (∀ topic, action ≠ .join topic conn) ∧ action ≠ .drop conn ∧ action ≠ .recv conn

theorem Does.receiving {s t : System} {action : Action} {out : Output} (does : Does s action out t)
    (joins : ∀ topic, action ≠ .join topic conn) (drops : action ≠ .drop conn) :
    (t.channels conn).receiving = (s.channels conn).receiving := by
  rcases does.receives conn with ⟨topic⟩ | ⟨_, _, open_, _, still⟩ | ⟨_, open_, _, still⟩ | ⟨_⟩ |
    ⟨_, _, _, _, _, _, same⟩
  · exact absurd rfl (joins topic)
  · rw [open_, still]
  · rw [open_, still]
  · exact absurd rfl drops
  · exact same

theorem reads_singleton {action : Action} {out : Output} (other : action ≠ .recv conn) :
    reads conn [(action, out)] = [] := by
  cases action with
  | recv conn' =>
    have ne : conn' ≠ conn := fun same => other (by rw [same])
    cases out <;> simp [reads, ne]
  | _ => rfl

/-- A step of the hub that changes nothing for the receiver of a connection. -/
theorem HubStep.apart {s t : System} {hub : Option Entry} (stepped : HubStep s t hub)
    (apart : ∀ action out, hub = some (action, out) → Apart conn action) :
    (t.channels conn).receiving = (s.channels conn).receiving ∧ reads conn hub.toList = [] := by
  cases hub with
  | none =>
    cases stepped
    exact ⟨rfl, rfl⟩
  | some e =>
    obtain ⟨joins, drops, recvs⟩ := apart e.1 e.2 rfl
    exact ⟨(Does.of_step stepped).receiving joins drops, reads_singleton recvs⟩

/-- A step that neither the task nor its client takes. -/
theorem TaskInv.keep (inv : TaskInv h s conn) (stepped : HubStep s.hub t.hub shown.hub)
    (apart : ∀ action out, shown.hub = some (action, out) → Apart conn action)
    (other : move.conn ≠ some conn) (task : t.tasks conn = s.tasks conn) :
    TaskInv (h ++ [(move, shown)]) t conn := by
  obtain ⟨receiving, unread⟩ := stepped.apart apart
  have sent : frames conn [(move, shown)] = [] := by simp [frames, other]
  refine ⟨by rw [receiving, task, inv.receiving], ?_⟩
  rw [task, hubHistory_append, reads_append, hubHistory_singleton, unread, List.append_nil,
    frames_append, sent, List.append_nil]
  exact inv.agrees.mono fun failed => failed_append.mpr (.inl failed)

/-- What a step of the task makes of what it has read and what its client has been sent. -/
theorem Goes.agrees {before after : Task} {hub : Option Entry} {sent : Option Message}
    (goes : Goes s conn move before hub sent after) {read : List Outbound} {f : List Message}
    {failed failed' : Prop} (agrees : before.Agrees read f failed) (still : failed → failed')
    (fails : move.Fails conn → failed')
    (got : ∀ out, hub = some (.recv conn, out) → ∃ m, out = .read (some m)) :
    after.Agrees (read ++ reads conn hub.toList) (f ++ sent.toList) failed' := by
  have unread (other : ∀ out, hub ≠ some (.recv conn, out)) : reads conn hub.toList = [] := by
    cases hub with
    | none => rfl
    | some e => exact reads_singleton fun same => other e.2 (by rw [← same])
  cases goes with
  | serve topic out =>
    obtain ⟨rfl, rfl⟩ := agrees
    exact ⟨by simp [reads, Texts], by simp [reads]⟩
  | recv topic out =>
    obtain ⟨texts, rfl⟩ := agrees
    obtain ⟨m, rfl⟩ := got out rfl
    have same : reads conn [(.recv conn, .read (some m))] = [m] := by simp [reads]
    simp only [Option.toList_some, Option.toList_none, List.append_nil, same]
    cases m with
    | text body => exact ⟨read, texts, rfl, rfl⟩
    | close reason => exact ⟨read, texts, rfl, rfl⟩
  | wrote topic body =>
    obtain ⟨past, texts, rfl, rfl⟩ := agrees
    refine ⟨?_, by simp [reads, Outbound.frame]⟩
    simpa [reads, Texts, or_imp, forall_and, Outbound.isClose] using texts
  | unwritten topic body =>
    obtain ⟨past, texts, rfl, rfl⟩ := agrees
    refine ⟨fails (.inl rfl), ?_, by simp [reads]⟩
    simpa [reads, Texts, or_imp, forall_and, Outbound.isClose] using texts
  | closed topic reason =>
    obtain ⟨past, texts, rfl, rfl⟩ := agrees
    exact ⟨past, reason, texts, by simp [reads], .inl (by simp [reads, Outbound.frame])⟩
  | unclosed topic reason =>
    obtain ⟨past, texts, rfl, rfl⟩ := agrees
    exact ⟨past, reason, texts, by simp [reads], .inr ⟨fails (.inl rfl), by simp⟩⟩
  | lost topic event waits ends =>
    obtain ⟨texts, rfl⟩ := agrees
    exact ⟨fails (.inr ⟨event, rfl, ends⟩), by simpa [reads] using texts, by simp [reads]⟩
  | came | ignored | relay | relayed | finished =>
    rw [unread (by simp), Option.toList_none, List.append_nil, List.append_nil]
    exact agrees.mono still
  | drop topic closed out | leave topic closed out =>
    rw [unread (by simp), Option.toList_none, List.append_nil, List.append_nil]
    cases closed <;> exact agrees.mono still

/-- A task takes the steps of its own connection. -/
theorem Goes.own {before after : Task} {hub : Option Entry} {sent : Option Message}
    (goes : Goes s conn move before hub sent after) : move.conn = some conn := by
  cases goes <;> rfl

/-- A task leaves the receivers of the others alone. -/
theorem Goes.apart {other : ConnId} (ne : other ≠ conn) {before after : Task} {hub : Option Entry}
    {sent : Option Message} (goes : Goes s conn move before hub sent after) (action : Action)
    (out : Output) (eq : hub = some (action, out)) : Apart other action := by
  cases goes <;> cases eq <;> simp [Apart, Ne.symm ne]

/-- What a handler does, and each step of a call, leaves every receiver alone. -/
theorem Move.handles_apart {action : Action} (handles : move.handles = some action) :
    Apart conn action ∧ move.conn = none := by
  cases move <;> cases handles <;> simp [Apart, Move.conn]

theorem Goes.receiving {before after : Task} {hub : Option Entry} {sent : Option Message}
    {s' t' : System} (goes : Goes s conn move before hub sent after)
    (stepped : HubStep s' t' hub)
    (receiving : (s'.channels conn).receiving = true ↔ before.Receiving) :
    (t'.channels conn).receiving = true ↔ after.Receiving := by
  have same (joins : ∀ topic out, hub ≠ some (.join topic conn, out))
      (drops : ∀ out, hub ≠ some (.drop conn, out)) :
      (t'.channels conn).receiving = (s'.channels conn).receiving := by
    cases hub with
    | none => rw [stepped]
    | some e =>
      exact (Does.of_step stepped).receiving (fun topic eq => joins topic e.2 (by rw [← eq]))
        fun eq => drops e.2 (by rw [← eq])
  cases goes with
  | serve topic out =>
    cases Does.of_step stepped with
    | join _ _ fresh => simp [join, Channel.unbounded, Task.Receiving]
  | drop topic closed out =>
    cases Does.of_step stepped with
    | drop _ receiving => simp [System.setChannel, Task.Receiving]
  | recv topic out =>
    rw [same (by simp) (by simp), receiving]
    unfold Server.received
    split <;> simp [Task.Receiving]
  | _ =>
    rw [same (by simp) (by simp)]
    exact receiving.trans (by simp [Task.Receiving])

/-- What holds of the server after a history. -/
structure ServerInv (h : List Event) (s : Server) : Prop where
  hub : HubInv (hubHistory h) s.hub
  kills : ∀ conn, KillInv (hubHistory h) s.hub conn
  holders : ∀ conn, HoldersInv s.hub conn
  tasks : ∀ conn, TaskInv h s conn
  reached : ∀ conn, (s.hub.channels conn).receiving = true → Reached (hubHistory h) s.hub conn
  served : ∀ conn ∈ s.hub.drawn, s.tasks conn ≠ .unserved
  made : ∀ conn topic ticket, s.tasks conn = .publishing topic ticket →
    s.hub.calls ticket ≠ .unmade

theorem ServerInv.new : ServerInv [] .new where
  hub := .new
  kills := .new
  holders := .new
  tasks := .new
  reached conn receiving := by simp [Server.new, System.new, Channel.gone] at receiving
  served conn drawn := by simp [Server.new, System.new] at drawn
  made conn topic ticket at_ := by simp [Server.new] at at_

/-- A task that selects never finds its channel closed: the close that is to come keeps a sender of
it, and once that has come and been read, the task does not select. -/
theorem ServerInv.got (inv : ServerInv h s) {topic : String} (at_ : s.tasks conn = .selecting topic)
    {out : Output} {t : System} (does : Does s.hub (.recv conn) out t) :
    ∃ m, out = .read (some m) := by
  cases does with
  | recv _ m channel receiving got =>
    rcases Channel.recv_eq_some got with ⟨first, rfl, -⟩ | ⟨rfl, queue, senders, -⟩
    · exact ⟨first, rfl⟩
    · exfalso
      rcases inv.reached conn receiving with ⟨topic', member⟩ | ⟨ticket, killing⟩ | closed
      · have held := (inv.holders conn).member topic' member
        rw [senders] at held
        contradiction
      · have held := (inv.holders conn).killing ticket killing
        rw [senders] at held
        contradiction
      · obtain ⟨a, mem⟩ := List.exists_mem_of_ne_nil _ closed
        obtain ⟨arrived, close⟩ := List.mem_filter.mp mem
        have all := (inv.hub.channels conn).arrived receiving
        rw [queue, List.append_nil] at all
        have read : a.2 ∈ reads conn (hubHistory h) := all ▸ List.mem_map_of_mem arrived
        have agrees := (inv.tasks conn).agrees
        rw [at_] at agrees
        rw [agrees.1 a.2 read] at close
        contradiction

/-- A receive is a step of a task that selects. -/
theorem Server.Does.selects {out : Output} (does : Server.Does s move shown t)
    (eq : shown.hub = some (.recv conn, out)) :
    ∃ topic, s.tasks conn = .selecting topic := by
  cases does with
  | handler action out' handles found sent taken tasks =>
    rw [found] at eq
    cases eq
    cases move <;> cases handles
  | task conn' after goes taken tasks =>
    rw [eq] at goes
    generalize task : s.tasks conn' = before at goes
    generalize shown.sent = sent at goes
    cases goes with
    | recv topic => exact ⟨topic, task⟩

/-- What a step of the hub, if there is one, keeps of the hub's part. -/
theorem ServerInv.hubStep (inv : ServerInv h s) {hub : Option Entry} {t : System}
    (stepped : HubStep s.hub t hub)
    (stays : ∀ topic conn out, hub = some (.leave topic conn, out) →
      (s.hub.channels conn).receiving = false) :
    HubInv (hubHistory h ++ hub.toList) t ∧
      (∀ conn, KillInv (hubHistory h ++ hub.toList) t conn) ∧ (∀ conn, HoldersInv t conn) ∧
        ∀ conn, (t.channels conn).receiving = true →
          Reached (hubHistory h ++ hub.toList) t conn := by
  cases hub with
  | none =>
    cases stepped
    rw [Option.toList_none, List.append_nil]
    exact ⟨inv.hub, inv.kills, inv.holders, inv.reached⟩
  | some e =>
    have does := Does.of_step stepped
    refine ⟨inv.hub.step does, fun conn => (inv.kills conn).step inv.hub does,
      fun conn => (inv.holders conn).step inv.hub does, fun conn receiving => ?_⟩
    refine Reached.step does (inv.reached conn) (fun topic eq => ?_) receiving
    have kept : (t.channels conn).receiving = (s.hub.channels conn).receiving :=
      does.receiving (by simp [eq]) (by simp [eq])
    rw [kept, stays topic conn e.2 (by rw [← eq])] at receiving
    contradiction

/-- A call that has been made stays so. -/
theorem HubStep.made {s t : System} {hub : Option Entry} (stepped : HubStep s t hub) {ticket : Nat}
    (made : s.calls ticket ≠ .unmade) : t.calls ticket ≠ .unmade := by
  cases hub with
  | none =>
    cases stepped
    exact made
  | some e =>
    have does := Does.of_step stepped
    by_cases own : e.1.ticket = some ticket
    · rcases Action.ticket_eq_some own with ⟨begun, begins, rfl⟩ | eq
      · exact absurd (does.begun begins).2.1 made
      · rw [eq] at does
        exact does.made.2
    · rwa [does.calls_ne own]

/-- A task that has taken a step is served, and publishes only after a step of `relay`. -/
theorem Goes.after {before after : Task} {hub : Option Entry} {sent : Option Message}
    (goes : Goes s conn move before hub sent after) : after ≠ .unserved ∧
      ∀ topic ticket, after = .publishing topic ticket → ∃ body order out,
        hub = some (.publish ticket topic body (some conn) order, out) := by
  cases goes with
  | recv topic out =>
    unfold Server.received
    split <;> simp
  | _ => simp

theorem HubStep.drawn {s t : System} {hub : Option Entry} (stepped : HubStep s t hub)
    (apart : ∀ action out, hub = some (action, out) → Apart conn action) (drawn : conn ∈ t.drawn) :
    conn ∈ s.drawn := by
  cases hub with
  | none =>
    cases stepped
    exact drawn
  | some e =>
    refine ((Does.of_step stepped).drawn conn).mp drawn |>.resolve_right ?_
    rintro ⟨topic, eq⟩
    exact (apart e.1 e.2 rfl).1 topic eq

theorem ServerInv.step_served (inv : ServerInv h s) (does : Server.Does s move shown t) :
    ∀ conn ∈ t.hub.drawn, t.tasks conn ≠ .unserved := by
  intro conn drawn
  have stepped := does.hub
  cases does with
  | handler action out handles found sent taken tasks =>
    rw [tasks]
    refine inv.served conn (stepped.drawn (fun action' out' eq => ?_) drawn)
    rw [found] at eq
    cases eq
    exact (Move.handles_apart handles).1
  | task conn' after goes taken tasks =>
    by_cases same : conn = conn'
    · subst same
      rw [tasks, Function.update_self]
      exact goes.after.1
    · rw [tasks, Function.update_of_ne same]
      exact inv.served conn (stepped.drawn (goes.apart same) drawn)

theorem ServerInv.step_made (inv : ServerInv h s) (does : Server.Does s move shown t)
    (conn : ConnId) (topic : String) (ticket : Nat)
    (at_ : t.tasks conn = .publishing topic ticket) : t.hub.calls ticket ≠ .unmade := by
  have stepped := does.hub
  cases does with
  | handler action out handles found sent taken tasks =>
    rw [tasks] at at_
    exact stepped.made (inv.made conn topic ticket at_)
  | task conn' after goes taken tasks =>
    by_cases same : conn = conn'
    · subst same
      rw [tasks, Function.update_self] at at_
      obtain ⟨body, order, out, found⟩ := goes.after.2 topic ticket at_
      rw [found] at stepped
      have stage := ((Does.of_step stepped).begun rfl).2.2.2
      intro unmade
      simp only [unmade] at stage
      exact stage
    · rw [tasks, Function.update_of_ne same] at at_
      exact stepped.made (inv.made conn topic ticket at_)

theorem ServerInv.step (inv : ServerInv h s) (does : Server.Does s move shown t) :
    ServerInv (h ++ [(move, shown)]) t := by
  have stepped := does.hub
  have stays (topic : String) (conn : ConnId) (out : Output)
      (eq : shown.hub = some (.leave topic conn, out)) :
      (s.hub.channels conn).receiving = false := by
    cases does with
    | handler action out' handles hub sent taken tasks =>
      rw [hub] at eq
      cases eq
      cases move <;> cases handles
    | task conn' after goes taken tasks =>
      rw [eq] at goes
      generalize task : s.tasks conn' = before at goes
      generalize shown.sent = sent at goes
      cases goes with
      | leave _ closed =>
        have receiving := (inv.tasks conn).receiving
        rw [task] at receiving
        simpa [Task.Receiving] using receiving
  have selects (conn : ConnId) (out : Output) (eq : shown.hub = some (.recv conn, out)) :
      ∃ topic, s.tasks conn = .selecting topic := does.selects eq
  obtain ⟨hub, kills, holders, reached⟩ := inv.hubStep stepped stays
  rw [← hubHistory_singleton (move, shown), ← hubHistory_append] at hub kills reached
  refine ⟨hub, kills, holders, fun conn => ?_, reached, inv.step_served does, inv.step_made does⟩
  cases does with
  | handler action out handles found sent taken tasks =>
    obtain ⟨apart, none⟩ := @Move.handles_apart move conn action handles
    refine (inv.tasks conn).keep stepped (fun action' out' eq => ?_) (by simp [none])
      (by rw [tasks])
    rw [found] at eq
    cases eq
    exact apart
  | task conn' after goes taken tasks =>
    by_cases same : conn = conn'
    · subst same
      have got (out : Output) (eq : shown.hub = some (.recv conn, out)) :
          ∃ m, out = .read (some m) := by
        obtain ⟨topic, at_⟩ := selects conn out eq
        rw [eq] at taken
        exact inv.got at_ (.of_step taken)
      have still (failed : Failed conn h) : Failed conn (h ++ [(move, shown)]) :=
        failed_append.mpr (.inl failed)
      have agrees := goes.agrees (inv.tasks conn).agrees still
        (fun fails => failed_append.mpr (.inr fails)) got
      have sent : frames conn [(move, shown)] = shown.sent.toList := by
        cases found : shown.sent <;> simp [frames, goes.own, found]
      constructor
      · rw [tasks, Function.update_self]
        exact goes.receiving stepped (inv.tasks conn).receiving
      · rw [tasks, Function.update_self, hubHistory_append, reads_append, hubHistory_singleton,
          frames_append, sent]
        exact agrees
    · refine (inv.tasks conn).keep stepped (goes.apart same) ?_
        (by rw [tasks, Function.update_of_ne same])
      rw [goes.own]
      exact fun eq => same (Option.some.inj eq).symm

end Steps

end Servr.Ws
