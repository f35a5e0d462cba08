import Servr.Ws

/-! The connection tasks of `ws/src/conn.rs` beside the handlers that publish and kill: each await
of a task is a step of its own, and what a task does to the hub is a step of the hub. -/

namespace Servr.Ws

/-- `CLOSE_CODE`: going away. -/
def closeCode : UInt16 := 1001

/-- A frame that the client is sent. -/
inductive Message
  | text (body : String)
  | close (code : UInt16) (reason : String)
  deriving DecidableEq

/-- The frame that the task makes of what it reads from its channel. -/
def Outbound.frame : Outbound → Message
  | .text body => .text body
  | .close reason => .close closeCode reason

/-- What the task gets from its half of the socket: a frame of the client, where of a binary frame
only the length is used, the end of the stream, or an error. -/
inductive Inbound
  | text (body : String)
  | binary (bytes : Nat)
  | ping
  | pong
  | close
  | ended
  | failed
  deriving DecidableEq

/-- The client has closed the connection, or the socket has failed. -/
def Inbound.IsEnd : Inbound → Prop
  | .close | .ended | .failed => True
  | .text _ | .binary _ | .ping | .pong => False

instance : DecidablePred Inbound.IsEnd
  | .close | .ended | .failed => .isTrue trivial
  | .text _ | .binary _ | .ping | .pong => .isFalse id

/-- Where `serve` stands for a connection: in `pump` at the select, about to have written a text,
about to publish a frame of the client, publishing it, about to have written a close, in
`finish_close`, or about to return; after `pump`, about to leave the topic; or at its end. -/
inductive Task
  | unserved
  | selecting (topic : String)
  | writing (topic body : String)
  | relaying (topic body : String)
  | publishing (topic : String) (ticket : Nat)
  | closing (topic reason : String)
  | finishing (topic : String)
  | returning (topic : String) (closedByServer : Bool)
  | leaving (topic : String) (closedByServer : Bool)
  | ended (closedByServer : Bool)
  deriving DecidableEq

structure Server where
  hub : System
  tasks : ConnId → Task

/-- A step: of a handler, which publishes or kills; of a call that is under way; or of the task of a
connection. -/
inductive Move
  | publish (ticket : Nat) (topic body : String) (order : List ConnId)
  | kill (ticket : Nat) (topic reason : String) (order : List ConnId)
  | proceed (ticket : Nat)
  | serve (topic : String) (conn : ConnId)
  | recv (conn : ConnId)
  | written (conn : ConnId) (ok : Bool)
  | inbound (conn : ConnId) (event : Inbound)
  | relay (conn : ConnId) (ticket : Nat) (order : List ConnId)
  | relayed (conn : ConnId)
  | finished (conn : ConnId)
  | drop (conn : ConnId)
  | leave (conn : ConnId)
  deriving DecidableEq

/-- What a step shows: the step of the hub that it is, the frame that the client is sent, and the
event of a frame that has come in. -/
structure Shown where
  hub : Option (Action × Output)
  sent : Option Message
  came : Option WsFrame
  deriving DecidableEq

namespace Server

def new : Server := ⟨.new, fun _ => .unserved⟩

def goto (s : Server) (conn : ConnId) (task : Task) : Server :=
  { s with tasks := Function.update s.tasks conn task }

/-- A step of the hub. -/
def act (s : Server) (action : Action) : Option (Shown × Server) :=
  (Ws.step s.hub action).map fun (out, hub) =>
    (⟨some (action, out), none, none⟩, { s with hub := hub })

/-- A step of the task alone. -/
def quiet (s : Server) (conn : ConnId) (task : Task) : Shown × Server :=
  (⟨none, none, none⟩, s.goto conn task)

/-- The select: biased, so that the socket is looked at only once nothing is there to receive; the
step stands where the channel is looked at. -/
def select (s : Server) (conn : ConnId) (topic : String) (event : Inbound) :
    Option (Shown × Server) :=
  if (s.hub.channels conn).recv = none then
    match event with
    | .text body =>
      some (⟨none, none, some ⟨topic, conn, .in_, body.utf8ByteSize⟩⟩,
        s.goto conn (.relaying topic body))
    | .binary bytes => some (⟨none, none, some ⟨topic, conn, .in_, bytes⟩⟩, s)
    | .ping | .pong => some (⟨none, none, none⟩, s)
    | .close | .ended | .failed => some (s.quiet conn (.returning topic false))
  else none

/-- What the task goes on with after it has received. -/
def received (topic : String) : Output → Task
  | .read (some (.text body)) => .writing topic body
  | .read (some (.close reason)) => .closing topic reason
  | _ => .returning topic false

def step (s : Server) : Move → Option (Shown × Server)
  | .publish ticket topic body order => s.act (.publish ticket topic body none order)
  | .kill ticket topic reason order => s.act (.kill ticket topic reason order)
  | .proceed ticket => s.act (.proceed ticket)
  | .serve topic conn =>
    if s.tasks conn = .unserved then
      (s.act (.join topic conn)).map fun (shown, t) => (shown, t.goto conn (.selecting topic))
    else none
  | .recv conn =>
    match s.tasks conn with
    | .selecting topic => (Ws.step s.hub (.recv conn)).map fun (out, hub) =>
      (⟨some (.recv conn, out), none, none⟩, { s with hub := hub }.goto conn (received topic out))
    | _ => none
  | .written conn ok =>
    match s.tasks conn with
    | .writing topic body =>
      if ok then some (⟨none, some (.text body), none⟩, s.goto conn (.selecting topic))
      else some (s.quiet conn (.returning topic false))
    | .closing topic reason =>
      some (⟨none, if ok then some (.close closeCode reason) else none, none⟩,
        s.goto conn (.finishing topic))
    | _ => none
  | .inbound conn event =>
    match s.tasks conn with
    | .selecting topic => s.select conn topic event
    | _ => none
  | .relay conn ticket order =>
    match s.tasks conn with
    | .relaying topic body =>
      (s.act (.publish ticket topic body (some conn) order)).map fun (shown, t) =>
        (shown, t.goto conn (.publishing topic ticket))
    | _ => none
  | .relayed conn =>
    match s.tasks conn with
    | .publishing topic ticket =>
      match s.hub.calls ticket with
      | .returned _ => some (s.quiet conn (.selecting topic))
      | _ => none
    | _ => none
  | .finished conn =>
    match s.tasks conn with
    | .finishing topic => some (s.quiet conn (.returning topic true))
    | _ => none
  | .drop conn =>
    match s.tasks conn with
    | .returning topic closed =>
      (s.act (.drop conn)).map fun (shown, t) => (shown, t.goto conn (.leaving topic closed))
    | _ => none
  | .leave conn =>
    match s.tasks conn with
    | .leaving topic closed =>
      (s.act (.leave topic conn)).map fun (shown, t) => (shown, t.goto conn (.ended closed))
    | _ => none

end Server

/-- The step of the hub that a handler takes, or a call. -/
def Move.handles : Move → Option Action
  | .publish ticket topic body order => some (.publish ticket topic body none order)
  | .kill ticket topic reason order => some (.kill ticket topic reason order)
  | .proceed ticket => some (.proceed ticket)
  | _ => none

/-- The task whose step a move is. -/
def Move.conn : Move → Option ConnId
  | .publish _ _ _ _ | .kill _ _ _ _ | .proceed _ => none
  | .serve _ conn | .recv conn | .written conn _ | .inbound conn _ | .relay conn _ _
  | .relayed conn | .finished conn | .drop conn | .leave conn => some conn

/-- What a step of the task of `conn` does to it, beside a step of the hub, if it takes one. -/
inductive Goes (s : Server) (conn : ConnId) : Move → Task → Option (Action × Output) →
    Option Message → Task → Prop
  | serve (topic : String) (out : Output) :
      Goes s conn (.serve topic conn) .unserved (some (.join topic conn, out)) none
        (.selecting topic)
  | recv (topic : String) (out : Output) :
      Goes s conn (.recv conn) (.selecting topic) (some (.recv conn, out)) none
        (Server.received topic out)
  | wrote (topic body : String) :
      Goes s conn (.written conn true) (.writing topic body) none (some (.text body))
        (.selecting topic)
  | unwritten (topic body : String) :
      Goes s conn (.written conn false) (.writing topic body) none none (.returning topic false)
  | closed (topic reason : String) :
      Goes s conn (.written conn true) (.closing topic reason) none
        (some (.close closeCode reason)) (.finishing topic)
  | unclosed (topic reason : String) :
      Goes s conn (.written conn false) (.closing topic reason) none none (.finishing topic)
  | came (topic body : String) (waits : (s.hub.channels conn).recv = none) :
      Goes s conn (.inbound conn (.text body)) (.selecting topic) none none (.relaying topic body)
  | ignored (topic : String) (event : Inbound) (waits : (s.hub.channels conn).recv = none)
      (lasts : ¬ event.IsEnd) :
      Goes s conn (.inbound conn event) (.selecting topic) none none (.selecting topic)
  | lost (topic : String) (event : Inbound) (waits : (s.hub.channels conn).recv = none)
      (ends : event.IsEnd) :
      Goes s conn (.inbound conn event) (.selecting topic) none none (.returning topic false)
  | relay (topic body : String) (ticket : Nat) (order : List ConnId) (out : Output) :
      Goes s conn (.relay conn ticket order) (.relaying topic body)
        (some (.publish ticket topic body (some conn) order, out)) none (.publishing topic ticket)
  | relayed (topic : String) (ticket count : Nat)
      (answered : s.hub.calls ticket = .returned count) :
      Goes s conn (.relayed conn) (.publishing topic ticket) none none (.selecting topic)
  | finished (topic : String) :
      Goes s conn (.finished conn) (.finishing topic) none none (.returning topic true)
  | drop (topic : String) (closed : Bool) (out : Output) :
      Goes s conn (.drop conn) (.returning topic closed) (some (.drop conn, out)) none
        (.leaving topic closed)
  | leave (topic : String) (closed : Bool) (out : Output) :
      Goes s conn (.leave conn) (.leaving topic closed) (some (.leave topic conn, out)) none
        (.ended closed)

/-- A step of the hub, or none. -/
def HubStep (s t : System) : Option (Action × Output) → Prop
  | some (action, out) => Ws.step s action = some (out, t)
  | none => t = s

/-- What a step does: one of the hub alone, or one of a task. -/
inductive Server.Does (s : Server) (move : Move) (shown : Shown) (t : Server) : Prop
  | handler (action : Action) (out : Output) (handles : move.handles = some action)
      (hub : shown.hub = some (action, out)) (sent : shown.sent = none)
      (taken : HubStep s.hub t.hub (some (action, out))) (tasks : t.tasks = s.tasks)
  | task (conn : ConnId) (after : Task)
      (goes : Goes s conn move (s.tasks conn) shown.hub shown.sent after)
      (taken : HubStep s.hub t.hub shown.hub) (tasks : t.tasks = Function.update s.tasks conn after)

theorem Server.of_act {s t : Server} {action : Action} {shown : Shown}
    (acted : s.act action = some (shown, t)) : ∃ out hub, Ws.step s.hub action = some (out, hub) ∧
      shown = ⟨some (action, out), none, none⟩ ∧ t = { s with hub := hub } := by
  obtain ⟨⟨out, hub⟩, stepped, eq⟩ := Option.map_eq_some_iff.mp acted
  cases eq
  exact ⟨out, hub, stepped, rfl, rfl⟩

/-- A step of a task that is a step of the hub. -/
theorem Server.Does.of_act {s t : Server} {move : Move} {shown : Shown} {action : Action}
    {conn : ConnId} {after : Task}
    (taken : ((s.act action).map fun (shown, t) => (shown, t.goto conn after)) = some (shown, t))
    (goes : ∀ out, Goes s conn move (s.tasks conn) (some (action, out)) none after) :
    Server.Does s move shown t := by
  obtain ⟨⟨shown', u⟩, acted, eq⟩ := Option.map_eq_some_iff.mp taken
  obtain ⟨out, hub, stepped, rfl, rfl⟩ := Server.of_act acted
  cases eq
  exact .task conn after (goes out) stepped rfl

/-- A step of the task that is the select, on its half of the socket. -/
theorem Server.Does.of_select {s t : Server} {conn : ConnId} {topic : String} {event : Inbound}
    {shown : Shown} (at_ : s.tasks conn = .selecting topic)
    (taken : s.select conn topic event = some (shown, t)) :
    Server.Does s (.inbound conn event) shown t := by
  unfold Server.select at taken
  split at taken
  · rename_i waits
    have same : s.tasks = Function.update s.tasks conn (.selecting topic) := by
      rw [← at_, Function.update_eq_self]
    cases event with
    | text body =>
      cases taken
      exact .task conn _ (at_ ▸ .came topic body waits) rfl rfl
    | binary | ping | pong =>
      cases taken
      refine .task conn (.selecting topic) ?_ rfl same
      rw [at_]
      exact .ignored topic _ waits id
    | close | ended | failed =>
      cases taken
      exact .task conn _ (at_ ▸ .lost topic _ waits trivial) rfl rfl
  · contradiction

theorem Server.Does.of_step {s t : Server} {move : Move} {shown : Shown}
    (taken : s.step move = some (shown, t)) : Server.Does s move shown t := by
  cases move with
  | publish | kill | proceed =>
    obtain ⟨out, hub, stepped, rfl, rfl⟩ := Server.of_act taken
    exact .handler _ out rfl rfl rfl stepped rfl
  | serve topic conn =>
    simp only [Server.step] at taken
    split at taken
    · rename_i at_
      exact .of_act taken fun out => at_ ▸ .serve topic out
    · contradiction
  | recv conn =>
    simp only [Server.step] at taken
    split at taken
    · rename_i topic at_
      obtain ⟨⟨out, hub⟩, stepped, eq⟩ := Option.map_eq_some_iff.mp taken
      cases eq
      exact .task conn _ (at_ ▸ .recv topic out) stepped rfl
    · contradiction
  | written conn ok =>
    simp only [Server.step] at taken
    split at taken
    · rename_i topic body at_
      cases ok with
      | true =>
        cases taken
        exact .task conn _ (at_ ▸ .wrote topic body) rfl rfl
      | false =>
        cases taken
        exact .task conn _ (at_ ▸ .unwritten topic body) rfl rfl
    · rename_i topic reason at_
      cases ok with
      | true =>
        cases taken
        exact .task conn _ (at_ ▸ .closed topic reason) rfl rfl
      | false =>
        cases taken
        exact .task conn _ (at_ ▸ .unclosed topic reason) rfl rfl
    · contradiction
  | inbound conn event =>
    simp only [Server.step] at taken
    split at taken
    · rename_i topic at_
      exact .of_select at_ taken
    · contradiction
  | relay conn ticket order =>
    simp only [Server.step] at taken
    split at taken
    · rename_i topic body at_
      exact .of_act taken fun out => at_ ▸ .relay topic body ticket order out
    · contradiction
  | relayed conn =>
    simp only [Server.step] at taken
    split at taken
    · rename_i topic ticket at_
      split at taken
      · rename_i count answered
        cases taken
        exact .task conn _ (at_ ▸ .relayed topic ticket count answered) rfl rfl
      · contradiction
    · contradiction
  | finished conn =>
    simp only [Server.step] at taken
    split at taken
    · rename_i topic at_
      cases taken
      exact .task conn _ (at_ ▸ .finished topic) rfl rfl
    · contradiction
  | drop conn =>
    simp only [Server.step] at taken
    split at taken
    · rename_i topic closed at_
      exact .of_act taken fun out => at_ ▸ .drop topic closed out
    · contradiction
  | leave conn =>
    simp only [Server.step] at taken
    split at taken
    · rename_i topic closed at_
      exact .of_act taken fun out => at_ ▸ .leave topic closed out
    · contradiction

end Servr.Ws
