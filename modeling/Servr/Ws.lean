import Mathlib.Data.Finmap
import Mathlib.Data.Finset.Sort
import Mathlib.Data.String.Basic
import Servr.Lib.Channel
import Servr.Queue.Job

/-! The topic hub of `ws/src/hub.rs`.  Any number of calls run at once: what a call does under the
lock of the hub is one step, and so is each of its sends afterwards. -/

namespace Servr.Ws

instance byteLinearOrder : LinearOrder UInt8 :=
  LinearOrder.lift' UInt8.toNat fun _ _ => UInt8.toNat_inj.mp

structure ConnId where
  uuid : Uuid
  deriving DecidableEq

/-- The order of `Uuid`: that of its bytes. -/
instance : LinearOrder ConnId :=
  LinearOrder.lift' (fun conn => conn.uuid.bytes) fun conn other same => by
    cases conn
    cases other
    exact congrArg ConnId.mk (HexId.ext same)

/-- What the hub can push at a connection. -/
inductive Outbound
  | text (body : String)
  | close (reason : String)
  deriving DecidableEq

inductive Dir
  | in_
  | out
  deriving DecidableEq

/-- `EventKind::WsFrame`. -/
structure WsFrame where
  topic : String
  conn : ConnId
  dir : Dir
  bytes : Nat
  deriving DecidableEq

/-- The members of each topic.  A member stands for its sender, that of the channel which was made
when the connection joined. -/
abbrev Topics := Finmap fun _ : String => Finset ConnId

namespace Topics

variable (topics : Topics) (topic : String) (conn : ConnId)

def members : Finset ConnId := (topics.lookup topic).getD ∅

/-- The map after `Hub::join`. -/
def join : Topics := topics.insert topic (insert conn (topics.members topic))

/-- The map after `Hub::leave`, which removes a topic with its last member. -/
def leave : Topics :=
  match topics.lookup topic with
  | none => topics
  | some members =>
    let members := members.erase conn
    if members = ∅ then topics.erase topic else topics.insert topic members

/-- `Hub::presence`: a `BTreeMap` in the order of its keys. -/
def presence : List (String × List ConnId) :=
  topics.keys.sort.map fun topic => (topic, (topics.members topic).sort)

/-- `Hub::connections`. -/
def connections : Nat := (topics.entries.map fun e => e.2.card).sum

end Topics

/-- Who holds a sender: the hub, as that of a member, or a call of `publish` or `kill`. -/
inductive Holder
  | member
  | call (ticket : Nat)
  deriving DecidableEq

/-- Where a call of `publish` or `kill` stands: about to send to the first of the connections left,
or, in `publish`, to emit the frame that it has sent to `conn`. -/
inductive Call
  | unmade
  | publishing (topic body : String) (targets : List ConnId) (delivered : Nat)
  | emitting (topic body : String) (conn : ConnId) (targets : List ConnId) (delivered : Nat)
  | killing (reason : String) (members : List ConnId) (closed : Nat)
  | returned (count : Nat)
  deriving DecidableEq

/-- The hub, the connection ids that have been drawn, the channel of each connection, and the calls,
told apart by a ticket. -/
structure System where
  topics : Topics
  drawn : Finset ConnId
  channels : ConnId → Channel Holder Outbound
  calls : Nat → Call

/-- A step of the system: a call of `join` or `leave`; what `publish` or `kill` does under the lock,
with the order in which a `HashMap` gives the members; the next step of such a call; what a receiver
does. -/
inductive Action
  | join (topic : String) (conn : ConnId)
  | leave (topic : String) (conn : ConnId)
  | publish (ticket : Nat) (topic body : String) (from_ : Option ConnId) (order : List ConnId)
  | kill (ticket : Nat) (topic reason : String) (order : List ConnId)
  | proceed (ticket : Nat)
  | recv (conn : ConnId)
  | drop (conn : ConnId)
  deriving DecidableEq

/-- What a step shows: a send and whether it succeeded, an event on the bus, what a call returns, or
what a receiver gets. -/
inductive Output
  | quiet
  | sent (conn : ConnId) (m : Outbound) (ok : Bool)
  | emitted (frame : WsFrame)
  | returned (count : Nat)
  | read (m : Option Outbound)
  deriving DecidableEq

namespace System

/-- `Hub::new`. -/
def new : System := ⟨∅, ∅, fun _ => .gone, fun _ => .unmade⟩

def setCall (s : System) (ticket : Nat) (call : Call) : System :=
  { s with calls := Function.update s.calls ticket call }

def setChannel (s : System) (conn : ConnId) (channel : Channel Holder Outbound) : System :=
  { s with channels := Function.update s.channels conn channel }

def setTopics (s : System) (topics : Topics) : System := { s with topics := topics }

/-- The same change to the channels of some connections. -/
def mapChannels (s : System) (conns : List ConnId)
    (f : Channel Holder Outbound → Channel Holder Outbound) : System :=
  { s with channels := fun conn => if conn ∈ conns then f (s.channels conn) else s.channels conn }

end System

/-- `Hub::join`. -/
def join (s : System) (topic : String) (conn : ConnId) : System :=
  { s with
    topics := s.topics.join topic conn
    drawn := insert conn s.drawn
    channels := Function.update s.channels conn (.unbounded .member) }

/-- `Hub::leave`. -/
def leave (s : System) (topic : String) (conn : ConnId) : System :=
  (s.mapChannels (if conn ∈ s.topics.members topic then [conn] else [])
    (·.release .member)).setTopics (s.topics.leave topic conn)

/-- The targets of `publish`: the members but for the sender of the frame. -/
def targets (s : System) (topic : String) (from_ : Option ConnId) : Finset ConnId :=
  (s.topics.members topic).filter fun conn => some conn ≠ from_

/-- A list gives each element of a set once. -/
def Enumerates (order : List ConnId) (conns : Finset ConnId) : Prop :=
  order.Nodup ∧ order.toFinset = conns

instance (order : List ConnId) (conns : Finset ConnId) : Decidable (Enumerates order conns) :=
  inferInstanceAs (Decidable (_ ∧ _))

/-- `Hub::publish`, under the lock: the senders of the targets are cloned. -/
def snapshot (s : System) (ticket : Nat) (topic body : String) (order : List ConnId) :
    Output × System :=
  match s.topics.lookup topic with
  | none => (.returned 0, s.setCall ticket (.returned 0))
  | some _ => (.quiet, (s.mapChannels order (·.clone (.call ticket))).setCall ticket
      (.publishing topic body order 0))

/-- `Hub::kill`, under the lock: the members are moved out of the map with their senders. -/
def remove (s : System) (ticket : Nat) (topic reason : String) (order : List ConnId) :
    Output × System :=
  match s.topics.lookup topic with
  | none => (.returned 0, s.setCall ticket (.returned 0))
  | some _ =>
    let moved := s.mapChannels order fun c => (c.clone (.call ticket)).release .member
    (.quiet, (moved.setTopics (s.topics.erase topic)).setCall ticket (.killing reason order 0))

/-- The next step of a call after the lock.  Each turn of the loop of `publish` is a send and, where
it succeeds, an event; `kill` counts the sends that succeed. -/
def proceed (s : System) (ticket : Nat) : Option (Output × System) :=
  match s.calls ticket with
  | .unmade | .returned _ => none
  | .publishing _ _ [] delivered =>
    some (.returned delivered, s.setCall ticket (.returned delivered))
  | .publishing topic body (conn :: rest) delivered =>
    let channel := s.channels conn
    some (.sent conn (.text body) channel.receiving,
      if channel.receiving then
        (s.setChannel conn (channel.send (.text body))).setCall ticket
          (.emitting topic body conn rest (delivered + 1))
      else
        (s.setChannel conn (channel.release (.call ticket))).setCall ticket
          (.publishing topic body rest delivered))
  | .emitting topic body conn rest delivered =>
    some (.emitted ⟨topic, conn, .out, body.utf8ByteSize⟩,
      (s.setChannel conn ((s.channels conn).release (.call ticket))).setCall ticket
        (.publishing topic body rest delivered))
  | .killing _ [] closed => some (.returned closed, s.setCall ticket (.returned closed))
  | .killing reason (conn :: rest) closed =>
    let channel := s.channels conn
    some (.sent conn (.close reason) channel.receiving,
      (s.setChannel conn ((channel.send (.close reason)).release (.call ticket))).setCall ticket
        (.killing reason rest (if channel.receiving then closed + 1 else closed)))

/-- One step.  Connection ids are fresh and a ticket is given to one call. -/
def step (s : System) : Action → Option (Output × System)
  | .join topic conn => if conn ∈ s.drawn then none else some (.quiet, join s topic conn)
  | .leave topic conn => some (.quiet, leave s topic conn)
  | .publish ticket topic body from_ order =>
    if s.calls ticket = .unmade ∧ Enumerates order (targets s topic from_) then
      some (snapshot s ticket topic body order)
    else none
  | .kill ticket topic reason order =>
    if s.calls ticket = .unmade ∧ Enumerates order (s.topics.members topic) then
      some (remove s ticket topic reason order)
    else none
  | .proceed ticket => proceed s ticket
  | .recv conn =>
    if (s.channels conn).receiving then
      (s.channels conn).recv.map fun (m, channel) => (.read m, s.setChannel conn channel)
    else none
  | .drop conn =>
    if (s.channels conn).receiving then
      some (.quiet, s.setChannel conn (s.channels conn).close)
    else none

/-- What a step does. -/
inductive Does (s : System) : Action → Output → System → Prop
  | join (topic : String) (conn : ConnId) (fresh : conn ∉ s.drawn) :
      Does s (.join topic conn) .quiet (join s topic conn)
  | leave (topic : String) (conn : ConnId) : Does s (.leave topic conn) .quiet (leave s topic conn)
  | publish (ticket : Nat) (topic body : String) (from_ : Option ConnId) (order : List ConnId)
      (unmade : s.calls ticket = .unmade) (all : Enumerates order (targets s topic from_))
      (present : topic ∈ s.topics) :
      Does s (.publish ticket topic body from_ order) .quiet
        ((s.mapChannels order (·.clone (.call ticket))).setCall ticket
          (.publishing topic body order 0))
  | publishNone (ticket : Nat) (topic body : String) (from_ : Option ConnId) (order : List ConnId)
      (unmade : s.calls ticket = .unmade) (all : Enumerates order (targets s topic from_))
      (absent : topic ∉ s.topics) :
      Does s (.publish ticket topic body from_ order) (.returned 0)
        (s.setCall ticket (.returned 0))
  | kill (ticket : Nat) (topic reason : String) (order : List ConnId)
      (unmade : s.calls ticket = .unmade) (all : Enumerates order (s.topics.members topic))
      (present : topic ∈ s.topics) :
      Does s (.kill ticket topic reason order) .quiet
        (((s.mapChannels order fun c => (c.clone (.call ticket)).release .member).setTopics
          (s.topics.erase topic)).setCall ticket (.killing reason order 0))
  | killNone (ticket : Nat) (topic reason : String) (order : List ConnId)
      (unmade : s.calls ticket = .unmade) (all : Enumerates order (s.topics.members topic))
      (absent : topic ∉ s.topics) :
      Does s (.kill ticket topic reason order) (.returned 0) (s.setCall ticket (.returned 0))
  | deliver (ticket : Nat) (topic body : String) (conn : ConnId) (rest : List ConnId)
      (delivered : Nat) (at_ : s.calls ticket = .publishing topic body (conn :: rest) delivered)
      (receiving : (s.channels conn).receiving = true) :
      Does s (.proceed ticket) (.sent conn (.text body) true)
        ((s.setChannel conn ((s.channels conn).send (.text body))).setCall ticket
          (.emitting topic body conn rest (delivered + 1)))
  | skip (ticket : Nat) (topic body : String) (conn : ConnId) (rest : List ConnId)
      (delivered : Nat) (at_ : s.calls ticket = .publishing topic body (conn :: rest) delivered)
      (closed : (s.channels conn).receiving = false) :
      Does s (.proceed ticket) (.sent conn (.text body) false)
        ((s.setChannel conn ((s.channels conn).release (.call ticket))).setCall ticket
          (.publishing topic body rest delivered))
  | emit (ticket : Nat) (topic body : String) (conn : ConnId) (rest : List ConnId)
      (delivered : Nat) (at_ : s.calls ticket = .emitting topic body conn rest delivered) :
      Does s (.proceed ticket) (.emitted ⟨topic, conn, .out, body.utf8ByteSize⟩)
        ((s.setChannel conn ((s.channels conn).release (.call ticket))).setCall ticket
          (.publishing topic body rest delivered))
  | close (ticket : Nat) (reason : String) (conn : ConnId) (rest : List ConnId) (closed : Nat)
      (at_ : s.calls ticket = .killing reason (conn :: rest) closed) :
      Does s (.proceed ticket) (.sent conn (.close reason) (s.channels conn).receiving)
        ((s.setChannel conn (((s.channels conn).send (.close reason)).release
          (.call ticket))).setCall ticket
            (.killing reason rest (if (s.channels conn).receiving then closed + 1 else closed)))
  | answer (ticket count : Nat)
      (at_ : (∃ topic body, s.calls ticket = .publishing topic body [] count) ∨
        ∃ reason, s.calls ticket = .killing reason [] count) :
      Does s (.proceed ticket) (.returned count) (s.setCall ticket (.returned count))
  | recv (conn : ConnId) (m : Option Outbound) (channel : Channel Holder Outbound)
      (receiving : (s.channels conn).receiving = true)
      (got : (s.channels conn).recv = some (m, channel)) :
      Does s (.recv conn) (.read m) (s.setChannel conn channel)
  | drop (conn : ConnId) (receiving : (s.channels conn).receiving = true) :
      Does s (.drop conn) .quiet (s.setChannel conn (s.channels conn).close)

theorem Does.of_proceed {s t : System} {ticket : Nat} {out : Output}
    (taken : proceed s ticket = some (out, t)) : Does s (.proceed ticket) out t := by
  unfold proceed at taken
  split at taken
  case h_1 | h_2 => contradiction
  case h_3 topic body delivered at_ =>
    cases taken
    exact .answer ticket delivered (.inl ⟨topic, body, at_⟩)
  case h_4 topic body conn rest delivered at_ =>
    cases receiving : (s.channels conn).receiving with
    | true =>
      simp only [receiving, if_true] at taken
      cases taken
      exact .deliver ticket topic body conn rest delivered at_ receiving
    | false =>
      simp only [receiving, Bool.false_eq_true, if_false] at taken
      cases taken
      exact .skip ticket topic body conn rest delivered at_ receiving
  case h_5 topic body conn rest delivered at_ =>
    cases taken
    exact .emit ticket topic body conn rest delivered at_
  case h_6 reason closed at_ =>
    cases taken
    exact .answer ticket closed (.inr ⟨reason, at_⟩)
  case h_7 reason conn rest closed at_ =>
    cases taken
    exact .close ticket reason conn rest closed at_

theorem Does.of_step {s t : System} {action : Action} {out : Output}
    (taken : step s action = some (out, t)) : Does s action out t := by
  cases action with
  | join topic conn =>
    simp only [step] at taken
    split at taken
    case isTrue => contradiction
    case isFalse fresh =>
      cases taken
      exact .join topic conn fresh
  | leave topic conn =>
    cases taken
    exact .leave topic conn
  | publish ticket topic body from_ order =>
    simp only [step, snapshot] at taken
    split at taken
    case isTrue holds =>
      split at taken
      · rename_i absent
        cases taken
        exact .publishNone ticket topic body from_ order holds.1 holds.2
          (Finmap.lookup_eq_none.mp absent)
      · rename_i members found
        cases taken
        exact .publish ticket topic body from_ order holds.1 holds.2
          (Finmap.mem_of_lookup_eq_some found)
    case isFalse => contradiction
  | kill ticket topic reason order =>
    simp only [step, remove] at taken
    split at taken
    case isTrue holds =>
      split at taken
      · rename_i absent
        cases taken
        exact .killNone ticket topic reason order holds.1 holds.2
          (Finmap.lookup_eq_none.mp absent)
      · rename_i members found
        cases taken
        exact .kill ticket topic reason order holds.1 holds.2
          (Finmap.mem_of_lookup_eq_some found)
    case isFalse => contradiction
  | proceed ticket => exact .of_proceed taken
  | recv conn =>
    simp only [step] at taken
    split at taken
    case isTrue receiving =>
      obtain ⟨⟨m, channel⟩, got, eq⟩ := Option.map_eq_some_iff.mp taken
      cases eq
      exact .recv conn m channel receiving got
    case isFalse => contradiction
  | drop conn =>
    simp only [step] at taken
    split at taken
    case isTrue receiving =>
      cases taken
      exact .drop conn receiving
    case isFalse => contradiction

end Servr.Ws
