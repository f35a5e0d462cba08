import Servr.Lib.Interleaving
import Servr.Ws

/-! The histories of the hub, over every interleaving of joins, leaves, kills and publishes: what
they tell of the members of each topic, of each channel and of each call. -/

namespace Servr.Ws

open Interleaving

/-- A step of the system, with what it has shown. -/
abbrev Entry := Action × Output

/-! ### Histories -/

def Joins (topic : String) (conn : ConnId) (e : Entry) : Prop := e.1 = .join topic conn

/-- The connection leaves the topic, or the topic is killed. -/
def Departs (topic : String) (conn : ConnId) (e : Entry) : Prop :=
  e.1 = .leave topic conn ∨ ∃ ticket reason order, e.1 = .kill ticket topic reason order

/-- The connection has joined the topic and neither left nor been killed since. -/
def IsMember (h : List Entry) (topic : String) (conn : ConnId) : Prop :=
  Since (Joins topic conn) (Departs topic conn) h

/-- The receiver of the connection has been dropped. -/
def Dropped (h : List Entry) (conn : ConnId) : Prop := ∃ e ∈ h, e.1 = .drop conn

/-- What has arrived in the channel of the connection, each with the call that has sent it. -/
def arrivals (conn : ConnId) (h : List Entry) : List (Nat × Outbound) :=
  h.filterMap fun
    | (.proceed ticket, .sent other m true) => if other = conn then some (ticket, m) else none
    | _ => none

/-- What the receiver of the connection has read. -/
def reads (conn : ConnId) (h : List Entry) : List Outbound :=
  h.filterMap fun
    | (.recv other, .read m) => if other = conn then m else none
    | _ => none

/-- The call that takes a step. -/
def Action.ticket : Action → Option Nat
  | .publish ticket _ _ _ _ | .kill ticket _ _ _ | .proceed ticket => some ticket
  | _ => none

/-- What a call has shown. -/
def log (ticket : Nat) (h : List Entry) : List Output :=
  ((h.filter fun e => e.1.ticket = some ticket).map Prod.snd).filter (· ≠ .quiet)

section Append

variable {h : List Entry} {e : Entry} {conn : ConnId} {ticket : Nat}

theorem arrivals_append (h k : List Entry) :
    arrivals conn (h ++ k) = arrivals conn h ++ arrivals conn k :=
  List.filterMap_append

theorem reads_append (h k : List Entry) : reads conn (h ++ k) = reads conn h ++ reads conn k :=
  List.filterMap_append

theorem log_append (h k : List Entry) : log ticket (h ++ k) = log ticket h ++ log ticket k := by
  simp [log]

theorem log_of_ne (other : e.1.ticket ≠ some ticket) : log ticket [e] = [] := by
  simp [log, other]

end Append

/-! ### The map of topics -/

namespace Topics

variable {topics : Topics} {topic topic' : String} {conn conn' : ConnId}

theorem members_of_lookup {members : Finset ConnId} (found : topics.lookup topic = some members) :
    topics.members topic = members := by
  rw [Topics.members, found, Option.getD_some]

theorem members_of_lookup_none (absent : topics.lookup topic = none) :
    topics.members topic = ∅ := by
  rw [members, absent, Option.getD_none]

theorem mem_members_join : conn' ∈ (topics.join topic conn).members topic' ↔
    topic' = topic ∧ conn' = conn ∨ conn' ∈ topics.members topic' := by
  by_cases same : topic' = topic
  · subst same
    simp [join, members]
  · simp [join, members, Finmap.lookup_insert_of_ne _ same, same]

theorem mem_members_leave : conn' ∈ (topics.leave topic conn).members topic' ↔
    conn' ∈ topics.members topic' ∧ ¬ (topic' = topic ∧ conn' = conn) := by
  cases found : topics.lookup topic with
  | none =>
    have kept : topics.leave topic conn = topics := by simp [leave, found]
    rw [kept]
    by_cases same : topic' = topic
    · subst same
      simp [members, found]
    · simp [same]
  | some here =>
    by_cases same : topic' = topic
    · subst same
      by_cases last : here.erase conn = ∅
      · have gone : topics.leave topic' conn = topics.erase topic' := by simp [leave, found, last]
        rw [gone, members, Finmap.lookup_erase, members_of_lookup found]
        have only := Finset.erase_eq_empty_iff here conn |>.mp last
        rcases only with rfl | rfl <;> simp
      · have kept : topics.leave topic' conn = topics.insert topic' (here.erase conn) := by
          simp [leave, found, last]
        rw [kept, members, Finmap.lookup_insert, members_of_lookup found]
        simp [and_comm]
    · have kept : (topics.leave topic conn).lookup topic' = topics.lookup topic' := by
        simp only [leave, found]
        split
        · exact Finmap.lookup_erase_ne same
        · exact Finmap.lookup_insert_of_ne _ same
      simp [members, kept, same]

theorem mem_members_erase : conn ∈ members (topics.erase topic) topic' ↔
    conn ∈ topics.members topic' ∧ topic' ≠ topic := by
  by_cases same : topic' = topic
  · subst same
    simp [members]
  · simp [members, Finmap.lookup_erase_ne same, same]

/-- No topic of the map is empty. -/
def Inhabited (topics : Topics) : Prop := ∀ topic, topics.lookup topic ≠ some ∅

theorem Inhabited.join (h : Inhabited topics) : Inhabited (topics.join topic conn) := by
  intro topic'
  by_cases same : topic' = topic
  · subst same
    simp [Topics.join]
  · rw [Topics.join, Finmap.lookup_insert_of_ne _ same]
    exact h topic'

theorem Inhabited.erase (h : Inhabited topics) : Inhabited (topics.erase topic) := by
  intro topic'
  by_cases same : topic' = topic
  · subst same
    simp
  · rw [Finmap.lookup_erase_ne same]
    exact h topic'

theorem Inhabited.leave (h : Inhabited topics) : Inhabited (topics.leave topic conn) := by
  unfold Topics.leave
  split
  · exact h
  · rename_i members found
    dsimp only
    split
    · exact h.erase
    · rename_i rest
      intro topic'
      by_cases same : topic' = topic
      · subst same
        simpa using rest
      · rw [Finmap.lookup_insert_of_ne _ same]
        exact h topic'

end Topics

/-! ### What a step changes -/

section Steps

variable {s t : System} {action : Action} {out : Output}

/-- The map of topics after a step. -/
theorem Does.topics (does : Does s action out t) : t.topics = match action with
    | .join topic conn => s.topics.join topic conn
    | .leave topic conn => s.topics.leave topic conn
    | .kill _ topic _ _ => s.topics.erase topic
    | _ => s.topics := by
  cases does with
  | killNone ticket topic reason order unmade all absent =>
    refine Finmap.ext_lookup fun topic' => ?_
    by_cases same : topic' = topic
    · subst same
      simp [System.setCall, Finmap.lookup_eq_none.mpr absent]
    · simp [System.setCall, Finmap.lookup_erase_ne same]
  | _ => rfl

theorem Does.drawn (does : Does s action out t) (conn : ConnId) :
    conn ∈ t.drawn ↔ conn ∈ s.drawn ∨ ∃ topic, action = .join topic conn := by
  cases does with
  | join topic other fresh => simp [Ws.join, @eq_comm _ conn, or_comm]
  | _ => simp [System.setCall, System.setChannel, Ws.leave, System.setTopics, System.mapChannels]

/-- A step leaves alone the calls that do not take it. -/
theorem Does.calls_ne (does : Does s action out t) {ticket : Nat}
    (other : action.ticket ≠ some ticket) : t.calls ticket = s.calls ticket := by
  have update (ticket' : Nat) (call : Call) (ne : some ticket' ≠ some ticket) :
      Function.update s.calls ticket' call ticket = s.calls ticket :=
    Function.update_of_ne (fun same => ne (by rw [same])) _ _
  cases does with
  | publish ticket' | publishNone ticket' | kill ticket' | killNone ticket' | deliver ticket'
  | skip ticket' | emit ticket' | close ticket' | answer ticket' => exact update ticket' _ other
  | _ => rfl

/-- What a step does to a channel, as its receiver sees it. -/
inductive Receives (conn : ConnId) (before after : Channel Holder Outbound) : Entry → Prop
  | joined (topic : String) (queue : after.queue = []) (receiving : after.receiving = true) :
      Receives conn before after (.join topic conn, .quiet)
  | arrived (ticket : Nat) (m : Outbound) (open_ : before.receiving = true)
      (queue : after.queue = before.queue ++ [m]) (receiving : after.receiving = true) :
      Receives conn before after (.proceed ticket, .sent conn m true)
  | read (m : Outbound) (open_ : before.receiving = true) (queue : before.queue = m :: after.queue)
      (receiving : after.receiving = true) :
      Receives conn before after (.recv conn, .read (some m))
  | dropped (open_ : before.receiving = true) (queue : after.queue = [])
      (receiving : after.receiving = false) : Receives conn before after (.drop conn, .quiet)
  | kept (e : Entry) (arrives : arrivals conn [e] = []) (reads : reads conn [e] = [])
      (joins : ∀ topic, e.1 ≠ .join topic conn) (drops : e.1 ≠ .drop conn)
      (queue : after.queue = before.queue) (receiving : after.receiving = before.receiving) :
      Receives conn before after e

theorem Does.receives (does : Does s action out t) (conn : ConnId) :
    Receives conn (s.channels conn) (t.channels conn) (action, out) := by
  cases does with
  | join topic other fresh =>
    by_cases same : other = conn
    · subst same
      exact .joined topic (by simp [Ws.join, Channel.unbounded])
        (by simp [Ws.join, Channel.unbounded])
    · exact .kept _ rfl rfl (by simp [same]) (by simp) (by simp [Ws.join, Ne.symm same])
        (by simp [Ws.join, Ne.symm same])
  | leave topic other =>
    refine .kept _ rfl rfl (by simp) (by simp) ?_ ?_ <;>
      · simp only [Ws.leave, System.mapChannels, System.setTopics]
        generalize (if other ∈ s.topics.members topic then [other] else []) = conns
        split <;> rfl
  | publish ticket topic body from_ order unmade all =>
    refine .kept _ rfl rfl (by simp) (by simp) ?_ ?_ <;>
      · simp only [System.mapChannels, System.setCall]
        split <;> rfl
  | kill ticket topic reason order unmade all =>
    refine .kept _ rfl rfl (by simp) (by simp) ?_ ?_ <;>
      · simp only [System.mapChannels, System.setCall, System.setTopics]
        split <;> rfl
  | publishNone | killNone | answer => exact .kept _ rfl rfl (by simp) (by simp) rfl rfl
  | deliver ticket topic body other rest delivered at_ receiving =>
    by_cases same : other = conn
    · subst same
      exact .arrived ticket _ receiving
        (by simp [System.setCall, System.setChannel, Channel.send, receiving])
        (by simp [System.setCall, System.setChannel, receiving])
    · exact .kept _ (by simp [arrivals, same]) rfl (by simp) (by simp)
        (by simp [System.setCall, System.setChannel, Ne.symm same])
        (by simp [System.setCall, System.setChannel, Ne.symm same])
  | skip ticket topic body other | emit ticket topic body other =>
    refine .kept _ rfl rfl (by simp) (by simp) ?_ ?_ <;>
      · by_cases same : conn = other
        · subst same
          simp [System.setCall, System.setChannel]
        · simp [System.setCall, System.setChannel, same]
  | close ticket reason other rest closed at_ =>
    by_cases same : other = conn
    · subst same
      cases receiving : (s.channels other).receiving with
      | true =>
        exact .arrived ticket _ receiving
          (by simp [System.setCall, System.setChannel, Channel.send, receiving])
          (by simp [System.setCall, System.setChannel, receiving])
      | false =>
        exact .kept _ rfl rfl (by simp) (by simp)
          (by simp [System.setCall, System.setChannel, Channel.send, receiving])
          (by simp [System.setCall, System.setChannel])
    · refine .kept _ ?_ rfl (by simp) (by simp)
        (by simp [System.setCall, System.setChannel, Ne.symm same])
        (by simp [System.setCall, System.setChannel, Ne.symm same])
      cases (s.channels other).receiving <;> simp [arrivals, same]
  | recv other m channel receiving got =>
    by_cases same : other = conn
    · subst same
      rcases Channel.recv_eq_some got with ⟨first, rfl, queue, -, kept⟩ | ⟨rfl, -, -, rfl⟩
      · exact .read first receiving (by simpa [System.setChannel] using queue)
          (by simp [System.setChannel, kept, receiving])
      · exact .kept _ rfl (by simp [reads]) (by simp) (by simp) (by simp [System.setChannel])
          (by simp [System.setChannel])
    · exact .kept _ rfl (by simp [reads, same]) (by simp) (by simp)
        (by simp [System.setChannel, Ne.symm same]) (by simp [System.setChannel, Ne.symm same])
  | drop other receiving =>
    by_cases same : other = conn
    · subst same
      exact .dropped receiving (by simp [System.setChannel]) (by simp [System.setChannel])
    · exact .kept _ rfl rfl (by simp) (by simp [same]) (by simp [System.setChannel, Ne.symm same])
        (by simp [System.setChannel, Ne.symm same])

end Steps

/-! ### Channels -/

def Joined (h : List Entry) (topic : String) (conn : ConnId) : Prop := ∃ e ∈ h, Joins topic conn e

/-- The channel of the connection after a history: what has arrived is what its receiver has read
and what waits, as long as the receiver is there. -/
structure ChannelInv (h : List Entry) (s : System) (conn : ConnId) : Prop where
  drawn : conn ∈ s.drawn ↔ ∃ topic, Joined h topic conn
  once : ∀ topic topic', Joined h topic conn → Joined h topic' conn → topic = topic'
  unborn : conn ∉ s.drawn → arrivals conn h = [] ∧ reads conn h = [] ∧ ¬ Dropped h conn
  receiving : (s.channels conn).receiving = true ↔ conn ∈ s.drawn ∧ ¬ Dropped h conn
  arrived : (s.channels conn).receiving = true →
    (arrivals conn h).map Prod.snd = reads conn h ++ (s.channels conn).queue
  read : reads conn h <+: (arrivals conn h).map Prod.snd

theorem ChannelInv.new (conn : ConnId) : ChannelInv [] .new conn := by
  constructor <;> simp [Joined, Dropped, arrivals, reads, System.new, Channel.gone]

theorem joined_append {h : List Entry} {e : Entry} {topic : String} {conn : ConnId} :
    Joined (h ++ [e]) topic conn ↔ Joined h topic conn ∨ Joins topic conn e := by
  simp [Joined, or_and_right, exists_or]

theorem dropped_append {h : List Entry} {e : Entry} {conn : ConnId} :
    Dropped (h ++ [e]) conn ↔ Dropped h conn ∨ e.1 = .drop conn := by
  simp [Dropped, or_and_right, exists_or]

theorem Does.fresh {s t : System} {topic : String} {conn : ConnId} {out : Output}
    (does : Does s (.join topic conn) out t) : conn ∉ s.drawn := by
  cases does with
  | join _ _ fresh => exact fresh

/-- A step that does not touch the channel's history. -/
theorem ChannelInv.keep {h : List Entry} {s t : System} {conn : ConnId} {e : Entry}
    (inv : ChannelInv h s conn) (arrives : arrivals conn [e] = []) (unread : reads conn [e] = [])
    (joins : ∀ topic, e.1 ≠ .join topic conn) (drops : e.1 ≠ .drop conn)
    (drawn : conn ∈ t.drawn ↔ conn ∈ s.drawn)
    (queue : (t.channels conn).queue = (s.channels conn).queue)
    (receiving : (t.channels conn).receiving = (s.channels conn).receiving) :
    ChannelInv (h ++ [e]) t conn := by
  have joined (topic : String) : Joined (h ++ [e]) topic conn ↔ Joined h topic conn := by
    simp [joined_append, Joins, joins topic]
  have dropped : Dropped (h ++ [e]) conn ↔ Dropped h conn := by simp [dropped_append, drops]
  constructor
  · simp only [drawn, joined, inv.drawn]
  · simpa only [joined] using inv.once
  · rw [arrivals_append, reads_append, arrives, unread, List.append_nil, List.append_nil, drawn,
      dropped]
    exact inv.unborn
  · rw [receiving, drawn, dropped]
    exact inv.receiving
  · rw [arrivals_append, reads_append, arrives, unread, List.append_nil, List.append_nil, receiving,
      queue]
    exact inv.arrived
  · rw [arrivals_append, reads_append, arrives, unread, List.append_nil, List.append_nil]
    exact inv.read

/-- A step of the receiver, or a message that arrives, while the receiver is there. -/
theorem ChannelInv.change {h : List Entry} {s t : System} {conn : ConnId} {e : Entry}
    (inv : ChannelInv h s conn) (open_ : (s.channels conn).receiving = true)
    (joins : ∀ topic, e.1 ≠ .join topic conn)
    (drawn : conn ∈ t.drawn ↔ conn ∈ s.drawn)
    (receiving : (t.channels conn).receiving = true ↔ e.1 ≠ .drop conn)
    (arrived : (t.channels conn).receiving = true → (arrivals conn (h ++ [e])).map Prod.snd =
      reads conn (h ++ [e]) ++ (t.channels conn).queue)
    (read : reads conn (h ++ [e]) <+: (arrivals conn (h ++ [e])).map Prod.snd) :
    ChannelInv (h ++ [e]) t conn := by
  have joined (topic : String) : Joined (h ++ [e]) topic conn ↔ Joined h topic conn := by
    simp [joined_append, Joins, joins topic]
  obtain ⟨born, undropped⟩ := inv.receiving.mp open_
  constructor
  · simp only [drawn, joined, inv.drawn]
  · simpa only [joined] using inv.once
  · exact fun unborn => absurd (drawn.mpr born) unborn
  · rw [receiving, dropped_append]
    simp [drawn, born, undropped]
  · exact arrived
  · exact read

theorem ChannelInv.step {h : List Entry} {s t : System} {conn : ConnId} {action : Action}
    {out : Output} (inv : ChannelInv h s conn) (does : Does s action out t) :
    ChannelInv (h ++ [(action, out)]) t conn := by
  have drawn := does.drawn conn
  rcases does.receives conn with ⟨topic, queue, receiving⟩ | ⟨ticket, m, open_, queue, receiving⟩ |
    ⟨m, open_, queue, receiving⟩ | ⟨open_, queue, receiving⟩ |
    ⟨_, arrives, unread, joins, drops, queue, receiving⟩
  · obtain ⟨none, unread, kept⟩ := inv.unborn does.fresh
    have unjoined (topic : String) : ¬ Joined h topic conn := fun joined =>
      does.fresh (inv.drawn.mpr ⟨topic, joined⟩)
    have arrives : arrivals conn (h ++ [(.join topic conn, .quiet)]) = [] := by
      rw [arrivals_append, none]
      rfl
    have reads : reads conn (h ++ [(.join topic conn, .quiet)]) = [] := by
      rw [reads_append, unread]
      rfl
    constructor
    · simp [drawn, joined_append, Joins]
    · simp [joined_append, Joins, unjoined]
    · simp [drawn]
    · simp [receiving, drawn, dropped_append, kept]
    · simp [arrives, reads, queue]
    · simp [reads]
  · refine inv.change open_ (by simp) (by simp [drawn]) (by simp [receiving]) (fun _ => ?_) ?_
    · rw [arrivals_append, reads_append, List.map_append, inv.arrived open_, queue]
      simp [arrivals, reads]
    · rw [arrivals_append, reads_append, List.map_append]
      have unread : reads conn [(.proceed ticket, .sent conn m true)] = [] := rfl
      rw [unread, List.append_nil]
      exact inv.read.trans (List.prefix_append _ _)
  · have arrived := inv.arrived open_
    rw [queue] at arrived
    have all : (arrivals conn (h ++ [(.recv conn, .read (some m))])).map Prod.snd =
        reads conn (h ++ [(.recv conn, .read (some m))]) ++ (t.channels conn).queue := by
      rw [arrivals_append, reads_append, List.map_append, arrived]
      simp [arrivals, reads]
    exact inv.change open_ (by simp) (by simp [drawn]) (by simp [receiving]) (fun _ => all)
      ⟨_, all.symm⟩
  · refine inv.change open_ (by simp) (by simp [drawn]) (by simp [receiving])
      (fun still => by simp [receiving] at still) ?_
    rw [arrivals_append, reads_append]
    simpa [arrivals, reads] using inv.read
  · refine inv.keep arrives unread joins drops ?_ queue receiving
    rw [drawn]
    exact or_iff_left fun ⟨topic, eq⟩ => joins topic eq

/-! ### Members -/

/-- The members of a topic after a history. -/
structure MembersInv (h : List Entry) (s : System) : Prop where
  members : ∀ topic conn, conn ∈ s.topics.members topic ↔ IsMember h topic conn
  inhabited : s.topics.Inhabited

theorem MembersInv.new : MembersInv [] .new where
  members topic conn := iff_of_false (by simp [System.new, Topics.members]) not_since_nil
  inhabited _ := by simp [System.new]

theorem Does.members {s t : System} {action : Action} {out : Output} (does : Does s action out t)
    (topic : String) (conn : ConnId) : conn ∈ t.topics.members topic ↔
      Joins topic conn (action, out) ∨
        conn ∈ s.topics.members topic ∧ ¬ Departs topic conn (action, out) := by
  rw [does.topics]
  cases action with
  | join topic' conn' =>
    simp [Topics.mem_members_join, Joins, Departs, @eq_comm _ topic', @eq_comm _ conn']
  | leave topic' conn' =>
    simp [Topics.mem_members_leave, Joins, Departs, @eq_comm _ topic', @eq_comm _ conn']
  | kill ticket topic' reason order =>
    simp [Topics.mem_members_erase, Joins, Departs, @eq_comm _ topic']
  | _ => simp [Joins, Departs]

theorem MembersInv.step {h : List Entry} {s t : System} {action : Action} {out : Output}
    (inv : MembersInv h s) (does : Does s action out t) :
    MembersInv (h ++ [(action, out)]) t where
  members topic conn := by
    rw [does.members, inv.members, IsMember, IsMember, since_append_singleton]
  inhabited := by
    rw [does.topics]
    cases action with
    | join | leave | kill =>
      first | exact inv.inhabited.join | exact inv.inhabited.leave | exact inv.inhabited.erase
    | _ => exact inv.inhabited

/-! ### Calls -/

/-- What a call sends: a text of a topic, of which it also emits the frame, or a close. -/
inductive Purpose
  | text (topic body : String)
  | close (reason : String)

/-- What a call shows of a send to a connection, which has succeeded or not. -/
def Purpose.delivery : Purpose → ConnId × Bool → List Output
  | .text topic body, (conn, true) =>
    [.sent conn (.text body) true, .emitted ⟨topic, conn, .out, body.utf8ByteSize⟩]
  | .text _ body, (conn, false) => [.sent conn (.text body) false]
  | .close reason, (conn, ok) => [.sent conn (.close reason) ok]

/-- A call that begins: the connections that it sends to are in the order in which it does. -/
structure Begun where
  ticket : Nat
  purpose : Purpose
  topic : String
  from_ : Option ConnId
  order : List ConnId

def Action.begun : Action → Option Begun
  | .publish ticket topic body from_ order => some ⟨ticket, .text topic body, topic, from_, order⟩
  | .kill ticket topic reason order => some ⟨ticket, .close reason, topic, none, order⟩
  | _ => none

/-- The connections to which a send has succeeded. -/
def succeeded (sent : List (ConnId × Bool)) : List ConnId := (sent.filter (·.2)).map Prod.fst

/-- Where a call stands that has shown a log: whom it has sent to, and whom it is still to send
to. -/
def Stage (purpose : Purpose) (order : List ConnId) (log : List Output) : Call → Prop
  | .unmade => False
  | .publishing topic body rest delivered => purpose = .text topic body ∧ ∃ sent,
    log = sent.flatMap purpose.delivery ∧ sent.map Prod.fst ++ rest = order ∧
      delivered = (succeeded sent).length
  | .emitting topic body conn rest delivered => purpose = .text topic body ∧ ∃ sent,
    log = sent.flatMap purpose.delivery ++ [.sent conn (.text body) true] ∧
      sent.map Prod.fst ++ conn :: rest = order ∧ delivered = (succeeded sent).length + 1
  | .killing reason rest closed => purpose = .close reason ∧ ∃ sent,
    log = sent.flatMap purpose.delivery ∧ sent.map Prod.fst ++ rest = order ∧
      closed = (succeeded sent).length
  | .returned count => ∃ sent, log = sent.flatMap purpose.delivery ++ [.returned count] ∧
    sent.map Prod.fst = order ∧ count = (succeeded sent).length

theorem succeeded_append (sent : List (ConnId × Bool)) (conn : ConnId) (ok : Bool) :
    succeeded (sent ++ [(conn, ok)]) = succeeded sent ++ if ok then [conn] else [] := by
  cases ok <;> simp [succeeded]

theorem Stage.step {s t : System} {ticket : Nat} {out : Output} {purpose : Purpose}
    {order : List ConnId} {log : List Output} (stage : Stage purpose order log (s.calls ticket))
    (does : Does s (.proceed ticket) out t) :
    out ≠ .quiet ∧ Stage purpose order (log ++ [out]) (t.calls ticket) := by
  cases does with
  | deliver _ topic body conn rest delivered at_ receiving =>
    rw [at_] at stage
    obtain ⟨rfl, sent, rfl, all, rfl⟩ := stage
    refine ⟨by simp, ?_⟩
    simp only [System.setCall, Function.update_self]
    exact ⟨rfl, sent, rfl, all, rfl⟩
  | skip _ topic body conn rest delivered at_ closed =>
    rw [at_] at stage
    obtain ⟨rfl, sent, rfl, all, rfl⟩ := stage
    refine ⟨by simp, ?_⟩
    simp only [System.setCall, Function.update_self]
    refine ⟨rfl, sent ++ [(conn, false)], ?_, ?_, ?_⟩
    · simp [Purpose.delivery]
    · simpa using all
    · simp [succeeded_append]
  | emit _ topic body conn rest delivered at_ =>
    rw [at_] at stage
    obtain ⟨rfl, sent, rfl, all, rfl⟩ := stage
    refine ⟨by simp, ?_⟩
    simp only [System.setCall, Function.update_self]
    refine ⟨rfl, sent ++ [(conn, true)], ?_, ?_, ?_⟩
    · simp [Purpose.delivery]
    · simpa using all
    · simp [succeeded_append]
  | close _ reason conn rest closed at_ =>
    rw [at_] at stage
    obtain ⟨rfl, sent, rfl, all, rfl⟩ := stage
    refine ⟨by simp, ?_⟩
    simp only [System.setCall, Function.update_self]
    refine ⟨rfl, sent ++ [(conn, (s.channels conn).receiving)], ?_, ?_, ?_⟩
    · simp [Purpose.delivery]
    · simpa using all
    · cases (s.channels conn).receiving <;> simp [succeeded_append]
  | answer _ count at_ =>
    refine ⟨by simp, ?_⟩
    simp only [System.setCall, Function.update_self]
    rcases at_ with ⟨topic, body, at_⟩ | ⟨reason, at_⟩
    · rw [at_] at stage
      obtain ⟨rfl, sent, rfl, all, rfl⟩ := stage
      exact ⟨sent, rfl, by simpa using all, rfl⟩
    · rw [at_] at stage
      obtain ⟨rfl, sent, rfl, all, rfl⟩ := stage
      exact ⟨sent, rfl, by simpa using all, rfl⟩

/-- The calls after a history. -/
structure CallsInv (h : List Entry) (s : System) : Prop where
  unmade : ∀ ticket, s.calls ticket = .unmade ↔ ∀ e ∈ h, e.1.ticket ≠ some ticket
  origin : ∀ ticket, s.calls ticket ≠ .unmade →
    ∃ before e after begun, h = before ++ e :: after ∧ e.1.begun = some begun ∧
      begun.ticket = ticket
  begun : ∀ before e after, h = before ++ e :: after → ∀ begun, e.1.begun = some begun →
    begun.order.Nodup ∧
      (∀ conn, conn ∈ begun.order ↔ IsMember before begun.topic conn ∧ some conn ≠ begun.from_) ∧
      Stage begun.purpose begun.order (log begun.ticket h) (s.calls begun.ticket)

theorem CallsInv.new : CallsInv [] .new where
  unmade _ := by simp [System.new]
  origin _ made := absurd rfl made
  begun _ _ _ eq := by simp at eq

theorem log_of_unmade {h : List Entry} {ticket : Nat} (none : ∀ e ∈ h, e.1.ticket ≠ some ticket) :
    log ticket h = [] := by
  have empty : (h.filter fun e => e.1.ticket = some ticket) = [] :=
    List.filter_eq_nil_iff.mpr fun e mem => by simpa using none e mem
  rw [log, empty]
  rfl

theorem log_singleton {action : Action} {out : Output} {ticket : Nat}
    (own : action.ticket = some ticket) :
    log ticket [(action, out)] = if out = .quiet then [] else [out] := by
  by_cases quiet : out = .quiet <;> simp [log, own, quiet]

/-- A call that begins looks at the members of its topic. -/
theorem Does.begun {s t : System} {action : Action} {out : Output} {begun : Begun}
    (does : Does s action out t) (begins : action.begun = some begun) :
    action.ticket = some begun.ticket ∧ s.calls begun.ticket = .unmade ∧
      Enumerates begun.order (targets s begun.topic begun.from_) ∧
      Stage begun.purpose begun.order (if out = .quiet then [] else [out])
        (t.calls begun.ticket) := by
  cases does with
  | publish ticket topic body from_ order unmade all present =>
    cases begins
    refine ⟨rfl, unmade, all, ?_⟩
    simp only [System.setCall, Function.update_self]
    exact ⟨rfl, [], rfl, rfl, rfl⟩
  | publishNone ticket topic body from_ order unmade all absent =>
    cases begins
    have none : order = [] := by
      have empty := all.2
      rw [targets, Topics.members_of_lookup_none (Finmap.lookup_eq_none.mpr absent)] at empty
      exact List.toFinset_eq_empty_iff order |>.mp empty
    refine ⟨rfl, unmade, all, ?_⟩
    simp only [System.setCall, Function.update_self]
    exact ⟨[], rfl, none.symm, rfl⟩
  | kill ticket topic reason order unmade all present =>
    cases begins
    refine ⟨rfl, unmade, by simpa [targets] using all, ?_⟩
    simp only [System.setCall, Function.update_self]
    exact ⟨rfl, [], rfl, rfl, rfl⟩
  | killNone ticket topic reason order unmade all absent =>
    cases begins
    have none : order = [] := by
      have empty := all.2
      rw [Topics.members_of_lookup_none (Finmap.lookup_eq_none.mpr absent)] at empty
      exact List.toFinset_eq_empty_iff order |>.mp empty
    refine ⟨rfl, unmade, by simpa [targets] using all, ?_⟩
    simp only [System.setCall, Function.update_self]
    exact ⟨[], rfl, none.symm, rfl⟩
  | _ => contradiction

/-- A step of a call either begins it, or goes on with one that has begun. -/
theorem Action.ticket_eq_some {action : Action} {ticket : Nat} (own : action.ticket = some ticket) :
    (∃ begun, action.begun = some begun ∧ begun.ticket = ticket) ∨ action = .proceed ticket := by
  cases action with
  | publish | kill =>
    cases own
    exact .inl ⟨_, rfl, rfl⟩
  | proceed =>
    cases own
    exact .inr rfl
  | _ => contradiction

theorem Does.made {s t : System} {ticket : Nat} {out : Output}
    (does : Does s (.proceed ticket) out t) :
    s.calls ticket ≠ .unmade ∧ t.calls ticket ≠ .unmade := by
  cases does with
  | answer _ count at_ =>
    refine ⟨?_, by simp [System.setCall]⟩
    rcases at_ with ⟨topic, body, at_⟩ | ⟨reason, at_⟩ <;> simp [at_]
  | deliver _ _ _ _ _ _ at_ | skip _ _ _ _ _ _ at_ | emit _ _ _ _ _ _ at_
  | close _ _ _ _ _ at_ =>
    exact ⟨by simp [at_], by simp [System.setCall]⟩

theorem CallsInv.step {h : List Entry} {s t : System} {action : Action} {out : Output}
    (inv : CallsInv h s) (members : MembersInv h s) (does : Does s action out t) :
    CallsInv (h ++ [(action, out)]) t where
  unmade ticket := by
    rw [List.forall_mem_append, List.forall_mem_singleton, ← inv.unmade]
    by_cases own : action.ticket = some ticket
    · refine iff_of_false ?_ fun both => both.2 own
      rcases Action.ticket_eq_some own with ⟨begun, begins, rfl⟩ | rfl
      · intro unmade
        have stage := (does.begun begins).2.2.2
        rwa [unmade] at stage
      · exact does.made.2
    · rw [does.calls_ne own]
      exact (and_iff_left own).symm
  origin ticket made := by
    have earlier (made : s.calls ticket ≠ .unmade) :
        ∃ before e after begun, h ++ [(action, out)] = before ++ e :: after ∧
          e.1.begun = some begun ∧ begun.ticket = ticket := by
      obtain ⟨before, e, after, begun, rfl, rest⟩ := inv.origin ticket made
      exact ⟨before, e, after ++ [(action, out)], begun, by simp, rest⟩
    by_cases own : action.ticket = some ticket
    · rcases Action.ticket_eq_some own with ⟨begun, begins⟩ | rfl
      · exact ⟨h, _, [], begun, rfl, begins⟩
      · exact earlier does.made.1
    · rw [does.calls_ne own] at made
      exact earlier made
  begun := by
    rw [forall_split_append_singleton]
    constructor
    · intro before e after eq begun begins
      obtain ⟨once, order, stage⟩ := inv.begun before e after eq begun begins
      refine ⟨once, order, ?_⟩
      rw [log_append]
      by_cases own : action.ticket = some begun.ticket
      · rcases Action.ticket_eq_some own with ⟨begun', begins', same⟩ | rfl
        · have unmade := (does.begun begins').2.1
          rw [same] at unmade
          rw [unmade] at stage
          exact stage.elim
        · obtain ⟨shown, stage⟩ := stage.step does
          rwa [log_singleton rfl, if_neg shown]
      · rw [log_of_ne own, List.append_nil, does.calls_ne own]
        exact stage
    · intro begun begins
      obtain ⟨own, unmade, all, stage⟩ := does.begun begins
      refine ⟨all.1, fun conn => ?_, ?_⟩
      · rw [← List.mem_toFinset, all.2, targets, Finset.mem_filter, members.members]
      · rw [log_append, log_of_unmade ((inv.unmade _).mp unmade), List.nil_append,
          log_singleton own]
        exact stage

end Servr.Ws
