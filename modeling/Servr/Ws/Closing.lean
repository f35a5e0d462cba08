import Servr.Ws.Membership

/-! How a kill closes a channel: a connection that a kill takes out of its topic is one that the
kill is still to send a close to, until that close is sent, and no other close is sent to it. -/

namespace Servr.Ws

open Interleaving

def Outbound.isClose : Outbound → Bool
  | .text _ => false
  | .close _ => true

/-- The closes that have arrived at the connection. -/
def closes (conn : ConnId) (h : List Entry) : List (Nat × Outbound) :=
  (arrivals conn h).filter fun a => a.2.isClose

/-- A kill is still to send a close to the connection. -/
def Killing (s : System) (ticket : Nat) (conn : ConnId) : Prop :=
  ∃ reason rest closed, s.calls ticket = .killing reason rest closed ∧ conn ∈ rest

theorem closes_append (conn : ConnId) (h k : List Entry) :
    closes conn (h ++ k) = closes conn h ++ closes conn k := by
  rw [closes, arrivals_append, List.filter_append, closes, closes]

/-! ### Connections in the hub -/

namespace HubInv

variable {h : List Entry} {s : System} {topic topic' : String} {conn : ConnId} {ticket : Nat}

theorem joined_of_isMember {before : List Entry} (member : IsMember before topic conn) :
    Joined before topic conn := by
  obtain ⟨early, joins, late, rfl, joined, -⟩ := member
  exact ⟨joins, by simp, joined⟩

/-- A connection is in one topic at most. -/
theorem alone (inv : HubInv h s) (member : conn ∈ s.topics.members topic)
    (member' : conn ∈ s.topics.members topic') : topic = topic' :=
  (inv.channels conn).once topic topic'
    (joined_of_isMember ((inv.members.members topic conn).mp member))
    (joined_of_isMember ((inv.members.members topic' conn).mp member'))

/-- What a call is still to send to was in its topic when it looked, each connection once. -/
theorem pending (inv : HubInv h s) (ticket : Nat) :
    (s.calls ticket).pending.Nodup ∧ ∀ conn ∈ (s.calls ticket).pending, conn ∈ s.drawn := by
  by_cases made : s.calls ticket = .unmade
  · rw [made]
    exact ⟨List.nodup_nil, by simp [Call.pending]⟩
  · obtain ⟨before, e, after, begun, rfl, begins, rfl⟩ := inv.calls.origin ticket made
    obtain ⟨once, order, stage⟩ := inv.calls.begun before e after rfl begun begins
    refine ⟨once.sublist stage.pending.sublist, fun conn mem => ?_⟩
    obtain ⟨joins, mem, joined⟩ :=
      joined_of_isMember ((order conn).mp (stage.pending.subset mem)).1
    exact (inv.channels conn).drawn.mpr
      ⟨begun.topic, joins, List.mem_append_left _ mem, joined⟩

end HubInv

theorem Killing.pending {s : System} {ticket : Nat} {conn : ConnId}
    (killing : Killing s ticket conn) : conn ∈ (s.calls ticket).pending := by
  obtain ⟨reason, rest, closed, at_, mem⟩ := killing
  rw [at_]
  exact mem

section Steps

variable {h : List Entry} {s t : System} {action : Action} {out : Output} {conn : ConnId}

/-- A kill that is still to send to a connection was so before, or takes it out of its topic. -/
theorem Does.killing (does : Does s action out t) {ticket : Nat} (killing : Killing t ticket conn) :
    Killing s ticket conn ∨ ∃ topic reason order, action = .kill ticket topic reason order ∧
      conn ∈ s.topics.members topic := by
  by_cases own : action.ticket = some ticket
  · obtain ⟨reason, rest, closed, at_, mem⟩ := killing
    cases does with
    | kill ticket' topic reason' order unmade all present =>
      cases own
      simp only [System.setCall, Function.update_self, Call.killing.injEq] at at_
      obtain ⟨rfl, rfl, rfl⟩ := at_
      exact .inr ⟨topic, reason', order, rfl, by rw [← all.2]; exact List.mem_toFinset.mpr mem⟩
    | close ticket' reason' conn' rest' closed' before =>
      cases own
      simp only [System.setCall, Function.update_self, Call.killing.injEq] at at_
      obtain ⟨rfl, rfl, rfl⟩ := at_
      exact .inl ⟨reason', _, closed', before, List.mem_cons_of_mem _ mem⟩
    | publish | publishNone | killNone | deliver | skip | emit | answer =>
      cases own
      simp [System.setCall] at at_
    | _ => contradiction
  · rw [Killing, does.calls_ne own] at killing
    exact .inl killing

/-- A close that arrives is sent by a kill, which is not to send to the connection again. -/
theorem Does.closes (does : Does s action out t) (inv : HubInv h s) :
    closes conn [(action, out)] = [] ∨ ∃ ticket reason,
      action = .proceed ticket ∧ closes conn [(action, out)] = [(ticket, .close reason)] ∧
        Killing s ticket conn ∧ ¬ Killing t ticket conn := by
  rcases arrivals_singleton conn (action, out) with none | ⟨ticket, m, eq, arrives⟩
  · exact .inl (by rw [Ws.closes, none, List.filter_nil])
  · cases eq
    cases m with
    | text body => exact .inl (by simp [Ws.closes, arrives, Outbound.isClose])
    | close reason =>
      refine .inr ⟨ticket, reason, rfl, by simp [Ws.closes, arrives, Outbound.isClose], ?_⟩
      generalize eq : true = ok at does
      cases does with
      | close _ _ _ rest closed at_ =>
        refine ⟨⟨reason, _, closed, at_, by simp⟩, fun killing => ?_⟩
        have once := (inv.pending ticket).1
        rw [at_] at once
        obtain ⟨reason', rest', closed', at', mem⟩ := killing
        simp only [System.setCall, Function.update_self, Call.killing.injEq] at at'
        obtain ⟨-, rfl, -⟩ := at'
        exact (List.nodup_cons.mp once).1 mem

/-- The closes of a connection: none while it is in a topic or a kill is still to send to it, which
is one kill alone, and one at most. -/
structure KillInv (h : List Entry) (s : System) (conn : ConnId) : Prop where
  member : ∀ topic, conn ∈ s.topics.members topic →
    (∀ ticket, ¬ Killing s ticket conn) ∧ closes conn h = []
  killing : ∀ ticket, Killing s ticket conn →
    closes conn h = [] ∧ ∀ ticket', Killing s ticket' conn → ticket' = ticket
  once : (closes conn h).length ≤ 1

theorem KillInv.new (conn : ConnId) : KillInv [] .new conn := by
  constructor <;> simp [closes, arrivals, System.new, Topics.members, Killing]

theorem KillInv.step (kills : KillInv h s conn) (inv : HubInv h s) (does : Does s action out t) :
    KillInv (h ++ [(action, out)]) t conn := by
  have members (topic : String) := does.members topic conn
  have arrives : closes conn [(action, out)] = [] ∨ _ := does.closes inv
  rcases arrives with none | ⟨ticket, reason, rfl, arrives, before, after⟩
  · have same : closes conn (h ++ [(action, out)]) = closes conn h := by
      rw [closes_append, none, List.append_nil]
    constructor
    · intro topic member
      rw [same]
      rcases (members topic).mp member with joins | ⟨member, stays⟩
      · cases joins
        have fresh := does.fresh
        refine ⟨fun ticket killing => ?_, ?_⟩
        · rcases does.killing killing with killing | ⟨_, _, _, eq, -⟩
          · exact fresh ((inv.pending ticket).2 conn killing.pending)
          · contradiction
        · rw [closes, ((inv.channels conn).unborn fresh).1, List.filter_nil]
      · refine ⟨fun ticket killing => ?_, (kills.member topic member).2⟩
        rcases does.killing killing with killing | ⟨topic', reason, order, rfl, member'⟩
        · exact (kills.member topic member).1 ticket killing
        · cases inv.alone member member'
          exact stays (.inr ⟨ticket, reason, order, rfl⟩)
    · intro ticket killing
      rw [same]
      rcases does.killing killing with killing | ⟨topic, reason, order, rfl, member⟩
      · refine ⟨(kills.killing ticket killing).1, fun ticket' killing' => ?_⟩
        rcases does.killing killing' with killing' | ⟨topic, _, _, rfl, member⟩
        · exact (kills.killing ticket killing).2 ticket' killing'
        · exact absurd killing ((kills.member topic member).1 ticket)
      · refine ⟨(kills.member topic member).2, fun ticket' killing' => ?_⟩
        rcases does.killing killing' with killing' | ⟨topic', _, _, eq, -⟩
        · exact absurd killing' ((kills.member topic member).1 ticket')
        · cases eq
          rfl
    · rw [same]
      exact kills.once
  · obtain ⟨empty, only⟩ := kills.killing ticket before
    have passed (ticket' : Nat) : ¬ Killing t ticket' conn := by
      intro killing
      rcases does.killing killing with killing' | ⟨_, _, _, eq, -⟩
      · cases only ticket' killing'
        exact after killing
      · contradiction
    constructor
    · intro topic member
      rcases (members topic).mp member with joins | ⟨member, -⟩
      · cases joins
      · exact absurd before ((kills.member topic member).1 ticket)
    · exact fun ticket' killing => absurd killing (passed ticket')
    · rw [closes_append, empty, arrives]
      simp

/-- The hub still holds a sender of the connection, from which a close is to come: its topic's, or
that of a kill. -/
structure HoldersInv (s : System) (conn : ConnId) : Prop where
  member : ∀ topic, conn ∈ s.topics.members topic → .member ∈ (s.channels conn).senders
  killing : ∀ ticket, Killing s ticket conn → .call ticket ∈ (s.channels conn).senders

theorem HoldersInv.new (conn : ConnId) : HoldersInv .new conn := by
  constructor <;> simp [System.new, Topics.members, Killing]

/-- A step that leaves the senders of the connection alone. -/
theorem HoldersInv.keep (holders : HoldersInv s conn)
    (members : ∀ topic, conn ∈ t.topics.members topic → conn ∈ s.topics.members topic)
    (killing : ∀ ticket, Killing t ticket conn → Killing s ticket conn)
    (senders : ∀ k ∈ (s.channels conn).senders, k ∈ (t.channels conn).senders) :
    HoldersInv t conn where
  member topic member := senders _ (holders.member topic (members topic member))
  killing ticket killing' := senders _ (holders.killing ticket (killing ticket killing'))

/-- A step that changes a channel, but not its senders. -/
theorem HoldersInv.update (holders : HoldersInv s conn) {other : ConnId}
    {c : Channel Holder Outbound}
    (members : ∀ topic, conn ∈ t.topics.members topic → conn ∈ s.topics.members topic)
    (killing : ∀ ticket, Killing t ticket conn → Killing s ticket conn)
    (channels : t.channels = Function.update s.channels other c)
    (senders : c.senders = (s.channels other).senders) : HoldersInv t conn := by
  refine holders.keep members killing fun k mem => ?_
  rw [channels]
  by_cases same : conn = other
  · subst same
    rwa [Function.update_self, senders]
  · rwa [Function.update_of_ne same]

/-- A call that drops its sender of a connection is not to send to it again. -/
theorem HoldersInv.release (holders : HoldersInv s conn) (ticket : Nat) {other : ConnId}
    {c : Channel Holder Outbound}
    (members : ∀ topic, conn ∈ t.topics.members topic → conn ∈ s.topics.members topic)
    (killing : ∀ ticket, Killing t ticket conn → Killing s ticket conn)
    (passed : ¬ Killing t ticket other)
    (channels : t.channels = Function.update s.channels other c)
    (senders : c.senders = (s.channels other).senders.erase (.call ticket)) :
    HoldersInv t conn := by
  by_cases same : conn = other
  · subst same
    have kept (k : Holder) (ne : k ≠ .call ticket) (mem : k ∈ (s.channels conn).senders) :
        k ∈ (t.channels conn).senders := by
      rw [channels, Function.update_self, senders]
      exact (List.mem_erase_of_ne ne).mpr mem
    refine ⟨fun topic member => ?_, fun ticket' killing' => ?_⟩
    · exact kept _ (by simp) (holders.member topic (members topic member))
    · refine kept _ (fun same => ?_) (holders.killing ticket' (killing ticket' killing'))
      cases same
      exact passed killing'
  · refine holders.keep members killing fun k mem => ?_
    rwa [channels, Function.update_of_ne same]

theorem HoldersInv.join (holders : HoldersInv s conn) (inv : HubInv h s) (topic : String)
    {other : ConnId} (fresh : other ∉ s.drawn) : HoldersInv (Ws.join s topic other) conn := by
  by_cases same : conn = other
  · subst same
    refine ⟨fun _ _ => by simp [Ws.join, Channel.unbounded], fun ticket killing => ?_⟩
    have killing : Killing s ticket conn := killing
    exact absurd ((inv.pending ticket).2 conn killing.pending) fresh
  · refine holders.keep (fun topic' member => ?_) (fun _ => id) fun k mem => ?_
    · exact (Topics.mem_members_join.mp member).resolve_left fun both => same both.2
    · simpa [Ws.join, same] using mem

theorem HoldersInv.leave (holders : HoldersInv s conn) (inv : HubInv h s) (topic : String)
    (other : ConnId) : HoldersInv (Ws.leave s topic other) conn := by
  by_cases gone : conn = other ∧ other ∈ s.topics.members topic
  · obtain ⟨rfl, here⟩ := gone
    refine ⟨fun topic' member => ?_, fun ticket killing => ?_⟩
    · obtain ⟨there, stays⟩ := Topics.mem_members_leave.mp member
      exact absurd ⟨inv.alone there here, rfl⟩ stays
    · have mem := holders.killing ticket killing
      simpa [Ws.leave, System.mapChannels, System.setTopics, here] using
        (List.mem_erase_of_ne (b := Holder.member) (by simp)).mpr mem
  · refine holders.keep (fun topic' member => (Topics.mem_members_leave.mp member).1)
      (fun _ => id) fun k mem => ?_
    by_cases here : other ∈ s.topics.members topic
    · have ne : conn ≠ other := fun same => gone ⟨same, here⟩
      simpa [Ws.leave, System.mapChannels, System.setTopics, here, ne] using mem
    · simpa [Ws.leave, System.mapChannels, System.setTopics, here] using mem

/-- A kill takes over the senders of the members that it removes. -/
theorem HoldersInv.kill (holders : HoldersInv s conn) (inv : HubInv h s) {ticket : Nat}
    {topic reason : String} {order : List ConnId}
    (does : Does s (.kill ticket topic reason order) out t)
    (all : Enumerates order (s.topics.members topic))
    (topics : t.topics = s.topics.erase topic)
    (channels : t.channels conn = if conn ∈ order then
      ((s.channels conn).clone (.call ticket)).release .member else s.channels conn) :
    HoldersInv t conn := by
  have killed : conn ∈ order ↔ conn ∈ s.topics.members topic := by
    rw [← all.2, List.mem_toFinset]
  refine ⟨fun topic' member => ?_, fun ticket' killing => ?_⟩
  · rw [topics] at member
    obtain ⟨there, other⟩ := Topics.mem_members_erase.mp member
    rw [channels, if_neg fun here => other (inv.alone there (killed.mp here))]
    exact holders.member topic' there
  · have held : .call ticket' ∈ (s.channels conn).senders ∨ ticket' = ticket ∧ conn ∈ order := by
      rcases does.killing killing with before | ⟨_, _, _, eq, member⟩
      · exact .inl (holders.killing ticket' before)
      · cases eq
        exact .inr ⟨rfl, killed.mpr member⟩
    rw [channels]
    split
    · rw [Channel.release_senders, Channel.clone_senders, List.mem_erase_of_ne (by simp)]
      rcases held with held | ⟨rfl, -⟩
      · exact List.mem_cons_of_mem _ held
      · exact List.mem_cons_self
    · rename_i stays
      exact held.resolve_right fun both => stays both.2

theorem HoldersInv.step (holders : HoldersInv s conn) (inv : HubInv h s)
    (does : Does s action out t) : HoldersInv t conn := by
  have killing (kills : ∀ ticket topic reason order, action ≠ .kill ticket topic reason order)
      (ticket : Nat) (killing : Killing t ticket conn) : Killing s ticket conn :=
    (does.killing killing).resolve_right fun ⟨_, _, _, eq, _⟩ => kills _ _ _ _ eq
  have whole := does
  cases does with
  | join topic other fresh => exact holders.join inv topic fresh
  | leave topic other => exact holders.leave inv topic other
  | publish ticket topic body from_ order unmade all present =>
    refine holders.keep (fun _ => id) (killing (by simp)) fun k mem => ?_
    by_cases target : conn ∈ order
    · simp [System.setCall, System.mapChannels, target, mem]
    · simpa [System.setCall, System.mapChannels, target] using mem
  | publishNone | answer => exact holders.keep (fun _ => id) (killing (by simp)) fun _ => id
  | kill ticket topic reason order unmade all present =>
    exact holders.kill inv whole all rfl rfl
  | killNone ticket topic reason order unmade all absent =>
    refine holders.keep (fun _ => id) (fun ticket' killing' => ?_) fun _ => id
    refine (whole.killing killing').resolve_right ?_
    rintro ⟨_, _, _, eq, member⟩
    cases eq
    rw [Topics.members_of_lookup_none (Finmap.lookup_eq_none.mpr absent)] at member
    contradiction
  | deliver ticket topic body other rest delivered at_ receiving =>
    exact holders.update (fun _ => id) (killing (by simp)) rfl (by simp)
  | skip ticket | emit ticket =>
    exact holders.release ticket (fun _ => id) (killing (by simp))
      (by simp [Killing, System.setCall]) rfl rfl
  | close ticket reason other rest closed at_ =>
    have once := (inv.pending ticket).1
    rw [at_] at once
    have passed : other ∉ rest := (List.nodup_cons.mp once).1
    exact holders.release ticket (fun _ => id) (killing (by simp))
      (by simpa [Killing, System.setCall] using passed) rfl (by simp)
  | recv other m channel receiving got =>
    have senders : channel.senders = (s.channels other).senders := by
      rcases Channel.recv_eq_some got with ⟨_, -, -, senders, -⟩ | ⟨-, -, -, rfl⟩
      · exact senders
      · rfl
    exact holders.update (fun _ => id) (fun _ => id) rfl senders
  | drop other receiving => exact holders.update (fun _ => id) (fun _ => id) rfl rfl

/-- Where a close is to come from, or has come from. -/
def Reached (h : List Entry) (s : System) (conn : ConnId) : Prop :=
  (∃ topic, conn ∈ s.topics.members topic) ∨ (∃ ticket, Killing s ticket conn) ∨
    closes conn h ≠ []

/-- A kill takes the members out of its topic, and is then to send to each. -/
theorem Does.kills {ticket : Nat} {topic reason : String} {order : List ConnId}
    (does : Does s (.kill ticket topic reason order) out t)
    (member : conn ∈ s.topics.members topic) : Killing t ticket conn := by
  cases does with
  | kill _ _ _ _ unmade all present =>
    rw [← all.2, List.mem_toFinset] at member
    exact ⟨reason, order, 0, by simp [System.setCall], member⟩
  | killNone _ _ _ _ unmade all absent =>
    rw [Topics.members_of_lookup_none (Finmap.lookup_eq_none.mpr absent)] at member
    contradiction

/-- A kill stays about to send to a connection until it does. -/
theorem Killing.step {ticket : Nat} (killing : Killing s ticket conn) (does : Does s action out t)
    (receiving : (s.channels conn).receiving = true) :
    Killing t ticket conn ∨ closes conn [(action, out)] ≠ [] := by
  by_cases own : action.ticket = some ticket
  · obtain ⟨reason, rest, closed, at_, mem⟩ := killing
    rcases Action.ticket_eq_some own with ⟨begun, begins, rfl⟩ | rfl
    · rw [(does.begun begins).2.1] at at_
      contradiction
    · cases does with
      | close _ reason' other rest' closed' at' =>
        rw [at_] at at'
        cases at'
        rcases List.mem_cons.mp mem with rfl | mem
        · exact .inr (by simp [closes, arrivals, receiving, Outbound.isClose])
        · exact .inl ⟨reason, rest', _, Function.update_self _ _ _, mem⟩
      | answer _ count at' =>
        rw [at_] at at'
        rcases at' with ⟨_, _, eq⟩ | ⟨_, eq⟩
        · contradiction
        · cases eq
          contradiction
      | deliver _ _ _ _ _ _ at' | skip _ _ _ _ _ _ at' | emit _ _ _ _ _ _ at' =>
        rw [at_] at at'
        contradiction
  · refine .inl ?_
    rw [Killing, does.calls_ne own]
    exact killing

/-- A connection that does not leave is reached by a close, while its receiver is there. -/
theorem Reached.step (does : Does s action out t)
    (reached : (s.channels conn).receiving = true → Reached h s conn)
    (stays : ∀ topic, action ≠ .leave topic conn) (receiving : (t.channels conn).receiving = true) :
    Reached (h ++ [(action, out)]) t conn := by
  have earlier : (s.channels conn).receiving = true ∨ ∃ topic, action = .join topic conn := by
    rcases does.receives conn with ⟨topic⟩ | ⟨_, _, open_⟩ | ⟨_, open_⟩ | ⟨_, _, closed⟩ |
      ⟨_, _, _, _, _, _, same⟩
    · exact .inr ⟨topic, rfl⟩
    · exact .inl open_
    · exact .inl open_
    · simp [closed] at receiving
    · exact .inl (same ▸ receiving)
  rcases earlier with open_ | ⟨topic, rfl⟩
  · rcases reached open_ with ⟨topic, member⟩ | ⟨ticket, killing⟩ | closed
    · by_cases departs : Departs topic conn (action, out)
      · rcases departs with leaves | ⟨ticket, reason, order, rfl⟩
        · exact absurd leaves (stays topic)
        · exact .inr (.inl ⟨ticket, does.kills member⟩)
      · exact .inl ⟨topic, (does.members topic conn).mpr (.inr ⟨member, departs⟩)⟩
    · rcases killing.step does open_ with killing | closed
      · exact .inr (.inl ⟨ticket, killing⟩)
      · refine .inr (.inr ?_)
        rw [closes_append]
        exact List.append_ne_nil_of_right_ne_nil _ closed
    · refine .inr (.inr ?_)
      rw [closes_append]
      exact List.append_ne_nil_of_left_ne_nil closed _
  · exact .inl ⟨topic, (does.members topic conn).mpr (.inl rfl)⟩

end Steps

end Servr.Ws
