import Servr.Ws.History

/-! Who is in the hub and what reaches them, over every interleaving of joins, leaves, kills and
publishes: presence lists the connections that have joined and have neither left nor been killed
since, and a publish reaches those that were in the topic when it looked. -/

namespace Servr.Ws

open Interleaving

/-! ### Presence -/

namespace Topics

variable {topics : Topics}

/-- What presence lists: every topic with a member, in order, with its members in order. -/
structure Listed (topics : Topics) (member : String → ConnId → Prop) : Prop where
  lists : ∀ topic conn, (∃ conns, (topic, conns) ∈ topics.presence ∧ conn ∈ conns) ↔
    member topic conn
  sorted : (topics.presence.map Prod.fst).Pairwise (· < ·)
  members : ∀ listed ∈ topics.presence, listed.2 ≠ [] ∧ listed.2.Pairwise (· < ·)
  total : topics.connections = (topics.presence.map fun listed => listed.2.length).sum

theorem mem_presence {listed : String × List ConnId} : listed ∈ topics.presence ↔
    listed.1 ∈ topics ∧ listed.2 = (topics.members listed.1).sort := by
  simp only [presence, List.mem_map, Finset.mem_sort, Finmap.mem_keys]
  constructor
  · rintro ⟨topic, mem, rfl⟩
    exact ⟨mem, rfl⟩
  · rintro ⟨mem, eq⟩
    exact ⟨listed.1, mem, by rw [← eq]⟩

theorem connections_eq (topics : Topics) :
    topics.connections = (topics.presence.map fun listed => listed.2.length).sum := by
  have sorted : (topics.presence.map fun listed => listed.2.length) =
      topics.keys.sort.map fun topic => (topics.members topic).card := by
    simp [presence, Function.comp_def]
  have unsorted : (topics.keys.sort.map fun topic => (topics.members topic).card).sum =
      (topics.keys.val.map fun topic => (topics.members topic).card).sum := by
    rw [← Finset.sort_eq topics.keys (· ≤ ·), Multiset.map_coe, Multiset.sum_coe]
  have entries : topics.keys.val = topics.entries.map Sigma.fst := rfl
  rw [sorted, unsorted, entries, Multiset.map_map, connections]
  congr 1
  refine Multiset.map_congr rfl fun e mem => ?_
  rw [Function.comp_apply, members_of_lookup (Finmap.lookup_eq_some_iff.mpr mem)]

theorem Inhabited.listed {member : String → ConnId → Prop} (inhabited : Inhabited topics)
    (same : ∀ topic conn, conn ∈ topics.members topic ↔ member topic conn) :
    Listed topics member := by
  constructor
  · intro topic conn
    rw [← same]
    constructor
    · rintro ⟨conns, listed, mem⟩
      have eq : conns = (topics.members topic).sort := (mem_presence.mp listed).2
      rw [eq] at mem
      exact (Finset.mem_sort _).mp mem
    · intro mem
      refine ⟨_, mem_presence.mpr ⟨?_, rfl⟩, (Finset.mem_sort _).mpr mem⟩
      by_contra absent
      rw [members_of_lookup_none (Finmap.lookup_eq_none.mpr absent)] at mem
      contradiction
  · have keys : topics.presence.map Prod.fst = topics.keys.sort := by
      simp [presence, Function.comp_def]
    rw [keys]
    exact (Finset.sortedLT_sort _).pairwise
  · intro listed mem
    obtain ⟨present, eq⟩ := mem_presence.mp mem
    obtain ⟨members, found⟩ := Finmap.mem_iff.mp present
    rw [eq, members_of_lookup found]
    refine ⟨fun empty => inhabited listed.1 ?_, (Finset.sortedLT_sort _).pairwise⟩
    have none : members = ∅ := by
      rw [← Finset.sort_toFinset members (· ≤ ·), empty, List.toFinset_nil]
    rw [found, none]
  · exact connections_eq topics

end Topics

/-! ### What arrives -/

/-- The connections that a call is still to send to. -/
def Call.pending : Call → List ConnId
  | .publishing _ _ rest _ | .emitting _ _ _ rest _ | .killing _ rest _ => rest
  | .unmade | .returned _ => []

def Purpose.message : Purpose → Outbound
  | .text _ body => .text body
  | .close reason => .close reason

/-- One call has returned before another begins. -/
def Precedes (h : List Entry) (first second : Nat) : Prop :=
  ∃ before e after begun, h = before ++ e :: after ∧ e.1.begun = some begun ∧
    begun.ticket = second ∧ ∃ count, .returned count ∈ log first before

/-- What has arrived at the connection is what a call sends that has found the connection among the
members of its topic. -/
def Sent (h : List Entry) (conn : ConnId) (ticket : Nat) (m : Outbound) : Prop :=
  ∃ before e after begun, h = before ++ e :: after ∧ e.1.begun = some begun ∧
    begun.ticket = ticket ∧ begun.purpose.message = m ∧ IsMember before begun.topic conn ∧
    some conn ≠ begun.from_

theorem Stage.pending {purpose : Purpose} {order : List ConnId} {log : List Output} {call : Call}
    (stage : Stage purpose order log call) : call.pending <:+ order := by
  cases call with
  | unmade => exact stage.elim
  | publishing | killing =>
    obtain ⟨-, sent, -, all, -⟩ := stage
    exact ⟨_, all⟩
  | emitting topic body conn rest delivered =>
    obtain ⟨-, sent, -, all, -⟩ := stage
    exact ⟨sent.map Prod.fst ++ [conn], by simpa [Call.pending] using all⟩
  | returned => exact List.nil_suffix

theorem not_returned_mem_delivery {purpose : Purpose} {sent : List (ConnId × Bool)} {count : Nat} :
    .returned count ∉ sent.flatMap purpose.delivery := by
  intro mem
  obtain ⟨⟨conn, ok⟩, -, mem⟩ := List.mem_flatMap.mp mem
  cases purpose <;> cases ok <;> simp [Purpose.delivery] at mem

/-- A call that has shown what it returns has returned. -/
theorem Stage.returned {purpose : Purpose} {order : List ConnId} {log : List Output} {call : Call}
    {count : Nat} (stage : Stage purpose order log call) (shown : .returned count ∈ log) :
    call = .returned count := by
  cases call with
  | unmade => exact stage.elim
  | publishing | killing =>
    obtain ⟨-, sent, rfl, -⟩ := stage
    exact absurd shown not_returned_mem_delivery
  | emitting =>
    obtain ⟨-, sent, rfl, -⟩ := stage
    simp only [List.mem_append, List.mem_singleton, reduceCtorEq, or_false] at shown
    exact absurd shown not_returned_mem_delivery
  | returned =>
    obtain ⟨sent, rfl, -⟩ := stage
    rcases List.mem_append.mp shown with shown | shown
    · exact absurd shown not_returned_mem_delivery
    · cases List.mem_singleton.mp shown
      rfl

/-- A send goes to the first of the connections left, and succeeds if the receiver is there. -/
theorem Does.sent {s t : System} {ticket : Nat} {conn : ConnId} {m : Outbound} {ok : Bool}
    {purpose : Purpose} {order : List ConnId} {log : List Output}
    (does : Does s (.proceed ticket) (.sent conn m ok) t)
    (stage : Stage purpose order log (s.calls ticket)) :
    m = purpose.message ∧ ok = (s.channels conn).receiving ∧
      (s.calls ticket).pending = conn :: (t.calls ticket).pending := by
  cases does with
  | deliver _ topic body _ rest delivered at_ receiving =>
    rw [at_] at stage ⊢
    obtain ⟨rfl, -⟩ := stage
    exact ⟨rfl, receiving.symm, by simp [System.setCall, Call.pending]⟩
  | skip _ topic body _ rest delivered at_ closed =>
    rw [at_] at stage ⊢
    obtain ⟨rfl, -⟩ := stage
    exact ⟨rfl, closed.symm, by simp [System.setCall, Call.pending]⟩
  | close _ reason _ rest closed at_ =>
    rw [at_] at stage ⊢
    obtain ⟨rfl, -⟩ := stage
    exact ⟨rfl, rfl, by simp [System.setCall, Call.pending]⟩

/-- Only a call that goes on sends. -/
theorem Does.proceeds {s t : System} {action : Action} {conn : ConnId} {m : Outbound} {ok : Bool}
    (does : Does s action (.sent conn m ok) t) : ∃ ticket, action = .proceed ticket := by
  cases does <;> exact ⟨_, rfl⟩

theorem Does.pending {s t : System} {ticket : Nat} {out : Output}
    (does : Does s (.proceed ticket) out t) :
    (t.calls ticket).pending <:+ (s.calls ticket).pending := by
  cases does with
  | answer => simp [System.setCall, Call.pending]
  | deliver _ _ _ _ _ _ at_ | skip _ _ _ _ _ _ at_ | emit _ _ _ _ _ _ at_
  | close _ _ _ _ _ at_ => simp [System.setCall, Call.pending, at_]

theorem arrivals_singleton (conn : ConnId) (e : Entry) :
    arrivals conn [e] = [] ∨ ∃ ticket m, e = (.proceed ticket, .sent conn m true) ∧
      arrivals conn [e] = [(ticket, m)] := by
  obtain ⟨action, out⟩ := e
  cases action with
  | proceed ticket =>
    cases out with
    | sent other m ok =>
      cases ok with
      | true =>
        by_cases same : other = conn
        · subst same
          exact .inr ⟨ticket, m, rfl, by simp [arrivals]⟩
        · exact .inl (by simp [arrivals, same])
      | false => exact .inl rfl
    | _ => exact .inl rfl
  | _ => exact .inl rfl

/-- What has arrived at a connection after a history: each call once, and those that were made one
after the other in their order. -/
structure ArrivalsInv (h : List Entry) (s : System) (conn : ConnId) : Prop where
  once : ((arrivals conn h).map Prod.fst).Nodup
  passed : ∀ ticket ∈ (arrivals conn h).map Prod.fst,
    s.calls ticket ≠ .unmade ∧ conn ∉ (s.calls ticket).pending
  sent : ∀ a ∈ arrivals conn h, Sent h conn a.1 a.2
  ordered : ((arrivals conn h).map Prod.fst).Pairwise fun first second => ¬ Precedes h second first

theorem ArrivalsInv.new (conn : ConnId) : ArrivalsInv [] .new conn := by
  constructor <;> simp [arrivals]

section ArrivalsStep

variable {h : List Entry} {s t : System} {conn : ConnId} {action : Action} {out : Output}

theorem Sent.append {e : Entry} {ticket : Nat} {m : Outbound} (sent : Sent h conn ticket m) :
    Sent (h ++ [e]) conn ticket m := by
  obtain ⟨before, begins, after, begun, rfl, rest⟩ := sent
  exact ⟨before, begins, after ++ [e], begun, by simp, rest⟩

/-- What precedes a call that has been made preceded it before. -/
theorem Precedes.of_append (does : Does s action out t) {first second : Nat}
    (made : s.calls second ≠ .unmade) (precedes : Precedes (h ++ [(action, out)]) first second) :
    Precedes h first second := by
  obtain ⟨before, e, after, begun, eq, begins, rfl, returned⟩ := precedes
  rcases List.eq_nil_or_concat after with rfl | ⟨after, last, rfl⟩
  · obtain ⟨-, same⟩ := List.append_inj' eq rfl
    cases same
    exact absurd (does.begun begins).2.1 made
  · rw [List.concat_eq_append, ← List.cons_append, ← List.append_assoc] at eq
    exact ⟨before, e, after, begun, (List.append_inj' eq rfl).1, begins, rfl, returned⟩

/-- A call that is still to send something precedes none. -/
theorem CallsInv.not_precedes (calls : CallsInv h s) {first second : Nat}
    (pending : (s.calls first).pending ≠ []) : ¬ Precedes h first second := by
  rintro ⟨before, e, after, begun, rfl, -, -, count, returned⟩
  have made : s.calls first ≠ .unmade := by
    intro unmade
    rw [unmade] at pending
    exact pending rfl
  obtain ⟨before', e', after', begun', eq, begins', rfl⟩ := calls.origin first made
  obtain ⟨-, -, stage⟩ := calls.begun before' e' after' eq begun' begins'
  have answered : s.calls begun'.ticket = .returned count := stage.returned (by
    rw [log_append]
    exact List.mem_append_left _ returned)
  rw [answered] at pending
  exact pending rfl

/-- What has arrived stays past: its calls do not send to the connection again. -/
theorem ArrivalsInv.still_passed (inv : ArrivalsInv h s conn) (does : Does s action out t) :
    ∀ ticket ∈ (arrivals conn h).map Prod.fst,
      t.calls ticket ≠ .unmade ∧ conn ∉ (t.calls ticket).pending := by
  intro ticket mem
  obtain ⟨made, past⟩ := inv.passed ticket mem
  by_cases own : action.ticket = some ticket
  · rcases Action.ticket_eq_some own with ⟨begun, begins, rfl⟩ | rfl
    · exact absurd (does.begun begins).2.1 made
    · exact ⟨does.made.2, fun later => past (does.pending.subset later)⟩
  · rw [does.calls_ne own]
    exact ⟨made, past⟩

/-- What has arrived stays in order. -/
theorem ArrivalsInv.still_ordered (inv : ArrivalsInv h s conn) (does : Does s action out t) :
    ((arrivals conn h).map Prod.fst).Pairwise fun first second =>
      ¬ Precedes (h ++ [(action, out)]) second first :=
  inv.ordered.imp_of_mem fun mem _ ordered precedes =>
    ordered (precedes.of_append does (inv.passed _ mem).1)

theorem ArrivalsInv.step (inv : ArrivalsInv h s conn) (calls : CallsInv h s)
    (does : Does s action out t) : ArrivalsInv (h ++ [(action, out)]) t conn := by
  have passed := inv.still_passed does
  have ordered := inv.still_ordered does
  rcases arrivals_singleton conn (action, out) with none | ⟨ticket, m, eq, arrives⟩
  · have same : arrivals conn (h ++ [(action, out)]) = arrivals conn h := by
      rw [arrivals_append, none, List.append_nil]
    constructor
    · rw [same]
      exact inv.once
    · rw [same]
      exact passed
    · rw [same]
      exact fun a mem => (inv.sent a mem).append
    · rw [same]
      exact ordered
  · cases eq
    obtain ⟨before, e, after, begun, eq, begins, rfl⟩ := calls.origin ticket does.made.1
    obtain ⟨once, order, stage⟩ := calls.begun before e after eq begun begins
    obtain ⟨rfl, -, pending⟩ := does.sent stage
    have awaits : conn ∈ (s.calls begun.ticket).pending := by simp [pending]
    have later : conn ∉ (t.calls begun.ticket).pending := by
      have distinct := once.sublist stage.pending.sublist
      rw [pending] at distinct
      exact (List.nodup_cons.mp distinct).1
    have unseen : begun.ticket ∉ (arrivals conn h).map Prod.fst := fun seen =>
      (inv.passed _ seen).2 awaits
    have tickets : (arrivals conn (h ++ [(.proceed begun.ticket,
        .sent conn begun.purpose.message true)])).map Prod.fst =
          (arrivals conn h).map Prod.fst ++ [begun.ticket] := by
      rw [arrivals_append, arrives, List.map_append, List.map_singleton]
    constructor
    · rw [tickets]
      exact List.nodup_append.mpr ⟨inv.once, by simp, fun ticket seen other last => by
        rintro rfl
        exact unseen (List.mem_singleton.mp last ▸ seen)⟩
    · rw [tickets]
      intro ticket mem
      rcases List.mem_append.mp mem with old | new
      · exact passed ticket old
      · rw [List.mem_singleton.mp new]
        exact ⟨does.made.2, later⟩
    · rw [arrivals_append, arrives]
      intro a mem
      rcases List.mem_append.mp mem with old | new
      · exact (inv.sent a old).append
      · rw [List.mem_singleton.mp new]
        obtain ⟨member, other⟩ := (order conn).mp (stage.pending.subset awaits)
        exact Sent.append ⟨before, e, after, begun, eq, begins, rfl, rfl, member, other⟩
    · rw [tickets]
      refine List.pairwise_append.mpr ⟨ordered, by simp, fun first seen second last precedes => ?_⟩
      rw [List.mem_singleton.mp last] at precedes
      exact calls.not_precedes (by simp [pending])
        (precedes.of_append does (inv.passed first seen).1)

end ArrivalsStep

/-! ### Runs -/

/-- What holds of the hub after a history. -/
structure HubInv (h : List Entry) (s : System) : Prop where
  members : MembersInv h s
  calls : CallsInv h s
  channels : ∀ conn, ChannelInv h s conn
  arrivals : ∀ conn, ArrivalsInv h s conn

theorem HubInv.new : HubInv [] .new := ⟨.new, .new, .new, .new⟩

theorem HubInv.step {h : List Entry} {s t : System} {action : Action} {out : Output}
    (inv : HubInv h s) (does : Does s action out t) : HubInv (h ++ [(action, out)]) t :=
  ⟨inv.members.step does, inv.calls.step inv.members does,
    fun conn => (inv.channels conn).step does,
    fun conn => (inv.arrivals conn).step inv.calls does⟩

theorem HubInv.of_run {actions : List Action} {h : List Entry} {s : System}
    (ran : run Ws.step .new actions = some (h, s)) : HubInv h s :=
  run_invariant ran .new fun _ _ _ _ _ inv taken => inv.step (.of_step taken)

/-- How far a call of the history has come that has sent to these connections: they were in the
topic when it looked, other than the one that its frame is from, and it shows each send, for a
publish with an event after each that succeeds, and at the end how many have. -/
structure FanOut (h before : List Entry) (begun : Begun) (sent : List (ConnId × Bool)) : Prop where
  once : (sent.map Prod.fst).Nodup
  targets : ∀ conn ∈ sent.map Prod.fst, IsMember before begun.topic conn ∧ some conn ≠ begun.from_
  shown : log begun.ticket h <+:
    sent.flatMap begun.purpose.delivery ++ [.returned (succeeded sent).length]
  returned : ∀ count, .returned count ∈ log begun.ticket h → log begun.ticket h =
    sent.flatMap begun.purpose.delivery ++ [.returned (succeeded sent).length]
  reached : ∀ count, .returned count ∈ log begun.ticket h →
    ∀ conn, IsMember before begun.topic conn → some conn ≠ begun.from_ → ∃ past ok later,
      h = past ++ (.proceed begun.ticket, .sent conn begun.purpose.message ok) :: later

/-- What arrives at a connection: each call once, that has found it in the one topic that it joins,
and after all that was sent by calls which had returned before. -/
structure Arrives (h : List Entry) (conn : ConnId) : Prop where
  once : ((arrivals conn h).map Prod.fst).Nodup
  sent : ∀ a ∈ arrivals conn h, Sent h conn a.1 a.2
  topic : ∀ topic topic', Joined h topic conn → Joined h topic' conn → topic = topic'
  ordered : ((arrivals conn h).map Prod.fst).Pairwise fun first second => ¬ Precedes h second first

/-! ### Calls go on -/

/-- The steps that a call is still to take. -/
def Call.rank : Call → Nat
  | .unmade | .returned _ => 0
  | .publishing _ _ rest _ => 2 * rest.length + 1
  | .emitting _ _ _ rest _ => 2 * rest.length + 2
  | .killing _ rest _ => rest.length + 1

/-- A call that has begun goes on to its return: until then it has a step to take, each of which is
one less to take, and no step of others counts. -/
structure GoesOn (h : List Entry) (s : System) (ticket : Nat) : Prop where
  enabled : (∀ count, .returned count ∉ log ticket h) →
    ∃ out t, step s (.proceed ticket) = some (out, t)
  lowers : ∀ out t, step s (.proceed ticket) = some (out, t) →
    (t.calls ticket).rank < (s.calls ticket).rank
  keeps : ∀ action out t, step s action = some (out, t) → action ≠ .proceed ticket →
    (t.calls ticket).rank = (s.calls ticket).rank

/-- A step of a call is one less to take. -/
theorem Does.rank {s t : System} {ticket : Nat} {out : Output}
    (does : Does s (.proceed ticket) out t) : (t.calls ticket).rank < (s.calls ticket).rank := by
  cases does with
  | answer _ count at_ =>
    rcases at_ with ⟨_, _, at_⟩ | ⟨_, at_⟩ <;> simp [System.setCall, Call.rank, at_]
  | deliver _ _ _ _ _ _ at_ | skip _ _ _ _ _ _ at_ | emit _ _ _ _ _ _ at_
  | close _ _ _ _ _ at_ =>
    simp only [System.setCall, Function.update_self, Call.rank, at_, List.length_cons]
    omega

/-- A call that has been made and has not returned has a step to take. -/
theorem proceed_eq_some {s : System} {ticket : Nat} (made : s.calls ticket ≠ .unmade)
    (runs : ∀ count, s.calls ticket ≠ .returned count) :
    ∃ out t, proceed s ticket = some (out, t) := by
  unfold proceed
  split
  case h_1 unmade => exact absurd unmade made
  case h_2 count returned => exact absurd returned (runs count)
  all_goals exact ⟨_, _, rfl⟩

theorem CallsInv.goesOn {h before after : List Entry} {s : System} {e : Entry} {ticket : Nat}
    (inv : CallsInv h s) (eq : h = before ++ e :: after) (own : e.1.ticket = some ticket) :
    GoesOn h s ticket := by
  have made : s.calls ticket ≠ .unmade := fun unmade =>
    (inv.unmade ticket).mp unmade e (eq ▸ List.mem_append_right _ List.mem_cons_self) own
  refine ⟨fun unreturned => ?_, fun out t taken => (Does.of_step taken).rank,
    fun action out t taken other => ?_⟩
  · refine proceed_eq_some made fun count returned => unreturned count ?_
    obtain ⟨before, e, after, begun, rfl, begins, rfl⟩ := inv.origin ticket made
    have stage := (inv.begun before e after rfl begun begins).2.2
    rw [returned] at stage
    obtain ⟨sent, shown, -, -⟩ := stage
    rw [shown]
    exact List.mem_append_right _ (List.mem_singleton_self _)
  · have does := Does.of_step taken
    by_cases own : action.ticket = some ticket
    · rcases Action.ticket_eq_some own with ⟨begun, begins, rfl⟩ | same
      · exact absurd (does.begun begins).2.1 made
      · exact absurd same other
    · rw [does.calls_ne own]

/-- What holds of the hub after any history. -/
structure HubExact (h : List Entry) (s : System) : Prop where
  presence : s.topics.Listed (IsMember h)
  publishes : ∀ before ticket topic body from_ order out after,
    h = before ++ (.publish ticket topic body from_ order, out) :: after →
      ∃ sent, FanOut h before ⟨ticket, .text topic body, topic, from_, order⟩ sent
  succeeds : ∀ past ticket conn m ok later,
    h = past ++ (.proceed ticket, .sent conn m ok) :: later → (ok = true ↔ ¬ Dropped past conn)
  channel : ∀ conn, (s.channels conn).receiving = true →
    (arrivals conn h).map Prod.snd = reads conn h ++ (s.channels conn).queue
  arrives : ∀ conn, Arrives h conn
  goesOn : ∀ before action out after ticket, h = before ++ (action, out) :: after →
    action.ticket = some ticket → GoesOn h s ticket

section Exact

variable {actions : List Action} {h : List Entry} {s : System}

theorem sent_of_mem_log (ran : run step .new actions = some (h, s)) {ticket : Nat} {conn : ConnId}
    {m : Outbound} {ok : Bool} (mem : .sent conn m ok ∈ log ticket h) :
    ∃ past later, h = past ++ (.proceed ticket, .sent conn m ok) :: later := by
  obtain ⟨shown, -⟩ := List.mem_filter.mp mem
  obtain ⟨⟨action, out⟩, listed, rfl⟩ := List.mem_map.mp shown
  obtain ⟨here, own⟩ := List.mem_filter.mp listed
  obtain ⟨past, later, rfl⟩ := List.append_of_mem here
  obtain ⟨actions', t, u, -, taken⟩ := run_split ran
  obtain ⟨ticket', rfl⟩ := (Does.of_step taken).proceeds
  have same : ticket' = ticket := by simpa [Action.ticket] using own
  exact ⟨past, later, by rw [same]⟩

theorem fanOut (ran : run step .new actions = some (h, s)) {before after : List Entry} {e : Entry}
    {begun : Begun} (eq : h = before ++ e :: after) (begins : e.1.begun = some begun) :
    ∃ sent, FanOut h before begun sent := by
  obtain ⟨once, all, stage⟩ := (HubInv.of_run ran).calls.begun before e after eq begun begins
  have unreturned {log : List Output} {sent : List (ConnId × Bool)}
      (shown : log <+: sent.flatMap begun.purpose.delivery) (count : Nat) :
      .returned count ∉ log := fun mem => not_returned_mem_delivery (shown.subset mem)
  have started {sent : List (ConnId × Bool)} (sub : sent.map Prod.fst <+: begun.order)
      (shown : log begun.ticket h <+: sent.flatMap begun.purpose.delivery) :
      FanOut h before begun sent := by
    constructor
    · exact once.sublist sub.sublist
    · exact fun conn mem => (all conn).mp (sub.subset mem)
    · exact shown.trans (List.prefix_append _ _)
    · exact fun count mem => absurd mem (unreturned shown count)
    · exact fun count mem => absurd mem (unreturned shown count)
  cases call : s.calls begun.ticket with
  | unmade =>
    rw [call] at stage
    exact stage.elim
  | publishing | killing =>
    rw [call] at stage
    obtain ⟨-, sent, shown, sub, -⟩ := stage
    exact ⟨sent, started ⟨_, sub⟩ (by rw [shown])⟩
  | emitting topic body conn rest delivered =>
    rw [call] at stage
    obtain ⟨same, sent, shown, sub, -⟩ := stage
    refine ⟨sent ++ [(conn, true)], started ⟨rest, by simpa using sub⟩ ?_⟩
    rw [shown, List.flatMap_append, same]
    exact (List.prefix_append_right_inj _).mpr ⟨[_], rfl⟩
  | returned count =>
    rw [call] at stage
    obtain ⟨sent, shown, same, rfl⟩ := stage
    refine ⟨sent, same ▸ once, fun conn mem => (all conn).mp (same ▸ mem), by rw [shown],
      fun _ _ => shown, ?_⟩
    intro count mem conn member other
    obtain ⟨⟨conn', ok⟩, mem, rfl⟩ := List.mem_map.mp (same ▸ (all conn).mpr ⟨member, other⟩)
    have sends : .sent conn' begun.purpose.message ok ∈ begun.purpose.delivery (conn', ok) := by
      cases begun.purpose <;> cases ok <;> simp [Purpose.delivery, Purpose.message]
    have logged : .sent conn' begun.purpose.message ok ∈ log begun.ticket h :=
      shown ▸ List.mem_append_left _ (List.mem_flatMap.mpr ⟨_, mem, sends⟩)
    obtain ⟨past, later, eq⟩ := sent_of_mem_log ran logged
    exact ⟨past, ok, later, eq⟩

/-- A send succeeds exactly if the receiver has not been dropped. -/
theorem sent_iff_not_dropped (ran : run step .new actions = some (h, s)) {past later : List Entry}
    {ticket : Nat} {conn : ConnId} {m : Outbound} {ok : Bool}
    (eq : h = past ++ (.proceed ticket, .sent conn m ok) :: later) :
    ok = true ↔ ¬ Dropped past conn := by
  subst eq
  obtain ⟨actions', t, u, ran', taken⟩ := run_split ran
  have does := Does.of_step taken
  have inv := HubInv.of_run ran'
  obtain ⟨before, e, after, begun, eq, begins, rfl⟩ := inv.calls.origin ticket does.made.1
  obtain ⟨once, order, stage⟩ := inv.calls.begun before e after eq begun begins
  obtain ⟨-, rfl, pending⟩ := does.sent stage
  obtain ⟨member, -⟩ := (order conn).mp (stage.pending.subset (by simp [pending]))
  obtain ⟨early, joins, late, rfl, joined, -⟩ := member
  have drawn := (inv.channels conn).drawn.mpr ⟨begun.topic, joins, by simp [eq], joined⟩
  rw [(inv.channels conn).receiving, and_iff_right drawn]

theorem hub_exact (ran : run step .new actions = some (h, s)) : HubExact h s := by
  have inv := HubInv.of_run ran
  constructor
  · exact inv.members.inhabited.listed inv.members.members
  · exact fun before ticket topic body from_ order out after eq => fanOut ran eq rfl
  · exact fun past ticket conn m ok later eq => sent_iff_not_dropped ran eq
  · exact fun conn => (inv.channels conn).arrived
  · intro conn
    obtain ⟨once, -, sent, ordered⟩ := inv.arrivals conn
    exact ⟨once, sent, (inv.channels conn).once, ordered⟩
  · exact fun before action out after ticket eq own => inv.calls.goesOn eq own

end Exact

/-- A publish and a kill at once, on a topic of two connections, one of which leaves and drops its
receiver in between. -/
def overlapping : List Action :=
  let a : ConnId := ⟨.fill 16 1⟩
  let b : ConnId := ⟨.fill 16 2⟩
  [.join "demo" a, .join "demo" b, .publish 0 "demo" "hi" none [b, a], .proceed 0,
    .kill 1 "demo" "server closed" [a, b], .proceed 1, .drop b, .leave "demo" b, .proceed 0,
    .proceed 0, .proceed 1, .proceed 0, .proceed 0, .proceed 1, .recv a, .recv a]

def overlappingHistory : List Entry := (history step .new overlapping).getD []

/-- The publish reaches both connections, and the kill only the one that is still there. -/
theorem hub_exact_overlapping : ∃ s, run step .new overlapping = some (overlappingHistory, s) ∧
    (log 0 overlappingHistory).getLast? = some (.returned 2) ∧
    (log 1 overlappingHistory).getLast? = some (.returned 1) ∧ HubExact overlappingHistory s := by
  have shown : history step .new overlapping = some overlappingHistory := by decide +kernel
  obtain ⟨s, ran⟩ := history_eq_some.mp shown
  exact ⟨s, ran, by decide +kernel, by decide +kernel, hub_exact ran⟩

end Servr.Ws
