import Servr.Ws.Kill

/-! What the clients say, over every run of the server: the calls that relay it are made one after
the other, in the order in which it was said. -/

namespace Servr.Ws

open Interleaving

/-! ### What is said and what is relayed -/

/-- The texts that the client of a connection has sent. -/
def said (conn : ConnId) (h : List Event) : List String :=
  h.filterMap fun e =>
    match e.1 with
    | .inbound other (.text body) => if other = conn then some body else none
    | _ => none

/-- What the handlers have published, and the reasons that they have killed for. -/
def injected (h : List Event) : List Outbound :=
  h.filterMap fun e =>
    match e.1 with
    | .publish _ _ body _ => some (.text body)
    | .kill _ _ reason _ => some (.close reason)
    | _ => none

/-- The calls that have begun. -/
def begins (h : List Entry) : List Begun := h.filterMap fun e => e.1.begun

/-- The calls that relay for a connection, or for none. -/
def madeFor (who : Option ConnId) (h : List Entry) : List Begun :=
  (begins h).filter fun b => b.from_ = who

theorem said_append (conn : ConnId) (h k : List Event) :
    said conn (h ++ k) = said conn h ++ said conn k :=
  List.filterMap_append

theorem injected_append (h k : List Event) : injected (h ++ k) = injected h ++ injected k :=
  List.filterMap_append

theorem begins_append (h k : List Entry) : begins (h ++ k) = begins h ++ begins k :=
  List.filterMap_append

theorem madeFor_append (who : Option ConnId) (h k : List Entry) :
    madeFor who (h ++ k) = madeFor who h ++ madeFor who k := by
  rw [madeFor, begins_append, List.filter_append]
  rfl

theorem mem_madeFor {who : Option ConnId} {h : List Entry} {b : Begun} :
    b ∈ madeFor who h ↔ b ∈ begins h ∧ b.from_ = who := by
  simp [madeFor]

theorem mem_begins {h : List Entry} {b : Begun} :
    b ∈ begins h ↔ ∃ before e after, h = before ++ e :: after ∧ e.1.begun = some b := by
  constructor
  · intro mem
    obtain ⟨e, here, begun⟩ := List.mem_filterMap.mp mem
    obtain ⟨before, after, eq⟩ := List.append_of_mem here
    exact ⟨before, e, after, eq, begun⟩
  · rintro ⟨before, e, after, rfl, begun⟩
    exact List.mem_filterMap.mpr ⟨e, by simp, begun⟩

/-! ### One call for a ticket -/

theorem begins_singleton (e : Entry) : begins [e] = e.1.begun.toList := by
  cases found : e.1.begun <;> simp [begins, found]

theorem Action.ticket_of_begun {action : Action} {b : Begun} (begun : action.begun = some b) :
    action.ticket = some b.ticket := by
  cases action <;> cases begun <;> rfl

/-- Each ticket is given to one call. -/
theorem nodup_begins {actions : List Action} {h : List Entry} {s : System}
    (ran : run step .new actions = some (h, s)) : ((begins h).map (·.ticket)).Nodup := by
  refine (run_invariant (P := fun h s => HubInv h s ∧ ((begins h).map (·.ticket)).Nodup) ran
    ⟨.new, List.nodup_nil⟩ ?_).2
  rintro h s action out t ⟨inv, once⟩ taken
  have does := Does.of_step taken
  refine ⟨inv.step does, ?_⟩
  rw [begins_append, begins_singleton, List.map_append]
  cases begun : action.begun with
  | none => simpa using once
  | some b =>
    obtain ⟨own, unmade, -⟩ := does.begun begun
    refine List.nodup_append.mpr ⟨once, by simp, ?_⟩
    rintro ticket old ticket' new rfl
    obtain ⟨b', mem, rfl⟩ := List.mem_map.mp old
    obtain ⟨before, e, after, rfl, begun'⟩ := mem_begins.mp mem
    have same : b'.ticket = b.ticket := by simpa using new
    refine (inv.calls.unmade b.ticket).mp unmade e (by simp) ?_
    rw [← same]
    exact Action.ticket_of_begun begun'

section Hub

variable {actions : List Action} {h : List Entry} {s : System}

theorem eq_of_ticket (ran : run step .new actions = some (h, s)) {b b' : Begun}
    (mem : b ∈ begins h) (mem' : b' ∈ begins h) (same : b.ticket = b'.ticket) : b = b' :=
  List.inj_on_of_nodup_map (nodup_begins ran) mem mem' same

theorem nodup_madeFor (ran : run step .new actions = some (h, s)) (who : Option ConnId) :
    ((madeFor who h).map (·.ticket)).Nodup :=
  (nodup_begins ran).sublist (List.filter_sublist.map _)

theorem Precedes.append {first second : Nat} (precedes : Precedes h first second)
    (k : List Entry) : Precedes (h ++ k) first second := by
  obtain ⟨before, e, after, b, rfl, rest⟩ := precedes
  exact ⟨before, e, after ++ k, b, by simp, rest⟩

end Hub

/-- A call that has returned has shown it. -/
theorem CallsInv.exists_returned {h : List Entry} {s : System} (calls : CallsInv h s)
    {ticket count : Nat} (returned : s.calls ticket = .returned count) :
    ∃ count, .returned count ∈ log ticket h := by
  obtain ⟨before, e, after, b, eq, begun, rfl⟩ := calls.origin ticket (by simp [returned])
  obtain ⟨-, -, stage⟩ := calls.begun before e after eq b begun
  rw [returned] at stage
  obtain ⟨sent, shown, -⟩ := stage
  exact ⟨count, by simp [shown]⟩

/-! ### What a client says is relayed in order -/

/-- What the client has said and the task has not published yet. -/
def Task.unrelayed : Task → List String
  | .relaying _ body => [body]
  | _ => []

/-- The topic that a task serves. -/
def Task.topic : Task → Option String
  | .unserved => none
  | .selecting topic | .writing topic _ | .relaying topic _ | .publishing topic _
  | .closing topic _ | .finishing topic | .returning topic _ | .leaving topic _ => some topic
  | .ended _ => none

/-- What a client has said, against the calls that relay it: one after the other, each once the one
before has returned. -/
structure RelayInv (h : List Event) (s : Server) (conn : ConnId) : Prop where
  said : (said conn h).map .text = (madeFor (some conn) (hubHistory h)).map (·.purpose.message) ++
    (s.tasks conn).unrelayed.map .text
  joined : ∀ topic, (s.tasks conn).topic = some topic → Joined (hubHistory h) topic conn
  topics : ∀ b ∈ madeFor (some conn) (hubHistory h), Joined (hubHistory h) b.topic conn
  ordered : (madeFor (some conn) (hubHistory h)).Pairwise fun b b' =>
    Precedes (hubHistory h) b.ticket b'.ticket
  returned : ∀ b ∈ madeFor (some conn) (hubHistory h),
    (∃ count, .returned count ∈ log b.ticket (hubHistory h)) ∨
      ∃ topic, s.tasks conn = .publishing topic b.ticket

theorem RelayInv.new (conn : ConnId) : RelayInv [] .new conn := by
  constructor <;>
    simp [Ws.said, hubHistory, madeFor, begins, Server.new, Task.unrelayed, Task.topic]

section Steps

variable {h : List Event} {s t : Server} {move : Move} {shown : Shown} {conn : ConnId}

/-- A step in which the client says nothing and nothing is relayed for it. -/
theorem RelayInv.keep (inv : RelayInv h s conn) (silent : Ws.said conn [(move, shown)] = [])
    (made : madeFor (some conn) shown.hub.toList = [])
    (unrelayed : (t.tasks conn).unrelayed = (s.tasks conn).unrelayed)
    (joined : ∀ topic, (t.tasks conn).topic = some topic →
      Joined (hubHistory (h ++ [(move, shown)])) topic conn)
    (publishing : ∀ topic ticket, s.tasks conn = .publishing topic ticket →
      t.tasks conn = .publishing topic ticket ∨
        ∃ count, .returned count ∈ log ticket (hubHistory h)) :
    RelayInv (h ++ [(move, shown)]) t conn := by
  have same : madeFor (some conn) (hubHistory (h ++ [(move, shown)])) =
      madeFor (some conn) (hubHistory h) := by
    rw [hubHistory_append, hubHistory_singleton, madeFor_append, made, List.append_nil]
  have logged {ticket : Nat} (ended : ∃ count, .returned count ∈ log ticket (hubHistory h)) :
      ∃ count, .returned count ∈ log ticket (hubHistory (h ++ [(move, shown)])) := by
    obtain ⟨count, mem⟩ := ended
    rw [hubHistory_append, log_append]
    exact ⟨count, List.mem_append_left _ mem⟩
  constructor
  · rw [said_append, silent, List.append_nil, same, unrelayed]
    exact inv.said
  · exact joined
  · rw [same]
    intro b mem
    obtain ⟨e, here, joins⟩ := inv.topics b mem
    rw [hubHistory_append]
    exact ⟨e, List.mem_append_left _ here, joins⟩
  · rw [same, hubHistory_append]
    exact inv.ordered.imp fun precedes => precedes.append _
  · rw [same]
    intro b mem
    rcases inv.returned b mem with ended | ⟨topic, at_⟩
    · exact .inl (logged ended)
    · rcases publishing topic b.ticket at_ with still | ended
      · exact .inr ⟨topic, still⟩
      · exact .inl (logged ended)

theorem Server.inbound_text {body : String}
    (taken : s.step (.inbound conn (.text body)) = some (shown, t)) :
    ∃ topic, s.tasks conn = .selecting topic ∧
      t.tasks = Function.update s.tasks conn (.relaying topic body) ∧ shown.hub = none := by
  simp only [Server.step] at taken
  split at taken
  · rename_i topic at_
    simp only [Server.select] at taken
    split at taken
    · cases taken
      exact ⟨topic, at_, rfl, rfl⟩
    · contradiction
  · contradiction

/-- A step in which the client says a text. -/
theorem RelayInv.say (inv : RelayInv h s conn) {body : String}
    (taken : s.step (.inbound conn (.text body)) = some (shown, t)) :
    RelayInv (h ++ [(.inbound conn (.text body), shown)]) t conn := by
  obtain ⟨topic, at_, tasks, hub⟩ := Server.inbound_text taken
  have same : hubHistory (h ++ [(.inbound conn (.text body), shown)]) = hubHistory h := by
    rw [hubHistory_append, hubHistory_singleton, hub, Option.toList_none, List.append_nil]
  have silent := inv.said
  rw [at_] at silent
  constructor
  · rw [same, tasks, Function.update_self, said_append, List.map_append, silent]
    simp [Ws.said, Task.unrelayed]
  · rw [same, tasks, Function.update_self]
    rintro topic' ⟨⟩
    exact inv.joined topic (by rw [at_, Task.topic])
  · rw [same]
    exact inv.topics
  · rw [same]
    exact inv.ordered
  · rw [same]
    intro b mem
    refine .inl ((inv.returned b mem).resolve_right ?_)
    rintro ⟨topic', at_'⟩
    rw [at_] at at_'
    contradiction

/-- A step that begins to relay the text. -/
theorem RelayInv.relay (inv : RelayInv h s conn) {topic body : String} {ticket : Nat}
    {order : List ConnId} {out : Output} (at_ : s.tasks conn = .relaying topic body)
    (hub : shown.hub = some (.publish ticket topic body (some conn) order, out))
    (after : t.tasks conn = .publishing topic ticket) (silent : Ws.said conn [(move, shown)] = []) :
    RelayInv (h ++ [(move, shown)]) t conn := by
  have same : hubHistory (h ++ [(move, shown)]) =
      hubHistory h ++ [(.publish ticket topic body (some conn) order, out)] := by
    rw [hubHistory_append, hubHistory_singleton, hub, Option.toList_some]
  have made : madeFor (some conn) (hubHistory (h ++ [(move, shown)])) =
      madeFor (some conn) (hubHistory h) ++
        [⟨ticket, .text topic body, topic, some conn, order⟩] := by
    rw [same, madeFor_append]
    simp [madeFor, begins, Action.begun]
  have joined : Joined (hubHistory (h ++ [(move, shown)])) topic conn := by
    obtain ⟨e, mem, joins⟩ := inv.joined topic (by rw [at_, Task.topic])
    rw [same]
    exact ⟨e, List.mem_append_left _ mem, joins⟩
  have returned (b : Begun) (mem : b ∈ madeFor (some conn) (hubHistory h)) :
      ∃ count, .returned count ∈ log b.ticket (hubHistory h) := by
    refine (inv.returned b mem).resolve_right ?_
    rintro ⟨topic', at_'⟩
    rw [at_] at at_'
    contradiction
  constructor
  · rw [said_append, silent, List.append_nil, inv.said, made, at_, after]
    simp [Task.unrelayed, Purpose.message]
  · rw [after]
    rintro topic' ⟨⟩
    exact joined
  · rw [made]
    intro b mem
    rcases List.mem_append.mp mem with old | new
    · obtain ⟨e, here, joins⟩ := inv.topics b old
      rw [same]
      exact ⟨e, List.mem_append_left _ here, joins⟩
    · rw [List.mem_singleton.mp new]
      exact joined
  · rw [made, same]
    refine List.pairwise_append.mpr ⟨inv.ordered.imp fun precedes => precedes.append _, by simp, ?_⟩
    intro b mem b' new
    rw [List.mem_singleton.mp new]
    exact ⟨hubHistory h, _, [], _, rfl, rfl, rfl, returned b mem⟩
  · rw [made, after]
    intro b mem
    rcases List.mem_append.mp mem with old | new
    · obtain ⟨count, ended⟩ := returned b old
      refine .inl ⟨count, ?_⟩
      rw [same, log_append]
      exact List.mem_append_left _ ended
    · rw [List.mem_singleton.mp new]
      exact .inr ⟨topic, rfl⟩

/-- A step of another kind leaves what the client has said. -/
theorem said_singleton (silent : ∀ body, move ≠ .inbound conn (.text body)) :
    Ws.said conn [(move, shown)] = [] := by
  cases move with
  | inbound other event =>
    cases event with
    | text body =>
      have ne : other ≠ conn := fun same => silent body (by rw [same])
      simp [Ws.said, ne]
    | _ => rfl
  | _ => rfl

theorem RelayInv.own (inv : RelayInv h s conn) (calls : CallsInv (hubHistory h) s.hub)
    (silent : Ws.said conn [(move, shown)] = []) {after : Task}
    (goes : Goes s conn move (s.tasks conn) shown.hub shown.sent after)
    (speaks : ∀ body, move ≠ .inbound conn (.text body)) (task : t.tasks conn = after) :
    RelayInv (h ++ [(move, shown)]) t conn := by
  have joined (topic : String) (before : (s.tasks conn).topic = some topic) :
      Joined (hubHistory (h ++ [(move, shown)])) topic conn := by
    obtain ⟨e, mem, joins⟩ := inv.joined topic before
    rw [hubHistory_append]
    exact ⟨e, List.mem_append_left _ mem, joins⟩
  generalize at_ : s.tasks conn = before at goes joined
  generalize hub : shown.hub = entry at goes
  generalize shown.sent = sent at goes
  cases goes with
  | relay topic body ticket order out => exact inv.relay at_ hub task silent
  | serve topic out =>
    refine inv.keep silent (by rw [hub]; rfl) (by rw [task, at_]; rfl) ?_ (by simp [at_])
    rw [task]
    rintro topic' ⟨⟩
    rw [hubHistory_append, hubHistory_singleton, hub]
    exact ⟨_, List.mem_append_right _ List.mem_cons_self, rfl⟩
  | came topic body => exact absurd rfl (speaks body)
  | relayed topic ticket count answered =>
    refine inv.keep silent (by rw [hub]; rfl) (by rw [task, at_]; rfl) (by rwa [task]) ?_
    rintro topic' ticket' eq
    cases at_.symm.trans eq
    exact .inr (calls.exists_returned answered)
  | recv topic out =>
    refine inv.keep silent (by rw [hub]; rfl) ?_ ?_ (by simp [at_])
    · rw [task, at_]
      unfold Server.received
      split <;> rfl
    · rw [task]
      unfold Server.received
      split <;> exact joined
  | leave topic closed out =>
    exact inv.keep silent (by rw [hub]; rfl) (by rw [task, at_]; rfl) (by simp [task, Task.topic])
      (by simp [at_])
  | wrote | unwritten | closed | unclosed | ignored | lost | finished | drop =>
    exact inv.keep silent (by rw [hub]; rfl) (by simp [task, at_, Task.unrelayed]) (by rwa [task])
      (by simp [at_])

theorem RelayInv.step (inv : RelayInv h s conn) (calls : CallsInv (hubHistory h) s.hub)
    (taken : s.step move = some (shown, t)) : RelayInv (h ++ [(move, shown)]) t conn := by
  by_cases speaks : ∃ body, move = .inbound conn (.text body)
  · obtain ⟨body, rfl⟩ := speaks
    exact inv.say taken
  · have silent : Ws.said conn [(move, shown)] = [] := said_singleton (not_exists.mp speaks)
    have elsewhere (tasks : t.tasks conn = s.tasks conn)
        (made : madeFor (some conn) shown.hub.toList = []) :
        RelayInv (h ++ [(move, shown)]) t conn := by
      refine inv.keep silent made (by rw [tasks]) ?_
        fun topic ticket at_ => .inl (by rw [tasks, at_])
      rw [tasks]
      intro topic before
      obtain ⟨e, mem, joins⟩ := inv.joined topic before
      rw [hubHistory_append]
      exact ⟨e, List.mem_append_left _ mem, joins⟩
    cases Server.Does.of_step taken with
    | handler action out handles hub sent taken tasks =>
      refine elsewhere (by rw [tasks]) ?_
      rw [hub]
      cases move <;> cases handles <;> rfl
    | task conn' after goes taken tasks =>
      by_cases same : conn = conn'
      · subst same
        exact inv.own calls silent goes (not_exists.mp speaks) (by rw [tasks, Function.update_self])
      · refine elsewhere (by rw [tasks, Function.update_of_ne same]) ?_
        generalize s.tasks conn' = before at goes
        generalize shown.hub = entry at goes
        generalize shown.sent = sent at goes
        cases goes with
        | relay => simp [madeFor, begins, Action.begun, Ne.symm same]
        | _ => rfl

end Steps

theorem RelayInv.of_run {moves : List Move} {h : List Event} {s : Server}
    (ran : run Server.step .new moves = some (h, s)) (conn : ConnId) : RelayInv h s conn :=
  (run_invariant (P := fun h s => ServerInv h s ∧ RelayInv h s conn) ran ⟨.new, .new conn⟩
    fun _ _ _ _ _ ⟨server, inv⟩ taken =>
      ⟨server.step (.of_step taken), inv.step server.hub.calls taken⟩).2

end Servr.Ws
