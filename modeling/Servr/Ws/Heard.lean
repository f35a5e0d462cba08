import Servr.Ws.Relay

/-! What the clients hear of each other: of what another one says, a part in the order in which it
was said, and once nothing is under way all that was said since the client joined. -/

namespace Servr.Ws

open Interleaving
open scoped List

/-! ### Who is heard -/

/-- The connection that a call relays for. -/
def speaker (h : List Entry) (ticket : Nat) : Option ConnId :=
  ((begins h).find? fun b => b.ticket = ticket).bind (·.from_)

/-- What the client of a connection has been sent, each with the connection that it was relayed
for. -/
def heard (conn : ConnId) (h : List Event) : List (Option ConnId × Outbound) :=
  ((arrivals conn (hubHistory h)).take (frames conn h).length).map fun a =>
    (speaker (hubHistory h) a.1, a.2)

def heardFrom (who : Option ConnId) (conn : ConnId) (h : List Event) : List Outbound :=
  ((heard conn h).filter fun m => m.1 = who).map Prod.snd

/-- The task is relaying what its client has said. -/
def Task.Relays : Task → Prop
  | .relaying _ _ | .publishing _ _ => True
  | _ => False

/-- What the client of a connection is sent: every frame is one that a call has sent, those relayed
for another connection are part of what its client has said, in its order, none is relayed for the
connection itself, and each of the rest is another one of those that the handlers have sent.  Once
all that has arrived at a connection is written, and another one has nothing to relay, the client
has been sent all that the other's has said since it joined, after the text, if any, that was to be
relayed just then. -/
structure RelayExact (h : List Event) (s : Server) (conn : ConnId) : Prop where
  frames : frames conn h = (heard conn h).map fun m => m.2.frame
  own : heardFrom (some conn) conn h = []
  ordered : ∀ other, heardFrom (some other) conn h <+ (said other h).map .text
  handlers : heardFrom none conn h <+~ injected h
  settled : ∀ before topic shown after other, h = before ++ (.serve topic conn, shown) :: after →
    (∀ e ∈ hubHistory after, ¬ Departs topic conn e) → other ≠ conn →
    Joined (hubHistory h) topic other → s.tasks conn = .selecting topic →
    (s.hub.channels conn).queue = [] → ¬ (s.tasks other).Relays →
      ∃ late, late <:+ said other before ∧ late.length ≤ 1 ∧
        heardFrom (some other) conn h = (late ++ said other after).map .text

theorem Task.Agrees.isPrefix {task : Task} {read : List Outbound} {sent : List Message}
    {failed : Prop} (agrees : task.Agrees read sent failed) : sent <+: read.map Outbound.frame := by
  have closing {past : List Outbound} {reason : String} (eq : read = past ++ [.close reason])
      (shown : sent = read.map Outbound.frame ∨ failed ∧ sent = past.map Outbound.frame) :
      sent <+: read.map Outbound.frame := by
    rcases shown with rfl | ⟨-, rfl⟩
    · exact List.prefix_rfl
    · rw [eq, List.map_append]
      exact List.prefix_append _ _
  cases task with
  | unserved => exact agrees.2 ▸ List.nil_prefix
  | selecting | relaying | publishing => exact agrees.2 ▸ List.prefix_rfl
  | writing | closing =>
    obtain ⟨past, -, rfl, rfl⟩ := agrees
    rw [List.map_append]
    exact List.prefix_append _ _
  | finishing =>
    obtain ⟨past, reason, -, eq, shown⟩ := agrees
    exact closing eq shown
  | returning _ closed | leaving _ closed | ended closed =>
    cases closed with
    | true =>
      obtain ⟨past, reason, -, eq, shown⟩ := agrees
      exact closing eq shown
    | false => exact agrees.2.2

section Runs

variable {moves : List Move} {h : List Event} {s : Server}

theorem frames_eq (ran : run Server.step .new moves = some (h, s)) (conn : ConnId) :
    frames conn h = (heard conn h).map fun m => m.2.frame := by
  have inv := ServerInv.of_run ran
  have begins : frames conn h <+:
      ((arrivals conn (hubHistory h)).map Prod.snd).map Outbound.frame :=
    (inv.tasks conn).agrees.isPrefix.trans ((inv.hub.channels conn).read.map _)
  rw [List.prefix_iff_eq_take.mp begins, ← List.map_take, ← List.map_take, heard, List.map_map,
    List.map_map]
  simp [Function.comp_def]

theorem speaker_eq {actions : List Action} {h : List Entry} {s : System}
    (ran : run step .new actions = some (h, s)) {b : Begun} (mem : b ∈ begins h) :
    speaker h b.ticket = b.from_ := by
  cases found : (begins h).find? fun b' => b'.ticket = b.ticket with
  | none => simpa using List.find?_eq_none.mp found b mem
  | some b' =>
    have same : b'.ticket = b.ticket := by simpa using List.find?_some found
    have listed := List.mem_of_find?_eq_some found
    rw [speaker, found, Option.bind_some, eq_of_ticket ran listed mem same]

/-- What arrives at a connection is what a call sends that is not made for it. -/
theorem madeFor_of_arrives {actions : List Action} {h : List Entry} {s : System}
    (ran : run step .new actions = some (h, s)) {conn : ConnId} {a : Nat × Outbound}
    (mem : a ∈ arrivals conn h) : speaker h a.1 ≠ some conn ∧
      ∃ b ∈ madeFor (speaker h a.1) h, a = (b.ticket, b.purpose.message) := by
  obtain ⟨before, e, after, b, eq, begun, ticket, message, -, other⟩ :=
    ((HubInv.of_run ran).arrivals conn).sent a mem
  have made : b ∈ begins h := mem_begins.mpr ⟨before, e, after, eq, begun⟩
  rw [← ticket, speaker_eq ran made]
  exact ⟨other.symm, b, mem_madeFor.mpr ⟨made, rfl⟩, Prod.ext ticket.symm message.symm⟩

/-- What has arrived of what was relayed for a connection. -/
def arrivedFrom (who : Option ConnId) (conn : ConnId) (h : List Entry) : List (Nat × Outbound) :=
  (arrivals conn h).filter fun a => speaker h a.1 = who

theorem heardFrom_eq (who : Option ConnId) (conn : ConnId) (h : List Event) :
    heardFrom who conn h = (((arrivals conn (hubHistory h)).take (frames conn h).length).filter
      fun a => speaker (hubHistory h) a.1 = who).map Prod.snd := by
  rw [heardFrom, heard, List.filter_map, List.map_map]
  rfl

theorem heardFrom_sublist (who : Option ConnId) (conn : ConnId) (h : List Event) :
    heardFrom who conn h <+ (arrivedFrom who conn (hubHistory h)).map Prod.snd := by
  rw [heardFrom_eq]
  exact ((List.take_sublist _ _).filter _).map _

/-- What has arrived of what was relayed for one connection: each call once. -/
theorem arrivedFrom_made {actions : List Action} {h : List Entry} {s : System}
    (ran : run step .new actions = some (h, s)) (who : Option ConnId) (conn : ConnId) :
    (arrivedFrom who conn h).Nodup ∧
      arrivedFrom who conn h ⊆ (madeFor who h).map fun b => (b.ticket, b.purpose.message) := by
  refine ⟨(((HubInv.of_run ran).arrivals conn).once.of_map _).filter _, fun a mem => ?_⟩
  obtain ⟨arrived, from_⟩ := List.mem_filter.mp mem
  obtain ⟨-, b, made, rfl⟩ := madeFor_of_arrives ran arrived
  exact List.mem_map.mpr ⟨b, of_decide_eq_true from_ ▸ made, rfl⟩

theorem heardFrom_own (ran : run Server.step .new moves = some (h, s)) (conn : ConnId) :
    heardFrom (some conn) conn h = [] := by
  obtain ⟨actions, ran'⟩ := hub_run ran
  rw [heardFrom_eq, List.map_eq_nil_iff, List.filter_eq_nil_iff]
  intro a mem
  simpa using (madeFor_of_arrives ran' (List.mem_of_mem_take mem)).1

/-- What arrives of some calls made one after the other arrives in their order. -/
theorem arrived_ordered {actions : List Action} {h : List Entry} {s : System}
    (ran : run step .new actions = some (h, s)) {who : Option ConnId} {conn : ConnId}
    {made : List Begun}
    (among : arrivedFrom who conn h ⊆ made.map fun b => (b.ticket, b.purpose.message))
    (ordered : made.Pairwise fun b b' => Precedes h b.ticket b'.ticket) :
    arrivedFrom who conn h <+ made.map fun b => (b.ticket, b.purpose.message) := by
  refine sublist_of_pairwise (R := fun a a' => Precedes h a.1 a'.1)
    (arrivedFrom_made ran who conn).1 among (List.pairwise_map.mpr ordered) ?_
  exact (List.pairwise_map.mp ((HubInv.of_run ran).arrivals conn).ordered).filter _

theorem heardFrom_ordered (ran : run Server.step .new moves = some (h, s)) (conn other : ConnId) :
    heardFrom (some other) conn h <+ (said other h).map .text := by
  obtain ⟨actions, ran'⟩ := hub_run ran
  have inv := RelayInv.of_run ran other
  have arrives := arrived_ordered ran' (arrivedFrom_made ran' (some other) conn).2 inv.ordered
  calc heardFrom (some other) conn h
      <+ (arrivedFrom (some other) conn (hubHistory h)).map Prod.snd := heardFrom_sublist _ _ _
    _ <+ (madeFor (some other) (hubHistory h)).map (·.purpose.message) := by
      simpa [Function.comp_def] using arrives.map Prod.snd
    _ <+ (said other h).map .text := inv.said ▸ List.sublist_append_left _ _

/-- The handlers' steps are the calls made for no connection. -/
theorem injected_eq (ran : run Server.step .new moves = some (h, s)) :
    injected h = (madeFor none (hubHistory h)).map (·.purpose.message) := by
  refine run_invariant (P := fun h _ =>
    injected h = (madeFor none (hubHistory h)).map (·.purpose.message)) ran rfl ?_
  intro h s move shown t same taken
  rw [injected_append, same, hubHistory_append, hubHistory_singleton, madeFor_append,
    List.map_append]
  congr 1
  cases Server.Does.of_step taken with
  | handler action out handles hub sent taken tasks =>
    rw [hub]
    cases move <;> cases handles <;> rfl
  | task conn after goes taken tasks =>
    generalize s.tasks conn = before at goes
    generalize shown.hub = entry at goes
    generalize shown.sent = sent at goes
    cases goes <;> rfl

theorem heardFrom_handlers (ran : run Server.step .new moves = some (h, s)) (conn : ConnId) :
    heardFrom none conn h <+~ injected h := by
  obtain ⟨actions, ran'⟩ := hub_run ran
  obtain ⟨once, among⟩ := arrivedFrom_made ran' none conn
  rw [injected_eq ran]
  refine (heardFrom_sublist none conn h).subperm.trans ?_
  obtain ⟨listed, same, part⟩ := List.subperm_of_subset once among
  refine ⟨listed.map Prod.snd, same.map Prod.snd, ?_⟩
  simpa [Function.comp_def] using part.map Prod.snd

/-! ### What is sent once nothing is under way -/

/-- Once all that has arrived is written, all that was relayed is heard. -/
theorem heardFrom_drained (ran : run Server.step .new moves = some (h, s)) {conn : ConnId}
    {topic : String} (at_ : s.tasks conn = .selecting topic)
    (empty : (s.hub.channels conn).queue = []) (who : Option ConnId) :
    heardFrom who conn h = (arrivedFrom who conn (hubHistory h)).map Prod.snd := by
  have inv := ServerInv.of_run ran
  have receiving := (inv.tasks conn).receiving.mpr (by rw [at_]; trivial)
  have arrived := (inv.hub.channels conn).arrived receiving
  have agrees := (inv.tasks conn).agrees
  rw [at_] at agrees
  have all : (frames conn h).length = (arrivals conn (hubHistory h)).length := by
    rw [agrees.2, List.length_map, ← List.length_map (f := Prod.snd), arrived, empty,
      List.append_nil]
  rw [heardFrom_eq, all, List.take_length]
  rfl

section Settled

variable {before after : List Event} {conn other : ConnId} {topic : String} {shown : Shown}

/-- The step in which a connection joins: it has not joined before. -/
theorem joins_once (ran : run Server.step .new moves =
      some (before ++ (.serve topic conn, shown) :: after, s)) :
    (∃ moves' t, run Server.step .new moves' = some (before, t)) ∧
      (∃ out, shown.hub = some (.join topic conn, out)) ∧
        ∀ topic', ¬ Joined (hubHistory before) topic' conn := by
  obtain ⟨moves', t, u, ran', taken⟩ := run_split ran
  have hub := (Server.Does.of_step taken).hub
  have joins : ∃ out, shown.hub = some (.join topic conn, out) := by
    cases Server.Does.of_step taken with
    | handler action out handles => contradiction
    | task conn' after' goes =>
      generalize t.tasks conn' = task at goes
      generalize shown.hub = entry at goes ⊢
      generalize shown.sent = sent at goes
      cases goes with
      | serve _ out => exact ⟨out, rfl⟩
  refine ⟨⟨moves', t, ran'⟩, joins, fun topic' joined => ?_⟩
  obtain ⟨out, found⟩ := joins
  rw [found] at hub
  exact (Does.of_step hub).fresh
    (((ServerInv.of_run ran').hub.channels conn).drawn.mpr ⟨topic', joined⟩)

/-- What arrives is sent by calls that begin after the connection has joined. -/
theorem arrivedFrom_after {actions : List Action} {early late : List Entry} {s : System}
    {out : Output}
    (ran : run step .new actions = some (early ++ (.join topic conn, out) :: late, s))
    (first : ∀ topic', ¬ Joined early topic' conn) (who : Option ConnId) :
    arrivedFrom who conn (early ++ (.join topic conn, out) :: late) ⊆
      (madeFor who late).map fun b => (b.ticket, b.purpose.message) := by
  intro a mem
  obtain ⟨arrived, from_⟩ := List.mem_filter.mp mem
  obtain ⟨past, e, rest, b, eq, begun, ticket, message, member, -⟩ :=
    ((HubInv.of_run ran).arrivals conn).sent a arrived
  have made : b ∈ begins (early ++ (.join topic conn, out) :: late) :=
    mem_begins.mpr ⟨past, e, rest, eq, begun⟩
  rw [← ticket, speaker_eq ran made, decide_eq_true_eq] at from_
  refine List.mem_map.mpr ⟨b, mem_madeFor.mpr ⟨?_, from_⟩, Prod.ext ticket message⟩
  rcases List.append_eq_append_iff.mp eq with ⟨here, rfl, tail⟩ | ⟨here, rfl, -⟩
  · rcases List.cons_eq_append_iff.mp tail with ⟨rfl, tail⟩ | ⟨onward, rfl, rfl⟩
    · cases tail
      contradiction
    · exact mem_begins.mpr ⟨onward, e, rest, rfl, begun⟩
  · obtain ⟨joins, mem, joined⟩ := HubInv.joined_of_isMember member
    exact absurd ⟨joins, List.mem_append_left _ mem, joined⟩ (first _)

/-- A call that has returned has reached a connection that stays, once the connection has joined. -/
theorem arrives_after {actions : List Action} {early late : List Entry} {s : System} {out : Output}
    (ran : run step .new actions = some (early ++ (.join topic conn, out) :: late, s))
    (stays : ∀ e ∈ late, ¬ Departs topic conn e) (receiving : (s.channels conn).receiving = true)
    {b : Begun} (made : b ∈ begins late) (on : b.topic = topic) (others : some conn ≠ b.from_)
    {count : Nat}
    (returned : .returned count ∈ log b.ticket (early ++ (.join topic conn, out) :: late)) :
    (b.ticket, b.purpose.message) ∈
      arrivedFrom b.from_ conn (early ++ (.join topic conn, out) :: late) := by
  obtain ⟨past, e, rest, rfl, begun⟩ := mem_begins.mp made
  have eq : early ++ (.join topic conn, out) :: (past ++ e :: rest) =
      (early ++ (.join topic conn, out) :: past) ++ e :: rest := by simp
  have member : IsMember (early ++ (.join topic conn, out) :: past) b.topic conn :=
    ⟨early, _, past, rfl, by rw [on]; rfl, fun f mem => on ▸ stays f (List.mem_append_left _ mem)⟩
  obtain ⟨sent, fan⟩ := fanOut ran eq begun
  obtain ⟨before, ok, onward, here⟩ := fan.reached count returned conn member others
  have open_ := (((HubInv.of_run ran).channels conn).receiving.mp receiving).2
  have success : ok = true := (sent_iff_not_dropped ran here).mpr fun ⟨f, mem, drops⟩ =>
    open_ ⟨f, here ▸ List.mem_append_left _ mem, drops⟩
  refine List.mem_filter.mpr ⟨?_, ?_⟩
  · rw [here, success, arrivals_append]
    simp [arrivals]
  · rw [speaker_eq ran (mem_begins.mpr ⟨_, e, rest, eq, begun⟩)]
    exact decide_eq_true rfl

theorem hubHistory_split_join {out : Output} (hub : shown.hub = some (.join topic conn, out)) :
    hubHistory (before ++ (.serve topic conn, shown) :: after) =
      hubHistory before ++ (.join topic conn, out) :: hubHistory after := by
  rw [List.append_cons, hubHistory_append, hubHistory_append, hubHistory_singleton, hub,
    Option.toList_some, ← List.append_cons]

theorem madeFor_split_join {out : Output} (hub : shown.hub = some (.join topic conn, out))
    (who : Option ConnId) :
    madeFor who (hubHistory (before ++ (.serve topic conn, shown) :: after)) =
      madeFor who (hubHistory before) ++ madeFor who (hubHistory after) := by
  rw [hubHistory_split_join hub, madeFor_append]
  rfl

/-- Once nothing is relayed for another connection, the calls for it that have begun since the
connection joined are those that have arrived. -/
theorem arrivedFrom_settled (ran : run Server.step .new moves =
      some (before ++ (.serve topic conn, shown) :: after, s))
    (stays : ∀ e ∈ hubHistory after, ¬ Departs topic conn e) (ne : other ≠ conn)
    (joined : Joined (hubHistory (before ++ (.serve topic conn, shown) :: after)) topic other)
    (receiving : (s.hub.channels conn).receiving = true) (quiet : ¬ (s.tasks other).Relays) :
    arrivedFrom (some other) conn (hubHistory (before ++ (.serve topic conn, shown) :: after)) =
      (madeFor (some other) (hubHistory after)).map fun b => (b.ticket, b.purpose.message) := by
  obtain ⟨-, ⟨out, hub⟩, first⟩ := joins_once ran
  obtain ⟨actions, hubRan⟩ := hub_run ran
  obtain ⟨-, -, topics, ordered, returned⟩ := RelayInv.of_run ran other
  have once := ((ServerInv.of_run ran).hub.channels other).once
  have distinct := nodup_madeFor hubRan (some other)
  rw [madeFor_split_join hub] at topics ordered returned distinct
  rw [List.map_append] at distinct
  rw [hubHistory_split_join hub] at joined hubRan once topics ordered returned ⊢
  have part := arrived_ordered hubRan (arrivedFrom_after hubRan first (some other))
    (List.pairwise_append.mp ordered).2.1
  refine part.eq_of_length_le (List.Nodup.length_le_of_subset (.of_map Prod.fst ?_) ?_)
  · rw [List.map_map]
    exact (List.nodup_append.mp distinct).2.1
  · intro a mem
    obtain ⟨b, later, rfl⟩ := List.mem_map.mp mem
    obtain ⟨begun, from_⟩ := mem_madeFor.mp later
    have listed := List.mem_append_right (madeFor (some other) (hubHistory before)) later
    obtain ⟨count, ended⟩ := (returned b listed).resolve_right fun ⟨topic', relaying⟩ =>
      quiet (by rw [relaying]; trivial)
    have others : some conn ≠ b.from_ := by
      rw [from_]
      exact fun same => ne (Option.some.inj same).symm
    have on := once _ _ (topics b listed) joined
    rw [← from_]
    exact arrives_after hubRan stays receiving begun on others ended

/-- What a client has said since a step is what is relayed since then, after the text that was to be
relayed just then. -/
theorem relayed_since {t : Server} {moves' : List Move}
    (ran : run Server.step .new moves = some (h, s))
    (ran' : run Server.step .new moves' = some (before, t))
    (eq : h = before ++ (.serve topic conn, shown) :: after) {out : Output}
    (hub : shown.hub = some (.join topic conn, out)) (quiet : ¬ (s.tasks other).Relays) :
    (madeFor (some other) (hubHistory after)).map (·.purpose.message) =
      ((t.tasks other).unrelayed ++ said other after).map .text := by
  have now := (RelayInv.of_run ran other).said
  have then_ := (RelayInv.of_run ran' other).said
  have nothing : (s.tasks other).unrelayed = [] := by
    cases task : s.tasks other with
    | relaying =>
      rw [task] at quiet
      exact absurd trivial quiet
    | _ => rfl
  have texts : said other h = said other before ++ said other after := by
    rw [eq, said_append]
    rfl
  rw [nothing, List.map_nil, List.append_nil, texts, eq, madeFor_split_join hub, List.map_append,
    List.map_append, then_, List.append_assoc] at now
  rw [List.map_append]
  exact (List.append_cancel_left now).symm

/-- What is still to be relayed is the last that the client has said. -/
theorem unrelayed_suffix (ran : run Server.step .new moves = some (h, s)) (conn : ConnId) :
    (s.tasks conn).unrelayed <:+ said conn h ∧ (s.tasks conn).unrelayed.length ≤ 1 := by
  obtain ⟨relayed, rest, eq, -, same⟩ := List.map_eq_append_iff.mp (RelayInv.of_run ran conn).said
  have last : rest = (s.tasks conn).unrelayed :=
    List.map_injective_iff.mpr (fun _ _ same => Outbound.text.inj same) same
  refine ⟨⟨relayed, by rw [eq, last]⟩, ?_⟩
  cases s.tasks conn <;> simp [Task.unrelayed]

/-- Once nothing is under way, a client has been sent what another one has said since it joined. -/
theorem heardFrom_settled (ran : run Server.step .new moves = some (h, s))
    (eq : h = before ++ (.serve topic conn, shown) :: after)
    (stays : ∀ e ∈ hubHistory after, ¬ Departs topic conn e) (ne : other ≠ conn)
    (joined : Joined (hubHistory h) topic other) (at_ : s.tasks conn = .selecting topic)
    (empty : (s.hub.channels conn).queue = []) (quiet : ¬ (s.tasks other).Relays) :
    ∃ late, late <:+ said other before ∧ late.length ≤ 1 ∧
      heardFrom (some other) conn h = (late ++ said other after).map .text := by
  have receiving := ((ServerInv.of_run ran).tasks conn).receiving.mpr (by rw [at_]; trivial)
  have drained := heardFrom_drained ran at_ empty (some other)
  subst eq
  obtain ⟨⟨moves', t, ran'⟩, ⟨out, hub⟩, -⟩ := joins_once ran
  obtain ⟨suffix, short⟩ := unrelayed_suffix ran' other
  refine ⟨(t.tasks other).unrelayed, suffix, short, ?_⟩
  rw [drained, arrivedFrom_settled ran stays ne joined receiving quiet, List.map_map,
    ← relayed_since ran ran' rfl hub quiet]
  rfl

end Settled

theorem relay_exact (ran : run Server.step .new moves = some (h, s)) (conn : ConnId) :
    RelayExact h s conn where
  frames := frames_eq ran conn
  own := heardFrom_own ran conn
  ordered other := heardFrom_ordered ran conn other
  handlers := heardFrom_handlers ran conn
  settled _ _ _ _ _ eq stays ne joined at_ empty quiet :=
    heardFrom_settled ran eq stays ne joined at_ empty quiet

end Runs

/-- Two connections of which the first says a text before the other joins, and is to relay it still,
and one more afterwards, while a handler publishes. -/
def chatting : List Move :=
  let a : ConnId := ⟨.fill 16 1⟩
  let b : ConnId := ⟨.fill 16 2⟩
  [.serve "demo" a, .inbound a (.text "early"), .serve "demo" b, .relay a 0 [b],
    .publish 1 "demo" "news" [a, b], .proceed 1, .proceed 0, .proceed 0, .proceed 0, .relayed a,
    .proceed 1, .proceed 1, .recv b, .written b true, .recv a, .written a true,
    .inbound a (.text "late"), .relay a 2 [b], .proceed 2, .proceed 2, .proceed 2, .relayed a,
    .recv b, .written b true, .recv b, .written b true]

def chattingHistory : List Event := (history Server.step .new chatting).getD []

theorem relay_exact_chatting : ∃ s, run Server.step .new chatting = some (chattingHistory, s) ∧
    heard ⟨.fill 16 2⟩ chattingHistory = [(some ⟨.fill 16 1⟩, .text "early"),
      (none, .text "news"), (some ⟨.fill 16 1⟩, .text "late")] ∧
    RelayExact chattingHistory s ⟨.fill 16 2⟩ := by
  have shown : history Server.step .new chatting = some chattingHistory := by decide +kernel
  obtain ⟨s, ran⟩ := history_eq_some.mp shown
  exact ⟨s, ran, by decide +kernel, relay_exact ran _⟩

end Servr.Ws
