import Servr.Ws.Progress

/-! A kill ends in one clean close, over every run of the server: what it sends and returns, what
the client of each connection is sent after it, and that the task of the connection comes to its
end. -/

namespace Servr.Ws

open Interleaving

/-! ### Texts and a close -/

theorem not_texts_close {reason : String} {ms : List Outbound} :
    ¬Texts (.close reason :: ms) := by
  intro texts
  have close := texts _ List.mem_cons_self
  contradiction

theorem Texts.tail {m : Outbound} {ms : List Outbound} (texts : Texts (m :: ms)) : Texts ms :=
  fun _ mem => texts _ (List.mem_cons_of_mem m mem)

theorem Texts.exists_bodies {ms : List Outbound} (texts : Texts ms) :
    ∃ bodies : List String, ms = bodies.map .text := by
  induction ms with
  | nil => exact ⟨[], rfl⟩
  | cons m ms ih =>
    obtain ⟨bodies, rfl⟩ := ih texts.tail
    cases m with
    | text body => exact ⟨body :: bodies, rfl⟩
    | close reason => exact absurd texts not_texts_close

/-- Texts that begin what has a close are among the texts before it. -/
theorem Texts.prefix_of_prefix {read texts late : List Outbound} {reason : String}
    (reads : Texts read) (begins : read <+: texts ++ .close reason :: late) : read <+: texts := by
  induction read generalizing texts with
  | nil => exact List.nil_prefix
  | cons m read ih =>
    cases texts with
    | nil =>
      obtain ⟨rfl, -⟩ := List.cons_prefix_cons.mp begins
      exact absurd reads not_texts_close
    | cons first texts =>
      obtain ⟨rfl, rest⟩ := List.cons_prefix_cons.mp begins
      exact List.cons_prefix_cons.mpr ⟨rfl, ih reads.tail rest⟩

/-- The first close is where the texts before it end. -/
theorem Texts.close_of_prefix {past texts late : List Outbound} {reason reason' : String}
    (reads : Texts past) (all : Texts texts)
    (begins : past ++ [.close reason'] <+: texts ++ .close reason :: late) :
    past = texts ∧ reason' = reason := by
  induction past generalizing texts with
  | nil =>
    cases texts with
    | nil => simpa using begins
    | cons first texts =>
      obtain ⟨rfl, -⟩ := List.cons_prefix_cons.mp begins
      exact absurd all not_texts_close
  | cons m past ih =>
    cases texts with
    | nil =>
      obtain ⟨rfl, -⟩ := List.cons_prefix_cons.mp begins
      exact absurd reads not_texts_close
    | cons first texts =>
      obtain ⟨rfl, rest⟩ := List.cons_prefix_cons.mp begins
      obtain ⟨rfl, rfl⟩ := ih reads.tail all.tail rest
      exact ⟨rfl, rfl⟩

/-- The task has nothing more to read or to write. -/
def Task.Over : Task → Prop
  | .finishing _ | .returning _ _ | .leaving _ _ | .ended _ => True
  | _ => False

/-- What the client has been sent by a task for which these texts and a close have come. -/
theorem Task.Agrees.closed {task : Task} {read texts late : List Outbound} {sent : List Message}
    {failed : Prop} {reason : String} (agrees : task.Agrees read sent failed) (all : Texts texts)
    (begins : read <+: texts ++ .close reason :: late) :
    sent <+: (texts ++ [Outbound.close reason]).map Outbound.frame ∧
      (task.Over → ¬ failed → sent = (texts ++ [Outbound.close reason]).map Outbound.frame) := by
  have early {ms : List Outbound} (early : Texts ms) (begins : ms <+: read) :
      ms.map Outbound.frame <+: (texts ++ [Outbound.close reason]).map Outbound.frame := by
    have within := early.prefix_of_prefix (begins.trans ‹read <+: _›)
    exact (within.trans (List.prefix_append _ _)).map _
  have whole {past : List Outbound} {reason' : String} (early : Texts past)
      (eq : read = past ++ [.close reason']) : read = texts ++ [.close reason] := by
    obtain ⟨rfl, rfl⟩ := early.close_of_prefix all (eq ▸ begins)
    exact eq
  have atClose (read_ : ∃ past reason', Texts past ∧ read = past ++ [.close reason'] ∧
      (sent = read.map Outbound.frame ∨ failed ∧ sent = past.map Outbound.frame)) :
      sent <+: (texts ++ [Outbound.close reason]).map Outbound.frame ∧
        (¬ failed → sent = (texts ++ [Outbound.close reason]).map Outbound.frame) := by
    obtain ⟨past, reason', texts', eq, rfl | ⟨fails, rfl⟩⟩ := read_
    · rw [whole texts' eq]
      exact ⟨List.prefix_refl _, fun _ => rfl⟩
    · exact ⟨early texts' ⟨_, eq.symm⟩, fun sound => absurd fails sound⟩
  cases task with
  | unserved =>
    obtain ⟨-, rfl⟩ := agrees
    exact ⟨List.nil_prefix, False.elim⟩
  | selecting | relaying | publishing =>
    obtain ⟨texts', rfl⟩ := agrees
    exact ⟨early texts' (List.prefix_refl _), False.elim⟩
  | writing | closing =>
    obtain ⟨past, texts', eq, rfl⟩ := agrees
    exact ⟨early texts' ⟨_, eq.symm⟩, False.elim⟩
  | finishing => exact ⟨(atClose agrees).1, fun _ => (atClose agrees).2⟩
  | returning topic closed | leaving topic closed | ended closed =>
    cases closed with
    | true => exact ⟨(atClose agrees).1, fun _ => (atClose agrees).2⟩
    | false =>
      obtain ⟨fails, texts', begins'⟩ := agrees
      exact ⟨begins'.trans (early texts' (List.prefix_refl _)), fun _ sound => absurd fails sound⟩

/-! ### Runs -/

theorem ServerInv.of_run {moves : List Move} {h : List Event} {s : Server}
    (ran : run Server.step .new moves = some (h, s)) : ServerInv h s :=
  run_invariant ran .new fun _ _ _ _ _ inv taken => inv.step (.of_step taken)

/-- The step of the server that is a step of its hub. -/
theorem hubHistory_split {h : List Event} {past later : List Entry} {e : Entry}
    (eq : hubHistory h = past ++ e :: later) : ∃ early move shown late,
      h = early ++ (move, shown) :: late ∧ hubHistory early = past ∧ shown.hub = some e := by
  obtain ⟨early, rest, rfl, begins, ends⟩ := List.filterMap_eq_append_iff.mp eq
  obtain ⟨quiet, ⟨move, shown⟩, late, rfl, none, hub, -⟩ := List.filterMap_eq_cons_iff.mp ends
  refine ⟨early ++ quiet, move, shown, late, by simp, ?_, hub⟩
  have unseen : hubHistory quiet = [] := List.filterMap_eq_nil_iff.mpr none
  rw [hubHistory_append, unseen, List.append_nil]
  exact begins

/-- The sends of a kill that has returned: one to each member of its topic. -/
structure KillSent (h before : List Entry) (ticket : Nat) (topic reason : String)
    (sent : List (ConnId × Bool)) : Prop where
  once : (sent.map Prod.fst).Nodup
  members : ∀ conn, conn ∈ sent.map Prod.fst ↔ IsMember before topic conn
  sends : ∀ conn ok, (conn, ok) ∈ sent ↔ ∃ past later,
    h = past ++ (.proceed ticket, .sent conn (.close reason) ok) :: later

/-- A connection to which a kill has sent a close that has arrived: it is the only one, and its
client is sent the texts which have arrived before and the close, in this order, and no more. -/
structure Closed (h : List Event) (s : Server) (conn : ConnId) (ticket : Nat) (reason : String) :
    Prop where
  once : closes conn (hubHistory h) = [(ticket, .close reason)]
  frames : ∃ bodies late : List String,
    (arrivals conn (hubHistory h)).map Prod.snd =
        bodies.map .text ++ .close reason :: late.map .text ∧
      frames conn h <+: bodies.map .text ++ [.close closeCode reason] ∧
      ((s.tasks conn).Over → ¬ Failed conn h →
        frames conn h = bodies.map .text ++ [.close closeCode reason])

/-- What holds of the kills of any run.  A kill that has begun goes on to its return, as every call
does; a task for which a close has come always has a step to take, and each brings it nearer to its
end. -/
structure KillExact (h : List Event) (s : Server) : Prop where
  returns : ∀ before ticket topic reason order out after count,
    hubHistory h = before ++ (.kill ticket topic reason order, out) :: after →
      .returned count ∈ log ticket (hubHistory h) →
        ∃ sent, KillSent (hubHistory h) before ticket topic reason sent ∧
          count = (succeeded sent).length
  succeeds : ∀ past ticket conn reason later,
    hubHistory h = past ++ (.proceed ticket, .sent conn (.close reason) true) :: later →
      ¬ Dropped past conn ∧ Closed h s conn ticket reason
  refused : ∀ past ticket conn reason later,
    hubHistory h = past ++ (.proceed ticket, .sent conn (.close reason) false) :: later →
      Dropped past conn ∧ Failed conn h ∧ closes conn (hubHistory h) = []
  unclosed : ∀ conn, (.recv conn, .read none) ∉ hubHistory h
  goesOn : ∀ before action out after ticket, hubHistory h = before ++ (action, out) :: after →
    action.ticket = some ticket → s.GoesOn h ticket
  enabled : ∀ conn, closes conn (hubHistory h) ≠ [] → (∀ closed, s.tasks conn ≠ .ended closed) →
    ∃ move shown t, s.Own conn move ∧ s.step move = some (shown, t)
  lowers : ∀ conn, closes conn (hubHistory h) ≠ [] → ∀ move shown t,
    s.step move = some (shown, t) → s.Own conn move → t.rank conn < s.rank conn
  keeps : ∀ conn, closes conn (hubHistory h) ≠ [] → ∀ move shown t,
    s.step move = some (shown, t) → ¬ s.Own conn move → t.rank conn = s.rank conn

section Exact

variable {moves : List Move} {h : List Event} {s : Server}

/-- The state of the server at a step of its hub. -/
theorem ServerInv.at_entry (ran : run Server.step .new moves = some (h, s))
    {past later : List Entry} {e : Entry} (eq : hubHistory h = past ++ e :: later) :
    ∃ early move shown late t u,
      h = early ++ (move, shown) :: late ∧ hubHistory early = past ∧ shown.hub = some e ∧
        ServerInv early t ∧ Server.Does t move shown u ∧ Does t.hub e.1 e.2 u.hub := by
  obtain ⟨early, move, shown, late, rfl, begins, hub⟩ := hubHistory_split eq
  obtain ⟨moves', t, u, ran', taken⟩ := run_split ran
  have does := Server.Does.of_step taken
  have stepped := does.hub
  rw [hub] at stepped
  exact ⟨early, move, shown, late, t, u, rfl, begins, hub, .of_run ran', does, .of_step stepped⟩

/-- A call that sends a close is a kill, which succeeds if the receiver is there. -/
theorem Does.kill_sends {s t : System} {ticket : Nat} {conn : ConnId} {reason : String} {ok : Bool}
    (does : Does s (.proceed ticket) (.sent conn (.close reason) ok) t) :
    Killing s ticket conn ∧ (s.channels conn).receiving = ok := by
  cases does with
  | close _ _ _ rest closed at_ => exact ⟨⟨reason, _, closed, at_, List.mem_cons_self⟩, rfl⟩

/-- Nothing arrives after the receiver has been dropped. -/
theorem arrivals_of_dropped {actions : List Action} {past later : List Entry} {s : System}
    (ran : run step .new actions = some (past ++ later, s)) {conn : ConnId}
    (dropped : Dropped past conn) : arrivals conn later = [] := by
  by_contra some_
  obtain ⟨a, mem⟩ := List.exists_mem_of_ne_nil _ some_
  obtain ⟨e, mem, arrives⟩ := List.mem_filterMap.mp mem
  rcases arrivals_singleton conn e with none | ⟨ticket, m, rfl, -⟩
  · simp only [arrivals, List.filterMap_cons, arrives] at none
    contradiction
  · obtain ⟨between, after, rfl⟩ := List.append_of_mem mem
    have open_ := (sent_iff_not_dropped ran (List.append_assoc _ _ _).symm).mp rfl
    obtain ⟨e, mem, drops⟩ := dropped
    exact open_ ⟨e, List.mem_append_left _ mem, drops⟩

theorem ServerInv.closes_of_read (inv : ServerInv h s) {conn : ConnId} {reason : String}
    (read : .close reason ∈ reads conn (hubHistory h)) : closes conn (hubHistory h) ≠ [] := by
  obtain ⟨a, mem, eq⟩ := List.mem_map.mp ((inv.hub.channels conn).read.subset read)
  refine List.ne_nil_of_mem (List.mem_filter.mpr ⟨mem, ?_⟩)
  rw [eq]
  rfl

/-- Only a connection that has failed drops its receiver before a close has come. -/
theorem ServerInv.failed (inv : ServerInv h s) {conn : ConnId} (drawn : conn ∈ s.hub.drawn)
    (closed : (s.hub.channels conn).receiving = false) (none : closes conn (hubHistory h) = []) :
    Failed conn h := by
  have receiving := (inv.tasks conn).receiving
  have agrees := (inv.tasks conn).agrees
  rw [closed] at receiving
  cases task : s.tasks conn with
  | unserved => exact absurd task (inv.served conn drawn)
  | leaving topic byServer | ended byServer =>
    rw [task] at agrees
    cases byServer with
    | true =>
      obtain ⟨past, reason, -, eq, -⟩ := agrees
      have read : .close reason ∈ reads conn (hubHistory h) := by simp [eq]
      exact absurd none (inv.closes_of_read read)
    | false => exact agrees.1
  | _ =>
    rw [task] at receiving
    exact absurd (receiving.mpr trivial) (by simp)

theorem refused (ran : run Server.step .new moves = some (h, s)) {past later : List Entry}
    {ticket : Nat} {conn : ConnId} {reason : String}
    (eq : hubHistory h = past ++ (.proceed ticket, .sent conn (.close reason) false) :: later) :
    Dropped past conn ∧ Failed conn h ∧ closes conn (hubHistory h) = [] := by
  obtain ⟨actions, hubRan⟩ := hub_run ran
  obtain ⟨early, move, shown, late, t, u, rfl, rfl, -, inv, -, does⟩ := ServerInv.at_entry ran eq
  obtain ⟨killing, closed⟩ := does.kill_sends
  have none := ((inv.kills conn).killing ticket killing).1
  have dropped : Dropped (hubHistory early) conn := by
    by_contra open_
    exact Bool.false_ne_true ((sent_iff_not_dropped hubRan eq).mpr open_)
  refine ⟨dropped, ?_, ?_⟩
  · have drawn := (inv.hub.pending ticket).2 conn killing.pending
    obtain ⟨e, mem, fails⟩ := inv.failed drawn closed none
    exact ⟨e, List.mem_append_left _ mem, fails⟩
  · rw [eq] at hubRan
    rw [eq, closes_append, none, List.nil_append, closes, arrivals_of_dropped hubRan dropped,
      List.filter_nil]

theorem closed (ran : run Server.step .new moves = some (h, s)) {past later : List Entry}
    {ticket : Nat} {conn : ConnId} {reason : String}
    (eq : hubHistory h = past ++ (.proceed ticket, .sent conn (.close reason) true) :: later) :
    Closed h s conn ticket reason := by
  have inv := ServerInv.of_run ran
  have once : closes conn (hubHistory h) = [(ticket, .close reason)] := by
    have mem : (ticket, .close reason) ∈ closes conn (hubHistory h) := by
      simp [eq, closes, arrivals, Outbound.isClose]
    obtain ⟨a, only⟩ : ∃ a, closes conn (hubHistory h) = [a] :=
      List.length_eq_one_iff.mp (le_antisymm (inv.kills conn).once (List.length_pos_of_mem mem))
    rw [only] at mem ⊢
    rw [List.mem_singleton.mp mem]
  obtain ⟨before, late, all, texts, -, rest⟩ := List.filter_eq_cons_iff.mp once
  have bodiesOf (ms : List (Nat × Outbound)) (none : ∀ a ∈ ms, ¬ a.2.isClose = true) :
      ∃ bodies : List String, ms.map Prod.snd = bodies.map .text := by
    refine Texts.exists_bodies fun m mem => ?_
    obtain ⟨a, here, rfl⟩ := List.mem_map.mp mem
    exact Bool.eq_false_iff.mpr (none a here)
  obtain ⟨bodies, same⟩ := bodiesOf before texts
  obtain ⟨late', same'⟩ := bodiesOf late (List.filter_eq_nil_iff.mp rest)
  have arrived : (arrivals conn (hubHistory h)).map Prod.snd =
      bodies.map .text ++ .close reason :: late'.map .text := by
    rw [all, List.map_append, List.map_cons, same, same']
  have begins := (inv.hub.channels conn).read
  rw [arrived] at begins
  obtain ⟨sent, whole⟩ := (inv.tasks conn).agrees.closed (by simp [Texts, Outbound.isClose]) begins
  have shown : (bodies.map Outbound.text ++ [Outbound.close reason]).map Outbound.frame =
      bodies.map Message.text ++ [.close closeCode reason] := by
    rw [List.map_append, List.map_map]
    rfl
  rw [shown] at sent whole
  exact ⟨once, bodies, late', arrived, sent, whole⟩

theorem unclosed (ran : run Server.step .new moves = some (h, s)) (conn : ConnId) :
    (.recv conn, .read none) ∉ hubHistory h := by
  intro mem
  obtain ⟨past, later, eq⟩ := List.append_of_mem mem
  obtain ⟨early, move, shown, late, t, u, -, -, hub, inv, does, stepped⟩ :=
    ServerInv.at_entry ran eq
  obtain ⟨topic, at_⟩ := does.selects hub
  obtain ⟨m, eq⟩ := inv.got at_ stepped
  cases eq

theorem killSent (ran : run Server.step .new moves = some (h, s)) {before after : List Entry}
    {ticket count : Nat} {topic reason : String} {order : List ConnId} {out : Output}
    (eq : hubHistory h = before ++ (.kill ticket topic reason order, out) :: after)
    (returned : .returned count ∈ log ticket (hubHistory h)) :
    ∃ sent, KillSent (hubHistory h) before ticket topic reason sent ∧
      count = (succeeded sent).length := by
  obtain ⟨actions, ran⟩ := hub_run ran
  have begins : (Action.kill ticket topic reason order).begun =
      some ⟨ticket, .close reason, topic, none, order⟩ := rfl
  obtain ⟨sent, fan⟩ := fanOut ran eq begins
  have shown := fan.returned count returned
  have listed (conn : ConnId) (ok : Bool) : (conn, ok) ∈ sent ↔
      .sent conn (.close reason) ok ∈ log ticket (hubHistory h) := by
    rw [shown]
    simp [Purpose.delivery]
  have sends (conn : ConnId) (ok : Bool) : (conn, ok) ∈ sent ↔ ∃ past later,
      hubHistory h = past ++ (.proceed ticket, .sent conn (.close reason) ok) :: later := by
    rw [listed]
    refine ⟨sent_of_mem_log ran, ?_⟩
    rintro ⟨past, later, eq⟩
    rw [eq]
    simp [log, Action.ticket]
  refine ⟨sent, ⟨fan.once, fun conn => ⟨fun mem => (fan.targets conn mem).1, fun member => ?_⟩,
    sends⟩, ?_⟩
  · obtain ⟨past, ok, later, eq⟩ := fan.reached count returned conn member (by simp)
    exact List.mem_map.mpr ⟨_, (sends conn ok).mpr ⟨past, later, eq⟩, rfl⟩
  · rw [shown] at returned
    rcases List.mem_append.mp returned with mem | last
    · exact absurd mem not_returned_mem_delivery
    · simpa using last

theorem kill_exact (ran : run Server.step .new moves = some (h, s)) : KillExact h s := by
  have inv := ServerInv.of_run ran
  obtain ⟨actions, hubRan⟩ := hub_run ran
  constructor
  · exact fun before ticket topic reason order out after count eq => killSent ran eq
  · intro past ticket conn reason later eq
    exact ⟨(sent_iff_not_dropped hubRan eq).mp rfl, closed ran eq⟩
  · exact fun past ticket conn reason later eq => refused ran eq
  · exact unclosed ran
  · exact fun before action out after ticket eq own => inv.goesOn eq own
  · exact fun conn closed runs => inv.enabled closed runs
  · exact fun conn closed move shown t taken own => inv.rank_own closed (.of_step taken) own
  · exact fun conn closed move shown t taken others =>
      inv.rank_others closed (.of_step taken) others

end Exact

/-- A kill of a topic of two connections while two texts are sent to the first, whose client gets
one of them and the close; the socket of the other fails. -/
def killing : List Move :=
  let a : ConnId := ⟨.fill 16 1⟩
  let b : ConnId := ⟨.fill 16 2⟩
  [.serve "demo" a, .serve "demo" b, .publish 0 "demo" "first" [a, b], .inbound b (.text "late"),
    .relay b 1 [a], .kill 2 "demo" "server closed" [b, a], .proceed 2, .proceed 0, .proceed 2,
    .proceed 2, .proceed 1, .proceed 1, .proceed 1, .relayed b, .recv a, .written a true, .recv b,
    .written b false, .recv a, .written a true, .finished a, .drop a, .leave a]

def killingHistory : List Event := (history Server.step .new killing).getD []

theorem kill_exact_killing : ∃ s, run Server.step .new killing = some (killingHistory, s) ∧
    frames ⟨.fill 16 1⟩ killingHistory = [.text "first", .close closeCode "server closed"] ∧
    KillExact killingHistory s := by
  have shown : history Server.step .new killing = some killingHistory := by decide +kernel
  obtain ⟨s, ran⟩ := history_eq_some.mp shown
  exact ⟨s, ran, by decide +kernel, kill_exact ran⟩

/-- A client that disconnects before a kill of its topic, which comes before the task has left. -/
def departing : List Move :=
  let a : ConnId := ⟨.fill 16 1⟩
  [.serve "demo" a, .inbound a .close, .drop a, .kill 0 "demo" "server closed" [a], .proceed 0,
    .proceed 0]

def departingHistory : List Event := (history Server.step .new departing).getD []

/-- No close is queued for a member whose receiver has gone. -/
theorem kill_departing : ¬ ∀ moves h s, run Server.step .new moves = some (h, s) →
    ∀ before ticket topic reason order out after count,
      hubHistory h = before ++ (.kill ticket topic reason order, out) :: after →
        .returned count ∈ log ticket (hubHistory h) →
          ∀ conn, IsMember before topic conn → (closes conn (hubHistory h)).length = 1 := by
  intro claim
  let a : ConnId := ⟨.fill 16 1⟩
  have shown : history Server.step .new departing = some departingHistory := by decide +kernel
  obtain ⟨s, ran⟩ := history_eq_some.mp shown
  have eq : hubHistory departingHistory =
      [(.join "demo" a, .quiet), (.drop a, .quiet)] ++
        (.kill 0 "demo" "server closed" [a], .quiet) ::
          [(.proceed 0, .sent a (.close "server closed") false), (.proceed 0, .returned 0)] := by
    decide +kernel
  have member : IsMember [(.join "demo" a, .quiet), (.drop a, .quiet)] "demo" a :=
    ⟨[], _, _, rfl, rfl, by simp [Departs]⟩
  have one := claim departing departingHistory s ran _ 0 "demo" "server closed" [a] .quiet _ 0 eq
    (by rw [eq]; decide +kernel) a member
  rw [eq] at one
  revert one
  decide +kernel

end Servr.Ws
