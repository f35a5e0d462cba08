import Servr.Http
import Servr.Lib.Machine
import Servr.State.Reference

/-! Requests that pass the fault layer at once, while the configuration changes, real time passes
and other surfaces use the bus.  Every answer follows the rules that were in force at one moment
after the request came in. -/

namespace Servr.Http

open Ieee (Double)

/-- What the layer reads before it serves a request: after how many changes of the configuration,
the effects of the rules that fired, and the real time in nanoseconds. -/
structure Resolution where
  changes : Nat
  effects : Effects
  started : Nat

/-- The delay of the rules is over. -/
def Resolution.Elapsed (r : Resolution) (now : Nat) : Prop :=
  r.started + r.effects.delay.getD 0 * 1000000 ≤ now

/-- A response, with that of the handler where it ran. -/
structure Answer where
  resolution : Resolution
  handled : Option Response
  response : Response

/-- Where a request stands. -/
inductive Stage
  | arrived
  /-- The layer sleeps for as long as the rules say. -/
  | delayed (r : Resolution)
  | handling (r : Resolution)
  | responded (a : Answer)
  /-- The metrics have counted the request. -/
  | recorded (a : Answer) (request : HttpRequest)
  /-- The event has its id, and is to be sent. -/
  | emitting (a : Answer) (event : Event DomainKind)

/-- The future of the layer may still be dropped, with its client gone, or panic. -/
def Stage.Unrecorded : Stage → Prop
  | .arrived | .delayed _ | .handling _ | .responded _ => True
  | .recorded .. | .emitting .. => False

/-- A request, with the number of changes of the configuration before it came in. -/
structure Flight where
  method : String
  path : String
  since : Nat
  stage : Stage

/-- The fields of the event of a request that took `latency` nanoseconds. -/
def Flight.request (f : Flight) (a : Answer) (latency : Nat) : HttpRequest where
  method := f.method
  path := f.path
  status := a.response.status.code
  latencyMs := .ofNat (latency / 1000000)
  faults := a.resolution.effects.names

/-- A request that is answered, with its event. -/
structure Reply where
  flight : Flight
  answer : Answer
  event : Event DomainKind

structure Server where
  plane : State
  /-- The configurations that were served, the last of them now. -/
  history : List Resolved
  /-- Real time, in nanoseconds. -/
  now : Nat
  metrics : Metrics
  bus : Bus.System DomainKind
  flights : List Flight
  replies : List Reply

/-- The request of an event that is one. -/
def request? : EventKind DomainKind → Option HttpRequest
  | .domain (.httpRequest request) => some request
  | _ => none

/-- A step of the bus that the layer has no part in. -/
def Foreign (bus : Bus.System DomainKind) : Bus.Op DomainKind → Prop
  | .assign event => request? event.kind = none
  | .send k => ∀ event, bus.inFlight[k]? = some event → request? event.kind = none
  | _ => True

/-- A step of one request that only the request sees. -/
inductive Moves (s : Server) (path : String) : Stage → Stage → Prop
  | resolve {fuel specs roll effects} : s.plane.resolved.faultsFor fuel path = some specs →
      Effects.resolve specs roll = some effects →
      Moves s path .arrived (.delayed ⟨s.history.length - 1, effects, s.now⟩)
  | short {r response} : r.Elapsed s.now → short r.effects = some response →
      Moves s path (.delayed r) (.responded ⟨r, none, response⟩)
  | run {r} : r.Elapsed s.now → short r.effects = none →
      Moves s path (.delayed r) (.handling r)
  | handle {r} (response : Response) :
      Moves s path (.handling r) (.responded ⟨r, some response, passed r.effects response⟩)

inductive Step : Server → Server → Prop
  | control (s : Server) (op : State.Op) : Step s { s with
      plane := s.plane.apply op
      history := s.history ++ [(s.plane.apply op).resolved] }
  | pass (s : Server) (d : Nat) : Step s { s with now := s.now + d }
  | bus {s op} : Foreign s.bus op → Step s { s with bus := s.bus.step op }
  | arrive (s : Server) (method path : String) : Step s { s with
      flights := s.flights ++ [⟨method, path, s.history.length - 1, .arrived⟩] }
  | move {s before f after stage} : s.flights = before ++ f :: after →
      Moves s f.path f.stage stage →
      Step s { s with flights := before ++ { f with stage } :: after }
  | record {s before f after a} : s.flights = before ++ f :: after → f.stage = .responded a →
      Step s { s with
        metrics := s.metrics.recordRequest f.method a.response.status.code
          (s.now - a.resolution.started) a.resolution.effects.names
        flights := before ++
          { f with stage := .recorded a (f.request a (s.now - a.resolution.started)) } :: after }
  | assign {s before f after a request event} : s.flights = before ++ f :: after →
      f.stage = .recorded a request → event.kind = .domain (.httpRequest request) →
      Step s { s with
        bus := s.bus.step (.assign event)
        flights := before ++
          { f with stage := .emitting a { event with id := s.bus.bus.seq } } :: after }
  | send {s before f after a event k} : s.flights = before ++ f :: after →
      f.stage = .emitting a event → s.bus.inFlight[k]? = some event →
      Step s { s with
        bus := s.bus.step (.send k)
        flights := before ++ after
        replies := s.replies ++ [⟨f, a, event⟩] }
  | abandon {s before f after} : s.flights = before ++ f :: after → f.stage.Unrecorded →
      Step s { s with flights := before ++ after }

/-- A server that has booted, with an empty bus. -/
structure Fresh (s : Server) : Prop where
  layered : s.plane.Layered
  history : s.history = [s.plane.resolved]
  metrics : s.metrics = .seeded
  inFlight : s.bus.inFlight = []
  log : s.bus.log = []
  flights : s.flights = []
  replies : s.replies = []

/-! ### What the answers follow -/

/-- The effects are those of rules that one configuration has for the path, in force no earlier than
after the first `since` changes. -/
def Resolution.Lawful (history : List Resolved) (path : String) (since : Nat) (r : Resolution)
    (fired : List FaultSpec) : Prop :=
  since ≤ r.changes ∧ ∃ config fuel specs roll, history[r.changes]? = some config ∧
    config.faultsFor fuel path = some specs ∧ Effects.resolve specs roll = some r.effects ∧
    fired = firing roll specs 0

/-- A response that follows the rules of one configuration. -/
def Answer.Lawful (history : List Resolved) (path : String) (since : Nat) (a : Answer) : Prop :=
  ∃ fired, a.resolution.Lawful history path since fired ∧ Served fired a.handled a.response

/-- An event that tells what a request got, no sooner than after the delay of the rules. -/
def Answer.Told (f : Flight) (a : Answer) (request : HttpRequest) : Prop :=
  ∃ latency, request = f.request a latency ∧
    a.resolution.effects.delay.getD 0 * 1000000 ≤ latency

/-- The invariant of one request. -/
def Flight.Lawful (history : List Resolved) (now : Nat) (f : Flight) : Prop :=
  match f.stage with
  | .arrived => f.since < history.length
  | .delayed r => (∃ fired, r.Lawful history f.path f.since fired)
  | .handling r => (∃ fired, r.Lawful history f.path f.since fired) ∧ r.Elapsed now ∧
      short r.effects = none
  | .responded a => a.Lawful history f.path f.since ∧ a.resolution.Elapsed now
  | .recorded a request => a.Lawful history f.path f.since ∧ a.Told f request
  | .emitting a event => a.Lawful history f.path f.since ∧
      ∃ request, event.kind = .domain (.httpRequest request) ∧ a.Told f request

def Reply.Lawful (history : List Resolved) (r : Reply) : Prop :=
  r.answer.Lawful history r.flight.path r.flight.since ∧
    ∃ request, r.event.kind = .domain (.httpRequest request) ∧ r.answer.Told r.flight request

/-- The invariant: every request follows the configurations that were served so far. -/
structure Inv (s : Server) : Prop where
  served : s.history.getLast? = some s.plane.resolved
  flights : ∀ f ∈ s.flights, f.Lawful s.history s.now
  replies : ∀ r ∈ s.replies, r.Lawful s.history

variable {s t : Server} {history : List Resolved} {now : Nat}

theorem Resolution.Lawful.more {path : String} {since : Nat} {r : Resolution}
    {fired : List FaultSpec} (h : r.Lawful history path since fired) (later : List Resolved) :
    r.Lawful (history ++ later) path since fired := by
  obtain ⟨le, config, fuel, specs, roll, at_, rest⟩ := h
  refine ⟨le, config, fuel, specs, roll, ?_, rest⟩
  obtain ⟨inside, -⟩ := List.getElem?_eq_some_iff.mp at_
  rw [List.getElem?_append_left inside, at_]

theorem Answer.Lawful.more {path : String} {since : Nat} {a : Answer}
    (h : a.Lawful history path since) (later : List Resolved) :
    a.Lawful (history ++ later) path since := by
  obtain ⟨fired, resolution, served⟩ := h
  exact ⟨fired, resolution.more later, served⟩

/-- A request stays lawful when more configurations are served and time passes. -/
theorem Flight.Lawful.more {f : Flight} (h : f.Lawful history now) (later : List Resolved)
    (d : Nat) : f.Lawful (history ++ later) (now + d) := by
  unfold Flight.Lawful at h ⊢
  split at h
  · exact h.trans_le (by simp)
  · exact h.imp fun fired lawful => lawful.more later
  · exact ⟨h.1.imp fun fired lawful => lawful.more later, h.2.1.trans (Nat.le_add_right _ _), h.2.2⟩
  · exact ⟨h.1.more later, h.2.trans (Nat.le_add_right _ _)⟩
  · exact ⟨h.1.more later, h.2⟩
  · exact ⟨h.1.more later, h.2⟩

/-- A step that only the request sees keeps its invariant. -/
theorem Flight.Lawful.moves {f : Flight} {stage : Stage} (h : f.Lawful s.history s.now)
    (served : s.history.getLast? = some s.plane.resolved) (moves : Moves s f.path f.stage stage) :
    ({ f with stage } : Flight).Lawful s.history s.now := by
  unfold Flight.Lawful at h
  generalize eq : f.stage = here at h moves
  cases moves with
  | @resolve fuel specs roll effects matched resolved =>
    have since : f.since < s.history.length := h
    refine ⟨_, Nat.le_sub_one_of_lt since, s.plane.resolved, fuel, specs, roll, ?_, matched,
      resolved, rfl⟩
    rw [← List.getLast?_eq_getElem?]
    exact served
  | @short r response elapsed answers =>
    obtain ⟨fired, lawful⟩ := h
    obtain ⟨-, config, fuel, specs, roll, -, -, resolved, rfl⟩ := id lawful
    exact ⟨⟨_, lawful, (latest_resolve resolved).served_short answers⟩, elapsed⟩
  | @run r elapsed runs => exact ⟨h, elapsed, runs⟩
  | @handle r response =>
    obtain ⟨⟨fired, lawful⟩, elapsed, runs⟩ := h
    obtain ⟨-, config, fuel, specs, roll, -, -, resolved, rfl⟩ := id lawful
    exact ⟨⟨_, lawful, (latest_resolve resolved).served_passed runs response⟩, elapsed⟩

theorem Inv.start (h : Fresh s) : Inv s := by
  refine ⟨by rw [h.history]; rfl, ?_, ?_⟩
  · simp [h.flights]
  · simp [h.replies]

/-- A step that replaces one request keeps the invariant if it keeps that of the request. -/
theorem Inv.replace (h : Inv s) {before after : List Flight} {f g : Flight}
    (at_ : s.flights = before ++ f :: after) (lawful : g.Lawful s.history s.now)
    (plane : t.plane = s.plane) (history : t.history = s.history) (now : t.now = s.now)
    (flights : t.flights = before ++ g :: after) (replies : t.replies = s.replies) : Inv t where
  served := by rw [plane, history, h.served]
  flights other mem := by
    have others := h.flights
    rw [at_] at others
    rw [flights] at mem
    rw [history, now]
    rcases List.mem_append.mp mem with early | late
    · exact others other (List.mem_append_left _ early)
    · rcases List.mem_cons.mp late with rfl | late
      · exact lawful
      · exact others other (List.mem_append_right _ (List.mem_cons_of_mem _ late))
  replies r mem := by
    rw [replies] at mem
    rw [history]
    exact h.replies r mem

theorem Inv.step (h : Inv s) (step : Step s t) : Inv t := by
  have here {before after : List Flight} {f : Flight} (at_ : s.flights = before ++ f :: after) :
      f.Lawful s.history s.now := h.flights f (at_ ▸ by simp)
  cases step with
  | control op =>
    refine ⟨by simp, fun f mem => (h.flights f mem).more _ 0, fun r mem => ?_⟩
    obtain ⟨lawful, told⟩ := h.replies r mem
    exact ⟨lawful.more _, told⟩
  | pass d =>
    refine ⟨h.served, fun f mem => ?_, h.replies⟩
    simpa using (h.flights f mem).more [] d
  | bus foreign => exact ⟨h.served, h.flights, h.replies⟩
  | arrive method path =>
    refine ⟨h.served, fun f mem => ?_, h.replies⟩
    rcases List.mem_append.mp mem with before | new
    · exact h.flights f before
    · obtain rfl := List.mem_singleton.mp new
      have some : 0 < s.history.length :=
        List.length_pos_iff.mpr fun none => by simpa [none] using h.served
      show s.history.length - 1 < s.history.length
      omega
  | move at_ moves => exact h.replace at_ ((here at_).moves h.served moves) rfl rfl rfl rfl rfl
  | @record before f after a at_ responded =>
    have lawful := here at_
    simp only [Flight.Lawful, responded] at lawful
    refine h.replace at_ ?_ rfl rfl rfl rfl rfl
    have elapsed := lawful.2
    exact ⟨lawful.1, _, rfl, by unfold Resolution.Elapsed at elapsed; omega⟩
  | @assign before f after a request event at_ recorded kind =>
    have lawful := here at_
    simp only [Flight.Lawful, recorded] at lawful
    refine h.replace at_ ?_ rfl rfl rfl rfl rfl
    exact ⟨lawful.1, request, kind, lawful.2⟩
  | @send before f after a event k at_ emitting found =>
    have lawful := here at_
    simp only [Flight.Lawful, emitting] at lawful
    refine ⟨h.served, fun g mem => h.flights g ?_, fun r mem => ?_⟩
    · rw [at_]
      exact List.mem_append.mpr ((List.mem_append.mp mem).imp id (List.mem_cons_of_mem _))
    · rcases List.mem_append.mp mem with old | new
      · exact h.replies r old
      · obtain rfl := List.mem_singleton.mp new
        exact lawful
  | @abandon before f after at_ =>
    refine ⟨h.served, fun g mem => h.flights g ?_, h.replies⟩
    rw [at_]
    exact List.mem_append.mpr ((List.mem_append.mp mem).imp id (List.mem_cons_of_mem _))

theorem Inv.reachable (h : Machine.Reachable Fresh Step s) : Inv s :=
  h.invariant (fun _ fresh => .start fresh) fun _ _ _ ih step => ih.step step

/-- One configuration that was served after the request came in decides: the rules of that
configuration whose pattern matches the path and whose rolls win say whether the handler runs and
what the client gets, and the event has the status that the client gets, the names of the effects of
these rules in their order, and at least their delay. -/
def Reply.Follows (history : List Resolved) (reply : Reply) : Prop :=
  ∃ changes config fuel specs roll effects latency,
    reply.flight.since ≤ changes ∧ history[changes]? = some config ∧
    config.faultsFor fuel reply.flight.path = some specs ∧
    Effects.resolve specs roll = some effects ∧
    Served (firing roll specs 0) reply.answer.handled reply.answer.response ∧
    effects.delay.getD 0 * 1000000 ≤ latency ∧
    reply.event.kind = .domain (.httpRequest {
      method := reply.flight.method
      path := reply.flight.path
      status := reply.answer.response.status.code
      latencyMs := .ofNat (latency / 1000000)
      faults := (firing roll specs 0).flatMap FaultSpec.effects })

/-- In every run every request that is answered follows one configuration. -/
theorem replies_follow_rules (h : Machine.Reachable Fresh Step s) :
    ∀ reply ∈ s.replies, reply.Follows s.history := by
  intro reply mem
  obtain ⟨⟨fired, ⟨since, config, fuel, specs, roll, at_, matched, resolved, rfl⟩, served⟩, request,
    kind, latency, told, delay⟩ := (Inv.reachable h).replies reply mem
  refine ⟨_, config, fuel, specs, roll, _, latency, since, at_, matched, resolved, served, delay,
    ?_⟩
  rw [kind, told, ← (latest_resolve resolved).names]
  rfl

/-! A request on which a rule with a status fires. -/

def unavailable : FaultSpec := { Effects.withStatus 503 with route := "/api/*" }

/-- A server that injects `unavailable`, before any request. -/
def faulty : Server where
  plane := .new ⟨"default", none, none, [unavailable], .default, []⟩ (.new DateTime.unixEpoch)
    ⟨.fill 16 0⟩
  history := [⟨[unavailable], .default, []⟩]
  now := 0
  metrics := .seeded
  bus := .boot ⟨.new 1, 0, ⟨.fill 16 0⟩, 0, 0⟩
  flights := []
  replies := []

theorem faulty_fresh : Fresh faulty := ⟨rfl, rfl, rfl, rfl, rfl, rfl, rfl⟩

def refusal : Answer :=
  ⟨⟨0, ⟨none, StatusCode.fromU16 503, none, false, ["status"]⟩, 0⟩, none,
    overridden ⟨503, validStatus_503⟩⟩

/-- A ping is refused, and its event is out. -/
theorem refused_reachable : ∃ s, Machine.Reachable Fresh Step s ∧ ∃ reply ∈ s.replies,
    reply.answer = refusal := by
  let ping (stage : Stage) : Flight := ⟨"GET", "/api/ping", 0, stage⟩
  let event : Event DomainKind :=
    ⟨0, ⟨.fill 16 0⟩, DateTime.unixEpoch, DateTime.unixEpoch, none, none,
      .domain (.httpRequest ((ping .arrived).request refusal 0))⟩
  have start : Machine.Reachable Fresh Step faulty := .start faulty_fresh
  have arrived := start.next (.arrive faulty "GET" "/api/ping")
  have matched : faulty.plane.resolved.faultsFor 20 "/api/ping" = some [unavailable] := by
    decide +kernel
  have fires : Effects.resolve [unavailable] (fun _ => .finite (.ofRat 0)) =
      some refusal.resolution.effects := by decide +kernel
  have resolved := arrived.next (@Step.move _ [] (ping .arrived) [] _ rfl (.resolve matched fires))
  have answered := resolved.next (@Step.move _ [] (ping (.delayed refusal.resolution)) [] _ rfl
    (.short (Nat.le_refl 0) rfl))
  have recorded := answered.next (@Step.record _ [] (ping (.responded refusal)) [] _ rfl rfl)
  have assigned := recorded.next
    (@Step.assign _ [] (ping (.recorded refusal _)) [] _ _ event rfl rfl rfl)
  have sent := assigned.next
    (@Step.send _ [] (ping (.emitting refusal event)) [] _ _ 0 rfl rfl rfl)
  exact ⟨_, sent, _, List.mem_singleton_self _, rfl⟩

theorem replies_follow_rules_refused : ∃ s : Server, ∃ reply ∈ s.replies,
    reply.answer = refusal ∧ reply.Follows s.history := by
  obtain ⟨s, reachable, reply, mem, refused⟩ := refused_reachable
  exact ⟨s, reply, mem, refused, replies_follow_rules reachable reply mem⟩

end Servr.Http
