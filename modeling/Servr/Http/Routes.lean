import Servr.Http.Layer

/-! The routes that `server/src/main.rs` puts together, and which of them the fault layer wraps: the
data plane and nothing of the control plane.  So the control plane can always clear the rules, and
from then on requests get what their handlers answer. -/

namespace Servr.Http

/-! ### Routes -/

/-- What stands between the slashes of a pattern. -/
inductive Segment
  | literal (text : List Char)
  /-- A parameter, which takes any text that is not empty. -/
  | param
  deriving DecidableEq

def Segment.parse (text : List Char) : Segment :=
  if text.head? = some (Char.ofNat 0x7b) then .param else .literal text

def Segment.Takes : Segment → List Char → Prop
  | .literal text, part => part = text
  | .param, part => part ≠ []

/-- A path or a pattern between its slashes. -/
def parts (path : String) : List (List Char) := path.toList.splitOn '/'

structure Route where
  pattern : String
  methods : List String
  /-- The fault layer wraps it. -/
  guarded : Bool
  deriving DecidableEq

def Route.segments (r : Route) : List Segment := (parts r.pattern).map .parse

def Route.Matches (r : Route) (path : String) : Prop :=
  List.Forall₂ Segment.Takes r.segments (parts path)

/-- A route that no layer wraps.  A handler of `GET` answers `HEAD` too. -/
def route (pattern : String) (methods : List String) : Route where
  pattern := pattern
  methods := if "GET" ∈ methods then methods ++ ["HEAD"] else methods
  guarded := false

def guard (router : List Route) : List Route := router.map fun r => { r with guarded := true }

/-! The routers of the control plane, in `admin/src/lib.rs`. -/

def indexRouter : List Route := [route "/" ["GET"]]

def router : List Route :=
  [route "/_admin/health" ["GET"],
    route "/_admin/reset" ["POST"],
    route "/_admin/clock" ["GET"],
    route "/_admin/clock/advance" ["POST"],
    route "/_admin/clock/freeze" ["POST"],
    route "/_admin/clock/resume" ["POST"],
    route "/_admin/faults" ["GET", "POST", "DELETE"],
    route "/_admin/events" ["GET"],
    route "/_admin/snapshot" ["GET", "POST"],
    route "/_admin/telemetry/faults" ["GET", "POST", "DELETE"]]

def jobsRouter : List Route :=
  [route "/_admin/jobs" ["GET", "POST"], route "/_admin/jobs/\x7bid\x7d" ["GET"]]

def runsRouter : List Route :=
  [route "/_admin/runs" ["GET", "POST"], route "/_admin/runs/\x7bid\x7d" ["DELETE"]]

def wsRouter : List Route :=
  [route "/_admin/ws" ["GET"], route "/_admin/ws/publish" ["POST"],
    route "/_admin/ws/kill" ["POST"]]

def mailRouter : List Route :=
  [route "/_admin/mail" ["GET", "DELETE"], route "/_admin/mail/send" ["POST"]]

def hooksRouter : List Route :=
  [route "/_admin/hooks/in" ["GET"], route "/_admin/hooks/in/\x7bid\x7d" ["GET", "DELETE"],
    route "/_admin/hooks/out" ["GET", "POST"]]

def metricsRoute : List Route := [route "/metrics" ["GET"]]

/-! The routers of the data plane, each in its own crate. -/

/-- The routes of `http`. -/
def plane : List Route :=
  [route "/api/items" ["GET", "POST"], route "/api/items/\x7bid\x7d" ["GET", "DELETE"],
    route "/api/ping" ["GET"], route "/api/echo" ["POST"]]

def ws : List Route := [route "/ws" ["GET"]]

def stream : List Route :=
  [route "/v1/chat/completions" ["POST"], route "/_stream/\x7bid\x7d" ["GET"]]

def hooks : List Route := [route "/hooks/in/\x7bid\x7d" ["POST"]]

/-- The routes of the server. -/
def app : List Route :=
  indexRouter ++ router ++ jobsRouter ++ runsRouter ++ wsRouter ++ mailRouter ++ hooksRouter ++
    metricsRoute ++ guard plane ++ guard ws ++ guard stream ++ guard hooks

/-- The surfaces that faults are for, by the first name of a path. -/
def dataPlane : List (List Char) :=
  ["api".toList, "ws".toList, "v1".toList, "_stream".toList, "hooks".toList]

/-- A path of one of these surfaces. -/
def DataPlane (path : String) : Prop := ∃ name ∈ dataPlane, (parts path)[1]? = some name

/-! ### One route for a path -/

/-- Two patterns that may match one path. -/
def compatible : List Segment → List Segment → Bool
  | [], [] => true
  | .literal text :: rest, .literal text' :: rest' => text == text' && compatible rest rest'
  | _ :: rest, _ :: rest' => compatible rest rest'
  | _, _ => false

theorem compatible_of_takes {left right : List Segment} {path : List (List Char)}
    (h : List.Forall₂ Segment.Takes left path) (h' : List.Forall₂ Segment.Takes right path) :
    compatible left right = true := by
  induction h generalizing right with
  | nil =>
    cases h'
    rfl
  | @cons here part left rest takes tail ih =>
    cases h' with
    | @cons here' _ right _ takes' tail' =>
      have further := ih tail'
      cases here with
      | param => cases here' <;> exact further
      | literal text =>
        cases here' with
        | param => exact further
        | literal text' =>
          have same : text = text' := Eq.trans (Eq.symm takes) takes'
          simpa [compatible, same] using further

theorem compatible_app :
    ∀ r ∈ app, ∀ r' ∈ app, compatible r.segments r'.segments = true → r = r' := by
  decide +kernel

/-- Every pattern begins with a name of its surface. -/
theorem named_app : ∀ r ∈ app, ∃ name, r.segments[1]? = some (.literal name) ∧
    (r.guarded = true ↔ name ∈ dataPlane) := by
  have named : ∀ r ∈ app, ∃ name ∈ [[], "_admin".toList, "metrics".toList] ++ dataPlane,
      r.segments[1]? = some (.literal name) ∧ (r.guarded = true ↔ name ∈ dataPlane) := by
    decide +kernel
  intro r mem
  obtain ⟨name, -, rest⟩ := named r mem
  exact ⟨name, rest⟩

theorem Route.Matches.second {r : Route} {path : String} (h : r.Matches path) {name : List Char}
    (named : r.segments[1]? = some (.literal name)) : (parts path)[1]? = some name := by
  obtain ⟨inside, at_⟩ := List.getElem?_eq_some_iff.mp named
  have inPath : 1 < (parts path).length := h.length_eq ▸ inside
  have takes := h.get inside inPath
  simp only [List.get_eq_getElem, at_] at takes
  rw [List.getElem?_eq_getElem inPath]
  exact congrArg some takes

/-- At most one route of the server matches a path, and the fault layer wraps it exactly if the path
is one of the data plane. -/
theorem layer_wraps_data_plane (path : String) :
    (∀ r ∈ app, ∀ r' ∈ app, r.Matches path → r'.Matches path → r = r') ∧
    ∀ r ∈ app, r.Matches path → (r.guarded = true ↔ DataPlane path) := by
  refine ⟨fun r mem r' mem' h h' => ?_, fun r mem h => ?_⟩
  · exact compatible_app r mem r' mem' (compatible_of_takes h h')
  · obtain ⟨name, named, guarded⟩ := named_app r mem
    have second := h.second named
    rw [guarded]
    constructor
    · intro held
      exact ⟨name, held, second⟩
    · rintro ⟨other, held, at_⟩
      cases second.symm.trans at_
      exact held

/-! ### Clearing the rules -/

/-- An operation that leaves a control plane without rules as it is, or clears them. -/
def Harmless : State.Op → Prop
  | .addFault _ | .mutate _ | .reset => False
  | _ => True

/-- A step in which no rules can be added. -/
inductive Calm : Server → Server → Prop
  | control (s : Server) {op : State.Op} : Harmless op → Calm s { s with
      plane := s.plane.apply op
      history := s.history ++ [(s.plane.apply op).resolved] }
  | other {s t : Server} : Step s t → t.plane = s.plane → t.history = s.history → Calm s t

variable {s t : Server}

theorem Calm.step (h : Calm s t) : Step s t := by
  cases h with
  | control harmless => exact .control s _
  | other step => exact step

/-- What `DELETE /_admin/faults` makes of the server. -/
def Server.clear (s : Server) : Server :=
  { s with
    plane := s.plane.clearFaults
    history := s.history ++ [s.plane.clearFaults.resolved] }

/-- Since the clear, no configuration has had rules. -/
structure Cleared (s t : Server) : Prop where
  layered : t.plane.Layered
  faults : t.plane.resolved.faults = []
  later : ∃ later, t.history = s.history ++ later ∧ ∀ config ∈ later, config.faults = []

theorem cleared_clear (layered : s.plane.Layered) : Cleared s s.clear :=
  ⟨layered.mutate _, rfl, [s.plane.clearFaults.resolved], rfl, by
    simp only [List.forall_mem_singleton]
    rfl⟩

theorem Cleared.calm {u : Server} (h : Cleared s t) (calm : Calm t u) : Cleared s u := by
  obtain ⟨later, history, free⟩ := h.later
  cases calm with
  | other step same still => exact ⟨same ▸ h.layered, same ▸ h.faults, later, still ▸ history, free⟩
  | @control op harmless =>
    have faults : (t.plane.apply op).resolved.faults = [] := by
      by_cases sets : State.Op.Sets t.plane op .faults
      · cases op with
        | clearFaults => rfl
        | addFault | mutate | reset => exact harmless.elim
        | setTelemetryFaults | clearTelemetryFaults => cases sets
        | advance | freeze | resume => exact sets.elim
      · exact (h.layered.frame sets : _ = _).trans h.faults
    refine ⟨h.layered.apply op, faults, later ++ [(t.plane.apply op).resolved], ?_, ?_⟩
    · rw [← List.append_assoc, ← history]
    · intro config mem
      rcases List.mem_append.mp mem with before | new
      · exact free config before
      · rw [List.mem_singleton.mp new]
        exact faults

theorem Cleared.run {u : Server} (h : Cleared s t) (run : Relation.ReflTransGen Calm t u) :
    Cleared s u := by
  induction run with
  | refl => exact h
  | tail _ calm ih => exact ih.calm calm

theorem layered_reachable (h : Machine.Reachable Fresh Step s) : s.plane.Layered := by
  refine h.invariant (fun s fresh => fresh.layered) fun s t _ ih step => ?_
  cases step with
  | control op => exact ih.apply op
  | pass | bus | arrive | move | record | assign | send | abandon => exact ih

/-- A request that follows a configuration without rules gets what its handler answers. -/
theorem Answer.Lawful.whole {history : List Resolved} {path : String} {since : Nat} {a : Answer}
    (h : a.Lawful history path since)
    (free : ∀ changes config, since ≤ changes → history[changes]? = some config →
      config.faults = []) :
    a.handled = some a.response ∧ a.resolution.effects.names = [] := by
  obtain ⟨fired, ⟨le, config, fuel, specs, roll, at_, matched, resolved, rfl⟩, served⟩ := h
  have none : specs = [] := by
    rw [Resolved.faultsFor, free _ config le at_] at matched
    cases matched
    rfl
  subst none
  refine ⟨?_, (latest_resolve resolved).names⟩
  generalize a.handled = handled at served
  generalize a.response = response at served
  cases served with
  | dropped drops => simp at drops
  | overridden keeps sets => simp [lastStatus] at sets
  | whole => rfl
  | cut _ _ _ cut | broken _ _ _ cut => simp [lastCut] at cut

theorem clear_dispatched :
    ∃ r ∈ app, r.Matches "/_admin/faults" ∧ "DELETE" ∈ r.methods ∧ r.guarded = false := by
  refine ⟨route "/_admin/faults" ["GET", "POST", "DELETE"], by decide +kernel, ?_, by decide,
    rfl⟩
  have same : (route "/_admin/faults" ["GET", "POST", "DELETE"]).segments =
      (parts "/_admin/faults").map .literal := by decide +kernel
  rw [Route.Matches, same, List.forall₂_map_left_iff]
  exact List.forall₂_same.mpr fun part _ => rfl

/-- From every state that the server reaches, whatever its rules and requests, the clear is served
by a route that no layer wraps.  As long as no rules are added after it, every request that came in
after it gets exactly what its handler answers, and its event names no effect. -/
theorem recovers (h : Machine.Reachable Fresh Step s) :
    (∃ r ∈ app, r.Matches "/_admin/faults" ∧ "DELETE" ∈ r.methods ∧ r.guarded = false) ∧
    Step s s.clear ∧
    ∀ t, Relation.ReflTransGen Calm s.clear t → ∀ reply ∈ t.replies,
      s.history.length ≤ reply.flight.since →
        reply.answer.handled = some reply.answer.response ∧
        ∃ request, reply.event.kind = .domain (.httpRequest request) ∧ request.faults = [] := by
  have clears : Step s s.clear := .control s .clearFaults
  refine ⟨clear_dispatched, clears, fun t run reply mem late => ?_⟩
  have cleared : Cleared s t := (cleared_clear (layered_reachable h)).run run
  have reached : Machine.Reachable Fresh Step t :=
    (h.next clears).trans (Relation.ReflTransGen.mono (fun _ _ => Calm.step) _ _ run)
  obtain ⟨lawful, request, kind, latency, told, -⟩ := (Inv.reachable reached).replies reply mem
  obtain ⟨later, history, free⟩ := cleared.later
  obtain ⟨whole, names⟩ := lawful.whole fun changes config le at_ => by
    rw [history, List.getElem?_append_right (late.trans le)] at at_
    exact free config (List.mem_of_getElem? at_)
  exact ⟨whole, request, kind, by rw [told]; exact names⟩

/-- The answer of a handler that no rule touches. -/
def pong : Answer :=
  ⟨⟨1, .default, 0⟩, some ⟨OK, [], ⟨[1, 2, 3], false⟩⟩, ⟨OK, [], ⟨[1, 2, 3], false⟩⟩⟩

/-- A ping after a clear. -/
theorem pong_after_clear : ∃ t, Relation.ReflTransGen Calm faulty.clear t ∧
    ∃ reply ∈ t.replies, reply.answer = pong ∧ faulty.history.length ≤ reply.flight.since := by
  let ping (stage : Stage) : Flight := ⟨"GET", "/api/ping", 1, stage⟩
  let event : Event DomainKind :=
    ⟨0, ⟨.fill 16 0⟩, DateTime.unixEpoch, DateTime.unixEpoch, none, none,
      .domain (.httpRequest ((ping .arrived).request pong 0))⟩
  have start : Relation.ReflTransGen Calm faulty.clear faulty.clear := .refl
  have arrived := start.tail (.other (.arrive faulty.clear "GET" "/api/ping") rfl rfl)
  have resolved := arrived.tail (.other (@Step.move _ [] (ping .arrived) [] _ rfl
    (@Moves.resolve _ _ 0 [] (fun _ => .nan) .default rfl rfl)) rfl rfl)
  have running := resolved.tail (.other (@Step.move _ [] (ping (.delayed pong.resolution)) [] _ rfl
    (.run (Nat.le_refl 0) rfl)) rfl rfl)
  have answered := running.tail (.other (@Step.move _ [] (ping (.handling pong.resolution)) [] _ rfl
    (.handle pong.response)) rfl rfl)
  have recorded := answered.tail
    (.other (@Step.record _ [] (ping (.responded pong)) [] _ rfl rfl) rfl rfl)
  have assigned := recorded.tail
    (.other (@Step.assign _ [] (ping (.recorded pong _)) [] _ _ event rfl rfl rfl) rfl rfl)
  have sent := assigned.tail
    (.other (@Step.send _ [] (ping (.emitting pong event)) [] _ _ 0 rfl rfl rfl) rfl rfl)
  exact ⟨_, sent, _, List.mem_singleton_self _, rfl, Nat.le_refl 1⟩

theorem recovers_pong : ∃ t, Relation.ReflTransGen Calm faulty.clear t ∧ ∃ reply ∈ t.replies,
    reply.answer = pong ∧ reply.answer.handled = some reply.answer.response := by
  obtain ⟨t, run, reply, mem, answer, late⟩ := pong_after_clear
  exact ⟨t, run, reply, mem, answer,
    ((recovers (.start faulty_fresh)).2.2 t run reply mem late).1⟩

end Servr.Http
