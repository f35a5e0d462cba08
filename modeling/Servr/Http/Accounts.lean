import Mathlib.Data.List.Perm.Basic
import Servr.Http.Layer

/-! The metrics against the event log.  Whatever requests pass the fault layer at once, each counter
is the count over the events of the requests that are out and those that are on their way. -/

namespace Servr.Http

/-- The request that the metrics have counted and that has no event yet. -/
def Flight.pending? (f : Flight) : Option HttpRequest :=
  match f.stage with
  | .recorded _ request => some request
  | _ => none

def requests (events : List (Event DomainKind)) : List HttpRequest :=
  events.filterMap fun event => request? event.kind

/-- The requests with an event on the bus, sent or not, and those counted without one. -/
def Server.counted (s : Server) : List HttpRequest :=
  requests s.bus.log ++ requests s.bus.inFlight ++ s.flights.filterMap Flight.pending?

/-- A request as `record_request` counts it, with its latency in nanoseconds. -/
structure Timed where
  request : HttpRequest
  latency : Nat
  millis : request.latencyMs = .ofNat (latency / 1000000)

def Metrics.count (m : Metrics) (r : Timed) : Metrics :=
  m.recordRequest r.request.method r.request.status r.latency r.request.faults

/-! ### What the counters hold -/

theorem requests_foldl (rs : List Timed) {m : Metrics} {n : Nat} (method : String)
    (status : UInt16) (h : m.requests (method, status) = n % 2 ^ 64) :
    (rs.foldl Metrics.count m).requests (method, status) =
      (n + rs.countP fun r => r.request.method = method ∧ r.request.status = status)
        % 2 ^ 64 := by
  induction rs generalizing m n with
  | nil => simpa using h
  | cons r rs ih =>
    have counts : (m.count r).requests (method, status) =
        if (method, status) = (r.request.method, r.request.status) then
          (m.requests (method, status) + 1) % 2 ^ 64 else m.requests (method, status) :=
      increment_apply ..
    rw [List.foldl_cons, List.countP_cons]
    by_cases same : r.request.method = method ∧ r.request.status = status
    · have step : (m.count r).requests (method, status) = (n + 1) % 2 ^ 64 := by
        rw [counts, if_pos (by rw [same.1, same.2]), h]
        omega
      rw [ih step, if_pos (by simpa using same)]
      omega
    · have step : (m.count r).requests (method, status) = n % 2 ^ 64 := by
        rw [counts, if_neg fun eq => same (by cases eq; exact ⟨rfl, rfl⟩), h]
      rw [ih step, if_neg (by simpa using same)]
      omega

theorem faults_foldl (rs : List Timed) (m : Metrics) :
    (rs.foldl Metrics.count m).faults =
      (rs.flatMap fun r => r.request.faults).foldl increment m.faults := by
  induction rs generalizing m with
  | nil => rfl
  | cons r rs ih =>
    rw [List.foldl_cons, ih, List.flatMap_cons, List.foldl_append]
    rfl

theorem durations_foldl (rs : List Timed) (m : Metrics) (method : String) :
    (rs.foldl Metrics.count m).durations method =
      m.durations method ++
        (rs.filter fun r => r.request.method = method).map Timed.latency := by
  induction rs generalizing m with
  | nil => simp
  | cons r rs ih =>
    rw [List.foldl_cons, ih]
    by_cases same : r.request.method = method
    · subst same
      simp [Metrics.count, Metrics.recordRequest]
    · have other : method ≠ r.request.method := fun eq => same eq.symm
      simp [Metrics.count, Metrics.recordRequest, same, Function.update_of_ne other]

/-! ### One step -/

theorem requests_append (es fs : List (Event DomainKind)) :
    requests (es ++ fs) = requests es ++ requests fs := List.filterMap_append

/-- Taking an event out of the list of those in flight. -/
theorem requests_eraseIdx {events : List (Event DomainKind)} {k : Nat} {event : Event DomainKind}
    (found : events[k]? = some event) :
    (requests events).Perm (requests [event] ++ requests (events.eraseIdx k)) := by
  obtain ⟨inside, rfl⟩ := List.getElem?_eq_some_iff.mp found
  rw [← requests_append]
  exact (List.getElem_cons_eraseIdx_perm inside).symm.filterMap _

variable {s t : Server}

/-- What a step of the bus without the layer leaves of the requests on it. -/
theorem requests_foreign {bus : Bus.System DomainKind} {op : Bus.Op DomainKind}
    (foreign : Foreign bus op) :
    (requests (bus.step op).log ++ requests (bus.step op).inFlight).Perm
      (requests bus.log ++ requests bus.inFlight) := by
  rcases bus.step_cases op with ⟨same, -⟩ | does
  · rw [same]
  · generalize bus.step op = next at does
    cases does with
    | assign event =>
      have none : requests [{ event with id := bus.bus.seq }] = [] := by
        have other : request? event.kind = none := foreign
        simp [requests, other]
      rw [requests_append, none, List.append_nil]
    | @send k event found =>
      have none : requests [event] = [] := by simpa [requests] using foreign event found
      have taken := requests_eraseIdx found
      rw [none, List.nil_append] at taken
      rw [requests_append, none, List.append_nil]
      exact taken.symm.append_left _
    | subscribe | unsubscribe | value | lag | count | deliver => exact .refl _

theorem pending_replace {before after : List Flight} {f g : Flight}
    (same : g.pending? = f.pending?) :
    (before ++ g :: after).filterMap Flight.pending? =
      (before ++ f :: after).filterMap Flight.pending? := by
  rw [List.filterMap_append, List.filterMap_append, List.filterMap_cons, List.filterMap_cons, same]

theorem pending_none {before after : List Flight} {f : Flight} (none : f.pending? = none) :
    (before ++ f :: after).filterMap Flight.pending? =
      (before ++ after).filterMap Flight.pending? := by
  rw [List.filterMap_append, List.filterMap_append, List.filterMap_cons, none]

theorem pending_some {before after : List Flight} {f : Flight} {request : HttpRequest}
    (some : f.pending? = some request) :
    ((before ++ f :: after).filterMap Flight.pending?).Perm
      (request :: (before ++ after).filterMap Flight.pending?) := by
  rw [List.filterMap_append, List.filterMap_append, List.filterMap_cons, some]
  exact List.perm_middle

/-- A request that is dropped has not been counted. -/
theorem counted_abandon {before after : List Flight} {f : Flight}
    (at_ : s.flights = before ++ f :: after) (early : f.stage.Unrecorded) :
    Server.counted { s with flights := before ++ after } = s.counted := by
  have none : f.pending? = none := by
    unfold Flight.pending?
    split
    · rename_i recorded
      rw [recorded] at early
      exact early.elim
    · rfl
  rw [Server.counted, Server.counted, at_, pending_none none]

/-- A step counts nothing and keeps the requests, or it counts one request more. -/
theorem counted_step (step : Step s t) :
    (t.metrics = s.metrics ∧ t.counted.Perm s.counted) ∨
      ∃ r : Timed, t.metrics = s.metrics.count r ∧ t.counted.Perm (r.request :: s.counted) := by
  unfold Server.counted
  cases step with
  | control | pass => exact .inl ⟨rfl, .refl _⟩
  | bus foreign => exact .inl ⟨rfl, (requests_foreign foreign).append_right _⟩
  | arrive method path =>
    refine .inl ⟨rfl, ?_⟩
    rw [List.filterMap_append]
    simp [List.filterMap_cons, Flight.pending?]
  | @move before f after stage at_ moves =>
    have same : ({ f with stage } : Flight).pending? = f.pending? := by
      unfold Flight.pending?
      generalize f.stage = here at moves
      cases moves <;> rfl
    refine .inl ⟨rfl, ?_⟩
    rw [at_, pending_replace same]
  | @record before f after a at_ responded =>
    let latency := s.now - a.resolution.started
    refine .inr ⟨⟨f.request a latency, latency, rfl⟩, rfl, ?_⟩
    have none : f.pending? = none := by rw [Flight.pending?, responded]
    rw [at_, pending_none none]
    exact ((pending_some rfl).append_left _).trans List.perm_middle
  | @assign before f after a request event at_ recorded kind =>
    refine .inl ⟨rfl, ?_⟩
    have some : f.pending? = some request := by rw [Flight.pending?, recorded]
    have told : requests [{ event with id := s.bus.bus.seq }] = [request] := by
      simp [requests, kind, request?]
    show (requests s.bus.log ++ requests (s.bus.inFlight ++ [_]) ++ _).Perm _
    rw [at_, requests_append, told, pending_none rfl, List.append_assoc, List.append_assoc,
      List.append_assoc]
    exact ((((pending_some some).symm).append_left _).append_left _)
  | @send before f after a event k at_ emitting found =>
    refine .inl ⟨rfl, ?_⟩
    have none : f.pending? = none := by rw [Flight.pending?, emitting]
    have sent : s.bus.step (.send k) = { s.bus with
        bus := s.bus.bus.send event
        inFlight := s.bus.inFlight.eraseIdx k
        log := s.bus.log ++ [event] } := by
      simp only [Bus.System.step, found]
    rw [at_, pending_none none, sent]
    refine List.Perm.append_right _ ?_
    show (requests (s.bus.log ++ [event]) ++ requests (s.bus.inFlight.eraseIdx k)).Perm _
    rw [requests_append, List.append_assoc]
    exact (requests_eraseIdx found).symm.append_left _
  | @abandon before f after at_ early =>
    have same := counted_abandon at_ early
    unfold Server.counted at same
    exact .inl ⟨rfl, same ▸ .refl _⟩

/-! ### Runs -/

/-- The metrics count the requests that have an event, and those that are about to have one: by
method and status, by the effects that fired, and with their latencies. -/
structure Server.Accounts (s : Server) : Prop where
  requests : ∀ method status, s.metrics.requests (method, status) =
    (s.counted.countP fun r => r.method = method ∧ r.status = status) % 2 ^ 64
  faults : ∀ effect, s.metrics.faults effect =
    (s.counted.flatMap HttpRequest.faults).count effect % 2 ^ 64
  durations : ∀ method,
    ((s.metrics.durations method).map fun ns => UInt64.ofNat (ns / 1000000)).Perm
      ((s.counted.filter fun r => r.method = method).map HttpRequest.latencyMs)

/-- The invariant: the metrics are the fold of the requests that are counted, in some order. -/
def Server.Folded (s : Server) : Prop :=
  ∃ rs : List Timed, s.metrics = rs.foldl Metrics.count .seeded ∧
    (rs.map Timed.request).Perm s.counted

theorem folded_reachable (h : Machine.Reachable Fresh Step s) : s.Folded := by
  refine h.invariant (fun s fresh => ?_) fun s t _ ih step => ?_
  · refine ⟨[], fresh.metrics, ?_⟩
    simp [Server.counted, fresh.inFlight, fresh.log, fresh.flights, Http.requests]
  · obtain ⟨rs, metrics, perm⟩ := ih
    rcases counted_step step with ⟨same, counted⟩ | ⟨r, more, counted⟩
    · exact ⟨rs, same.trans metrics, perm.trans counted.symm⟩
    · refine ⟨rs ++ [r], ?_, ?_⟩
      · rw [more, metrics, List.foldl_append]
        rfl
      · rw [List.map_append, List.map_singleton]
        exact (List.perm_append_singleton _ _).trans ((perm.cons _).trans counted.symm)

theorem Server.Folded.accounts (h : s.Folded) : s.Accounts := by
  obtain ⟨rs, metrics, perm⟩ := h
  constructor
  · intro method status
    have count := requests_foldl rs (m := .seeded) (n := 0) method status rfl
    rw [metrics, count, Nat.zero_add, ← perm.countP_eq, List.countP_map]
    rfl
  · intro effect
    have count : (rs.flatMap fun r => r.request.faults).foldl increment Metrics.seeded.faults effect
        = _ := foldl_increment (n := 0) _ rfl
    rw [metrics, faults_foldl, count, Nat.zero_add,
      ← (perm.flatMap_right HttpRequest.faults).count_eq, List.flatMap_map]
  · intro method
    have held : (rs.foldl Metrics.count .seeded).durations method = _ :=
      durations_foldl rs .seeded method
    have millis (r : Timed) : UInt64.ofNat (r.latency / 1000000) = r.request.latencyMs :=
      r.millis.symm
    have each := (perm.filter fun r => r.method = method).map HttpRequest.latencyMs
    rw [metrics, held]
    simpa [Metrics.seeded, List.filter_map, Function.comp_def, millis] using each

/-- In every run the counters are the counts over the requests that have an event or are about to
have one, and once none is on its way they are the counts over the events that were sent.  A request
may be dropped until it is counted, which changes neither. -/
theorem requests_accounted (h : Machine.Reachable Fresh Step s) :
    s.Accounts ∧ ((∀ f ∈ s.flights, f.pending? = none) → requests s.bus.inFlight = [] →
      s.counted = requests s.bus.log) ∧
    ∀ before f after, s.flights = before ++ f :: after → f.stage.Unrecorded →
      let t := { s with flights := before ++ after }
      Step s t ∧ t.metrics = s.metrics ∧ t.counted = s.counted := by
  refine ⟨(folded_reachable h).accounts, fun idle sent => ?_, fun before f after at_ early => ?_⟩
  · have none : s.flights.filterMap Flight.pending? = [] := List.filterMap_eq_nil_iff.mpr idle
    rw [Server.counted, sent, none, List.append_nil, List.append_nil]
  · exact ⟨.abandon at_ early, rfl, counted_abandon at_ early⟩

theorem requests_accounted_refused : ∃ s : Server,
    (∃ reply ∈ s.replies, reply.answer = refusal) ∧ s.Accounts := by
  obtain ⟨s, reachable, replied⟩ := refused_reachable
  exact ⟨s, replied, (requests_accounted reachable).1⟩

end Servr.Http
