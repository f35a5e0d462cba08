import Servr.Event
import Servr.Fault.Effects
import Servr.State

/-! The fault layer of `http/src/fault.rs`: what it answers to a request, given the effects of the
rules that fired, and the metrics of `telemetry/src/metrics.rs` that it counts.  What a client gets
depends on the rules that fired as `Served` says. -/

namespace Servr

open Ieee (Double)

/-- `Resolved::faults_for`, with `fuel` for each pattern. -/
def Resolved.faultsFor (fuel : Nat) (r : Resolved) (path : String) : Option (List FaultSpec) :=
  r.faults.filterM fun spec =>
    match spec.matches fuel path with
    | some (.ok applies) => some applies
    | some (.error _) | none => none

namespace Http

/-! ### Responses -/

/-- The bytes of a body, and whether its stream fails after them. -/
structure Body where
  bytes : List UInt8
  fails : Bool
  deriving DecidableEq

structure Response where
  status : StatusCode
  headers : List (String × String)
  body : Body
  deriving DecidableEq

theorem validStatus_200 : ValidStatus 200 := by decide

theorem validStatus_500 : ValidStatus 500 := by decide

theorem validStatus_503 : ValidStatus 503 := by decide

def OK : StatusCode := ⟨200, validStatus_200⟩

def INTERNAL_SERVER_ERROR : StatusCode := ⟨500, validStatus_500⟩

/-- `status.into_response()`. -/
def Response.ofStatus (status : StatusCode) : Response := ⟨status, [], ⟨[], false⟩⟩

/-- The body of a response whose connection is dropped. -/
def dropped : Body := ⟨[], true⟩

/-- `axum::Json` of the value that stands in for a handler's. -/
def overridden (status : StatusCode) : Response where
  status := status
  headers := [("content-type", "application/json")]
  body := ⟨asBytes "\x7b\"fault\":\"status\"\x7d".toList, false⟩

/-- Cuts the body short without correcting `content-length`. -/
def truncate (response : Response) (at_ : UInt64) : Response :=
  let body := response.body
  if body.fails then .ofStatus INTERNAL_SERVER_ERROR
  else { response with body := ⟨body.bytes.take (min at_.toNat body.bytes.length), false⟩ }

/-- The response of a request whose handler never runs. -/
def short (effects : Effects) : Option Response :=
  if effects.dropConnection then some ⟨effects.status.getD OK, [], dropped⟩
  else effects.status.map overridden

/-- What the layer makes of the response of a handler. -/
def passed (effects : Effects) (response : Response) : Response :=
  match effects.truncateAt with
  | some at_ => truncate response at_
  | none => response

/-! ### Metrics -/

/-- The series that requests count in, each counter a `u64`. -/
structure Metrics where
  /-- `testbed_http_requests_total`, by method and status. -/
  requests : String × UInt16 → Nat
  /-- `testbed_http_request_duration_seconds` by method, in nanoseconds. -/
  durations : String → List Nat
  /-- `testbed_faults_applied_total`, by effect. -/
  faults : String → Nat

/-- The recorder before any traffic. -/
def Metrics.seeded : Metrics := ⟨fun _ => 0, fun _ => [], fun _ => 0⟩

/-- `counter!(..).increment(1)` of the series `labels`. -/
def increment {α : Type} [DecidableEq α] (counter : α → Nat) (labels : α) : α → Nat :=
  Function.update counter labels ((counter labels + 1) % 2 ^ 64)

/-- Records one served request. -/
def Metrics.recordRequest (m : Metrics) (method : String) (status : UInt16) (latency : Nat)
    (faults : List String) : Metrics where
  requests := increment m.requests (method, status)
  durations := Function.update m.durations method (m.durations method ++ [latency])
  faults := faults.foldl increment m.faults

theorem increment_apply {α : Type} [DecidableEq α] (counter : α → Nat) (labels a : α) :
    increment counter labels a =
      if a = labels then (counter a + 1) % 2 ^ 64 else counter a := by
  unfold increment
  split
  · rename_i same
    rw [same, Function.update_self]
  · exact Function.update_of_ne ‹_› _ _

theorem foldl_increment {α : Type} [DecidableEq α] {counter : α → Nat} (as : List α) {a : α}
    {n : Nat} (h : counter a = n % 2 ^ 64) :
    as.foldl increment counter a = (n + as.count a) % 2 ^ 64 := by
  induction as generalizing counter n with
  | nil => simpa using h
  | cons b as ih =>
    rw [List.foldl_cons]
    by_cases same : a = b
    · subst same
      have step : increment counter a a = (n + 1) % 2 ^ 64 := by
        rw [increment_apply, if_pos rfl, h]
        omega
      rw [ih step, List.count_cons_self]
      omega
    · have step : increment counter b a = n % 2 ^ 64 := by
        rw [increment_apply, if_neg same, h]
      rw [ih step, List.count_cons_of_ne (fun eq => same eq.symm)]

/-! ### What the rules that fire add up to -/

/-- The status of the last of the rules that names one a response can carry. -/
def lastStatus (fired : List FaultSpec) : Option StatusCode :=
  (fired.filterMap fun spec => spec.status.bind StatusCode.fromU16).getLast?

/-- Where the last of the rules that truncate cuts. -/
def lastCut (fired : List FaultSpec) : Option UInt64 :=
  (fired.filterMap FaultSpec.truncateBodyAt).getLast?

/-- The scalar effects are those of the last rules that set them. -/
structure Latest (effects : Effects) (fired : List FaultSpec) : Prop where
  status : effects.status = lastStatus fired
  truncateAt : effects.truncateAt = lastCut fired
  dropConnection : effects.dropConnection = fired.any FaultSpec.dropConnection
  names : effects.names = fired.flatMap FaultSpec.effects

theorem getLast?_filterMap_append {α β : Type} (f : α → Option β) (as : List α) (a : α) :
    ((as ++ [a]).filterMap f).getLast? = (f a).or (as.filterMap f).getLast? := by
  rw [List.filterMap_append, List.getLast?_append]
  cases h : f a <;> simp [h]

theorem Latest.add {e e' : Effects} {fired : List FaultSpec} {spec : FaultSpec} {roll : Double}
    (latest : Latest e fired) (h : e.add spec roll = some e') : Latest e' (fired ++ [spec]) := by
  obtain ⟨delay, -, rfl⟩ := Option.map_eq_some_iff.mp h
  constructor
  · rw [lastStatus, getLast?_filterMap_append, latest.status]
    rfl
  · rw [lastCut, getLast?_filterMap_append, latest.truncateAt]
    rfl
  · simp [latest.dropConnection]
  · simp [latest.names]

theorem Latest.resolveFrom {roll : Nat → Double} {specs fired : List FaultSpec} {i : Nat}
    {e e' : Effects} (latest : Latest e fired) (h : Effects.resolveFrom roll specs i e = some e') :
    Latest e' (fired ++ firing roll specs i) := by
  induction specs generalizing fired i e with
  | nil =>
    cases h
    simpa using latest
  | cons spec specs ih =>
    rw [Effects.resolveFrom_cons] at h
    rw [firing_cons]
    split at h
    · rename_i loses
      rw [if_pos loses]
      exact ih latest h
    · rename_i fires
      obtain ⟨next, added, rest⟩ := Option.bind_eq_some_iff.mp h
      rw [if_neg fires, List.append_cons]
      exact ih (latest.add added) rest

theorem latest_default : Latest .default [] := ⟨rfl, rfl, rfl, rfl⟩

theorem latest_resolve {roll : Nat → Double} {specs : List FaultSpec} {e : Effects}
    (h : Effects.resolve specs roll = some e) : Latest e (firing roll specs 0) :=
  latest_default.resolveFrom h

/-- What a client gets of a request for which the rules `fired`, with the response of the handler
where it ran. -/
inductive Served (fired : List FaultSpec) : Option Response → Response → Prop
  /-- The body fails, under the status that the rules set. -/
  | dropped : fired.any FaultSpec.dropConnection = true →
      Served fired none ⟨(lastStatus fired).getD OK, [], dropped⟩
  | overridden {status} : fired.any FaultSpec.dropConnection = false →
      lastStatus fired = some status → Served fired none (overridden status)
  | whole (response) : fired.any FaultSpec.dropConnection = false → lastStatus fired = none →
      lastCut fired = none → Served fired (some response) response
  /-- The status and the headers of the handler stay, `content-length` among them. -/
  | cut {at_} (response : Response) : fired.any FaultSpec.dropConnection = false →
      lastStatus fired = none → lastCut fired = some at_ → response.body.fails = false →
      Served fired (some response)
        ⟨response.status, response.headers, ⟨response.body.bytes.take at_.toNat, false⟩⟩
  /-- A body that cannot be read cannot be cut. -/
  | broken {at_} (response : Response) : fired.any FaultSpec.dropConnection = false →
      lastStatus fired = none → lastCut fired = some at_ → response.body.fails = true →
      Served fired (some response) (.ofStatus INTERNAL_SERVER_ERROR)

variable {effects : Effects} {fired : List FaultSpec} {response : Response}

theorem Latest.served_short (latest : Latest effects fired) (h : short effects = some response) :
    Served fired none response := by
  unfold short at h
  split at h
  · rename_i drops
    cases h
    rw [latest.status]
    exact .dropped (latest.dropConnection ▸ drops)
  · rename_i keeps
    obtain ⟨status, set, rfl⟩ := Option.map_eq_some_iff.mp h
    exact .overridden (by simpa [← latest.dropConnection] using keeps) (latest.status ▸ set)

theorem Latest.served_passed (latest : Latest effects fired) (h : short effects = none)
    (response : Response) : Served fired (some response) (passed effects response) := by
  unfold short at h
  split at h
  · contradiction
  · rename_i keeps
    have keeps : fired.any FaultSpec.dropConnection = false := by
      simpa [← latest.dropConnection] using keeps
    have unset : lastStatus fired = none := latest.status ▸ Option.map_eq_none_iff.mp h
    unfold passed
    cases cut : effects.truncateAt with
    | none => exact .whole response keeps unset (latest.truncateAt ▸ cut)
    | some at_ =>
      have cut : lastCut fired = some at_ := latest.truncateAt ▸ cut
      show Served fired (some response) (truncate response at_)
      unfold truncate
      dsimp only
      split
      · exact .broken response keeps unset cut ‹_›
      · rename_i reads
        rw [← List.take_eq_take_min]
        exact .cut response keeps unset cut (by simpa using reads)

end Http

end Servr
