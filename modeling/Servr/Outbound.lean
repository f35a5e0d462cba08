import Mathlib.Data.UInt
import Servr.Config
import Servr.Queue.Job

/-! The outbound sender of `hooks/src/outbound.rs`: a queue of webhook deliveries, calls of
`enqueue` that push to it, and the passes of `tick`, which clones what is due, attempts it and
writes it back. -/

namespace Servr.Outbound

/-- Backoff used when an endpoint does not configure one, in virtual ms. -/
def DEFAULT_BACKOFF_MS : List UInt64 := [1000, 5000, 30000]

inductive SendError
  | failFirst (attempt of_ : UInt32)
  | http (text : String)
  deriving DecidableEq

def SendError.display : SendError → String
  | failFirst attempt of_ => s!"failed by fail_first (attempt {attempt} of {of_})"
  | http text => s!"request failed: {text}"

/-- A queued delivery and everything needed to retry it. -/
@[ext] structure Delivery where
  id : Uuid
  endpoint : WebhookEndpoint
  body : Json.Value
  enqueuedAt : DateTime
  /-- Attempts already made. -/
  attempt : UInt32
  dueAt : DateTime
  trace : Option (TraceId × SpanId)
  done : Bool
  lastStatus : Option UInt16
  lastError : Option String

/-- `EventKind::WebhookOut`. -/
structure WebhookOut where
  endpoint : String
  attempt : UInt32
  status : Option UInt16
  nextRetryAt : Option DateTime

/-- A 2xx answer. -/
def succeeded : Except SendError UInt16 → Bool
  | .ok status => 200 ≤ status && status < 300
  | .error _ => false

/-- `outcome.as_ref().err().map(|e| e.to_string())`. -/
def errorText : Except SendError UInt16 → Option String
  | .ok _ => none
  | .error e => some e.display

namespace Delivery

/-- The delivery that `enqueue` builds, with the id and the trace that it reads. -/
def new (id : Uuid) (endpoint : WebhookEndpoint) (body : Json.Value) (now : DateTime)
    (trace : Option (TraceId × SpanId)) : Delivery where
  id := id
  endpoint := endpoint
  body := body
  enqueuedAt := now
  attempt := 0
  dueAt := now
  trace := trace
  done := false
  lastStatus := none
  lastError := none

def backoff (d : Delivery) : List UInt64 :=
  if d.endpoint.backoffMs.isEmpty then DEFAULT_BACKOFF_MS else d.endpoint.backoffMs

/-- Total attempts allowed: the first, plus one per backoff entry. -/
def maxAttempts (d : Delivery) : UInt32 := .ofNat d.backoff.length + 1

/-- When attempt `n` is due, counted from the enqueue; `none` is the panic of a sum out of range. -/
def dueFor (d : Delivery) (n : UInt32) : Option DateTime :=
  let offset : UInt64 := (d.backoff.take (n.toNat - 1)).sum
  d.enqueuedAt.addMillis (asI64 offset.toNat)

/-- `attempt` after the request: the delivery with its outcome, and the event that it emits. -/
def settle (d : Delivery) (outcome : Except SendError UInt16) : Option (Delivery × WebhookOut) :=
  let status := outcome.toOption
  let d := { d with lastStatus := status, lastError := errorText outcome }
  if succeeded outcome || d.maxAttempts ≤ d.attempt then
    some ({ d with done := true }, ⟨d.endpoint.name, d.attempt, status, none⟩)
  else
    match d.dueFor (d.attempt + 1) with
    | none => none
    | some due =>
      some ({ d with dueAt := due }, ⟨d.endpoint.name, d.attempt, status, some due⟩)

end Delivery

/-- Writes a delivery back to the first slot with its id. -/
def replace (queue : List Delivery) (d : Delivery) : List Delivery :=
  match queue with
  | [] => []
  | slot :: rest => if slot.id = d.id then d :: rest else slot :: replace rest d

/-- Where the one pass of `tick` stands, with the deliveries that are still to be attempted. -/
inductive Tick
  | idle
  /-- It has read the clock. -/
  | begun (now : DateTime)
  | attempting (due : List Delivery)
  /-- The request is out. -/
  | posted (d : Delivery) (due : List Delivery)
  | delivered (d : Delivery) (outcome : Except SendError UInt16) (due : List Delivery)
  /-- The event is out, and the delivery is to be written back. -/
  | told (d : Delivery) (due : List Delivery)
  | panicked

/-- An attempt that began, at a reading of the clock. -/
structure Attempt where
  delivery : Uuid
  number : UInt32
  at_ : DateTime

/-- A request that went to the receiver. -/
structure Post where
  delivery : Uuid
  number : UInt32
  url : String
  body : Json.Value

/-- What came back for a request: the status that the receiver answered with, or the text of an
error. -/
structure Answer where
  delivery : Uuid
  number : UInt32
  result : Except String UInt16

/-- An event on the bus, with the delivery that it is about. -/
structure Emitted where
  delivery : Uuid
  at_ : DateTime
  event : WebhookOut

/-- The sender, the reading of the clock, the calls of `enqueue` that are to push a delivery, and
what has been pushed, attempted, posted, answered and emitted. -/
structure System where
  now : DateTime
  calls : List Delivery
  queue : List Delivery
  tick : Tick
  pushed : List Delivery
  attempts : List Attempt
  posts : List Post
  answers : List Answer
  events : List Emitted

inductive Op
  /-- The clock moves on to `t`, unless it is past `t`. -/
  | clock (t : DateTime)
  /-- A call of `enqueue` reads the clock and draws an id. -/
  | enqueue (id : Uuid) (endpoint : WebhookEndpoint) (body : Json.Value)
      (trace : Option (TraceId × SpanId))
  /-- The `k`-th call of `enqueue` pushes its delivery and returns. -/
  | push (k : Nat)
  | tick
  | collect
  | attempt
  /-- The receiver answers, or the request fails with the text of an error. -/
  | answer (result : Except String UInt16)
  | emit
  | replace

namespace System

def new (now : DateTime) : System := ⟨now, [], [], .idle, [], [], [], [], []⟩

def step (s : System) : Op → System
  | .clock t => { s with now := max s.now t }
  | .enqueue id endpoint body trace =>
    { s with calls := s.calls ++ [.new id endpoint body s.now trace] }
  | .push k =>
    match s.calls[k]? with
    | none => s
    | some d =>
      { s with calls := s.calls.eraseIdx k, queue := s.queue ++ [d], pushed := s.pushed ++ [d] }
  | .tick =>
    match s.tick with
    | .idle => { s with tick := .begun s.now }
    | _ => s
  | .collect =>
    match s.tick with
    | .begun now =>
      { s with tick := .attempting (s.queue.filter fun d => !d.done && d.dueAt ≤ now) }
    | _ => s
  | .attempt =>
    match s.tick with
    | .attempting [] => { s with tick := .idle }
    | .attempting (d :: due) =>
      let d := { d with attempt := d.attempt + 1 }
      let s := { s with attempts := s.attempts ++ [Attempt.mk d.id d.attempt s.now] }
      if d.attempt ≤ d.endpoint.failFirst then
        { s with tick := .delivered d (.error (.failFirst d.attempt d.endpoint.failFirst)) due }
      else
        { s with
          posts := s.posts ++ [Post.mk d.id d.attempt d.endpoint.url d.body]
          tick := .posted d due }
    | _ => s
  | .answer result =>
    match s.tick with
    | .posted d due =>
      { s with
        answers := s.answers ++ [Answer.mk d.id d.attempt result]
        tick := .delivered d (result.mapError .http) due }
    | _ => s
  | .emit =>
    match s.tick with
    | .delivered d outcome due =>
      match d.settle outcome with
      | none => { s with tick := .panicked }
      | some (d, event) =>
        { s with events := s.events ++ [⟨d.id, s.now, event⟩], tick := .told d due }
    | _ => s
  | .replace =>
    match s.tick with
    | .told d due => { s with queue := Outbound.replace s.queue d, tick := .attempting due }
    | _ => s

end System

end Servr.Outbound
