import Mathlib.Data.List.Basic
import Servr.Lib.Broadcast
import Servr.Queue.Job
import Servr.Time

/-! The event bus of `core/src/bus.rs`, with emitters and streams that run at once: an emission is
two steps, and so are the three steps of a poll that finds a lag. -/

namespace Servr

/-- `EventKind`: a gap, or one of the kinds `κ` that the bus passes on. -/
inductive EventKind (κ : Type)
  | gap (dropped : Nat)
  | domain (kind : κ)
  deriving DecidableEq

structure Event (κ : Type) where
  id : Nat
  run : RunId
  at_ : DateTime
  wallAt : DateTime
  traceId : Option TraceId
  spanId : Option SpanId
  kind : EventKind κ
  deriving DecidableEq

/-- A `BroadcastBus`, less its clock.  The counters are `u64`. -/
structure BroadcastBus (κ : Type) where
  tx : Broadcast.Ring (Event κ)
  receivers : Nat
  run : RunId
  seq : Nat
  dropped : Nat

variable {κ : Type}

namespace BroadcastBus

/-- The channel takes the next power of two, and panics without a slot and beyond `usize`. -/
def new (capacity : Nat) (run : RunId) : Option (BroadcastBus κ) :=
  if 0 < capacity ∧ capacity < 2 ^ 63 then
    some ⟨.new capacity.nextPowerOfTwo, 0, run, 0, 0⟩
  else none

/-- The first step of `emit`: the event takes the next id. -/
def takeId (bus : BroadcastBus κ) (event : Event κ) : Event κ × BroadcastBus κ :=
  ({ event with id := bus.seq }, { bus with seq := (bus.seq + 1) % 2 ^ 64 })

/-- The second step of `emit`.  A `send` without receivers keeps nothing. -/
def send (bus : BroadcastBus κ) (event : Event κ) : BroadcastBus κ :=
  if bus.receivers = 0 then bus else { bus with tx := bus.tx.send event }

end BroadcastBus

/-- What a lagging subscriber receives in place of the events that it missed. -/
def gapEvent (run : RunId) (at_ wallAt : DateTime) (id dropped : Nat) : Event κ where
  id := id
  run := run
  at_ := at_
  wallAt := wallAt
  traceId := none
  spanId := none
  kind := .gap dropped

namespace Bus

/-- What a stream yields: an event of the channel, or a gap event that the stream makes. -/
inductive Item (κ : Type)
  | received (event : Event κ)
  | gap (event : Event κ)
  deriving DecidableEq

namespace Item

def id : Item κ → Nat
  | received event | gap event => event.id

def received? : Item κ → Option (Event κ)
  | received event => some event
  | gap _ => none

def gap? : Item κ → Option (Event κ)
  | received _ => none
  | gap event => some event

/-- The number in a gap event of the stream. -/
def dropped : Item κ → Nat
  | gap ⟨_, _, _, _, _, _, .gap n⟩ => n
  | _ => 0

end Item

/-- Where a poll stands: it has found a lag of `n` events, and has counted it. -/
inductive Poll
  | rest
  | lagged (n : Nat)
  | counted (n : Nat)
  deriving DecidableEq

def Poll.lag : Poll → Nat
  | rest => 0
  | lagged n | counted n => n

def Poll.counts : Poll → Nat
  | counted n => n
  | _ => 0

/-- A stream that `subscribe` returned, with what it has yielded. -/
structure Stream (κ : Type) where
  live : Bool
  /-- The cursor of its receiver. -/
  next : Nat
  poll : Poll
  /-- The number of events emitted before it subscribed. -/
  joined : Nat
  items : List (Item κ)

namespace Stream

def received (stream : Stream κ) : List (Event κ) := stream.items.filterMap Item.received?

def gaps (stream : Stream κ) : List (Event κ) := stream.items.filterMap Item.gap?

/-- The sum of `dropped` over the gap events of a stream. -/
def dropped (stream : Stream κ) : Nat := (stream.items.map Item.dropped).sum

/-- A poll would wait. -/
def Drained (stream : Stream κ) (bus : BroadcastBus κ) : Prop :=
  stream.live = true ∧ stream.poll = .rest ∧ (bus.tx.recv stream.next).1 = .empty

end Stream

/-- A bus with the events that have an id and are not sent yet, in the order of their ids, all the
events that were sent, and the streams. -/
structure System (κ : Type) where
  bus : BroadcastBus κ
  inFlight : List (Event κ)
  log : List (Event κ)
  streams : List (Stream κ)

inductive Op (κ : Type)
  | assign (event : Event κ)
  /-- The emission of the `k`-th event in flight ends. -/
  | send (k : Nat)
  | subscribe
  | unsubscribe (i : Nat)
  /-- A poll of the `i`-th stream reads the channel. -/
  | recv (i : Nat)
  | count (i : Nat)
  /-- A poll yields its gap event, with the times that the clock reads. -/
  | deliver (i : Nat) (at_ wallAt : DateTime)

namespace System

def boot (bus : BroadcastBus κ) : System κ := ⟨bus, [], [], []⟩

/-- A stream that begins at the end of the channel. -/
def joining (s : System κ) : Stream κ where
  live := true
  next := s.bus.tx.tail
  poll := .rest
  joined := s.log.length
  items := []

def step (s : System κ) : Op κ → System κ
  | .assign event =>
    let (event, bus) := s.bus.takeId event
    { s with bus, inFlight := s.inFlight ++ [event] }
  | .send k =>
    match s.inFlight[k]? with
    | none => s
    | some event =>
      { s with
        bus := s.bus.send event
        inFlight := s.inFlight.eraseIdx k
        log := s.log ++ [event] }
  | .subscribe =>
    { s with
      bus := { s.bus with receivers := s.bus.receivers + 1 }
      streams := s.streams ++ [s.joining] }
  | .unsubscribe i =>
    match s.streams[i]? with
    | some ⟨true, next, .rest, joined, items⟩ =>
      { s with
        bus := { s.bus with receivers := s.bus.receivers - 1 }
        streams := s.streams.set i ⟨false, next, .rest, joined, items⟩ }
    | _ => s
  | .recv i =>
    match s.streams[i]? with
    | some ⟨true, next, .rest, joined, items⟩ =>
      match s.bus.tx.recv next with
      | (.empty, _) => s
      | (.value event, next) =>
        { s with
          streams := s.streams.set i ⟨true, next, .rest, joined, items ++ [.received event]⟩ }
      | (.lagged n, next) =>
        { s with streams := s.streams.set i ⟨true, next, .lagged n, joined, items⟩ }
    | _ => s
  | .count i =>
    match s.streams[i]? with
    | some ⟨true, next, .lagged n, joined, items⟩ =>
      { s with
        bus := { s.bus with dropped := (s.bus.dropped + n) % 2 ^ 64 }
        streams := s.streams.set i ⟨true, next, .counted n, joined, items⟩ }
    | _ => s
  | .deliver i at_ wallAt =>
    match s.streams[i]? with
    | some ⟨true, next, .counted n, joined, items⟩ =>
      let event := gapEvent s.bus.run at_ wallAt s.bus.seq n
      { s with streams := s.streams.set i ⟨true, next, .rest, joined, items ++ [.gap event]⟩ }
    | _ => s

/-- What a step does. -/
inductive Does (s : System κ) : Op κ → System κ → Prop
  | assign (event : Event κ) : Does s (.assign event) { s with
      bus := { s.bus with seq := (s.bus.seq + 1) % 2 ^ 64 }
      inFlight := s.inFlight ++ [{ event with id := s.bus.seq }] }
  | send {k event} : s.inFlight[k]? = some event → Does s (.send k) { s with
      bus := s.bus.send event
      inFlight := s.inFlight.eraseIdx k
      log := s.log ++ [event] }
  | subscribe : Does s .subscribe { s with
      bus := { s.bus with receivers := s.bus.receivers + 1 }
      streams := s.streams ++ [s.joining] }
  | unsubscribe {i next joined items} : s.streams[i]? = some ⟨true, next, .rest, joined, items⟩ →
      Does s (.unsubscribe i) { s with
        bus := { s.bus with receivers := s.bus.receivers - 1 }
        streams := s.streams.set i ⟨false, next, .rest, joined, items⟩ }
  | value {i next joined items event next'} :
      s.streams[i]? = some ⟨true, next, .rest, joined, items⟩ →
      s.bus.tx.recv next = (.value event, next') → Does s (.recv i) { s with
        streams := s.streams.set i ⟨true, next', .rest, joined, items ++ [.received event]⟩ }
  | lag {i next joined items n next'} : s.streams[i]? = some ⟨true, next, .rest, joined, items⟩ →
      s.bus.tx.recv next = (.lagged n, next') → Does s (.recv i) { s with
        streams := s.streams.set i ⟨true, next', .lagged n, joined, items⟩ }
  | count {i next n joined items} :
      s.streams[i]? = some ⟨true, next, .lagged n, joined, items⟩ → Does s (.count i) { s with
        bus := { s.bus with dropped := (s.bus.dropped + n) % 2 ^ 64 }
        streams := s.streams.set i ⟨true, next, .counted n, joined, items⟩ }
  | deliver {i at_ wallAt next n joined items} :
      s.streams[i]? = some ⟨true, next, .counted n, joined, items⟩ →
      Does s (.deliver i at_ wallAt) { s with
        streams := s.streams.set i ⟨true, next, .rest, joined,
          items ++ [.gap (gapEvent s.bus.run at_ wallAt s.bus.seq n)]⟩ }

/-- A step that is not possible leaves the system as it is. -/
theorem step_cases (s : System κ) (op : Op κ) :
    (s.step op = s ∧ ∀ t, ¬Does s op t) ∨ Does s op (s.step op) := by
  cases op with
  | assign event => exact .inr (.assign event)
  | subscribe => exact .inr .subscribe
  | send k =>
    simp only [step]
    split
    · refine .inl ⟨rfl, ?_⟩
      rintro t ⟨⟩
      simp_all
    · exact .inr (.send ‹_›)
  | unsubscribe i =>
    simp only [step]
    split
    · exact .inr (.unsubscribe ‹_›)
    · rename_i none
      refine .inl ⟨rfl, ?_⟩
      intro t does
      cases does with
      | unsubscribe at_ => exact none _ _ _ at_
  | recv i =>
    simp only [step]
    split
    · split
      · refine .inl ⟨rfl, ?_⟩
        rintro t (_ | _) <;> simp_all
      · exact .inr (.value ‹_› ‹_›)
      · exact .inr (.lag ‹_› ‹_›)
    · rename_i none
      refine .inl ⟨rfl, ?_⟩
      intro t does
      cases does with
      | value at_ | lag at_ => exact none _ _ _ at_
  | count i =>
    simp only [step]
    split
    · exact .inr (.count ‹_›)
    · rename_i none
      refine .inl ⟨rfl, ?_⟩
      intro t does
      cases does with
      | count at_ => exact none _ _ _ _ at_
  | deliver i at_ wallAt =>
    simp only [step]
    split
    · exact .inr (.deliver ‹_›)
    · rename_i none
      refine .inl ⟨rfl, ?_⟩
      intro t does
      cases does with
      | deliver at_ => exact none _ _ _ _ at_

end System

end Bus

end Servr
