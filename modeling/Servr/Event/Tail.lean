import Servr.Bus.Accounts
import Servr.Event

/-! The live tail of `/_admin/events`: the texts of what a stream of the bus yields.  In every run a
client that decodes them has the items of the stream, gap events included, in their order. -/

namespace Servr.Bus

variable {Text : Type} {w : Wire Text}

def Item.event {κ : Type} : Item κ → Event κ
  | .received event | .gap event => event

/-- What `events` serves of a stream, one text for each event. -/
def Stream.texts (w : Wire Text) (stream : Stream DomainKind) : List Text :=
  stream.items.map fun item => item.event.encode w

/-- The gap events of a stream, and the lag that its poll has found, give at most `n` events. -/
structure Stream.Within (stream : Stream DomainKind) (n : Nat) : Prop where
  lag : stream.poll.lag ≤ n
  gaps : ∀ event ∈ stream.gaps, event.id < 2 ^ 64 ∧ ∃ dropped ≤ n, event.kind = .gap dropped

/-- The invariant after `n` steps: the events have numbers of the source, and no stream can have
missed more events than were sent. -/
structure System.Within (s : System DomainKind) (n : Nat) : Prop where
  seq : s.bus.seq < 2 ^ 64
  tail : s.bus.tx.tail ≤ n
  inFlight : ∀ event ∈ s.inFlight, event.InRange
  log : ∀ event ∈ s.log, event.InRange
  streams : ∀ stream ∈ s.streams, stream.Within n

variable {stream : Stream DomainKind} {s t : System DomainKind} {m n : Nat}

theorem Stream.Within.mono (h : stream.Within m) (le : m ≤ n) : stream.Within n where
  lag := h.lag.trans le
  gaps event mem := by
    obtain ⟨id, dropped, small, kind⟩ := h.gaps event mem
    exact ⟨id, dropped, small.trans le, kind⟩

namespace System

theorem Within.mono (h : s.Within m) (le : m ≤ n) : s.Within n :=
  ⟨h.seq, h.tail.trans le, h.inFlight, h.log, fun stream mem => (h.streams stream mem).mono le⟩

/-- A step replaces one stream. -/
theorem Within.setStream (h : s.Within n) {i : Nat} {moved : Stream DomainKind}
    (streams : t.streams = s.streams.set i moved) (seq : t.bus.seq = s.bus.seq)
    (tx : t.bus.tx = s.bus.tx) (inFlight : t.inFlight = s.inFlight) (log : t.log = s.log)
    (within : moved.Within n) : t.Within n where
  seq := seq ▸ h.seq
  tail := tx ▸ h.tail
  inFlight := inFlight ▸ h.inFlight
  log := log ▸ h.log
  streams stream mem := by
    rw [streams] at mem
    rcases List.mem_or_eq_of_mem_set mem with before | rfl
    · exact h.streams stream before
    · exact within

theorem Within.does {op : Op DomainKind} (h : s.Within n) (does : Does s op t)
    (kind : ∀ event, op = .assign event → event.kind.InRange) : t.Within (n + 1) := by
  have later := h.mono (Nat.le_succ n)
  cases does with
  | assign event =>
    refine ⟨Nat.mod_lt _ (by decide), later.tail, fun e mem => ?_, h.log, later.streams⟩
    rcases List.mem_append.mp mem with before | new
    · exact h.inFlight e before
    · obtain rfl := List.mem_singleton.mp new
      exact ⟨h.seq, kind event rfl⟩
  | @send k event found =>
    refine ⟨?_, ?_, fun e mem => h.inFlight e (List.mem_of_mem_eraseIdx mem), fun e mem => ?_,
      later.streams⟩
    · unfold BroadcastBus.send
      split <;> exact h.seq
    · unfold BroadcastBus.send
      split
      · exact later.tail
      · exact Nat.succ_le_succ h.tail
    · rcases List.mem_append.mp mem with before | new
      · exact h.log e before
      · obtain rfl := List.mem_singleton.mp new
        exact h.inFlight e (List.mem_of_getElem? found)
  | subscribe =>
    refine ⟨h.seq, later.tail, h.inFlight, h.log, fun stream mem => ?_⟩
    rcases List.mem_append.mp mem with before | new
    · exact later.streams stream before
    · obtain rfl := List.mem_singleton.mp new
      exact ⟨Nat.zero_le _, by simp [joining, Stream.gaps]⟩
  | unsubscribe at_ =>
    have before := later.streams _ (List.mem_of_getElem? at_)
    exact later.setStream rfl rfl rfl rfl rfl ⟨before.lag, before.gaps⟩
  | value at_ found =>
    have before := later.streams _ (List.mem_of_getElem? at_)
    refine later.setStream rfl rfl rfl rfl rfl ⟨before.lag, fun event mem => before.gaps event ?_⟩
    simpa [Stream.gaps, Item.gap?] using mem
  | lag at_ found =>
    have before := later.streams _ (List.mem_of_getElem? at_)
    obtain ⟨rfl, -, oldest⟩ := Broadcast.Ring.recv_lagged found
    have sent := s.bus.tx.oldest_le
    have tail := later.tail
    exact later.setStream rfl rfl rfl rfl rfl ⟨by simp only [Poll.lag]; omega, before.gaps⟩
  | count at_ =>
    have before := later.streams _ (List.mem_of_getElem? at_)
    exact later.setStream rfl rfl rfl rfl rfl ⟨before.lag, before.gaps⟩
  | deliver at_ =>
    have before := later.streams _ (List.mem_of_getElem? at_)
    refine later.setStream rfl rfl rfl rfl rfl ⟨Nat.zero_le _, fun event mem => ?_⟩
    rw [Stream.gaps, List.filterMap_append] at mem
    rcases List.mem_append.mp mem with old | new
    · exact before.gaps event old
    · obtain rfl : event = _ := by simpa [Item.gap?] using new
      exact ⟨h.seq, _, before.lag, rfl⟩

theorem within_run {capacity : Nat} {run : RunId} {bus : BroadcastBus DomainKind}
    (new : BroadcastBus.new capacity run = some bus) (ops : List (Op DomainKind))
    (kinds : ∀ event, .assign event ∈ ops → event.kind.InRange) :
    (ops.foldl step (boot bus)).Within ops.length := by
  induction ops using List.reverseRecOn with
  | nil =>
    unfold BroadcastBus.new at new
    split at new
    · cases new
      exact ⟨Nat.two_pow_pos 64, le_refl 0, by simp [boot], by simp [boot], by simp [boot]⟩
    · contradiction
  | append_singleton ops op ih =>
    have before := ih fun event mem => kinds event (List.mem_append_left _ mem)
    rw [List.foldl_append, List.foldl_cons, List.foldl_nil, List.length_append,
      List.length_singleton]
    rcases step_cases (ops.foldl step (boot bus)) op with ⟨same, -⟩ | does
    · rw [same]
      exact before.mono (Nat.le_succ _)
    · refine before.does does fun event assigns => kinds event ?_
      rw [assigns]
      exact List.mem_append_right _ (List.mem_singleton_self _)

end System

/-- In every run of fewer than 2^64 steps whose events have numbers of the source, the texts of each
stream decode to the items of the stream, in their order. -/
theorem tail_decodes (lawful : w.Lawful) {capacity : Nat} {run : RunId}
    {bus : BroadcastBus DomainKind} (new : BroadcastBus.new capacity run = some bus)
    (ops : List (Op DomainKind)) (few : ops.length < 2 ^ 64)
    (kinds : ∀ event, .assign event ∈ ops → event.kind.InRange) :
    ∀ stream ∈ (ops.foldl System.step (System.boot bus)).streams,
      (stream.texts w).map (Event.decode w) = stream.items.map fun item => some item.event := by
  intro stream mem
  have within := System.within_run new ops kinds
  obtain ⟨history, accounts⟩ := System.accounts_run new ops
  rw [Stream.texts, List.map_map]
  refine List.map_congr_left fun item held => Event.decode_encode lawful ?_
  cases item with
  | received event =>
    have received : event ∈ stream.received := List.mem_filterMap.mpr ⟨_, held, rfl⟩
    have sent := (accounts.streams stream mem).sublist.subset received
    exact within.log event (List.mem_of_mem_drop sent)
  | gap event =>
    obtain ⟨id, dropped, small, kind⟩ :=
      (within.streams stream mem).gaps event (List.mem_filterMap.mpr ⟨_, held, rfl⟩)
    refine ⟨id, ?_⟩
    show event.kind.InRange
    rw [kind]
    exact small.trans_lt few

/-- A bus with one slot. -/
def narrow : BroadcastBus DomainKind := ⟨.new 1, 0, ⟨.fill 16 0⟩, 0, 0⟩

theorem narrow_new : BroadcastBus.new 1 narrow.run = some narrow := by
  have one : Nat.nextPowerOfTwo 1 = 1 := by decide +kernel
  simp [BroadcastBus.new, one, narrow]

def chunkSent (seq : UInt32) : Event DomainKind :=
  ⟨0, narrow.run, DateTime.unixEpoch, DateTime.unixEpoch, none, none,
    .domain (.streamChunk (.fill 16 1) seq)⟩

/-- Two events for a stream with one slot, which yields a gap and the second of them. -/
def overrun : List (Op DomainKind) :=
  [.subscribe, .assign (chunkSent 0), .send 0, .assign (chunkSent 1), .send 0, .recv 0, .count 0,
    .deliver 0 DateTime.unixEpoch DateTime.unixEpoch, .recv 0]

theorem tail_decodes_overrun :
    ∃ stream ∈ (overrun.foldl System.step (System.boot narrow)).streams,
      stream.items.length = 2 ∧ (stream.texts Plain.wire).map (Event.decode Plain.wire) =
        stream.items.map fun item => some item.event := by
  have held : (overrun.foldl System.step (System.boot narrow)).streams ≠ [] :=
    List.ne_nil_of_length_pos (by decide)
  refine ⟨_, List.head_mem held, rfl, ?_⟩
  refine tail_decodes Plain.wire_lawful narrow_new overrun (by decide) ?_ _ (List.head_mem held)
  intro event mem
  have kind : ∃ seq, event.kind = .domain (.streamChunk (.fill 16 1) seq) := by
    simp only [overrun, List.mem_cons, Op.assign.injEq, reduceCtorEq, false_or, List.not_mem_nil,
      or_false] at mem
    rcases mem with rfl | rfl <;> exact ⟨_, rfl⟩
  obtain ⟨seq, kind⟩ := kind
  rw [kind]
  trivial

end Servr.Bus
