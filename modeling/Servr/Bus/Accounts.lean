import Servr.Bus

/-! What the bus accounts for.  Whenever streams join, leave and are polled, a stream that is
drained has received a part of the events that were emitted since it subscribed, in their order, and
its gap events give the number of the others; the counter of the bus is the sum over all gap
events. -/

namespace Servr.Bus

open Broadcast (Account)

variable {κ : Type}

/-- Replacing an element of a list changes a sum by the difference. -/
theorem sum_map_set {α : Type} (f : α → Nat) {l : List α} {i : Nat} {a : α} (b : α)
    (at_ : l[i]? = some a) : ((l.set i b).map f).sum + f a = (l.map f).sum + f b := by
  induction l generalizing i with
  | nil => simp at at_
  | cons c l ih =>
    cases i with
    | zero =>
      obtain rfl : c = a := by simpa using at_
      simp only [List.set_cons_zero, List.map_cons, List.sum_cons]
      omega
    | succ i =>
      have rest := ih (by simpa using at_)
      simp only [List.set_cons_succ, List.map_cons, List.sum_cons]
      omega

namespace Stream

variable {stream : Stream κ} {history log : List (Event κ)}

/-- A stream has an account of the channel, which has kept every event emitted since the stream
subscribed for as long as it lives. -/
structure Accounted (stream : Stream κ) (history log : List (Event κ)) : Prop where
  account : ∃ first, Account history first stream.next stream.received
    (stream.dropped + stream.poll.lag) ∧
      (stream.live = true → history.drop first = log.drop stream.joined)
  joined : stream.joined ≤ log.length
  sublist : stream.received.Sublist (log.drop stream.joined)
  /-- A stream that has yielded no gap event has received every event up to some point. -/
  gapless : stream.gaps = [] → stream.received <+: log.drop stream.joined
  lagging : stream.poll = .rest ∨ 0 < stream.poll.lag

theorem Accounted.since (h : stream.Accounted history log) (event : Event κ) :
    log.drop stream.joined <+: (log ++ [event]).drop stream.joined := by
  rw [List.drop_append_of_le_length h.joined]
  exact List.prefix_append _ _

theorem Accounted.kept (h : stream.Accounted history log) (event : Event κ) :
    stream.Accounted (history ++ [event]) (log ++ [event]) where
  account := by
    obtain ⟨first, account, since⟩ := h.account
    refine ⟨first, account.extend _, fun live => ?_⟩
    rw [List.drop_append_of_le_length (account.first_le.trans account.le), since live,
      List.drop_append_of_le_length h.joined]
  joined := h.joined.trans (by simp)
  sublist := h.sublist.trans (h.since event).sublist
  gapless none := (h.gapless none).trans (h.since event)
  lagging := h.lagging

/-- An event that the channel does not keep passes the streams that have left. -/
theorem Accounted.lost (h : stream.Accounted history log) (left : stream.live = false)
    (event : Event κ) : stream.Accounted history (log ++ [event]) where
  account := by
    obtain ⟨first, account, -⟩ := h.account
    exact ⟨first, account, by simp [left]⟩
  joined := h.joined.trans (by simp)
  sublist := h.sublist.trans (h.since event).sublist
  gapless none := (h.gapless none).trans (h.since event)
  lagging := h.lagging

/-- An account in which the same has been received, with the lag counted elsewhere. -/
theorem Accounted.move (h : stream.Accounted history log) {moved : Stream κ}
    (live : moved.live = true → stream.live = true) (next : moved.next = stream.next)
    (joined : moved.joined = stream.joined) (received : moved.received = stream.received)
    (missed : moved.dropped + moved.poll.lag = stream.dropped + stream.poll.lag)
    (gaps : moved.gaps = [] → stream.gaps = [])
    (lagging : moved.poll = .rest ∨ 0 < moved.poll.lag) : moved.Accounted history log where
  account := by
    obtain ⟨first, account, since⟩ := h.account
    refine ⟨first, ?_, fun alive => ?_⟩
    · rw [next, received, missed]
      exact account
    · rw [joined]
      exact since (live alive)
  joined := joined ▸ h.joined
  sublist := by
    rw [joined, received]
    exact h.sublist
  gapless none := by
    rw [joined, received]
    exact h.gapless (gaps none)
  lagging := lagging

/-- A stream without gap events has yielded what it has received. -/
theorem items_of_gaps {items : List (Item κ)} (none : items.filterMap Item.gap? = []) :
    items = (items.filterMap Item.received?).map .received ∧ (items.map Item.dropped).sum = 0 := by
  induction items with
  | nil => simp
  | cons item items ih =>
    cases item with
    | gap event => simp [Item.gap?] at none
    | received event =>
      obtain ⟨same, zero⟩ := ih (by simpa [Item.gap?] using none)
      constructor
      · simpa [Item.received?] using same
      · simpa [Item.dropped] using zero

theorem items_eq (stream : Stream κ) (none : stream.gaps = []) :
    stream.items = stream.received.map .received := (items_of_gaps none).1

theorem Accounted.value {next joined : Nat} {items : List (Item κ)} {event : Event κ}
    (h : (Stream.mk true next .rest joined items).Accounted history log)
    (at_ : history[next]? = some event) :
    (Stream.mk true (next + 1) .rest joined (items ++ [.received event])).Accounted history
      log := by
  obtain ⟨first, account, since⟩ := h.account
  have read := account.value at_
  have part := read.sublist_drop
  rw [since rfl] at part
  refine ⟨⟨first, ?_, since⟩, h.joined, ?_, fun none => ?_, .inl rfl⟩
  · simpa [received, dropped, Item.received?, Item.dropped] using read
  · simpa [received, Item.received?] using part
  · have before : items.filterMap Item.gap? = [] := by simpa [gaps, Item.gap?] using none
    have zero : (Stream.mk true next .rest joined items).dropped = 0 := (items_of_gaps before).2
    rw [zero] at read
    have all := read.lossless
    rw [List.drop_take, since rfl] at all
    have taken := List.take_prefix (next + 1 - first) (log.drop joined)
    rw [← all] at taken
    simpa [received, Item.received?] using taken

theorem Accounted.lag {next joined n : Nat} {items : List (Item κ)}
    (h : (Stream.mk true next .rest joined items).Accounted history log)
    (le : next + n ≤ history.length) (some : 0 < n) :
    (Stream.mk true (next + n) (.lagged n) joined items).Accounted history log := by
  obtain ⟨first, account, since⟩ := h.account
  exact ⟨⟨first, account.lag le, since⟩, h.joined, h.sublist, h.gapless, .inr some⟩

/-- What a live stream has received and missed is part of what was emitted since it subscribed. -/
theorem Accounted.behind (h : stream.Accounted history log) (live : stream.live = true) :
    stream.joined + stream.received.length + stream.dropped + stream.poll.lag ≤ log.length := by
  obtain ⟨first, account, since⟩ := h.account
  have same := congrArg List.length (since live)
  rw [List.length_drop, List.length_drop] at same
  have total := account.total
  have le := account.le
  have joined := h.joined
  omega

/-- A stream begins with an account of the end of the channel. -/
theorem accounted_joining {s : System κ} (ring : s.bus.tx.Holds history) :
    s.joining.Accounted history s.log where
  account := by
    refine ⟨history.length, ?_, fun _ => ?_⟩
    · rw [System.joining, ring.tail]
      exact .begin_ history
    · rw [System.joining, List.drop_length, List.drop_length]
  joined := Nat.le_refl _
  sublist := List.nil_sublist _
  gapless _ := List.nil_prefix
  lagging := .inl rfl

end Stream

/-- The invariant: each stream has its account of what the channel has kept, and the counters of the
bus are sums over the streams. -/
structure System.Accounts (s : System κ) (history : List (Event κ)) : Prop where
  ring : s.bus.tx.Holds history
  streams : ∀ stream ∈ s.streams, stream.Accounted history s.log
  receivers : s.bus.receivers = (s.streams.map fun stream => stream.live.toNat).sum
  dropped : s.bus.dropped =
    (s.streams.map fun stream => stream.dropped + stream.poll.counts).sum % 2 ^ 64

namespace System

variable {s t : System κ} {history : List (Event κ)}

/-- A step replaces one stream by one with an account, and the counters move with it. -/
theorem Accounts.set (h : s.Accounts history) {i : Nat} (added : Nat)
    {stream moved : Stream κ} (at_ : s.streams[i]? = some stream) (bus : BroadcastBus κ)
    (tx : bus.tx = s.bus.tx)
    (account : moved.Accounted history s.log)
    (receivers : bus.receivers + stream.live.toNat = s.bus.receivers + moved.live.toNat)
    (dropped : bus.dropped = (s.bus.dropped + added) % 2 ^ 64)
    (counts : moved.dropped + moved.poll.counts = stream.dropped + stream.poll.counts + added) :
    ({ s with bus, streams := s.streams.set i moved } : System κ).Accounts history where
  ring := tx ▸ h.ring
  streams other mem := by
    rcases List.mem_or_eq_of_mem_set mem with before | rfl
    · exact h.streams other before
    · exact account
  receivers := by
    have sum := sum_map_set (fun stream : Stream κ => stream.live.toNat) moved at_
    have before := h.receivers
    dsimp only at sum ⊢
    omega
  dropped := by
    have sum := sum_map_set (fun stream : Stream κ => stream.dropped + stream.poll.counts) moved at_
    have before := h.dropped
    dsimp only at sum ⊢
    omega

/-- A step replaces one stream by one with an account, and the bus stays as it is. -/
theorem Accounts.setStream (h : s.Accounts history) {i : Nat} {stream moved : Stream κ}
    (at_ : s.streams[i]? = some stream) (account : moved.Accounted history s.log)
    (live : moved.live = stream.live)
    (counts : moved.dropped + moved.poll.counts = stream.dropped + stream.poll.counts) :
    ({ s with streams := s.streams.set i moved } : System κ).Accounts history := by
  have small : s.bus.dropped < 2 ^ 64 := h.dropped ▸ Nat.mod_lt _ (by decide)
  exact h.set 0 at_ s.bus rfl account (by rw [live]) (Nat.mod_eq_of_lt small).symm counts

/-- Nobody receives when no stream is live. -/
theorem Accounts.left (h : s.Accounts history) (none : s.bus.receivers = 0) {stream : Stream κ}
    (mem : stream ∈ s.streams) : stream.live = false := by
  have zero := (List.sum_eq_zero_iff.mp (h.receivers.symm.trans none)) _ (List.mem_map_of_mem mem)
  cases live : stream.live
  · rfl
  · simp [live] at zero

theorem Accounts.does {op : Op κ} (h : s.Accounts history) (does : Does s op t) :
    ∃ history, t.Accounts history := by
  cases does with
  | assign event => exact ⟨history, h.ring, h.streams, h.receivers, h.dropped⟩
  | @send k event found =>
    unfold BroadcastBus.send
    split
    · rename_i none
      exact ⟨history, h.ring, fun stream mem => (h.streams stream mem).lost (h.left none mem) event,
        h.receivers, h.dropped⟩
    · exact ⟨history ++ [event], h.ring.send event,
        fun stream mem => (h.streams stream mem).kept event, h.receivers, h.dropped⟩
  | subscribe =>
    refine ⟨history, h.ring, fun stream mem => ?_, ?_, ?_⟩
    · rcases List.mem_append.mp mem with before | new
      · exact h.streams stream before
      · obtain rfl := List.mem_singleton.mp new
        exact Stream.accounted_joining h.ring
    · simp [h.receivers, joining]
    · simp [h.dropped, joining, Stream.dropped, Poll.counts]
  | unsubscribe at_ =>
    have account := h.streams _ (List.mem_of_getElem? at_)
    have some : 0 < s.bus.receivers := by
      rw [Nat.pos_iff_ne_zero]
      intro none
      exact absurd (h.left none (List.mem_of_getElem? at_)) (by simp)
    have small : s.bus.dropped < 2 ^ 64 := h.dropped ▸ Nat.mod_lt _ (by decide)
    refine ⟨history, h.set 0 at_ _ rfl (account.move (by simp) rfl rfl rfl rfl id (.inl rfl)) ?_
      (Nat.mod_eq_of_lt small).symm rfl⟩
    simp
    omega
  | value at_ found =>
    obtain ⟨here, rfl⟩ := h.ring.recv_value found
    have account := (h.streams _ (List.mem_of_getElem? at_)).value here
    refine ⟨history, h.setStream at_ account rfl ?_⟩
    simp [Stream.dropped, Item.dropped]
  | lag at_ found =>
    obtain ⟨rfl, some, oldest⟩ := Broadcast.Ring.recv_lagged found
    have le : _ ≤ history.length := oldest ▸ h.ring.tail ▸ s.bus.tx.oldest_le
    have account := (h.streams _ (List.mem_of_getElem? at_)).lag le some
    exact ⟨history, h.setStream at_ account rfl rfl⟩
  | count at_ =>
    have account := h.streams _ (List.mem_of_getElem? at_)
    have some := account.lagging.resolve_left (by simp)
    exact ⟨history, h.set _ at_ _ rfl (account.move id rfl rfl rfl rfl id (.inr some)) rfl rfl rfl⟩
  | deliver at_ =>
    have account := h.streams _ (List.mem_of_getElem? at_)
    refine ⟨history, h.setStream at_ (account.move id rfl rfl ?_ ?_ ?_ (.inl rfl)) rfl ?_⟩
    · simp [Stream.received, Item.received?]
    · simp [Stream.dropped, Item.dropped, gapEvent, Poll.lag]
    · simp [Stream.gaps, Item.gap?]
    · simp [Stream.dropped, Item.dropped, gapEvent, Poll.counts]

theorem accounts_boot {bus : BroadcastBus κ} {capacity : Nat} {run : RunId}
    (new : BroadcastBus.new capacity run = some bus) : (boot bus).Accounts [] := by
  unfold BroadcastBus.new at new
  split at new
  · cases new
    exact ⟨Broadcast.Ring.holds_new _, by simp [boot], rfl, rfl⟩
  · contradiction

theorem accounts_run {bus : BroadcastBus κ} {capacity : Nat} {run : RunId}
    (new : BroadcastBus.new capacity run = some bus) (ops : List (Op κ)) :
    ∃ history, (ops.foldl step (boot bus)).Accounts history := by
  induction ops using List.reverseRecOn with
  | nil => exact ⟨[], accounts_boot new⟩
  | append_singleton ops op ih =>
    obtain ⟨history, ih⟩ := ih
    rw [List.foldl_append, List.foldl_cons, List.foldl_nil]
    rcases step_cases (ops.foldl step (boot bus)) op with ⟨same, -⟩ | does
    · rw [same]
      exact ⟨history, ih⟩
    · exact ih.does does

end System

/-- In every run every stream has received a part of the events emitted since it subscribed, in
their order, and once it is drained what it has received and what its gap events give is all of
them.  The counter of the bus is the sum of the gap events of all streams, with the lags that a poll
has counted and not yielded yet. -/
theorem accounts_for_every_event {capacity : Nat} {run : RunId} {bus : BroadcastBus κ}
    (new : BroadcastBus.new capacity run = some bus) (ops : List (Op κ)) :
    let s := ops.foldl System.step (System.boot bus)
    (∀ stream ∈ s.streams, stream.received.Sublist (s.log.drop stream.joined) ∧
      (stream.Drained s.bus →
        stream.received.length + stream.dropped = (s.log.drop stream.joined).length)) ∧
    s.bus.dropped =
      (s.streams.map fun stream => stream.dropped + stream.poll.counts).sum % 2 ^ 64 ∧
    ((∀ stream ∈ s.streams, stream.poll = .rest) →
      s.bus.dropped = (s.streams.map Stream.dropped).sum % 2 ^ 64) := by
  intro s
  obtain ⟨history, inv⟩ := System.accounts_run new ops
  refine ⟨fun stream mem => ?_, inv.dropped, fun rest => ?_⟩
  · have accounted := inv.streams stream mem
    refine ⟨accounted.sublist, fun ⟨live, rest, drained⟩ => ?_⟩
    obtain ⟨first, account, since⟩ := accounted.account
    rw [inv.ring.recv_empty account.le drained, rest] at account
    rw [← since live]
    exact account.drained
  · have none : s.streams.map (fun stream => stream.dropped + stream.poll.counts) =
        s.streams.map Stream.dropped :=
      List.map_congr_left fun stream mem => by simp [rest stream mem, Poll.counts]
    rw [← none]
    exact inv.dropped

/-- A bus with one slot and an event to emit on it. -/
def oneSlot : BroadcastBus Unit := ⟨.new 1, 0, ⟨.fill 16 0⟩, 0, 0⟩

def tick : Event Unit :=
  ⟨0, oneSlot.run, DateTime.unixEpoch, DateTime.unixEpoch, none, none, .domain ()⟩

theorem oneSlot_new : BroadcastBus.new 1 oneSlot.run = some oneSlot := by
  have one : Nat.nextPowerOfTwo 1 = 1 := by decide +kernel
  simp [BroadcastBus.new, one, oneSlot]

/-- Two events for a stream with one slot, and the polls of the stream. -/
def lagging : List (Op Unit) :=
  [.subscribe, .assign tick, .send 0, .assign tick, .send 0, .recv 0, .count 0,
    .deliver 0 DateTime.unixEpoch DateTime.unixEpoch, .recv 0]

theorem accounts_for_every_event_lagging :
    let s := lagging.foldl System.step (System.boot oneSlot)
    ∃ stream ∈ s.streams, stream.Drained s.bus ∧ stream.dropped = 1 ∧
      stream.received.length + stream.dropped = (s.log.drop stream.joined).length := by
  intro s
  obtain ⟨streams, -⟩ := accounts_for_every_event oneSlot_new lagging
  have drained : (s.streams.head (by decide)).Drained s.bus := ⟨rfl, rfl, rfl⟩
  have mem : s.streams.head (by decide) ∈ s.streams := List.head_mem _
  exact ⟨_, mem, drained, rfl, (streams _ mem).2 drained⟩

end Servr.Bus
