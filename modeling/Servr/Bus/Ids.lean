import Servr.Bus.Accounts
import Servr.Lib.Machine

/-! The ids on a stream.  While every emission sends the lowest id that is not sent yet, a stream
that has yielded no gap event has yielded consecutive ids.  A gap event takes the id that the next
event takes, and comes before the older events that the channel still holds: with one emission at a
time, ids go on ordering the streams exactly as long as nothing follows a gap event. -/

namespace Servr.Bus

variable {κ : Type}

namespace System

/-- The emission that took the lowest id of those in flight is the one that sends, and the counter
does not wrap. -/
def InOrder (s : System κ) : Op κ → Prop
  | .assign _ => s.bus.seq + 1 < 2 ^ 64
  | .send k => k = 0
  | _ => True

instance (s : System κ) : ∀ op, Decidable (s.InOrder op)
  | .assign _ => inferInstanceAs (Decidable (_ < _))
  | .send _ => inferInstanceAs (Decidable (_ = _))
  | .subscribe | .unsubscribe _ | .recv _ | .count _ | .deliver .. => .isTrue trivial

/-- The invariant: the events in the order of the channel, with those in flight after them, have the
ids that were given out. -/
structure Numbered (s : System κ) : Prop where
  accounts : ∃ history, s.Accounts history
  ids : (s.log ++ s.inFlight).map Event.id = List.range s.bus.seq

variable {s t : System κ}

theorem Numbered.step (h : s.Numbered) (op : Op κ) (inOrder : s.InOrder op) :
    (s.step op).Numbered := by
  rcases s.step_cases op with ⟨same, -⟩ | does
  · rw [same]
    exact h
  · obtain ⟨history, accounts⟩ := h.accounts
    refine ⟨accounts.does does, ?_⟩
    generalize s.step op = t at does
    cases does with
    | assign event =>
      rw [Nat.mod_eq_of_lt inOrder, List.range_succ, ← h.ids]
      simp
    | @send k event found =>
      obtain rfl : k = 0 := inOrder
      obtain ⟨rest, flight⟩ : ∃ rest, s.inFlight = event :: rest := by
        cases hf : s.inFlight with
        | nil => simp [hf] at found
        | cons e rest => exact ⟨rest, by simpa [hf] using found⟩
      have seq : (s.bus.send event).seq = s.bus.seq := by
        unfold BroadcastBus.send
        split <;> rfl
      rw [seq, ← h.ids]
      simp [flight]
    | _ => exact h.ids

theorem numbered_boot {capacity : Nat} {run : RunId} {bus : BroadcastBus κ}
    (new : BroadcastBus.new capacity run = some bus) : (boot bus).Numbered where
  accounts := ⟨[], accounts_boot new⟩
  ids := by
    unfold BroadcastBus.new at new
    split at new
    · cases new
      rfl
    · contradiction

theorem Numbered.length (h : s.Numbered) : s.log.length + s.inFlight.length = s.bus.seq := by
  simpa using congrArg List.length h.ids

/-- What is sent has the ids from 0 on. -/
theorem Numbered.log (h : s.Numbered) : s.log.map Event.id = List.range s.log.length := by
  have sent := congrArg (List.take s.log.length) h.ids
  have le : s.log.length ≤ s.bus.seq := h.length ▸ Nat.le_add_right _ _
  rw [List.map_append, List.take_left' (by simp), List.take_range, Nat.min_eq_left le] at sent
  exact sent

/-- A stream that has yielded no gap event has yielded the ids since it subscribed. -/
theorem Numbered.items (h : s.Numbered) {stream : Stream κ} (mem : stream ∈ s.streams)
    (none : stream.gaps = []) :
    stream.items.map Item.id = List.range' stream.joined stream.items.length := by
  obtain ⟨history, accounts⟩ := h.accounts
  have part := (accounts.streams stream mem).gapless none
  have received := stream.items_eq none
  have ids : stream.items.map Item.id = stream.received.map Event.id := by
    rw [received, List.map_map]
    rfl
  have length : stream.items.length = stream.received.length := by
    rw [received, List.length_map]
  have le := part.length_le
  rw [List.length_drop] at le
  calc stream.items.map Item.id
    _ = ((s.log.drop stream.joined).take stream.received.length).map Event.id := by
      rw [ids, ← List.prefix_iff_eq_take.mp part]
    _ = ((List.range' 0 s.log.length).drop stream.joined).take stream.received.length := by
      rw [List.map_take, List.map_drop, h.log, List.range_eq_range']
    _ = List.range' stream.joined stream.items.length := by
      rw [List.drop_range', List.take_range'_of_length_ge le, length, Nat.zero_add, Nat.mul_one]

end System

/-- In every run in which each emission sends the lowest id that is not sent yet, a stream that has
never lagged has yielded consecutive ids. -/
theorem consecutive_ids {capacity : Nat} {run : RunId} {bus : BroadcastBus κ}
    (new : BroadcastBus.new capacity run = some bus) (ops : List (Op κ))
    (inOrder : Machine.Along System.step System.InOrder (System.boot bus) ops) :
    ∀ stream ∈ (ops.foldl System.step (System.boot bus)).streams, stream.gaps = [] →
      ∃ start, stream.items.map Item.id = List.range' start stream.items.length := by
  intro stream mem none
  have numbered : (ops.foldl System.step (System.boot bus)).Numbered :=
    inOrder.foldl (fun _ op h => h.step op) (System.numbered_boot new)
  exact ⟨stream.joined, numbered.items mem none⟩

/-- A bus with two slots. -/
def twoSlots : BroadcastBus Unit := { oneSlot with tx := .new 2 }

theorem twoSlots_new : BroadcastBus.new 2 twoSlots.run = some twoSlots := by
  have two : Nat.nextPowerOfTwo 2 = 2 := by decide +kernel
  simp [BroadcastBus.new, two, twoSlots, oneSlot]

/-- Two emissions at once, where emission `k` of those in flight is the first that sends, and the
polls of a stream. -/
def overlapping (k : Nat) : List (Op Unit) :=
  [.subscribe, .assign tick, .assign tick, .send k, .send 0, .recv 0, .recv 0]

theorem consecutive_ids_overlapping :
    ∃ stream ∈ ((overlapping 0).foldl System.step (System.boot twoSlots)).streams,
      stream.items.length = 2 ∧
      ∃ start, stream.items.map Item.id = List.range' start stream.items.length := by
  have ids := consecutive_ids twoSlots_new (overlapping 0) (by decide)
  exact ⟨_, List.head_mem (by decide), rfl, ids _ (List.head_mem _) rfl⟩

/-- Of two emissions at once, the one with the higher id sends first. -/
theorem overtaken_id : ¬∀ (capacity : Nat) (run : RunId) (bus : BroadcastBus Unit),
    BroadcastBus.new capacity run = some bus → ∀ ops : List (Op Unit),
    ∀ stream ∈ (ops.foldl System.step (System.boot bus)).streams, stream.gaps = [] →
      ∃ start, stream.items.map Item.id = List.range' start stream.items.length := by
  intro ordered
  obtain ⟨start, ids⟩ :=
    ordered 2 _ _ twoSlots_new (overlapping 1) _ (List.head_mem (by decide)) rfl
  have reversed : [1, 0] = List.range' start 2 := ids
  simp [List.range'] at reversed

end Servr.Bus
