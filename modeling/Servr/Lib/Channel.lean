import Mathlib.Data.List.Basic

/-! Unbounded channels with many senders and one receiver: what is sent while the receiver is there
waits in a queue, and the receiver finds the channel closed once the queue is empty and every sender
has been dropped. -/

/-- A channel: what waits in it, who holds a sender, once for each clone, and whether the receiver
is still there. -/
structure Channel (κ μ : Type*) where
  queue : List μ
  senders : List κ
  receiving : Bool

namespace Channel

variable {κ μ : Type*}

/-- A channel whose two ends are gone. -/
def gone : Channel κ μ := ⟨[], [], false⟩

/-- A new channel, with one sender. -/
def unbounded (k : κ) : Channel κ μ := ⟨[], [k], true⟩

/-- What a send makes of the channel: nothing, where it fails. -/
def send (c : Channel κ μ) (m : μ) : Channel κ μ :=
  if c.receiving then { c with queue := c.queue ++ [m] } else c

/-- The receiver takes what is first in the queue; it finds the channel closed, or has to wait. -/
def recv (c : Channel κ μ) : Option (Option μ × Channel κ μ) :=
  match c.queue with
  | m :: rest => some (some m, { c with queue := rest })
  | [] => if c.senders.isEmpty then some (none, c) else none

/-- The receiver is dropped, with what still waits. -/
def close (c : Channel κ μ) : Channel κ μ := { c with queue := [], receiving := false }

/-- A sender is cloned for `k`. -/
def clone (c : Channel κ μ) (k : κ) : Channel κ μ := { c with senders := k :: c.senders }

/-- A sender that `k` holds is dropped. -/
def release [DecidableEq κ] (c : Channel κ μ) (k : κ) : Channel κ μ :=
  { c with senders := c.senders.erase k }

/-- What a receiver gets: the first message, or that there will be none. -/
theorem recv_eq_some {c d : Channel κ μ} {m : Option μ} (got : c.recv = some (m, d)) :
    (∃ first, m = some first ∧ c.queue = first :: d.queue ∧ d.senders = c.senders ∧
      d.receiving = c.receiving) ∨ m = none ∧ c.queue = [] ∧ c.senders = [] ∧ d = c := by
  unfold recv at got
  split at got
  · rename_i first rest queue
    cases got
    exact .inl ⟨first, rfl, queue, rfl, rfl⟩
  · rename_i queue
    split at got
    · rename_i alone
      cases got
      exact .inr ⟨rfl, queue, List.isEmpty_iff.mp alone, rfl⟩
    · contradiction

theorem recv_ne_none {c : Channel κ μ} (waits : c.queue ≠ []) : c.recv ≠ none := by
  unfold recv
  split
  · simp
  · rename_i empty
    exact absurd empty waits

section Simp

variable (c : Channel κ μ) (m : μ) (k : κ)

@[simp] theorem send_senders : (c.send m).senders = c.senders := by
  unfold send
  split <;> rfl

@[simp] theorem send_receiving : (c.send m).receiving = c.receiving := by
  unfold send
  split <;> rfl

@[simp] theorem close_queue : c.close.queue = [] := rfl
@[simp] theorem close_senders : c.close.senders = c.senders := rfl
@[simp] theorem close_receiving : c.close.receiving = false := rfl
@[simp] theorem clone_queue : (c.clone k).queue = c.queue := rfl
@[simp] theorem clone_senders : (c.clone k).senders = k :: c.senders := rfl
@[simp] theorem clone_receiving : (c.clone k).receiving = c.receiving := rfl

variable [DecidableEq κ]

@[simp] theorem release_queue : (c.release k).queue = c.queue := rfl
@[simp] theorem release_senders : (c.release k).senders = c.senders.erase k := rfl
@[simp] theorem release_receiving : (c.release k).receiving = c.receiving := rfl

end Simp

end Channel
