import Mathlib.Data.List.Basic
import Mathlib.Data.Nat.Init

/-! A broadcast channel: one ring holds the last values that were sent, and each receiver has a
cursor of its own.  A receiver that falls more than the ring behind is told how many values it has
lost and goes on at the oldest one retained, so what it gets and what it is told add up to what was
sent. -/

namespace Broadcast

variable {α : Type*}

/-- A ring of `size` slots: the values that no later one has overwritten, oldest first. -/
structure Ring (α : Type*) where
  size : Nat
  /-- The number of values sent. -/
  tail : Nat
  retained : List α
  bounded : retained.length = min tail size

/-- What a receiver finds at its cursor. -/
inductive Received (α : Type*)
  | empty
  | value (v : α)
  | lagged (missed : Nat)
  deriving DecidableEq

namespace Ring

def new (size : Nat) : Ring α := ⟨size, 0, [], by simp⟩

def send (r : Ring α) (v : α) : Ring α where
  size := r.size
  tail := r.tail + 1
  retained := (r.retained ++ [v]).drop (r.retained.length + 1 - r.size)
  bounded := by
    rw [List.length_drop, List.length_append, List.length_singleton, r.bounded]
    omega

/-- The position of the oldest value retained. -/
def oldest (r : Ring α) : Nat := r.tail - r.retained.length

/-- What a receiver finds at its cursor, with the cursor after it. -/
def recv (r : Ring α) (next : Nat) : Received α × Nat :=
  if next < r.oldest then (.lagged (r.oldest - next), r.oldest)
  else
    match r.retained[next - r.oldest]? with
    | some v => (.value v, next + 1)
    | none => (.empty, next)

theorem length_retained_le (r : Ring α) : r.retained.length ≤ r.tail :=
  r.bounded ▸ Nat.min_le_left _ _

theorem oldest_le (r : Ring α) : r.oldest ≤ r.tail := Nat.sub_le _ _

/-- The ring retains the end of `history`, all the values that were sent. -/
structure Holds (r : Ring α) (history : List α) : Prop where
  tail : r.tail = history.length
  retained : r.retained = history.drop r.oldest

variable {r : Ring α} {history : List α} {next next' missed : Nat} {v : α}

theorem holds_new (size : Nat) : (new size : Ring α).Holds [] := ⟨rfl, rfl⟩

theorem Holds.send (h : r.Holds history) (v : α) : (r.send v).Holds (history ++ [v]) where
  tail := by simp [Ring.send, h.tail]
  retained := by
    have le := r.length_retained_le
    have bounded := r.bounded
    have kept : (r.send v).retained.length = min (r.tail + 1) r.size := (r.send v).bounded
    have oldest : (r.send v).oldest = r.oldest + (r.retained.length + 1 - r.size) := by
      rw [Ring.oldest, kept, Ring.oldest]
      simp only [Ring.send]
      omega
    have inside : r.oldest ≤ history.length := h.tail ▸ r.oldest_le
    rw [oldest, ← List.drop_drop, List.drop_append_of_le_length inside, ← h.retained]
    rfl

theorem Holds.getElem? (h : r.Holds history) (le : r.oldest ≤ next) :
    r.retained[next - r.oldest]? = history[next]? := by
  rw [h.retained, List.getElem?_drop, Nat.add_sub_cancel' le]

/-! What a receiver finds is the value at its cursor, a lag up to the oldest value or the end. -/

theorem Holds.recv_value (h : r.Holds history) (found : r.recv next = (.value v, next')) :
    history[next]? = some v ∧ next' = next + 1 := by
  unfold recv at found
  split at found
  · simp at found
  · rename_i le
    rw [h.getElem? (Nat.le_of_not_lt le)] at found
    split at found
    · cases found
      exact ⟨‹_›, rfl⟩
    · simp at found

theorem recv_lagged (found : r.recv next = (.lagged missed, next')) :
    next' = next + missed ∧ 0 < missed ∧ next' = r.oldest := by
  unfold recv at found
  split at found
  · cases found
    omega
  · split at found <;> simp at found

theorem Holds.recv_empty (h : r.Holds history) (le : next ≤ history.length)
    (found : (r.recv next).1 = .empty) : next = history.length := by
  unfold recv at found
  split at found
  · contradiction
  · rename_i lagged
    rw [h.getElem? (Nat.le_of_not_lt lagged)] at found
    split at found
    · contradiction
    · rename_i beyond
      exact Nat.le_antisymm le (List.getElem?_eq_none_iff.mp beyond)

end Ring

/-- A receiver that began at `first` and is at `next` has got `got`, and has been told that it lost
`missed` values. -/
structure Account (history : List α) (first next : Nat) (got : List α) (missed : Nat) : Prop where
  sublist : got.Sublist ((history.take next).drop first)
  total : first + got.length + missed = next
  le : next ≤ history.length

namespace Account

variable {history got : List α} {first next missed n : Nat} {v : α}

theorem begin_ (history : List α) : Account history history.length history.length [] 0 :=
  ⟨List.nil_sublist _, rfl, Nat.le_refl _⟩

theorem first_le (h : Account history first next got missed) : first ≤ next := by
  have total := h.total
  omega

/-- What is sent later changes no account. -/
theorem extend (h : Account history first next got missed) (later : List α) :
    Account (history ++ later) first next got missed where
  sublist := by
    rw [List.take_append_of_le_length h.le]
    exact h.sublist
  total := h.total
  le := Nat.le_trans h.le (by simp)

theorem value (h : Account history first next got missed) (at_ : history[next]? = some v) :
    Account history first (next + 1) (got ++ [v]) missed where
  sublist := by
    have inside : first ≤ (history.take next).length := by
      rw [List.length_take, Nat.min_eq_left h.le]
      exact h.first_le
    rw [List.take_add_one, at_, Option.toList_some, List.drop_append_of_le_length inside]
    exact h.sublist.append (List.Sublist.refl _)
  total := by
    have total := h.total
    simp only [List.length_append, List.length_singleton]
    omega
  le := (List.getElem?_eq_some_iff.mp at_).1

theorem lag (h : Account history first next got missed) (le : next + n ≤ history.length) :
    Account history first (next + n) got (missed + n) where
  sublist := h.sublist.trans ((List.take_sublist_take_left (Nat.le_add_right _ _)).drop _)
  total := by
    have total := h.total
    omega
  le := le

/-- A receiver gets values that were sent since it began, each at most once and in their order. -/
theorem sublist_drop (h : Account history first next got missed) :
    got.Sublist (history.drop first) :=
  h.sublist.trans ((List.take_sublist _ _).drop _)

/-- At the end of the ring, what a receiver has got and what it has lost is all that was sent. -/
theorem drained (h : Account history first history.length got missed) :
    got.length + missed = (history.drop first).length := by
  have total := h.total
  rw [List.length_drop]
  omega

/-- A receiver that has lost nothing has got every value up to its cursor. -/
theorem lossless (h : Account history first next got 0) :
    got = (history.take next).drop first := by
  refine h.sublist.eq_of_length ?_
  have total := h.total
  rw [List.length_drop, List.length_take, Nat.min_eq_left h.le]
  omega

end Account

end Broadcast
