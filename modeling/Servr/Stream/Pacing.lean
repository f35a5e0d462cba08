import Servr.Lib.Loop
import Servr.Stream

/-! The pacing of chunks in `stream/src/chunks.rs`: the loop that waits for the clock to reach the
due time of a chunk, and the due times of a stream. -/

namespace Servr.Stream

/-- A reading of the clock in `wait_until`, where `clock i` is the `i`-th: the wait is over with the
first that is not before `due`. -/
def waitStep (clock : Nat → DateTime) (due : DateTime) (i : Nat) : Except Empty (Nat ⊕ Nat) :=
  .ok (if due ≤ clock i then .inr i else .inl (i + 1))

/-- `wait_until` from the `i`-th reading of the clock on, for at most `fuel` of them: the reading
with which it returns. -/
def waitUntil (fuel : Nat) (clock : Nat → DateTime) (due : DateTime) (i : Nat) :
    Option (Except Empty Nat) :=
  Loop.run (waitStep clock due) fuel i

variable {clock : Nat → DateTime} {start due : DateTime} {delayMs : UInt64} {count : Nat}

theorem waitUntil_le {fuel i last : Nat} (h : waitUntil fuel clock due i = some (.ok last)) :
    due ≤ clock last := by
  induction fuel generalizing i with
  | zero => contradiction
  | succ fuel ih =>
    by_cases past : due ≤ clock i
    · simp only [waitUntil, Loop.run, waitStep, if_pos past, Option.some.injEq,
        Except.ok.injEq] at h
      exact h ▸ past
    · simp only [waitUntil, Loop.run, waitStep, if_neg past] at h
      exact ih h

/-- The chunks of a stream, up to `count`, are each due `delayMs` after the one before, and no wait
for a chunk is over before that time. -/
structure Paced (start : DateTime) (delayMs : UInt64) (count : Nat) : Prop where
  exact : ∀ seq : UInt32, seq.toNat < count → ∃ due, dueAt start seq delayMs = some due ∧
    start.After (delayMs.toNat * seq.toNat) due
  mono : ∀ {seq later : UInt32} {due due' : DateTime}, later.toNat < count → seq ≤ later →
    dueAt start seq delayMs = some due → dueAt start later delayMs = some due' → due ≤ due'
  holds : ∀ {seq : UInt32} {due : DateTime}, seq.toNat < count →
    dueAt start seq delayMs = some due → ∀ {clock : Nat → DateTime} {fuel i last : Nat},
    waitUntil fuel clock due i = some (.ok last) →
    start.nanos + delayMs.toNat * seq.toNat * 1000000 ≤ (clock last).nanos

theorem dueAt_eq {seq : UInt32} (room : start.HasRoom (delayMs.toNat * seq.toNat)) :
    ∃ due, dueAt start seq delayMs = some due ∧ start.After (delayMs.toNat * seq.toNat) due := by
  have small := room.lt
  have product : (delayMs * seq.toUInt64).toNat = delayMs.toNat * seq.toNat := by
    rw [UInt64.toNat_mul, UInt32.toNat_toUInt64]
    exact Nat.mod_eq_of_lt (by omega)
  rw [dueAt, product]
  exact room.addMillis

/-- The chunks are paced exactly if chrono holds the due time of the last that a `u32` numbers. -/
theorem paced_iff (start : DateTime) (delayMs : UInt64) (count : Nat) :
    Paced start delayMs count ↔ start.HasRoom (delayMs.toNat * (min count (2 ^ 32) - 1)) := by
  constructor
  · intro paced
    cases count with
    | zero =>
      rw [Nat.zero_min, Nat.mul_zero, DateTime.HasRoom]
      simpa using start.high
    | succ n =>
      have last : (UInt32.ofNat (min (n + 1) (2 ^ 32) - 1)).toNat = min (n + 1) (2 ^ 32) - 1 :=
        UInt32.toNat_ofNat_of_lt' (show _ < 2 ^ 32 by omega)
      obtain ⟨due, -, after⟩ := paced.exact (.ofNat (min (n + 1) (2 ^ 32) - 1)) (by omega)
      rw [← last]
      exact after.hasRoom
  · intro room
    have exact_ (seq : UInt32) (inside : seq.toNat < count) :
        ∃ due, dueAt start seq delayMs = some due ∧
          start.After (delayMs.toNat * seq.toNat) due := by
      have bound := seq.toNat_lt
      exact dueAt_eq (room.mono (Nat.mul_le_mul_left _ (by omega)))
    refine ⟨exact_, fun {seq later due due'} inside le first second => ?_,
      fun {seq due} inside sum clock fuel i last returns => ?_⟩
    · have le := UInt32.le_iff_toNat_le.mp le
      obtain ⟨_, same, after⟩ := exact_ seq (by omega)
      obtain ⟨_, same', after'⟩ := exact_ later inside
      obtain rfl := Option.some.inj (first.symm.trans same)
      obtain rfl := Option.some.inj (second.symm.trans same')
      have products : delayMs.toNat * seq.toNat ≤ delayMs.toNat * later.toNat :=
        Nat.mul_le_mul_left _ le
      rw [DateTime.le_iff, after.exact, after'.exact]
      omega
    · obtain ⟨_, same, after⟩ := exact_ seq inside
      obtain rfl := Option.some.inj (sum.symm.trans same)
      have past := DateTime.le_iff.mp (waitUntil_le returns)
      rw [after.exact] at past
      exact_mod_cast past

/-- The product with a delay of `2 ^ 64 - 1` becomes `-1`: the second chunk is due before the first,
and is let out at once. -/
theorem second_chunk_due_early :
    ¬(∀ start delayMs count, Paced start delayMs count) ∧
      (dueAt DateTime.unixEpoch 1 (.ofNat (2 ^ 64 - 1))).map (·.nanos) = some (-1000000) := by
  refine ⟨fun all => ?_, by decide +kernel⟩
  obtain ⟨due, -, after⟩ := (all DateTime.unixEpoch (.ofNat (2 ^ 64 - 1)) 2).exact 1 (by decide)
  exact absurd after.hasRoom (by decide +kernel)

end Servr.Stream
