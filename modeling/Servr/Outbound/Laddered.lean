import Servr.Outbound.Runs

/-! What is on record of a delivery of the queue, at every point of a run. -/

namespace Servr.Outbound

/-- The pass has an attempt of the delivery in hand. -/
def Tick.Holds (tick : Tick) (id : Uuid) : Prop :=
  match tick with
  | .posted c _ | .delivered c _ _ | .told c _ => c.id = id
  | _ => False

theorem Tick.free {tick : Tick} {d : Delivery} (free : ¬tick.Holds d.id) :
    tick.counted d = d ∧ tick.heard d = d ∧ tick.latest d = d := by
  cases tick with
  | posted c due => exact ⟨if_neg free, rfl, rfl⟩
  | delivered c outcome due => exact ⟨if_neg free, if_neg free, rfl⟩
  | told c due => exact ⟨if_neg free, if_neg free, if_neg free⟩
  | _ => exact ⟨rfl, rfl, rfl⟩

namespace System

variable {s : System} {d : Delivery}

/-- A delivery that the pass holds is not done.  Its attempt is told of in its copy, or has been
counted and is still to be told. -/
theorem Inv.held (h : s.Inv) (mem : d ∈ s.queue) (held : s.tick.Holds d.id) :
    d.done = false ∧
      ((s.tick.latest d).CopyOf d ∧ s.tick.counted d = s.tick.latest d ∧
          s.tick.heard d = s.tick.latest d ∨
        s.tick.latest d = d ∧ s.tick.counted d = d.next ∧
          (s.tick.heard d = d ∨ s.tick.heard d = d.next)) := by
  have sound := h.tick
  cases at_ : s.tick with
  | posted c due =>
    rw [at_] at sound held
    obtain ⟨e, holding, rfl, -⟩ := sound
    obtain rfl := h.unique holding.mem mem held
    exact ⟨holding.ready.undone, .inr ⟨rfl, if_pos rfl, .inl rfl⟩⟩
  | delivered c outcome due =>
    rw [at_] at sound held
    obtain ⟨e, holding, rfl⟩ := sound
    obtain rfl := h.unique holding.mem mem held
    exact ⟨holding.ready.undone, .inr ⟨rfl, if_pos rfl, .inr (if_pos rfl)⟩⟩
  | told c due =>
    rw [at_] at sound held
    obtain ⟨e, outcome, event, holding, settled⟩ := sound
    have id : c.id = e.id := settled.id_eq.1
    obtain rfl := h.unique holding.mem mem (id.symm.trans held)
    refine ⟨holding.ready.undone, .inl ⟨?_, rfl, rfl⟩⟩
    rw [Tick.latest_told, if_pos id]
    obtain ⟨due, done, status, error, rfl⟩ := settled.same
    exact ⟨_, _, _, _, _, rfl⟩
  | idle | begun | attempting | panicked =>
    rw [at_] at held
    exact held.elim

/-- A delivery and its copy have come as far, or the attempt that was counted last is still to be
told. -/
theorem Inv.copies (h : s.Inv) (mem : d ∈ s.queue) :
    (s.tick.latest d).CopyOf d ∧ s.tick.counted d = s.tick.latest d ∧
        s.tick.heard d = s.tick.latest d ∨
      s.tick.latest d = d ∧ d.done = false ∧ s.tick.counted d = d.next ∧
        (s.tick.heard d = d ∨ s.tick.heard d = d.next) := by
  by_cases held : s.tick.Holds d.id
  · obtain ⟨undone, level | ⟨latest, counted, heard⟩⟩ := h.held mem held
    · exact .inl level
    · exact .inr ⟨latest, undone, counted, heard⟩
  · obtain ⟨counted, heard, latest⟩ := Tick.free held
    rw [counted, heard, latest]
    exact .inl ⟨.refl d, rfl, rfl⟩

/-- What is on record of a queued delivery is its ladder, up to the attempts made so far. -/
structure Laddered (s : System) (d : Delivery) : Prop where
  numbers : (s.attemptsOf d.id).map (·.number.toNat) = List.range' 1 (s.attemptsOf d.id).length
  bounded : (s.attemptsOf d.id).length ≤ d.backoff.length + 1
  onTime : ∀ a ∈ s.attemptsOf d.id, d.dueNanos (a.number.toNat - 1) ≤ a.at_.nanos
  reached : (s.postsOf d.id).map (·.number.toNat) =
    ((s.attemptsOf d.id).map (·.number.toNat)).filter (d.endpoint.failFirst.toNat < ·)
  /-- The requests come back one after another. -/
  answered : (s.answersOf d.id).map (·.number.toNat) <+: (s.postsOf d.id).map (·.number.toNat)
  told : (s.eventsOf d.id).map (·.event.attempt.toNat) =
    List.range' 1 (s.eventsOf d.id).length
  announces : ∀ e ∈ s.eventsOf d.id, d.Announces (s.answersOf d.id) e
  /-- No attempt follows an answer of a 2xx. -/
  last : ∀ a ∈ s.answersOf d.id, a.Accepted → a.number.toNat = (s.attemptsOf d.id).length
  behind : (s.eventsOf d.id).length ≤ (s.attemptsOf d.id).length
  level : ¬s.tick.Holds d.id → (s.eventsOf d.id).length = (s.attemptsOf d.id).length ∧
    (s.answersOf d.id).length = (s.postsOf d.id).length
  done : ¬s.tick.Holds d.id → (d.done = true ↔
    (∃ a ∈ s.answersOf d.id, a.Accepted) ∨ (s.attemptsOf d.id).length = d.backoff.length + 1)
  undone : s.tick.Holds d.id → d.done = false

/-- Requests up to one number are the first of those up to a later. -/
theorem reached_prefix {m n : Nat} (le : m ≤ n) (failFirst : Nat) :
    (List.range' 1 m).filter (failFirst < ·) <+: (List.range' 1 n).filter (failFirst < ·) := by
  obtain ⟨k, rfl⟩ := Nat.exists_eq_add_of_le le
  rw [← List.range'_append_1]
  exact (List.prefix_append _ _).filter _

/-- A delivery that the pass does not hold is done by an answer or by its last attempt. -/
theorem Inv.done_iff (h : s.Inv) (mem : d ∈ s.queue) (free : ¬s.tick.Holds d.id) :
    d.done = true ↔
      (∃ a ∈ s.answersOf d.id, a.Accepted) ∨ (s.attemptsOf d.id).length = d.backoff.length + 1 := by
  obtain ⟨begun, heard, told⟩ := h.entries d mem
  obtain ⟨counted, answered, latest⟩ := Tick.free free
  rw [counted] at begun
  rw [answered] at heard
  rw [latest] at told
  have attempts : (s.attemptsOf d.id).length = d.attempt.toNat := by
    simpa using congrArg List.length begun.numbers
  rw [attempts]
  constructor
  · intro done
    obtain ⟨e, inEvents, final⟩ := told.done.mp done
    rcases final with ⟨a, inAnswers, -, accepted⟩ | top
    · exact .inl ⟨a, inAnswers, accepted⟩
    · exact .inr (told.last e inEvents (.inr top) ▸ top)
  · rintro (⟨a, inAnswers, accepted⟩ | top)
    · obtain ⟨-, first, counted⟩ := heard.number_lt inAnswers
      exact (told.final first counted (.inl ⟨a, inAnswers, rfl, accepted⟩)).1
    · exact (told.final (by omega) le_rfl (.inr top)).1

theorem Inv.laddered (h : s.Inv) (mem : d ∈ s.queue) : s.Laddered d := by
  obtain ⟨begun, heard, told⟩ := h.entries d mem
  have attempts : (s.attemptsOf d.id).length = (s.tick.counted d).attempt.toNat := by
    simpa using congrArg List.length begun.numbers
  have events : (s.eventsOf d.id).length = (s.tick.latest d).attempt.toNat := by
    simpa using congrArg List.length told.numbers
  have done := h.done_iff mem
  have undone := fun held => (h.held mem held).1
  rcases h.copies mem with ⟨copy, same, sameHeard⟩ | ⟨latest, owing, counted, answered⟩
  · rw [same] at begun attempts
    rw [sameHeard] at heard
    obtain ⟨attempt, due, done', status, error, copy⟩ := copy
    rw [copy] at begun heard told attempts events
    have all : (s.answersOf d.id).map (·.number.toNat) = (s.postsOf d.id).map (·.number.toNat) :=
      heard.trans begun.reached.symm
    have level : (s.eventsOf d.id).length = (s.attemptsOf d.id).length ∧
        (s.answersOf d.id).length = (s.postsOf d.id).length :=
      ⟨events.trans attempts.symm, by simpa using congrArg List.length all⟩
    refine ⟨?_, ?_, begun.onTime, ?_, all ▸ List.prefix_refl _, ?_, fun e inEvents => ?_,
      fun a inAnswers accepted => ?_, level.1.le, fun _ => level, done, undone⟩
    · rw [attempts]
      exact begun.numbers
    · rw [attempts]
      exact told.bounded
    · rw [begun.numbers]
      exact begun.reached
    · rw [events]
      exact told.numbers
    · exact (Delivery.announces_copy d ..).mp (told.announces e inEvents)
    · rw [attempts]
      obtain ⟨-, first, counted⟩ := heard.number_lt inAnswers
      exact (told.final first counted (.inl ⟨a, inAnswers, rfl, accepted⟩)).2
  · rw [latest] at told events
    rw [counted] at begun attempts
    obtain ⟨room, -⟩ := told.due owing
    have number := Delivery.toNat_next (h.inRange_queue mem) room
    have endpoint : d.next.endpoint = d.endpoint := rfl
    have held : s.tick.Holds d.id := by
      by_contra free
      have same : d.attempt = d.next.attempt :=
        congrArg Delivery.attempt ((Tick.free free).1.symm.trans counted)
      rw [← same] at number
      omega
    have below : (s.answersOf d.id).map (·.number.toNat) <+:
          (s.postsOf d.id).map (·.number.toNat) ∧
        ∀ a ∈ s.answersOf d.id, 1 ≤ a.number.toNat ∧ a.number.toNat ≤ d.attempt.toNat + 1 := by
      rw [begun.reached]
      rcases answered with same | same <;> rw [same] at heard
      · refine ⟨?_, fun a inAnswers => ?_⟩
        · rw [heard, endpoint, number]
          exact reached_prefix (Nat.le_succ _) _
        · obtain ⟨-, first, counted⟩ := heard.number_lt inAnswers
          omega
      · refine ⟨?_, fun a inAnswers => ?_⟩
        · rw [heard]
        · obtain ⟨-, first, counted⟩ := heard.number_lt inAnswers
          omega
    refine ⟨?_, ?_, begun.onTime, ?_, below.1, ?_, told.announces, fun a inAnswers accepted => ?_,
      ?_, fun free => absurd held free, done, undone⟩
    · rw [attempts]
      exact begun.numbers
    · rw [attempts, number]
      exact Nat.succ_le_succ room
    · rw [begun.numbers]
      exact begun.reached
    · rw [events]
      exact told.numbers
    · -- An answer that has been told of would have ended the ladder.
      obtain ⟨first, counted⟩ := below.2 a inAnswers
      have fresh : ¬a.number.toNat ≤ d.attempt.toNat := by
        intro old
        have ended := (told.final first old (.inl ⟨a, inAnswers, rfl, accepted⟩)).1
        rw [owing] at ended
        contradiction
      rw [attempts, number]
      omega
    · rw [attempts, events, number]
      exact Nat.le_succ _

end System

end Servr.Outbound
