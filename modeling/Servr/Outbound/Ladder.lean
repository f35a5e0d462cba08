import Servr.Outbound

/-! The retry ladder of one delivery: when each attempt is due, how far the attempts go, and what
the delivery has to do with the attempts, the requests, the answers of the receiver and the events
on record about it. -/

namespace Servr.Outbound

/-- The receiver answered with a 2xx. -/
def Answer.Accepted (a : Answer) : Prop :=
  ∃ status, a.result = .ok status ∧ 200 ≤ status ∧ status < 300

namespace Delivery

/-- The sum of the first `n` backoff entries, in milliseconds. -/
def offsetMs (d : Delivery) (n : Nat) : Nat := ((d.backoff.take n).map UInt64.toNat).sum

/-- When the attempt after attempt `n` is due. -/
def dueNanos (d : Delivery) (n : Nat) : Int := d.enqueuedAt.nanos + d.offsetMs n * 1000000

/-- The attempts can be counted, and each is due at a time that chrono can hold. -/
structure InRange (d : Delivery) : Prop where
  length : d.backoff.length + 1 < 2 ^ 32
  last : d.dueNanos d.backoff.length ≤ maxNanos

instance (d : Delivery) : Decidable d.InRange :=
  decidable_of_iff (d.backoff.length + 1 < 2 ^ 32 ∧ d.dueNanos d.backoff.length ≤ maxNanos)
    ⟨fun h => ⟨h.1, h.2⟩, fun h => ⟨h.length, h.last⟩⟩

/-- The delivery as `enqueue` built it. -/
def asEnqueued (d : Delivery) : Delivery := new d.id d.endpoint d.body d.enqueuedAt d.trace

/-- It may be attempted now. -/
structure Ready (d : Delivery) (now : DateTime) : Prop where
  undone : d.done = false
  due : d.dueAt ≤ now

/-- An attempt is made of it. -/
def next (d : Delivery) : Delivery := { d with attempt := d.attempt + 1 }

variable {d c : Delivery} {now : DateTime}

@[simp] theorem dueNanos_next (d : Delivery) (n : Nat) : d.next.dueNanos n = d.dueNanos n := rfl

theorem Ready.mono {later : DateTime} (h : d.Ready now) (le : now ≤ later) : d.Ready later :=
  ⟨h.undone, h.due.trans le⟩

theorem toNat_sum {l : List UInt64} (h : (l.map UInt64.toNat).sum < 2 ^ 64) :
    l.sum.toNat = (l.map UInt64.toNat).sum := by
  induction l with
  | nil => rfl
  | cons x l ih =>
    rw [List.map_cons, List.sum_cons] at h
    have rest := ih (by omega)
    rw [List.sum_cons, List.map_cons, List.sum_cons, UInt64.toNat_add, rest]
    exact Nat.mod_eq_of_lt h

theorem offsetMs_mono (d : Delivery) {m n : Nat} (h : m ≤ n) : d.offsetMs m ≤ d.offsetMs n := by
  have shorter := (List.take_sublist_take_left (l := d.backoff) h).map UInt64.toNat
  exact shorter.sum_le_sum fun _ _ => Nat.zero_le _

theorem offsetMs_le (d : Delivery) (n : Nat) : d.offsetMs n ≤ d.offsetMs d.backoff.length := by
  have shorter := (List.take_sublist n d.backoff).map UInt64.toNat
  rw [offsetMs, offsetMs, List.take_length]
  exact shorter.sum_le_sum fun _ _ => Nat.zero_le _

theorem dueNanos_zero (d : Delivery) : d.dueNanos 0 = d.enqueuedAt.nanos := by
  simp [dueNanos, offsetMs]

theorem dueNanos_le (d : Delivery) (n : Nat) : d.dueNanos n ≤ d.dueNanos d.backoff.length := by
  have le := d.offsetMs_le n
  simp only [dueNanos]
  omega

theorem dueFor_of_hasRoom {n : UInt32} (room : d.enqueuedAt.HasRoom (d.offsetMs (n.toNat - 1))) :
    ∃ due, d.dueFor n = some due ∧ d.enqueuedAt.After (d.offsetMs (n.toNat - 1)) due := by
  have small := room.lt
  have sum : (d.backoff.take (n.toNat - 1)).sum.toNat = d.offsetMs (n.toNat - 1) :=
    toNat_sum (show d.offsetMs (n.toNat - 1) < 2 ^ 64 by omega)
  rw [dueFor, sum]
  exact room.addMillis

theorem dueFor_eq (h : d.InRange) (n : UInt32) :
    ∃ due, d.dueFor n = some due ∧ due.nanos = d.dueNanos (n.toNat - 1) := by
  have all : d.enqueuedAt.HasRoom (d.offsetMs d.backoff.length) := h.last
  obtain ⟨due, same, after⟩ := dueFor_of_hasRoom (all.mono (d.offsetMs_le (n.toNat - 1)))
  exact ⟨due, same, after.exact⟩

theorem toNat_maxAttempts (h : d.InRange) : d.maxAttempts.toNat = d.backoff.length + 1 := by
  have length := h.length
  rw [maxAttempts, UInt32.toNat_add, UInt32.toNat_ofNat']
  simp
  omega

theorem toNat_next (h : d.InRange) (room : d.attempt.toNat ≤ d.backoff.length) :
    d.next.attempt.toNat = d.attempt.toNat + 1 := by
  have length := h.length
  rw [next, UInt32.toNat_add]
  exact Nat.mod_eq_of_lt (by simp; omega)

/-! ### What is on record of a delivery -/

/-- An attempt that ends the ladder: the receiver answered it with a 2xx, or it was the last. -/
def Final (d : Delivery) (answers : List Answer) (number : UInt32) : Prop :=
  (∃ a ∈ answers, a.number = number ∧ a.Accepted) ∨ number.toNat = d.backoff.length + 1

/-- What an event about a delivery says of its attempt, where `answers` came back for the requests
of the delivery. -/
structure Announces (d : Delivery) (answers : List Answer) (e : Emitted) : Prop where
  endpoint : e.event.endpoint = d.endpoint.name
  onTime : d.dueNanos (e.event.attempt.toNat - 1) ≤ e.at_.nanos
  failed : e.event.attempt ≤ d.endpoint.failFirst → e.event.status = none
  answered : ¬e.event.attempt ≤ d.endpoint.failFirst →
    ∃ a ∈ answers, a.number = e.event.attempt ∧ e.event.status = a.result.toOption
  none_iff : e.event.nextRetryAt = none ↔ d.Final answers e.event.attempt
  next : ∀ due, e.event.nextRetryAt = some due → due.nanos = d.dueNanos e.event.attempt.toNat

/-- The attempts that began are those up to the one counted last, each when it was due, and those
past `fail_first` went to the receiver. -/
structure Begun (d : Delivery) (attempts : List Attempt) (posts : List Post) : Prop where
  numbers : attempts.map (·.number.toNat) = List.range' 1 d.attempt.toNat
  onTime : ∀ a ∈ attempts, d.dueNanos (a.number.toNat - 1) ≤ a.at_.nanos
  reached : posts.map (·.number.toNat) =
    (List.range' 1 d.attempt.toNat).filter (d.endpoint.failFirst.toNat < ·)
  sent : ∀ p ∈ posts, p.url = d.endpoint.url ∧ p.body = d.body

/-- An answer came back for each request up to the attempt counted last. -/
def Heard (d : Delivery) (answers : List Answer) : Prop :=
  answers.map (·.number.toNat) =
    (List.range' 1 d.attempt.toNat).filter (d.endpoint.failFirst.toNat < ·)

/-- The outcome of the attempt counted last: it did not go out, or this is what came back. -/
def Got (d : Delivery) (answers : List Answer) (outcome : Except SendError UInt16) : Prop :=
  if d.attempt ≤ d.endpoint.failFirst then outcome.toOption = none
  else ∃ a ∈ answers, a.number = d.attempt ∧ outcome = a.result.mapError .http

/-- There is an event for each attempt up to the one counted last, which alone may be final. -/
structure Told (d : Delivery) (answers : List Answer) (events : List Emitted) : Prop where
  numbers : events.map (·.event.attempt.toNat) = List.range' 1 d.attempt.toNat
  announces : ∀ e ∈ events, d.Announces answers e
  bounded : d.attempt.toNat ≤ d.backoff.length + 1
  done : d.done = true ↔ ∃ e ∈ events, d.Final answers e.event.attempt
  last : ∀ e ∈ events, d.Final answers e.event.attempt → e.event.attempt.toNat = d.attempt.toNat
  due : d.done = false →
    d.attempt.toNat ≤ d.backoff.length ∧ d.dueAt.nanos = d.dueNanos d.attempt.toNat

theorem begun_new (d : Delivery) : d.asEnqueued.Begun [] [] where
  numbers := rfl
  onTime _ mem := absurd mem List.not_mem_nil
  reached := rfl
  sent _ mem := absurd mem List.not_mem_nil

theorem heard_new (d : Delivery) : d.asEnqueued.Heard [] := rfl

theorem told_new (d : Delivery) : d.asEnqueued.Told [] [] where
  numbers := rfl
  announces _ mem := absurd mem List.not_mem_nil
  bounded := Nat.zero_le _
  done := by simp [asEnqueued, new]
  last _ mem := absurd mem List.not_mem_nil
  due _ := ⟨Nat.zero_le _, (dueNanos_zero _).symm⟩

/-- The requests of an attempt: none up to `fail_first`, and one after. -/
def post (d : Delivery) : List Post :=
  if d.attempt ≤ d.endpoint.failFirst then [] else [⟨d.id, d.attempt, d.endpoint.url, d.body⟩]

/-- An attempt that is due begins. -/
theorem Begun.next {attempts : List Attempt} {posts : List Post} (h : d.Begun attempts posts)
    (inRange : d.InRange) (room : d.attempt.toNat ≤ d.backoff.length)
    (due : d.dueNanos d.attempt.toNat ≤ now.nanos) :
    d.next.Begun (attempts ++ [⟨d.id, d.next.attempt, now⟩]) (posts ++ d.next.post) := by
  have number := toNat_next inRange room
  refine ⟨?_, fun a mem => ?_, ?_, fun p mem => ?_⟩
  · rw [List.map_append, h.numbers, number, List.range'_1_concat]
    simp [number, Nat.add_comm]
  · rcases List.mem_append.mp mem with old | new
    · exact h.onTime a old
    · obtain rfl := List.mem_singleton.mp new
      simpa [number] using due
  · rw [List.map_append, h.reached, number, List.range'_1_concat, List.filter_append]
    have first : d.next.attempt ≤ d.endpoint.failFirst ↔
        ¬d.endpoint.failFirst.toNat < 1 + d.attempt.toNat := by
      rw [UInt32.le_iff_toNat_le, number]
      omega
    have same : d.next.endpoint = d.endpoint := rfl
    rw [post, same]
    by_cases reaches : d.endpoint.failFirst.toNat < 1 + d.attempt.toNat
    · simp [first, reaches, number, Nat.add_comm]
    · simp [first, reaches]
  · rcases List.mem_append.mp mem with old | new
    · exact h.sent p old
    · unfold post at new
      split at new
      · contradiction
      · obtain rfl := List.mem_singleton.mp new
        exact ⟨rfl, rfl⟩

theorem succeeded_iff {outcome : Except SendError UInt16} : succeeded outcome = true ↔
    ∃ status, outcome = .ok status ∧ 200 ≤ status ∧ status < 300 := by
  cases outcome <;> simp [succeeded]

theorem succeeded_answer {a : Answer} :
    succeeded (a.result.mapError SendError.http) = true ↔ a.Accepted := by
  rw [succeeded_iff, Answer.Accepted]
  cases a.result <;> simp [Except.mapError]

/-- The outcome of the attempt counted last ends the ladder. -/
def Ends (d : Delivery) (outcome : Except SendError UInt16) : Prop :=
  succeeded outcome = true ∨ d.attempt.toNat = d.backoff.length + 1

/-- The outcome of an attempt and its event. -/
structure Settled (d : Delivery) (outcome : Except SendError UInt16) (c : Delivery)
    (event : WebhookOut) : Prop where
  same : ∃ due done status error,
    c = { d with dueAt := due, done := done, lastStatus := status, lastError := error }
  endpoint : event.endpoint = d.endpoint.name
  number : event.attempt = d.attempt
  status : event.status = outcome.toOption
  done : c.done = true ↔ d.Ends outcome
  none_iff : event.nextRetryAt = none ↔ d.Ends outcome
  due : c.done = false →
    event.nextRetryAt = some c.dueAt ∧ c.dueAt.nanos = d.dueNanos d.attempt.toNat

theorem settle_spec (inRange : d.InRange) (undone : d.done = false)
    (bounded : d.attempt.toNat ≤ d.backoff.length + 1) (outcome : Except SendError UInt16) :
    ∃ c event, d.settle outcome = some (c, event) ∧ d.Settled outcome c event := by
  have max : d.maxAttempts ≤ d.attempt ↔ d.attempt.toNat = d.backoff.length + 1 := by
    rw [UInt32.le_iff_toNat_le, toNat_maxAttempts inRange]
    omega
  have final : d.Ends outcome ↔
      (succeeded outcome || decide (d.maxAttempts ≤ d.attempt)) = true := by
    rw [Bool.or_eq_true, decide_eq_true_eq, max]
    rfl
  by_cases ends : (succeeded outcome || decide (d.maxAttempts ≤ d.attempt)) = true
  · refine ⟨_, _, if_pos ends, ⟨⟨_, _, _, _, rfl⟩, rfl, rfl, rfl, ?_, ?_, ?_⟩⟩
    · exact iff_of_true rfl (final.mpr ends)
    · exact iff_of_true rfl (final.mpr ends)
    · simp
  · have goes := ends
    have room : d.attempt.toNat ≤ d.backoff.length := by
      simp only [Bool.or_eq_true, decide_eq_true_eq, max, not_or] at goes
      omega
    have number : (d.attempt + 1).toNat = d.attempt.toNat + 1 := toNat_next inRange room
    obtain ⟨due, later, nanos⟩ := dueFor_eq inRange (d.attempt + 1)
    rw [number, Nat.add_sub_cancel] at nanos
    refine ⟨{ d with
        dueAt := due, lastStatus := outcome.toOption, lastError := errorText outcome },
      ⟨d.endpoint.name, d.attempt, outcome.toOption, some due⟩, ?_,
      ⟨⟨_, _, _, _, rfl⟩, rfl, rfl, rfl, ?_, ?_, fun _ => ⟨rfl, nanos⟩⟩⟩
    · have same : Delivery.dueFor { d with
          lastStatus := outcome.toOption, lastError := errorText outcome } (d.attempt + 1) =
            some due := later
      simp only [settle]
      rw [if_neg (by exact ends), same]
    · exact iff_of_false (by simp [undone]) (by rwa [final])
    · exact iff_of_false (by simp) (by rwa [final])

theorem Heard.number_lt {answers : List Answer} (h : d.Heard answers) {a : Answer}
    (mem : a ∈ answers) :
    d.endpoint.failFirst < a.number ∧ 1 ≤ a.number.toNat ∧ a.number.toNat ≤ d.attempt.toNat := by
  have inNumbers : a.number.toNat ∈ answers.map (·.number.toNat) := List.mem_map_of_mem mem
  rw [h, List.mem_filter, List.mem_range'_1, decide_eq_true_eq] at inNumbers
  exact ⟨inNumbers.2, inNumbers.1.1, by omega⟩

/-- One answer came back for a request at most. -/
theorem Heard.unique {answers : List Answer} (h : d.Heard answers) {a b : Answer}
    (ha : a ∈ answers) (hb : b ∈ answers) (same : a.number = b.number) : a = b := by
  have nodup : (answers.map (·.number.toNat)).Nodup := by
    rw [h]
    exact List.Nodup.filter _ List.nodup_range'
  exact List.inj_on_of_nodup_map nodup ha hb (congrArg UInt32.toNat same)

theorem Heard.settled {answers : List Answer} {event : WebhookOut}
    {outcome : Except SendError UInt16} (h : d.Heard answers)
    (settled : d.Settled outcome c event) : c.Heard answers := by
  obtain ⟨_, _, _, _, rfl⟩ := settled.same
  exact h

/-- An attempt that does not go out is answered by nobody. -/
theorem Heard.fail {answers : List Answer} (h : d.Heard answers) (inRange : d.InRange)
    (room : d.attempt.toNat ≤ d.backoff.length)
    (first : d.next.attempt ≤ d.endpoint.failFirst) : d.next.Heard answers := by
  have number := toNat_next inRange room
  rw [UInt32.le_iff_toNat_le, number] at first
  have same : d.next.endpoint = d.endpoint := rfl
  rw [Heard, h, number, List.range'_1_concat, List.filter_append, same]
  have past : ¬d.endpoint.failFirst.toNat < 1 + d.attempt.toNat := by omega
  simp [past]

/-- The request of the next attempt is answered. -/
theorem Heard.answer {answers : List Answer} (h : d.Heard answers) (inRange : d.InRange)
    (room : d.attempt.toNat ≤ d.backoff.length)
    (reaches : ¬d.next.attempt ≤ d.endpoint.failFirst) (result : Except String UInt16) :
    d.next.Heard (answers ++ [⟨d.id, d.next.attempt, result⟩]) := by
  have number := toNat_next inRange room
  rw [UInt32.le_iff_toNat_le, number] at reaches
  have same : d.next.endpoint = d.endpoint := rfl
  rw [Heard, List.map_append, h, number, List.range'_1_concat, List.filter_append, same]
  have past : d.endpoint.failFirst.toNat < 1 + d.attempt.toNat := by omega
  simp [past, number, Nat.add_comm]

/-- An attempt ends the ladder by its outcome. -/
theorem Heard.final_iff {answers : List Answer} {outcome : Except SendError UInt16}
    (h : d.Heard answers) (got : d.Got answers outcome) :
    d.Final answers d.attempt ↔ d.Ends outcome := by
  refine or_congr_left ?_
  unfold Got at got
  split at got
  · rename_i first
    refine iff_of_false ?_ ?_
    · rintro ⟨a, mem, same, -⟩
      exact absurd (same ▸ (h.number_lt mem).1) (UInt32.not_lt.mpr first)
    · cases outcome with
      | ok => simp [Except.toOption] at got
      | error => simp [succeeded]
  · obtain ⟨a, mem, number, rfl⟩ := got
    rw [succeeded_answer]
    constructor
    · rintro ⟨b, inAnswers, same, accepted⟩
      exact h.unique inAnswers mem (same.trans number.symm) ▸ accepted
    · exact fun accepted => ⟨a, mem, number, accepted⟩

/-- An attempt that was told of and ends the ladder is the one counted last, and the delivery is
done. -/
theorem Told.final {answers : List Answer} {events : List Emitted} (h : d.Told answers events)
    {number : UInt32} (first : 1 ≤ number.toNat) (told : number.toNat ≤ d.attempt.toNat)
    (final : d.Final answers number) : d.done = true ∧ number.toNat = d.attempt.toNat := by
  have inNumbers : number.toNat ∈ events.map (·.event.attempt.toNat) := by
    rw [h.numbers, List.mem_range'_1]
    omega
  obtain ⟨e, mem, same⟩ := List.mem_map.mp inNumbers
  obtain rfl := UInt32.toNat_inj.mp same
  exact ⟨h.done.mpr ⟨e, mem, final⟩, h.last e mem final⟩

/-- An answer for a later attempt changes nothing of what was told. -/
theorem Told.answer {answers : List Answer} {events : List Emitted} (h : d.Told answers events)
    {a : Answer} (later : d.attempt.toNat < a.number.toNat) : d.Told (answers ++ [a]) events := by
  have below : ∀ e ∈ events, e.event.attempt ≠ a.number := by
    intro e mem same
    have inNumbers : e.event.attempt.toNat ∈ events.map (·.event.attempt.toNat) :=
      List.mem_map_of_mem mem
    rw [h.numbers, List.mem_range'_1, same] at inNumbers
    omega
  have final : ∀ e ∈ events,
      (d.Final (answers ++ [a]) e.event.attempt ↔ d.Final answers e.event.attempt) := by
    intro e mem
    have other : ¬a.number = e.event.attempt := fun same => below e mem same.symm
    simp [Final, or_and_right, exists_or, other]
  refine ⟨h.numbers, fun e mem => ?_, h.bounded, ?_, fun e mem ends => ?_, h.due⟩
  · have before := h.announces e mem
    refine ⟨before.endpoint, before.onTime, before.failed, fun reaches => ?_, ?_, before.next⟩
    · obtain ⟨b, inAnswers, same⟩ := before.answered reaches
      exact ⟨b, List.mem_append_left _ inAnswers, same⟩
    · rw [before.none_iff, final e mem]
  · rw [h.done]
    exact exists_congr fun e => and_congr_right fun mem => (final e mem).symm
  · exact h.last e mem ((final e mem).mp ends)

theorem Begun.settled {attempts : List Attempt} {posts : List Post} {event : WebhookOut}
    {outcome : Except SendError UInt16} (h : d.Begun attempts posts)
    (settled : d.Settled outcome c event) : c.Begun attempts posts := by
  obtain ⟨_, _, _, _, rfl⟩ := settled.same
  exact ⟨h.numbers, h.onTime, h.reached, h.sent⟩

/-- What an event says of an attempt, it says of it for every copy of the delivery. -/
theorem announces_copy {answers : List Answer} {e : Emitted} (d : Delivery) (attempt : UInt32)
    (dueAt : DateTime) (done : Bool) (lastStatus : Option UInt16) (lastError : Option String) :
    Announces { d with attempt, dueAt, done, lastStatus, lastError } answers e ↔
      d.Announces answers e :=
  ⟨fun h => ⟨h.endpoint, h.onTime, h.failed, h.answered, h.none_iff, h.next⟩,
    fun h => ⟨h.endpoint, h.onTime, h.failed, h.answered, h.none_iff, h.next⟩⟩

/-- The event of the attempt counted last, which was due. -/
theorem Settled.announces {answers : List Answer} {event : WebhookOut}
    {outcome : Except SendError UInt16} (settled : d.Settled outcome c event)
    (heard : d.Heard answers) (got : d.Got answers outcome)
    (due : d.dueNanos (d.attempt.toNat - 1) ≤ now.nanos) :
    d.Announces answers ⟨d.id, now, event⟩ := by
  have number := settled.number
  refine ⟨settled.endpoint, ?_, fun first => ?_, fun reaches => ?_, ?_, fun due some => ?_⟩
  · simpa [number] using due
  · rw [Got, if_pos (number ▸ first)] at got
    rw [settled.status, got]
  · rw [Got, if_neg (number ▸ reaches)] at got
    obtain ⟨a, mem, same, rfl⟩ := got
    refine ⟨a, mem, same.trans number.symm, ?_⟩
    rw [settled.status]
    cases a.result <;> rfl
  · rw [settled.none_iff, number]
    exact (heard.final_iff got).symm
  · have undone : c.done = false := by
      by_contra done
      rw [Bool.not_eq_false, settled.done, ← settled.none_iff] at done
      rw [done] at some
      contradiction
    obtain ⟨next, nanos⟩ := settled.due undone
    obtain rfl := Option.some.inj (some.symm.trans next)
    rw [nanos, number]

/-- A delivery that is not done after an attempt has attempts left. -/
theorem Settled.room {event : WebhookOut} {outcome : Except SendError UInt16}
    (settled : d.Settled outcome c event) (bounded : d.attempt.toNat ≤ d.backoff.length + 1)
    (undone : c.done = false) : d.attempt.toNat ≤ d.backoff.length := by
  have goes : ¬d.Ends outcome := by
    rw [← settled.done, undone]
    simp
  have notLast : d.attempt.toNat ≠ d.backoff.length + 1 := fun last => goes (.inr last)
  omega

/-- The event of an attempt continues the events of a delivery that is not done. -/
theorem Told.settled {answers : List Answer} {events : List Emitted} {event : WebhookOut}
    {outcome : Except SendError UInt16} (h : d.Told answers events) (inRange : d.InRange)
    (ready : d.Ready now) (heard : d.next.Heard answers) (got : d.next.Got answers outcome)
    (settled : d.next.Settled outcome c event) :
    c.Told answers (events ++ [⟨d.id, now, event⟩]) := by
  obtain ⟨room, due⟩ := h.due ready.undone
  have number : d.next.attempt.toNat = d.attempt.toNat + 1 := toNat_next inRange room
  have counted : event.attempt.toNat = d.attempt.toNat + 1 := by rw [settled.number, number]
  have bounded : d.next.attempt.toNat ≤ d.next.backoff.length + 1 := by
    rw [number]
    exact Nat.succ_le_succ room
  have onTime : d.next.dueNanos (d.next.attempt.toNat - 1) ≤ now.nanos := by
    rw [number, Nat.add_sub_cancel]
    exact due ▸ ready.due
  have announces : d.next.Announces answers ⟨d.id, now, event⟩ :=
    settled.announces heard got onTime
  have ends : d.Final answers event.attempt ↔ d.next.Ends outcome := by
    rw [settled.number]
    exact heard.final_iff got
  have none : ∀ e ∈ events, ¬d.Final answers e.event.attempt := by
    intro e mem final
    have done := h.done.mpr ⟨e, mem, final⟩
    rw [ready.undone] at done
    contradiction
  have last : c.done = true ↔
      ∃ e ∈ events ++ [⟨d.id, now, event⟩], d.Final answers e.event.attempt := by
    rw [settled.done, ← ends]
    constructor
    · intro final
      exact ⟨_, List.mem_append_right _ (List.mem_singleton_self _), final⟩
    · rintro ⟨e, mem, final⟩
      rcases List.mem_append.mp mem with old | new
      · exact absurd final (none e old)
      · obtain rfl := List.mem_singleton.mp new
        exact final
  have nextDue : c.done = false →
      d.next.attempt.toNat ≤ d.backoff.length ∧
        c.dueAt.nanos = d.dueNanos d.next.attempt.toNat :=
    fun undone => ⟨settled.room bounded undone, (settled.due undone).2⟩
  obtain ⟨_, _, _, _, rfl⟩ := settled.same
  refine ⟨?_, fun e mem => ?_, bounded, last, fun e mem final => ?_, nextDue⟩
  · show _ = List.range' 1 d.next.attempt.toNat
    rw [List.map_append, h.numbers, number, List.range'_1_concat]
    simp [counted, Nat.add_comm]
  · rcases List.mem_append.mp mem with old | new
    · exact (announces_copy d ..).mpr (h.announces e old)
    · obtain rfl := List.mem_singleton.mp new
      exact (announces_copy d.next ..).mpr announces
  · rcases List.mem_append.mp mem with old | new
    · exact absurd final (none e old)
    · obtain rfl := List.mem_singleton.mp new
      exact congrArg UInt32.toNat settled.number

end Delivery

end Servr.Outbound
