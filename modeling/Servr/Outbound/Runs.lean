import Servr.Outbound.Steps

/-! Deliveries over whole runs.  The invariant ties each queued delivery, or the copy of it that the
pass holds, to its ladder. -/

namespace Servr.Outbound

/-! ### The invariant -/

/-- Deliveries of the queue that a pass is to attempt. -/
structure Waiting (queue : List Delivery) (now : DateTime) (due : List Delivery) : Prop where
  ready : ∀ d ∈ due, d ∈ queue ∧ d.Ready now
  nodup : (due.map (·.id)).Nodup

/-- A delivery of the queue that a pass attempts before those in `due`. -/
structure Holding (queue : List Delivery) (now : DateTime) (d : Delivery) (due : List Delivery) :
    Prop where
  mem : d ∈ queue
  ready : d.Ready now
  other : ∀ e ∈ due, e.id ≠ d.id
  waiting : Waiting queue now due

namespace Tick

/-- The copy of a delivery that the pass has counted an attempt of, or the delivery itself. -/
def counted (tick : Tick) (d : Delivery) : Delivery :=
  match tick with
  | .posted c _ | .delivered c _ _ | .told c _ => if c.id = d.id then c else d
  | _ => d

/-- The copy of a delivery that the pass has the outcome of, or the delivery itself. -/
def heard (tick : Tick) (d : Delivery) : Delivery :=
  match tick with
  | .delivered c _ _ | .told c _ => if c.id = d.id then c else d
  | _ => d

/-- The copy of a delivery that the pass has told the bus of, or the delivery itself. -/
def latest (tick : Tick) (d : Delivery) : Delivery :=
  match tick with
  | .told c _ => if c.id = d.id then c else d
  | _ => d

/-- What the pass holds is a copy of what is in the queue, moved on by its attempt. -/
def Sound (queue : List Delivery) (now : DateTime) : Tick → Prop
  | idle => True
  | .begun start => start ≤ now
  | attempting due => Waiting queue now due
  | posted c due => ∃ d, Holding queue now d due ∧ c = d.next ∧
      ¬d.next.attempt ≤ d.endpoint.failFirst
  | delivered c _ due => ∃ d, Holding queue now d due ∧ c = d.next
  | told c due => ∃ d outcome event, Holding queue now d due ∧ d.next.Settled outcome c event
  | panicked => False

end Tick

namespace System

/-- What is on record of a queued delivery, or of the copy that the pass holds. -/
structure Entry (s : System) (d : Delivery) : Prop where
  begun : (s.tick.counted d).Begun (s.attemptsOf d.id) (s.postsOf d.id)
  heard : (s.tick.heard d).Heard (s.answersOf d.id)
  told : (s.tick.latest d).Told (s.answersOf d.id) (s.eventsOf d.id)

structure Inv (s : System) : Prop where
  ids : s.ids.Nodup
  inRange : ∀ d ∈ s.calls ++ s.queue, d.InRange
  calls : ∀ d ∈ s.calls, d.asEnqueued = d
  order : s.queue.map Delivery.asEnqueued = s.pushed
  unlogged : ∀ id ∉ s.queue.map (·.id),
    s.attemptsOf id = [] ∧ s.postsOf id = [] ∧ s.eventsOf id = [] ∧ s.answersOf id = []
  tick : s.tick.Sound s.queue s.now
  got : ∀ c outcome due, s.tick = .delivered c outcome due → c.Got (s.answersOf c.id) outcome
  entries : ∀ d ∈ s.queue, s.Entry d

end System

variable {queue more due : List Delivery} {now later : DateTime} {c d e : Delivery}

theorem Waiting.mono (h : Waiting queue now due) (grows : queue ⊆ more) (le : now ≤ later) :
    Waiting more later due :=
  ⟨fun d mem => ⟨grows (h.ready d mem).1, (h.ready d mem).2.mono le⟩, h.nodup⟩

theorem Holding.mono (h : Holding queue now d due) (grows : queue ⊆ more) (le : now ≤ later) :
    Holding more later d due :=
  ⟨grows h.mem, h.ready.mono le, h.other, h.waiting.mono grows le⟩

theorem Tick.counted_delivered (outcome : Except SendError UInt16) (due : List Delivery) :
    (Tick.delivered c outcome due).counted d = if c.id = d.id then c else d := rfl

theorem Tick.counted_told (due : List Delivery) :
    (Tick.told c due).counted d = if c.id = d.id then c else d := rfl

theorem Tick.heard_delivered (outcome : Except SendError UInt16) (due : List Delivery) :
    (Tick.delivered c outcome due).heard d = if c.id = d.id then c else d := rfl

theorem Tick.heard_told (due : List Delivery) :
    (Tick.told c due).heard d = if c.id = d.id then c else d := rfl

theorem Tick.latest_told (due : List Delivery) :
    (Tick.told c due).latest d = if c.id = d.id then c else d := rfl

/-- The pass stays sound while the queue grows and the clock moves on. -/
theorem Tick.Sound.mono {tick : Tick} (h : tick.Sound queue now) (grows : queue ⊆ more)
    (le : now ≤ later) : tick.Sound more later := by
  cases tick with
  | idle => trivial
  | begun start => exact le_trans h le
  | attempting due => exact Waiting.mono h grows le
  | posted c due =>
    obtain ⟨d, holding, rest⟩ := h
    exact ⟨d, holding.mono grows le, rest⟩
  | delivered c outcome due =>
    obtain ⟨d, holding, rest⟩ := h
    exact ⟨d, holding.mono grows le, rest⟩
  | told c due =>
    obtain ⟨d, outcome, event, holding, settled⟩ := h
    exact ⟨d, outcome, event, holding.mono grows le, settled⟩
  | panicked => exact h

/-- The head of what is to be attempted. -/
theorem Waiting.holding (h : Waiting queue now (d :: due)) : Holding queue now d due := by
  obtain ⟨fresh, nodup⟩ := List.nodup_cons.mp h.nodup
  obtain ⟨mem, ready⟩ := h.ready d List.mem_cons_self
  refine ⟨mem, ready, fun e inDue same => ?_, ?_, nodup⟩
  · exact fresh (List.mem_map.mpr ⟨e, inDue, same⟩)
  · exact fun e inDue => h.ready e (List.mem_cons_of_mem d inDue)

theorem Delivery.Settled.id_eq {outcome : Except SendError UInt16} {event : WebhookOut}
    (h : d.Settled outcome c event) : c.id = d.id ∧ c.asEnqueued = d.asEnqueued := by
  obtain ⟨_, _, _, _, rfl⟩ := h.same
  exact ⟨rfl, rfl⟩

/-- What the pass holds has the id of a delivery in the queue. -/
theorem Tick.Sound.absent {tick : Tick} (h : tick.Sound queue now)
    (absent : d.id ∉ queue.map (·.id)) :
    tick.counted d = d ∧ tick.heard d = d ∧ tick.latest d = d := by
  have other (e : Delivery) (mem : e ∈ queue) : e.id ≠ d.id := fun same =>
    absent (List.mem_map.mpr ⟨e, mem, same⟩)
  cases tick with
  | posted c due =>
    obtain ⟨e, holding, rfl, -⟩ := h
    exact ⟨if_neg (other e holding.mem), rfl, rfl⟩
  | delivered c outcome due =>
    obtain ⟨e, holding, rfl⟩ := h
    exact ⟨if_neg (other e holding.mem), if_neg (other e holding.mem), rfl⟩
  | told c due =>
    obtain ⟨e, outcome, event, holding, settled⟩ := h
    have ne : c.id ≠ d.id := by
      rw [settled.id_eq.1]
      exact other e holding.mem
    exact ⟨if_neg ne, if_neg ne, if_neg ne⟩
  | _ => exact ⟨rfl, rfl, rfl⟩

/-- `c` is `d` but for how far its attempts have come. -/
def Delivery.CopyOf (c d : Delivery) : Prop :=
  ∃ attempt due done status error, c = { d with
    attempt := attempt, dueAt := due, done := done, lastStatus := status, lastError := error }

theorem Delivery.CopyOf.refl (d : Delivery) : d.CopyOf d := ⟨_, _, _, _, _, rfl⟩

/-! ### The queue after a delivery is written back -/

theorem map_replace {α : Type} (f : Delivery → α)
    (same : ∀ d ∈ queue, d.id = c.id → f d = f c) : (replace queue c).map f = queue.map f := by
  induction queue with
  | nil => rfl
  | cons slot rest ih =>
    rw [replace]
    split
    · rename_i found
      rw [List.map_cons, List.map_cons, same slot List.mem_cons_self found]
    · rw [List.map_cons, List.map_cons, ih fun d mem => same d (List.mem_cons_of_mem _ mem)]

theorem mem_replace (nodup : (queue.map (·.id)).Nodup) (mem : d ∈ replace queue c) :
    d = c ∨ d ∈ queue ∧ d.id ≠ c.id := by
  induction queue with
  | nil => simp [replace] at mem
  | cons slot rest ih =>
    obtain ⟨fresh, nodup⟩ := List.nodup_cons.mp nodup
    rw [replace] at mem
    split at mem
    · rename_i found
      rcases List.mem_cons.mp mem with rfl | later
      · exact .inl rfl
      · refine .inr ⟨List.mem_cons_of_mem _ later, fun same => ?_⟩
        exact fresh (List.mem_map.mpr ⟨d, later, same.trans found.symm⟩)
    · rename_i ne
      rcases List.mem_cons.mp mem with rfl | later
      · exact .inr ⟨List.mem_cons_self, ne⟩
      · rcases ih nodup later with rfl | ⟨inRest, other⟩
        · exact .inl rfl
        · exact .inr ⟨List.mem_cons_of_mem _ inRest, other⟩

theorem mem_replace_of_ne (mem : d ∈ queue) (ne : d.id ≠ c.id) : d ∈ replace queue c := by
  induction queue with
  | nil => contradiction
  | cons slot rest ih =>
    rw [replace]
    rcases List.mem_cons.mp mem with rfl | later
    · rw [if_neg ne]
      exact List.mem_cons_self
    · split
      · exact List.mem_cons_of_mem _ later
      · exact List.mem_cons_of_mem _ (ih later)

/-! ### Steps -/

namespace System

variable {s t : System}

theorem Inv.nodup (h : s.Inv) : (s.queue.map (·.id)).Nodup := by
  have ids := h.ids
  rw [System.ids, List.map_append] at ids
  exact (List.nodup_append'.mp ids).2.1

theorem Inv.unique (h : s.Inv) (hd : d ∈ s.queue) (he : e ∈ s.queue) (same : d.id = e.id) : d = e :=
  List.inj_on_of_nodup_map h.nodup hd he same

theorem Inv.inRange_queue (h : s.Inv) (mem : d ∈ s.queue) : d.InRange :=
  h.inRange d (List.mem_append_right _ mem)

/-- The pass or the clock moves on, and leaves what is on record. -/
theorem Inv.move (h : s.Inv) (tick : Tick) (sound : tick.Sound s.queue now)
    (got : ∀ c outcome due, tick = .delivered c outcome due → s.tick = .delivered c outcome due)
    (counted : ∀ d ∈ s.queue, tick.counted d = s.tick.counted d)
    (heard : ∀ d ∈ s.queue, tick.heard d = s.tick.heard d)
    (latest : ∀ d ∈ s.queue, tick.latest d = s.tick.latest d) : Inv { s with tick, now } where
  ids := h.ids
  inRange := h.inRange
  calls := h.calls
  order := h.order
  unlogged := h.unlogged
  tick := sound
  got c outcome due at_ := h.got c outcome due (got c outcome due at_)
  entries d mem := by
    have entry := h.entries d mem
    refine ⟨?_, ?_, ?_⟩
    · dsimp only
      rw [counted d mem]
      exact entry.begun
    · dsimp only
      rw [heard d mem]
      exact entry.heard
    · dsimp only
      rw [latest d mem]
      exact entry.told

/-- A call of `enqueue` that has drawn its id is no delivery of the queue. -/
theorem Inv.absent (h : s.Inv) (mem : d ∈ s.calls) : d.id ∉ s.queue.map (·.id) := by
  have ids := h.ids
  rw [System.ids, List.map_append] at ids
  exact (List.nodup_append'.mp ids).2.2 (List.mem_map_of_mem mem)

theorem Inv.push (h : s.Inv) {k : Nat} (found : s.calls[k]? = some d) : Inv { s with
    calls := s.calls.eraseIdx k
    queue := s.queue ++ [d]
    pushed := s.pushed ++ [d] } := by
  obtain ⟨lt, rfl⟩ := List.getElem?_eq_some_iff.mp found
  have mem := List.getElem_mem lt
  have absent := h.absent mem
  have perm : (s.calls.eraseIdx k ++ (s.queue ++ [s.calls[k]])).Perm (s.calls ++ s.queue) :=
    (((List.perm_append_singleton _ _).append_left _).trans List.perm_middle).trans
      ((List.getElem_cons_eraseIdx_perm lt).append_right _)
  have sound := h.tick.mono (List.subset_append_left _ [s.calls[k]]) (le_refl s.now)
  refine ⟨?_, ?_, ?_, ?_, ?_, sound, h.got, ?_⟩
  · exact (perm.map _).nodup_iff.mpr h.ids
  · exact fun d inBoth => h.inRange d (perm.mem_iff.mp inBoth)
  · exact fun d inCalls => h.calls d (List.mem_of_mem_eraseIdx inCalls)
  · rw [List.map_append, h.order, List.map_singleton, h.calls _ mem]
  · intro id outside
    exact h.unlogged id fun inside => outside (by simp [inside])
  · intro d inQueue
    rcases List.mem_append.mp inQueue with old | new
    · exact ⟨(h.entries d old).begun, (h.entries d old).heard, (h.entries d old).told⟩
    · obtain rfl := List.mem_singleton.mp new
      obtain ⟨attempts, posts, events, answers⟩ := h.unlogged _ absent
      obtain ⟨counted, heard, latest⟩ := h.tick.absent absent
      have asNew := h.calls _ mem
      refine ⟨?_, ?_, ?_⟩
      · show (s.tick.counted _).Begun (s.attemptsOf _) (s.postsOf _)
        rw [counted, attempts, posts, ← asNew]
        exact Delivery.begun_new _
      · show (s.tick.heard _).Heard (s.answersOf _)
        rw [heard, answers, ← asNew]
        exact Delivery.heard_new _
      · show (s.tick.latest _).Told (s.answersOf _) (s.eventsOf _)
        rw [latest, answers, events, ← asNew]
        exact Delivery.told_new _

/-- Nothing that the pass puts on record is about another delivery. -/
theorem filter_append_ne {α : Type} (key : α → Uuid) {l more : List α} {id : Uuid}
    (other : ∀ a ∈ more, key a ≠ id) :
    (l ++ more).filter (fun a => key a = id) = l.filter fun a => key a = id := by
  have none : more.filter (fun a => key a = id) = [] :=
    List.filter_eq_nil_iff.mpr (by simpa using other)
  rw [List.filter_append, none, List.append_nil]

theorem filter_append_eq {α : Type} (key : α → Uuid) {l more : List α} {id : Uuid}
    (same : ∀ a ∈ more, key a = id) :
    (l ++ more).filter (fun a => key a = id) = (l.filter fun a => key a = id) ++ more := by
  have all : more.filter (fun a => key a = id) = more :=
    List.filter_eq_self.mpr (by simpa using same)
  rw [List.filter_append, all]

theorem post_delivery {p : Post} (mem : p ∈ d.next.post) : p.delivery = d.id := by
  unfold Delivery.post at mem
  split at mem
  · contradiction
  · obtain rfl := List.mem_singleton.mp mem
    rfl

/-- The attempt of the next delivery begins. -/
theorem Inv.attempt (h : s.Inv) (at_ : s.tick = .attempting (d :: due)) (tick : Tick)
    (sound : tick.Sound s.queue s.now)
    (got : ∀ c outcome due, tick = .delivered c outcome due → c.Got (s.answersOf c.id) outcome)
    (counted : ∀ e, tick.counted e = if d.id = e.id then d.next else e)
    (heard : ∀ e ∈ s.queue, e.Heard (s.answersOf e.id) → (tick.heard e).Heard (s.answersOf e.id))
    (latest : ∀ e, tick.latest e = e) : Inv { s with
      attempts := s.attempts ++ [⟨d.id, d.next.attempt, s.now⟩]
      posts := s.posts ++ d.next.post
      tick } := by
  have waiting : Waiting s.queue s.now (d :: due) := by
    have before := h.tick
    rwa [at_] at before
  obtain ⟨mem, ready⟩ := waiting.ready d List.mem_cons_self
  have absent {id : Uuid} (ne : d.id ≠ id) :
      (∀ a ∈ [Attempt.mk d.id d.next.attempt s.now], a.delivery ≠ id) ∧
        ∀ p ∈ d.next.post, p.delivery ≠ id :=
    ⟨by simpa using ne, fun p inPost => post_delivery inPost ▸ ne⟩
  refine ⟨h.ids, h.inRange, h.calls, h.order, fun id outside => ?_, sound, got,
    fun e inQueue => ?_⟩
  · have ne : d.id ≠ id := fun same => outside (List.mem_map.mpr ⟨d, mem, same⟩)
    obtain ⟨attempts, posts, rest⟩ := h.unlogged id outside
    refine ⟨?_, ?_, rest⟩
    · exact (filter_append_ne Attempt.delivery (absent ne).1).trans attempts
    · exact (filter_append_ne Post.delivery (absent ne).2).trans posts
  · have entry := h.entries e inQueue
    have same : s.tick.counted e = e ∧ s.tick.heard e = e ∧ s.tick.latest e = e := by
      rw [at_]
      exact ⟨rfl, rfl, rfl⟩
    have begun := entry.begun
    have answered := entry.heard
    have told := entry.told
    rw [same.1] at begun
    rw [same.2.1] at answered
    rw [same.2.2] at told
    refine ⟨?_, heard e inQueue answered, ?_⟩
    · show (tick.counted e).Begun (attemptsOf _ e.id) (postsOf _ e.id)
      rw [counted]
      by_cases ours : d.id = e.id
      · obtain rfl := h.unique mem inQueue ours
        obtain ⟨room, due⟩ := told.due ready.undone
        have onTime : d.dueNanos d.attempt.toNat ≤ s.now.nanos := due ▸ ready.due
        have next := begun.next (h.inRange_queue mem) room onTime
        rw [if_pos rfl, attemptsOf, postsOf, filter_append_eq Attempt.delivery (by simp),
          filter_append_eq Post.delivery fun p inPost => post_delivery inPost]
        exact next
      · rw [if_neg ours, attemptsOf, postsOf, filter_append_ne Attempt.delivery (absent ours).1,
          filter_append_ne Post.delivery (absent ours).2]
        exact begun
    · show (tick.latest e).Told (s.answersOf e.id) (s.eventsOf e.id)
      rw [latest]
      exact told

/-- A request comes back. -/
theorem Inv.answer (h : s.Inv) (holding : Holding s.queue s.now d due)
    (at_ : s.tick = .posted d.next due) (reaches : ¬d.next.attempt ≤ d.endpoint.failFirst)
    (result : Except String UInt16) : Inv { s with
      answers := s.answers ++ [⟨d.id, d.next.attempt, result⟩]
      tick := .delivered d.next (result.mapError .http) due } := by
  have absent {id : Uuid} (ne : d.id ≠ id) :
      ∀ a ∈ [Answer.mk d.id d.next.attempt result], a.delivery ≠ id := by simpa using ne
  have ours : (s.answers ++ [Answer.mk d.id d.next.attempt result]).filter
      (fun a => a.delivery = d.id) = s.answersOf d.id ++ [⟨d.id, d.next.attempt, result⟩] :=
    filter_append_eq Answer.delivery (by simp)
  refine ⟨h.ids, h.inRange, h.calls, h.order, fun id outside => ?_, ⟨d, holding, rfl⟩,
    fun c outcome due' told => ?_, fun e inQueue => ?_⟩
  · have ne : d.id ≠ id := fun same => outside (List.mem_map.mpr ⟨d, holding.mem, same⟩)
    obtain ⟨attempts, posts, events, answers⟩ := h.unlogged id outside
    exact ⟨attempts, posts, events, (filter_append_ne Answer.delivery (absent ne)).trans answers⟩
  · cases told
    have goes : ¬d.next.attempt ≤ d.next.endpoint.failFirst := reaches
    show Delivery.Got d.next ((s.answers ++ _).filter fun a => a.delivery = d.id) _
    rw [ours, Delivery.Got, if_neg goes]
    exact ⟨_, List.mem_append_right _ (List.mem_singleton_self _), rfl, rfl⟩
  · have entry := h.entries e inQueue
    have begun := entry.begun
    have heard := entry.heard
    have told := entry.told
    rw [at_] at begun heard told
    have inRange := h.inRange_queue holding.mem
    refine ⟨begun, ?_, ?_⟩
    · rw [Tick.heard_delivered]
      by_cases same : d.id = e.id
      · obtain rfl := h.unique holding.mem inQueue same
        rw [if_pos (show d.next.id = d.id from rfl), answersOf, ours]
        exact Delivery.Heard.answer heard inRange (told.due holding.ready.undone).1 reaches result
      · rw [if_neg (show ¬d.next.id = e.id from same), answersOf,
          filter_append_ne Answer.delivery (absent same)]
        exact heard
    · by_cases same : d.id = e.id
      · obtain rfl := h.unique holding.mem inQueue same
        rw [answersOf, ours]
        refine Delivery.Told.answer told ?_
        show d.attempt.toNat < d.next.attempt.toNat
        rw [Delivery.toNat_next inRange (told.due holding.ready.undone).1]
        exact Nat.lt_succ_self _
      · rw [answersOf, filter_append_ne Answer.delivery (absent same)]
        exact told

/-- An attempt that the pass has made comes to its end. -/
theorem Inv.settles (h : s.Inv) (holding : Holding s.queue s.now d due)
    (latest : s.tick.latest d = d) (outcome : Except SendError UInt16) :
    ∃ c event, d.next.settle outcome = some (c, event) ∧ d.next.Settled outcome c event := by
  have told := (h.entries d holding.mem).told
  rw [latest] at told
  have inRange := h.inRange_queue holding.mem
  have room := (told.due holding.ready.undone).1
  have undone : d.next.done = false := holding.ready.undone
  refine Delivery.settle_spec (d := d.next) ⟨inRange.length, inRange.last⟩ undone ?_ outcome
  rw [Delivery.toNat_next inRange room]
  exact Nat.succ_le_succ room

/-- The event of an attempt goes out. -/
theorem Inv.emit (h : s.Inv) {outcome : Except SendError UInt16} {event : WebhookOut}
    (holding : Holding s.queue s.now d due)
    (at_ : s.tick = .delivered d.next outcome due)
    (settled : d.next.Settled outcome c event) : Inv { s with
      events := s.events ++ [⟨c.id, s.now, event⟩]
      tick := .told c due } := by
  have id : c.id = d.id := settled.id_eq.1
  have absent {id' : Uuid} (ne : d.id ≠ id') :
      ∀ e ∈ [Emitted.mk c.id s.now event], e.delivery ≠ id' := by simpa [id] using ne
  refine ⟨h.ids, h.inRange, h.calls, h.order, fun id' outside => ?_,
    ⟨d, outcome, event, holding, settled⟩, by simp, fun e inQueue => ?_⟩
  · have ne : d.id ≠ id' := fun same => outside (List.mem_map.mpr ⟨d, holding.mem, same⟩)
    obtain ⟨attempts, posts, events, answers⟩ := h.unlogged id' outside
    refine ⟨attempts, posts, ?_, answers⟩
    exact (filter_append_ne Emitted.delivery (absent ne)).trans events
  · have entry := h.entries e inQueue
    have begun := entry.begun
    have heard := entry.heard
    have told := entry.told
    rw [at_] at begun heard told
    rw [Tick.counted_delivered] at begun
    rw [Tick.heard_delivered] at heard
    refine ⟨?_, ?_, ?_⟩
    · show (if c.id = e.id then c else e).Begun (s.attemptsOf e.id) (s.postsOf e.id)
      by_cases ours : d.id = e.id
      · obtain rfl := h.unique holding.mem inQueue ours
        rw [if_pos (show d.next.id = d.id from rfl)] at begun
        rw [if_pos id]
        exact begun.settled settled
      · rw [if_neg (show ¬d.next.id = e.id from ours)] at begun
        rwa [if_neg (id ▸ ours)]
    · show (if c.id = e.id then c else e).Heard (s.answersOf e.id)
      by_cases ours : d.id = e.id
      · obtain rfl := h.unique holding.mem inQueue ours
        rw [if_pos (show d.next.id = d.id from rfl)] at heard
        rw [if_pos id]
        exact heard.settled settled
      · rw [if_neg (show ¬d.next.id = e.id from ours)] at heard
        rwa [if_neg (id ▸ ours)]
    · show (if c.id = e.id then c else e).Told (s.answersOf e.id) (eventsOf _ e.id)
      by_cases ours : d.id = e.id
      · obtain rfl := h.unique holding.mem inQueue ours
        rw [if_pos (show d.next.id = d.id from rfl)] at heard
        rw [if_pos id, eventsOf, filter_append_eq Emitted.delivery (by simp [id]), id]
        exact told.settled (h.inRange_queue holding.mem) holding.ready heard (h.got _ _ _ at_)
          settled
      · rw [if_neg (id ▸ ours), eventsOf, filter_append_ne Emitted.delivery (absent ours)]
        exact told

/-- The delivery is written back. -/
theorem Inv.replace (h : s.Inv) {outcome : Except SendError UInt16} {event : WebhookOut}
    (holding : Holding s.queue s.now d due) (at_ : s.tick = .told c due)
    (settled : d.next.Settled outcome c event) : Inv { s with
      queue := Outbound.replace s.queue c
      tick := .attempting due } := by
  have id : c.id = d.id := settled.id_eq.1
  have origin : ∀ e ∈ s.queue, e.id = c.id → e = d := fun e mem sameId =>
    h.unique mem holding.mem (sameId.trans id)
  have ids : (Outbound.replace s.queue c).map (·.id) = s.queue.map (·.id) :=
    map_replace (·.id) fun e _ sameId => sameId
  refine ⟨?_, fun e mem => ?_, h.calls, ?_, fun id' outside => ?_, ?_, by simp,
    fun e mem => ?_⟩
  · show ((s.calls ++ Outbound.replace s.queue c).map (·.id)).Nodup
    rw [List.map_append, ids, ← List.map_append]
    exact h.ids
  · rcases List.mem_append.mp mem with call | slot
    · exact h.inRange e (List.mem_append_left _ call)
    · rcases mem_replace h.nodup slot with rfl | ⟨inQueue, -⟩
      · have before := h.inRange_queue holding.mem
        obtain ⟨_, _, _, _, rfl⟩ := settled.same
        exact ⟨before.length, before.last⟩
      · exact h.inRange_queue inQueue
  · show (Outbound.replace s.queue c).map _ = s.pushed
    rw [map_replace Delivery.asEnqueued, h.order]
    intro e inQueue sameId
    rw [origin e inQueue sameId, settled.id_eq.2]
    rfl
  · exact h.unlogged id' (ids ▸ outside)
  · refine ⟨fun e inDue => ?_, holding.waiting.nodup⟩
    obtain ⟨inQueue, ready⟩ := holding.waiting.ready e inDue
    exact ⟨mem_replace_of_ne inQueue (id ▸ holding.other e inDue), ready⟩
  · rcases mem_replace h.nodup mem with rfl | ⟨inQueue, ne⟩
    · have entry := h.entries d holding.mem
      have begun := entry.begun
      have heard := entry.heard
      have told := entry.told
      rw [at_, Tick.counted_told, if_pos id, ← id] at begun
      rw [at_, Tick.heard_told, if_pos id, ← id] at heard
      rw [at_, Tick.latest_told, if_pos id, ← id] at told
      exact ⟨begun, heard, told⟩
    · have entry := h.entries e inQueue
      have begun := entry.begun
      have heard := entry.heard
      have told := entry.told
      rw [at_, Tick.counted_told, if_neg ne.symm] at begun
      rw [at_, Tick.heard_told, if_neg ne.symm] at heard
      rw [at_, Tick.latest_told, if_neg ne.symm] at told
      exact ⟨begun, heard, told⟩

theorem Inv.enqueue (h : s.Inv) (endpoint : WebhookEndpoint) (body : Json.Value)
    (trace : Option (TraceId × SpanId)) {id : Uuid} (fresh : id ∉ s.ids)
    (inRange : (Delivery.new id endpoint body s.now trace).InRange) :
    Inv { s with calls := s.calls ++ [.new id endpoint body s.now trace] } where
  ids := by
    show ((s.calls ++ [Delivery.new id endpoint body s.now trace] ++ s.queue).map (·.id)).Nodup
    rw [List.append_assoc, List.singleton_append, (List.perm_middle.map _).nodup_iff,
      List.map_cons, List.nodup_cons]
    exact ⟨fresh, h.ids⟩
  inRange d mem := by
    rcases List.mem_append.mp mem with call | inQueue
    · rcases List.mem_append.mp call with old | new
      · exact h.inRange d (List.mem_append_left _ old)
      · obtain rfl := List.mem_singleton.mp new
        exact inRange
    · exact h.inRange_queue inQueue
  calls d mem := by
    rcases List.mem_append.mp mem with old | new
    · exact h.calls d old
    · obtain rfl := List.mem_singleton.mp new
      rfl
  order := h.order
  unlogged := h.unlogged
  tick := h.tick
  got := h.got
  entries d mem := ⟨(h.entries d mem).begun, (h.entries d mem).heard, (h.entries d mem).told⟩

/-- The deliveries that are due when the queue is read. -/
theorem Inv.collected (h : s.Inv) (le : now ≤ s.now) :
    Waiting s.queue s.now (s.queue.filter fun d => !d.done && d.dueAt ≤ now) where
  ready d mem := by
    simp only [List.mem_filter, Bool.and_eq_true, Bool.not_eq_true', decide_eq_true_eq] at mem
    exact ⟨mem.1, mem.2.1, mem.2.2.trans le⟩
  nodup := h.nodup.sublist (List.filter_sublist.map _)

theorem Inv.does {op : Op} (h : s.Inv) (assumed : s.Assumed op) (does : Does s op t) : t.Inv := by
  have sound := h.tick
  cases does with
  | clock t =>
    exact h.move s.tick (sound.mono (List.Subset.refl _) (le_max_left _ _)) (fun _ _ _ same => same)
      (fun _ _ => rfl) (fun _ _ => rfl) fun _ _ => rfl
  | enqueue id endpoint body trace => exact h.enqueue endpoint body trace assumed.1 assumed.2
  | push found => exact h.push found
  | tick at_ =>
    refine h.move (.begun s.now) (le_refl s.now) (by simp) ?_ ?_ ?_ <;>
    · intro d _
      rw [at_]
      rfl
  | collect at_ =>
    rw [at_] at sound
    refine h.move (.attempting _) (h.collected sound) (by simp) ?_ ?_ ?_ <;>
    · intro d _
      rw [at_]
      rfl
  | finish at_ =>
    refine h.move .idle trivial (by simp) ?_ ?_ ?_ <;>
    · intro d _
      rw [at_]
      rfl
  | @fail d due at_ first =>
    rw [at_] at sound
    have holding := Waiting.holding sound
    have none : d.next.post = [] := if_pos first
    have begun := h.attempt at_
      (.delivered d.next (.error (.failFirst d.next.attempt d.endpoint.failFirst)) due)
      ⟨d, holding, rfl⟩ ?_ (fun _ => rfl) ?_ fun _ => rfl
    · rwa [none, List.append_nil] at begun
    · intro c outcome due' same
      cases same
      exact (if_pos first).mpr rfl
    · intro e inQueue heard
      rw [Tick.heard_delivered]
      by_cases same : d.id = e.id
      · obtain rfl := h.unique holding.mem inQueue same
        have told := (h.entries d inQueue).told
        rw [at_] at told
        rw [if_pos (show d.next.id = d.id from rfl)]
        exact heard.fail (h.inRange_queue inQueue) (told.due holding.ready.undone).1 first
      · rwa [if_neg (show ¬d.next.id = e.id from same)]
  | @post d due at_ reaches =>
    rw [at_] at sound
    have holding := Waiting.holding sound
    have one : d.next.post = [⟨d.id, d.next.attempt, d.endpoint.url, d.body⟩] := if_neg reaches
    have begun := h.attempt at_ (.posted d.next due) ⟨d, holding, rfl, reaches⟩ (by simp)
      (fun _ => rfl) (fun _ _ heard => heard) fun _ => rfl
    rwa [one] at begun
  | @answer c due result at_ =>
    rw [at_] at sound
    obtain ⟨d, holding, rfl, reaches⟩ := sound
    exact h.answer holding at_ reaches result
  | @panic c outcome due at_ panics =>
    rw [at_] at sound
    obtain ⟨d, holding, rfl⟩ := sound
    obtain ⟨c, event, settles, -⟩ := h.settles holding (by rw [at_]; rfl) outcome
    rw [settles] at panics
    contradiction
  | @emit c outcome due c' event at_ settles =>
    rw [at_] at sound
    obtain ⟨d, holding, rfl⟩ := sound
    obtain ⟨c, event, same, settled⟩ := h.settles holding (by rw [at_]; rfl) outcome
    rw [settles] at same
    cases same
    exact h.emit holding at_ settled
  | replace at_ =>
    rw [at_] at sound
    obtain ⟨d, outcome, event, holding, settled⟩ := sound
    exact h.replace holding at_ settled

theorem inv_new (now : DateTime) : (new now).Inv where
  ids := List.nodup_nil
  inRange _ mem := absurd mem List.not_mem_nil
  calls _ mem := absurd mem List.not_mem_nil
  order := rfl
  unlogged _ _ := ⟨rfl, rfl, rfl, rfl⟩
  tick := trivial
  got _ _ _ at_ := by simp [new] at at_
  entries _ mem := absurd mem List.not_mem_nil

theorem Inv.step (h : s.Inv) (op : Op) (assumed : s.Assumed op) : (s.step op).Inv := by
  rcases s.step_cases op with same | does
  · rw [same]
    exact h
  · exact h.does assumed does

end System

end Servr.Outbound
