import Servr.Bus.Ids

/-! Gap events among the ids.  A gap event takes the id that the next event takes, and a stream
yields it before the older events that the channel still holds.  With one emission at a time, the
ids order every stream, and a jump of the ids shows exactly where events were dropped, as long as
nothing follows a gap event. -/

namespace Servr.Bus

variable {κ : Type}

def Item.isGap : Item κ → Bool
  | received _ => false
  | gap _ => true

/-- The ids on a stream increase, and a jump from one to the next stands exactly where a gap event
says that events were dropped. -/
structure Stream.Ordered (stream : Stream κ) : Prop where
  increasing : (stream.items.map Item.id).Pairwise (· < ·)
  detects : stream.items.IsChain fun x y => x.id + 1 ≠ y.id ↔ y.isGap = true

namespace System

/-- The gap events of all streams. -/
def gaps (s : System κ) : List (Event κ) := s.streams.flatMap Stream.gaps

/-- The ids of all events there are, emitted or gap events. -/
def ids (s : System κ) : List Nat := (s.log ++ s.inFlight ++ s.gaps).map Event.id

/-- An emission begins when the one before has ended, and the counter does not wrap. -/
def Sequential (s : System κ) : Op κ → Prop
  | .assign _ => s.inFlight = [] ∧ s.bus.seq + 1 < 2 ^ 64
  | _ => True

instance (s : System κ) : ∀ op, Decidable (s.Sequential op)
  | .assign _ => inferInstanceAs (Decidable (_ ∧ _))
  | .send _ | .subscribe | .unsubscribe _ | .recv _ | .count _ | .deliver .. => .isTrue trivial

/-- The ids order each stream, and no two events share one. -/
structure Ordered (s : System κ) : Prop where
  streams : ∀ stream ∈ s.streams, stream.Ordered
  distinct : s.ids.Nodup

/-- After a gap event no event takes an id, no other gap event is yielded, and its stream yields
nothing more. -/
def NothingAfterGap (s : System κ) : Op κ → Prop
  | .assign _ => s.gaps = []
  | .recv i => ∀ stream, s.streams[i]? = some stream → stream.live = true → stream.poll = .rest →
    ∀ event next, s.bus.tx.recv stream.next = (.value event, next) → stream.gaps = []
  | .deliver i _ _ => ∀ stream, s.streams[i]? = some stream → stream.live = true →
    ∀ n, stream.poll = .counted n → s.gaps = []
  | _ => True

/-- The invariant of one emission at a time. -/
structure Solitary (s : System κ) : Prop where
  numbered : s.Numbered
  alone : s.inFlight.length ≤ 1
  gaps : ∀ event ∈ s.gaps, event.id ≤ s.bus.seq

variable {s t : System κ}

theorem mem_gaps {event : Event κ} :
    event ∈ s.gaps ↔ ∃ stream ∈ s.streams, event ∈ stream.gaps := List.mem_flatMap

theorem gaps_eq_nil : s.gaps = [] ↔ ∀ stream ∈ s.streams, stream.gaps = [] :=
  List.flatMap_eq_nil_iff

/-- A stream that yields no gap event leaves the gap events as they are. -/
theorem gaps_set {i : Nat} {stream moved : Stream κ} (at_ : s.streams[i]? = some stream)
    (same : moved.gaps = stream.gaps) :
    (s.streams.set i moved).flatMap Stream.gaps = s.gaps := by
  obtain ⟨lt, rfl⟩ := List.getElem?_eq_some_iff.mp at_
  have here := @List.set_getElem_self _ (s.streams.map Stream.gaps) i (by simpa using lt)
  rw [List.getElem_map, ← same] at here
  rw [gaps, List.flatMap_def, List.flatMap_def, List.map_set, here]

/-- A stream that yields a gap event adds it. -/
theorem perm_flatMap_set {α β : Type} (f : α → List β) {l : List α} {i : Nat} {a b : α} {x : β}
    (at_ : l[i]? = some a) (more : f b = f a ++ [x]) :
    ((l.set i b).flatMap f).Perm (x :: l.flatMap f) := by
  induction l generalizing i with
  | nil => simp at at_
  | cons c l ih =>
    cases i with
    | zero =>
      obtain rfl : c = a := by simpa using at_
      rw [List.set_cons_zero, List.flatMap_cons, List.flatMap_cons, more, List.append_assoc]
      exact List.perm_middle
    | succ i =>
      rw [List.set_cons_succ, List.flatMap_cons, List.flatMap_cons]
      exact ((ih (by simpa using at_)).append_left _).trans List.perm_middle

/-- A step adds at most one gap event, which a poll yields with the next id. -/
theorem Does.gaps {op : Op κ} (does : Does s op t) :
    t.gaps = s.gaps ∨ ∃ event, event.id = s.bus.seq ∧ t.bus = s.bus ∧
      t.gaps.Perm (event :: s.gaps) := by
  cases does with
  | assign | send => exact .inl rfl
  | subscribe => exact .inl (by simp [System.gaps, joining, Stream.gaps])
  | unsubscribe at_ | lag at_ | count at_ => exact .inl (gaps_set at_ rfl)
  | value at_ => exact .inl (gaps_set at_ (by simp [Stream.gaps, Item.gap?]))
  | @deliver _ at_ wallAt _ n _ _ found =>
    refine .inr ⟨gapEvent s.bus.run at_ wallAt s.bus.seq n, rfl, rfl,
      perm_flatMap_set Stream.gaps found ?_⟩
    simp [Stream.gaps, Item.gap?]

/-- Apart from the gap events, the ids are those that were given out. -/
theorem Numbered.ids_eq (h : s.Numbered) :
    s.ids = List.range s.bus.seq ++ s.gaps.map Event.id := by
  rw [System.ids, List.map_append, h.ids]

/-- The ids are distinct exactly if there is at most one gap event, and its id is the next. -/
theorem Solitary.nodup_iff (h : s.Solitary) :
    s.ids.Nodup ↔ s.gaps.length ≤ 1 ∧ ∀ event ∈ s.gaps, event.id = s.bus.seq := by
  rw [h.numbered.ids_eq, List.nodup_append']
  constructor
  · rintro ⟨-, distinct, disjoint⟩
    have next : ∀ event ∈ s.gaps, event.id = s.bus.seq := by
      intro event mem
      have outside : ¬event.id < s.bus.seq := fun lt =>
        disjoint (List.mem_range.mpr lt) (List.mem_map_of_mem mem)
      exact Nat.le_antisymm (h.gaps event mem) (Nat.le_of_not_lt outside)
    have same : s.gaps.map Event.id = List.replicate s.gaps.length s.bus.seq := by
      rw [List.eq_replicate_iff]
      exact ⟨by simp, by simpa using next⟩
    rw [same, List.nodup_replicate] at distinct
    exact ⟨distinct, next⟩
  · rintro ⟨one, next⟩
    refine ⟨List.nodup_range, ?_, ?_⟩
    · cases hg : s.gaps with
      | nil => simp
      | cons event rest =>
        have none : rest = [] := by simpa [hg] using one
        simp [none]
    · intro id given mem
      obtain ⟨event, inGaps, rfl⟩ := List.mem_map.mp mem
      rw [next event inGaps] at given
      simp at given

/-- One emission at a time sends in the order of the ids. -/
theorem Solitary.step (h : s.Solitary) (op : Op κ) (sequential : s.Sequential op) :
    (s.step op).Solitary := by
  rcases s.step_cases op with ⟨same, -⟩ | does
  · rw [same]
    exact h
  · have numbered : (s.step op).Numbered := by
      refine h.numbered.step op ?_
      cases op with
      | assign => exact sequential.2
      | send k =>
        generalize s.step (.send k) = t at does
        cases does with
        | send found =>
          have lt := (List.getElem?_eq_some_iff.mp found).1
          have alone := h.alone
          exact Nat.lt_one_iff.mp (lt.trans_le alone)
      | _ => trivial
    generalize s.step op = t at does numbered
    refine ⟨numbered, ?_, fun event mem => ?_⟩
    · cases does with
      | assign => simp [sequential.1]
      | send => exact (List.length_eraseIdx_le _ _).trans h.alone
      | _ => exact h.alone
    · have grows : s.bus.seq ≤ t.bus.seq := by
        cases does with
        | assign =>
          rw [Nat.mod_eq_of_lt sequential.2]
          exact Nat.le_succ _
        | send =>
          unfold BroadcastBus.send
          split <;> exact Nat.le_refl _
        | _ => exact Nat.le_refl _
      rcases does.gaps with same | ⟨new, id, bus, more⟩
      · exact (h.gaps event (same ▸ mem)).trans grows
      · rcases List.mem_cons.mp (more.mem_iff.mp mem) with rfl | old
        · rw [id, bus]
        · exact (h.gaps event old).trans grows

/-- The ids order a stream that has yielded no gap event. -/
theorem Numbered.ordered (h : s.Numbered) {stream : Stream κ} (mem : stream ∈ s.streams)
    (none : stream.gaps = []) : stream.Ordered where
  increasing := by
    rw [h.items mem none]
    exact List.pairwise_lt_range'
  detects := by
    have chain : (stream.items.map Item.id).IsChain fun a b => b = a + 1 := by
      rw [h.items mem none]
      exact List.isChain_range' ..
    rw [stream.items_eq none, List.map_map, List.isChain_map] at chain
    rw [stream.items_eq none, List.isChain_map]
    refine chain.imp fun a b next => ?_
    simpa [Item.id, Item.isGap] using next.symm

/-- A gap event follows what a stream has received, with ids missing in between. -/
theorem Numbered.ordered_gap (h : s.Numbered) {next n joined : Nat} {items : List (Item κ)}
    {event : Event κ} (mem : ⟨true, next, .counted n, joined, items⟩ ∈ s.streams)
    (none : items.filterMap Item.gap? = []) (id : event.id = s.bus.seq) :
    (Stream.mk true next .rest joined (items ++ [.gap event])).Ordered := by
  have ids : items.map Item.id = List.range' joined items.length := h.items mem none
  have before := h.ordered mem none
  obtain ⟨history, accounts⟩ := h.accounts
  have account := accounts.streams _ mem
  have behind : joined + (items.filterMap Item.received?).length + _ + n ≤ s.log.length :=
    account.behind rfl
  have lagging : 0 < n := account.lagging.resolve_left (by simp)
  have received : items.length = (items.filterMap Item.received?).length := by
    simpa using congrArg List.length (Stream.items_of_gaps none).1
  have below : ∀ a ∈ items.map Item.id, a + 1 < event.id := by
    intro a given
    rw [ids, List.mem_range'_1] at given
    have length := h.length
    omega
  constructor
  · rw [List.map_append, List.pairwise_append]
    refine ⟨before.increasing, by simp, fun a given b last => ?_⟩
    obtain rfl : b = event.id := by simpa [Item.id] using last
    exact (Nat.lt_succ_self a).trans (below a given)
  · rw [List.isChain_append]
    refine ⟨before.detects, by simp, fun item last y first => ?_⟩
    obtain rfl : y = .gap event := by simpa using first.symm
    have jump := below item.id (List.mem_map_of_mem (List.mem_of_getLast? last))
    simpa [Item.isGap, Item.id] using jump.ne

/-- A step that yields no gap event and gives out no id keeps the ids distinct. -/
theorem Solitary.distinct (h : s.Solitary) (next : t.Solitary) (ordered : s.Ordered)
    (gaps : t.gaps = s.gaps) (seq : t.bus.seq = s.bus.seq) : t.ids.Nodup := by
  rw [next.nodup_iff, gaps, seq, ← h.nodup_iff]
  exact ordered.distinct

/-- A step that replaces a stream keeps the order of the others. -/
theorem Ordered.set (h : s.Ordered) {i : Nat} {moved : Stream κ} (ordered : moved.Ordered) :
    ∀ stream ∈ s.streams.set i moved, stream.Ordered := by
  intro stream mem
  rcases List.mem_or_eq_of_mem_set mem with before | rfl
  · exact h.streams stream before
  · exact ordered

/-- A poll that yields nothing keeps the order. -/
theorem Ordered.setItems (ordered : s.Ordered) (h : s.Solitary) {i : Nat} {stream moved : Stream κ}
    {bus : BroadcastBus κ} (at_ : s.streams[i]? = some stream) (items : moved.items = stream.items)
    (seq : bus.seq = s.bus.seq)
    (next : ({ s with bus, streams := s.streams.set i moved } : System κ).Solitary) :
    ({ s with bus, streams := s.streams.set i moved } : System κ).Ordered where
  streams := by
    have same := ordered.streams stream (List.mem_of_getElem? at_)
    refine ordered.set ⟨?_, ?_⟩ <;> rw [items]
    · exact same.increasing
    · exact same.detects
  distinct := by
    refine h.distinct next ordered (gaps_set at_ ?_) seq
    rw [Stream.gaps, items, Stream.gaps]

/-- An event that a stream yields has an id that was given out. -/
theorem Numbered.received_lt (h : s.Numbered) {stream : Stream κ} (mem : stream ∈ s.streams)
    {event : Event κ} (received : event ∈ stream.received) : event.id < s.bus.seq := by
  obtain ⟨history, accounts⟩ := h.accounts
  have sent : event ∈ s.log :=
    List.mem_of_mem_drop ((accounts.streams stream mem).sublist.mem received)
  have given : event.id ∈ s.log.map Event.id := List.mem_map_of_mem sent
  rw [h.log, List.mem_range] at given
  have length := h.length
  omega

/-- A stream that yields an event of the channel stays in order exactly if it has yielded no gap
event, whose id is above that of every event. -/
theorem Ordered.value_iff (ordered : s.Ordered) (h : s.Solitary) {i : Nat}
    {stream moved : Stream κ} {event : Event κ} (at_ : s.streams[i]? = some stream)
    (items : moved.items = stream.items ++ [.received event])
    (next : ({ s with streams := s.streams.set i moved } : System κ).Solitary) :
    ({ s with streams := s.streams.set i moved } : System κ).Ordered ↔ stream.gaps = [] := by
  have mem := List.mem_set (List.getElem?_eq_some_iff.mp at_).1 moved
  have gaps : moved.gaps = stream.gaps := by simp [Stream.gaps, items, Item.gap?]
  constructor
  · intro after
    refine List.eq_nil_iff_forall_not_mem.mpr fun gap inGaps => ?_
    obtain ⟨item, inItems, isGap⟩ := List.mem_filterMap.mp inGaps
    obtain rfl : item = .gap gap := by cases item <;> simp_all [Item.gap?]
    have increasing := (after.streams _ mem).increasing
    rw [items, List.map_append, List.pairwise_append] at increasing
    have above : gap.id < event.id :=
      increasing.2.2 gap.id (List.mem_map.mpr ⟨_, inItems, rfl⟩) event.id (by simp [Item.id])
    have given : event.id < s.bus.seq :=
      next.numbered.received_lt mem (by simp [Stream.received, items, Item.received?])
    have highest : gap.id = s.bus.seq :=
      (h.nodup_iff.mp ordered.distinct).2 gap (mem_gaps.mpr ⟨_, List.mem_of_getElem? at_, inGaps⟩)
    omega
  · intro none
    exact ⟨ordered.set (next.numbered.ordered mem (gaps.trans none)),
      h.distinct next ordered (gaps_set at_ gaps) rfl⟩

/-- The ids stay distinct with a gap event exactly if it is the first. -/
theorem Ordered.gap_iff (ordered : s.Ordered) (h : s.Solitary) {i cursor n joined : Nat}
    {items : List (Item κ)} {event : Event κ} {moved : Stream κ} (id : event.id = s.bus.seq)
    (at_ : s.streams[i]? = some ⟨true, cursor, .counted n, joined, items⟩)
    (is : moved = ⟨true, cursor, .rest, joined, items ++ [.gap event]⟩)
    (next : ({ s with streams := s.streams.set i moved } : System κ).Solitary) :
    ({ s with streams := s.streams.set i moved } : System κ).Ordered ↔ s.gaps = [] := by
  have mem := List.mem_of_getElem? at_
  have more : System.gaps { s with streams := s.streams.set i moved } |>.Perm (event :: s.gaps) :=
    perm_flatMap_set Stream.gaps at_ (by simp [is, Stream.gaps, Item.gap?])
  constructor
  · intro after
    have one := (next.nodup_iff.mp after.distinct).1
    rw [more.length_eq, List.length_cons] at one
    exact List.eq_nil_of_length_eq_zero (Nat.le_zero.mp (Nat.le_of_succ_le_succ one))
  · intro free
    rw [free] at more
    have inOrder := h.numbered.ordered_gap mem (gaps_eq_nil.mp free _ mem) id
    refine ⟨ordered.set (is ▸ inOrder), ?_⟩
    rw [next.nodup_iff]
    refine ⟨more.length_eq.le, fun other inGaps => ?_⟩
    obtain rfl := List.mem_singleton.mp (more.mem_iff.mp inGaps)
    exact id

/-- The ids go on ordering the streams exactly if the step does not follow a gap event. -/
theorem Does.ordered_iff {op : Op κ} (does : Does s op t) (h : s.Solitary) (next : t.Solitary)
    (sequential : s.Sequential op) (ordered : s.Ordered) : t.Ordered ↔ s.NothingAfterGap op := by
  cases does with
  | assign event =>
    constructor
    · intro after
      refine List.eq_nil_iff_forall_not_mem.mpr fun gap mem => ?_
      have id : gap.id = (s.bus.seq + 1) % 2 ^ 64 := (next.nodup_iff.mp after.distinct).2 gap mem
      rw [Nat.mod_eq_of_lt sequential.2] at id
      have le := h.gaps gap mem
      omega
    · intro none
      refine ⟨ordered.streams, next.nodup_iff.mpr ⟨?_, fun event mem => ?_⟩⟩
      · exact (congrArg List.length none).trans_le (Nat.zero_le 1)
      · exact absurd (none ▸ mem) List.not_mem_nil
  | send =>
    refine iff_of_true ⟨ordered.streams, h.distinct next ordered rfl ?_⟩ trivial
    unfold BroadcastBus.send
    split <;> rfl
  | subscribe =>
    refine iff_of_true ⟨fun stream mem => ?_, ?_⟩ trivial
    · rcases List.mem_append.mp mem with before | new
      · exact ordered.streams stream before
      · obtain rfl := List.mem_singleton.mp new
        exact ⟨by simp [joining], by simp [joining]⟩
    · exact h.distinct next ordered (by simp [System.gaps, joining, Stream.gaps]) rfl
  | unsubscribe at_ => exact iff_of_true (ordered.setItems h at_ rfl rfl next) trivial
  | count at_ => exact iff_of_true (ordered.setItems h at_ rfl rfl next) trivial
  | lag at_ found =>
    refine iff_of_true (ordered.setItems h at_ rfl rfl next) ?_
    intro stream here _ _ event cursor value
    obtain rfl := Option.some.inj (at_.symm.trans here)
    rw [found] at value
    simp at value
  | value at_ found =>
    refine (ordered.value_iff h at_ rfl next).trans
      ⟨fun free stream here _ _ _ _ _ => ?_, fun none => ?_⟩
    · obtain rfl := Option.some.inj (at_.symm.trans here)
      exact free
    · exact none _ at_ rfl rfl _ _ found
  | deliver at_ =>
    refine (ordered.gap_iff h rfl at_ rfl next).trans ⟨fun free _ _ _ _ _ => free, fun none => ?_⟩
    exact none _ at_ rfl _ rfl

theorem Solitary.ordered_iff (h : s.Solitary) (ordered : s.Ordered) {op : Op κ}
    (sequential : s.Sequential op) : (s.step op).Ordered ↔ s.NothingAfterGap op := by
  rcases s.step_cases op with ⟨same, none⟩ | does
  · rw [same]
    refine iff_of_true ordered ?_
    cases op with
    | assign event => exact absurd (.assign event) (none _)
    | recv i =>
      rintro ⟨_, _, _, _, _⟩ here rfl rfl event next value
      exact absurd (.value here value) (none _)
    | deliver i at_ wallAt =>
      rintro ⟨_, _, _, _, _⟩ here rfl n rfl
      exact absurd (.deliver here) (none _)
    | _ => trivial
  · exact does.ordered_iff h (h.step op sequential) sequential ordered

theorem solitary_boot {capacity : Nat} {run : RunId} {bus : BroadcastBus κ}
    (new : BroadcastBus.new capacity run = some bus) : (boot bus).Solitary :=
  ⟨numbered_boot new, Nat.zero_le _, by simp [System.gaps, boot]⟩

end System

/-- With one emission at a time, in every run, the ids order the streams in every state reached
exactly if no step of the run follows a gap event. -/
theorem ids_order_streams_iff {capacity : Nat} {run : RunId} {bus : BroadcastBus κ}
    (new : BroadcastBus.new capacity run = some bus) (ops : List (Op κ))
    (sequential : Machine.Along System.step System.Sequential (System.boot bus) ops) :
    Machine.Throughout System.step System.Ordered (System.boot bus) ops ↔
      Machine.Along System.step System.NothingAfterGap (System.boot bus) ops := by
  have solitary := System.solitary_boot new
  have start : (System.boot bus).Ordered :=
    ⟨by simp [System.boot], solitary.nodup_iff.mpr ⟨by simp [System.gaps, System.boot], by
      simp [System.gaps, System.boot]⟩⟩
  exact Machine.throughout_iff_along_of_invariant (fun _ op h seq => h.step op seq)
    (fun _ _ h ordered seq => h.ordered_iff ordered seq) solitary start sequential

/-- A stream with one slot yields the gap event of two emissions, and nothing after it. -/
theorem ids_order_streams_iff_gap_last :
    Machine.Throughout System.step System.Ordered (System.boot oneSlot) (lagging.take 8) := by
  refine (ids_order_streams_iff oneSlot_new (lagging.take 8) (by decide)).mpr ?_
  refine ⟨trivial, rfl, trivial, rfl, trivial, ?_, trivial, fun _ _ _ _ _ => rfl, trivial⟩
  intro stream here _ _ _ _ _
  cases here
  rfl

/-- The stream goes on with the event that the channel still holds, whose id is lower. -/
theorem event_after_gap : ¬∀ (capacity : Nat) (run : RunId) (bus : BroadcastBus Unit),
    BroadcastBus.new capacity run = some bus → ∀ ops : List (Op Unit),
    Machine.Along System.step System.Sequential (System.boot bus) ops →
    Machine.Throughout System.step System.Ordered (System.boot bus) ops := by
  intro ordered
  obtain ⟨-, -, -, -, -, -, -, -, last, -⟩ := ordered 1 _ _ oneSlot_new lagging (by decide)
  have increasing : [2, 1].Pairwise (· < ·) :=
    (last.streams _ (List.head_mem (by decide))).increasing
  exact absurd increasing (by decide)

end Servr.Bus
