import Servr.Lib.Machine
import Servr.Outbound.Laddered

/-! What one pass of `tick` does for a delivery, and the retry ladder over whole runs. -/

namespace Servr.Outbound

namespace System

variable {s t : System} {d e : Delivery} {due : List Delivery}

/-- How many attempts of a delivery the pass is still to make. -/
def owed (s : System) (id : Uuid) : Nat :=
  match s.tick with
  | .begun now => ((s.queue.filter fun d => !d.done && d.dueAt ≤ now).map (·.id)).count id
  | .attempting due | .posted _ due | .delivered _ _ due | .told _ due => (due.map (·.id)).count id
  | _ => 0

variable {id : Uuid}

/-- A call that returns pushes none of the deliveries of the queue. -/
theorem Inv.count_push (h : s.Inv) (inCalls : d ∈ s.calls) (mem : id ∈ s.queue.map (·.id))
    (p : Delivery → Bool) :
    (((s.queue ++ [d]).filter p).map (·.id)).count id =
      ((s.queue.filter p).map (·.id)).count id := by
  have ne : d.id ≠ id := fun same => h.absent inCalls (same ▸ mem)
  rw [List.filter_append, List.map_append, List.count_append]
  have none : (([d].filter p).map (·.id)).count id = 0 := by
    rw [List.count_eq_zero]
    intro inMap
    obtain ⟨e, inFilter, same⟩ := List.mem_map.mp inMap
    obtain rfl := List.mem_singleton.mp (List.mem_of_mem_filter inFilter)
    exact ne same
  rw [none, Nat.add_zero]

/-- An attempt that begins is owed no more. -/
theorem attempts_conserve {attempts : List Attempt} {now : DateTime} {number : UInt32} :
    ((attempts ++ [Attempt.mk d.id number now]).filter fun a => a.delivery = id).length +
        (due.map (·.id)).count id =
      (attempts.filter fun a => a.delivery = id).length + ((d :: due).map (·.id)).count id := by
  rw [List.filter_append, List.length_append, List.map_cons, List.count_cons]
  by_cases same : d.id = id
  · simp [same]
    omega
  · simp [same]

/-- Until the next pass begins, an attempt that the pass makes is one that it owed. -/
theorem Does.conserves {op : Op} (does : Does s op t) (h : s.Inv) (pass : op ≠ .tick)
    (mem : id ∈ s.queue.map (·.id)) :
    (t.attemptsOf id).length + t.owed id = (s.attemptsOf id).length + s.owed id := by
  cases does with
  | clock | enqueue => rfl
  | push found =>
    have inCalls := List.mem_of_getElem? found
    unfold owed
    cases at_ : s.tick with
    | begun now => exact congrArg ((s.attemptsOf id).length + ·) (h.count_push inCalls mem _)
    | _ => rfl
  | tick => contradiction
  | fail at_ | post at_ =>
    unfold owed
    rw [at_]
    exact attempts_conserve
  | finish at_ | collect at_ | answer result at_ | emit at_ | replace at_ =>
    unfold owed
    rw [at_]
    rfl
  | panic at_ panics =>
    have sound := h.tick
    rw [at_] at sound
    obtain ⟨d, holding, rfl, -⟩ := sound
    obtain ⟨c, event, settles, -⟩ := h.settles holding (by rw [at_]; rfl) _
    rw [settles] at panics
    contradiction

theorem Does.mem_queue {op : Op} (does : Does s op t) (mem : id ∈ s.queue.map (·.id)) :
    id ∈ t.queue.map (·.id) := by
  cases does with
  | push => simp [mem]
  | @replace c due at_ =>
    show id ∈ (Outbound.replace s.queue c).map (·.id)
    rwa [map_replace (·.id) fun _ _ same => same]
  | _ => exact mem

/-- What the steps before the next pass leave owed, together with the attempts made. -/
theorem Inv.conserved (h : s.Inv) {ops : List Op}
    (assumed : Machine.Along System.step Assumed s ops)
    (pass : .tick ∉ ops) (mem : id ∈ s.queue.map (·.id)) :
    ((ops.foldl System.step s).attemptsOf id).length + (ops.foldl System.step s).owed id =
      (s.attemptsOf id).length + s.owed id := by
  induction ops generalizing s with
  | nil => rfl
  | cons op ops ih =>
    obtain ⟨notTick, rest⟩ := not_or.mp (mt List.mem_cons.mpr pass)
    have next := h.step op assumed.1
    rcases s.step_cases op with same | does
    · rw [List.foldl_cons, ih next assumed.2 rest (by rwa [same]), same]
    · rw [List.foldl_cons, ih next assumed.2 rest (does.mem_queue mem),
        does.conserves h (Ne.symm notTick) mem]

/-- A pass that begins past the ladder of a delivery owes it one attempt, unless it is done. -/
theorem Inv.owed_begun (h : s.Inv) (mem : d ∈ s.queue) (idle : s.tick = .idle)
    (past : d.dueNanos d.backoff.length ≤ s.now.nanos) :
    owed { s with tick := .begun s.now } d.id = if d.done then 0 else 1 := by
  have told := (h.entries d mem).told
  rw [idle] at told
  show ((s.queue.filter fun d => !d.done && d.dueAt ≤ s.now).map (·.id)).count d.id = _
  cases done : d.done with
  | true =>
    rw [if_pos rfl, List.count_eq_zero]
    intro inMap
    obtain ⟨e, inFilter, same⟩ := List.mem_map.mp inMap
    obtain ⟨inQueue, ready⟩ := List.mem_filter.mp inFilter
    obtain rfl := h.unique inQueue mem same
    simp [done] at ready
  | false =>
    have nanos : d.dueAt.nanos = d.dueNanos d.attempt.toNat := (told.due done).2
    have due : d.dueAt ≤ s.now := by
      rw [DateTime.le_iff, nanos]
      exact (d.dueNanos_le _).trans past
    refine List.count_eq_one_of_mem (h.nodup.sublist (List.filter_sublist.map _)) ?_
    exact List.mem_map_of_mem (List.mem_filter.mpr ⟨mem, by simp [done, due]⟩)

end System

/-- What comes back from outside. -/
def Op.result? : Op → Option (Except String UInt16)
  | .answer result => some result
  | _ => none

/-- The answers on record are those of the receiver, in their order. -/
theorem answers_sublist (now : DateTime) (ops : List Op) :
    ((ops.foldl System.step (.new now)).answers.map (·.result)).Sublist
      (ops.filterMap Op.result?) := by
  induction ops using List.reverseRecOn with
  | nil => exact List.Sublist.slnil
  | append_singleton ops op ih =>
    rw [List.foldl_append, List.foldl_cons, List.foldl_nil, List.filterMap_append]
    rcases (ops.foldl System.step (.new now)).step_cases op with same | does
    · rw [same]
      exact ih.trans (List.sublist_append_left _ _)
    · generalize System.step _ op = t at does ⊢
      cases does with
      | answer result at_ =>
        rw [List.map_append]
        exact ih.append (List.Sublist.refl _)
      | _ => exact ih.trans (List.sublist_append_left _ _)

/-- A delivery with two retries: its first attempt does not go out, its second gets a 503 and its
third a 200. -/
def retried : List Op :=
  [.enqueue (.fill 16 0) ⟨"test", "http://x", .none, none, [1000, 1000], 1⟩ .null none, .push 0,
    .tick, .collect, .attempt, .emit, .replace, .attempt,
    .clock ⟨1000000000, by decide, by decide⟩, .tick, .collect, .attempt, .answer (.ok 503), .emit,
    .replace, .attempt,
    .clock ⟨2000000000, by decide, by decide⟩, .tick, .collect, .attempt, .answer (.ok 200), .emit,
    .replace, .attempt]

end Servr.Outbound
