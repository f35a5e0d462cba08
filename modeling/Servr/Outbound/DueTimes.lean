import Servr.Lib.Machine
import Servr.Outbound.Runs

/-! When the attempts of a delivery are due: the ladder that `POST /_admin/hooks/out` takes, summed
up from the enqueue, over runs of the sender. -/

namespace Servr.Outbound

/-- The body of `POST /_admin/hooks/out`. -/
structure NewDelivery where
  url : String
  name : Option String
  sign : Option SigningScheme
  secret : Option String
  /-- Retry offsets in virtual milliseconds, counted from the enqueue. -/
  backoffMs : Option (List UInt64)
  failFirst : Option UInt32
  body : Option Json.Value

def endpointFrom (name : Option String) (url : String) (sign : Option SigningScheme)
    (secret : Option String) (backoffMs : Option (List UInt64)) (failFirst : Option UInt32) :
    WebhookEndpoint where
  name := name.getD url
  url := url
  sign := sign.getD .stripe
  secret := secret
  backoffMs := backoffMs.getD []
  failFirst := failFirst.getD 0

/-- The call of `enqueue` in `hooks_send`, with the id and the trace that it draws. -/
def hooksSend (body : NewDelivery) (id : Uuid) (trace : Option (TraceId × SpanId)) : Op :=
  .enqueue id
    (endpointFrom body.name body.url body.sign body.secret body.backoffMs body.failFirst)
    (body.body.getD (.obj [("ok", .bool true)])) trace

namespace Delivery

variable {d c : Delivery}

/-- The milliseconds from the enqueue to the last attempt that a `u32` numbers. -/
def ladderMs (d : Delivery) : Nat := d.offsetMs (2 ^ 32 - 2)

/-- Each attempt is due the exact sum of the entries before it after the enqueue, and none before an
earlier one. -/
structure DueExactly (d : Delivery) : Prop where
  exact : ∀ n : UInt32, ∃ due, d.dueFor n = some due ∧
    d.enqueuedAt.After (d.offsetMs (n.toNat - 1)) due
  mono : ∀ {m n : UInt32} {due due' : DateTime}, m ≤ n → d.dueFor m = some due →
    d.dueFor n = some due' → due ≤ due'

/-- The attempts are due when they are to be exactly if chrono holds the time of the last. -/
theorem dueExactly_iff : d.DueExactly ↔ d.enqueuedAt.HasRoom d.ladderMs := by
  constructor
  · intro h
    obtain ⟨due, -, after⟩ := h.exact (.ofNat (2 ^ 32 - 1))
    exact after.hasRoom
  · intro room
    have exact_ (n : UInt32) : ∃ due, d.dueFor n = some due ∧
        d.enqueuedAt.After (d.offsetMs (n.toNat - 1)) due := by
      have bound := n.toNat_lt
      have here := room.mono (d.offsetMs_mono (show n.toNat - 1 ≤ 2 ^ 32 - 2 by omega))
      exact dueFor_of_hasRoom here
    refine ⟨exact_, fun {m n due due'} le first second => ?_⟩
    obtain ⟨_, same, after⟩ := exact_ m
    obtain ⟨_, same', after'⟩ := exact_ n
    obtain rfl := Option.some.inj (first.symm.trans same)
    obtain rfl := Option.some.inj (second.symm.trans same')
    have le := UInt32.le_iff_toNat_le.mp le
    have offsets := d.offsetMs_mono (Nat.sub_le_sub_right le 1)
    rw [DateTime.le_iff, after.exact, after'.exact]
    omega

theorem CopyOf.dueFor_eq (h : c.CopyOf d) (n : UInt32) : c.dueFor n = d.dueFor n := by
  obtain ⟨_, _, _, _, _, rfl⟩ := h
  rfl

theorem CopyOf.trans {e : Delivery} (h : c.CopyOf d) (h' : d.CopyOf e) : c.CopyOf e := by
  obtain ⟨_, _, _, _, _, rfl⟩ := h
  obtain ⟨_, _, _, _, _, rfl⟩ := h'
  exact ⟨_, _, _, _, _, rfl⟩

theorem copyOf_next (d : Delivery) : d.next.CopyOf d := ⟨_, _, _, _, _, rfl⟩

theorem settle_copyOf {outcome : Except SendError UInt16} {event : WebhookOut}
    (h : c.settle outcome = some (d, event)) : d.CopyOf c := by
  simp only [settle] at h
  split at h
  · cases h
    exact ⟨_, _, _, _, _, rfl⟩
  · split at h
    · contradiction
    · cases h
      exact ⟨_, _, _, _, _, rfl⟩

theorem DueExactly.settles (h : d.DueExactly) (copy : c.CopyOf d)
    (outcome : Except SendError UInt16) : c.settle outcome ≠ none := by
  intro none
  simp only [settle] at none
  split at none
  · contradiction
  · split at none
    · rename_i sum
      obtain ⟨due, same, -⟩ := h.exact (c.attempt + 1)
      have sum : c.dueFor (c.attempt + 1) = .none := sum
      rw [copy.dueFor_eq, same] at sum
      contradiction
    · contradiction

end Delivery

namespace System

variable {s t : System} {op : Op}

def held (s : System) : List Delivery :=
  match s.tick with
  | .attempting due => due
  | .posted c due | .delivered c _ due | .told c due => c :: due
  | .idle | .begun _ | .panicked => []

/-- What is in the queue and what the pass holds are copies of what was pushed. -/
def Copies (s : System) : Prop := ∀ c ∈ s.queue ++ s.held, ∃ d ∈ s.pushed, c.CopyOf d

/-- Every delivery that was enqueued is due when it is to be, and the pass has not panicked. -/
structure DueExactly (s : System) : Prop where
  each : ∀ d ∈ s.calls ++ s.pushed, d.DueExactly
  running : s.tick ≠ .panicked

/-- An enqueue at a time from which chrono holds the time of the last attempt. -/
def HasRoom (s : System) : Op → Prop
  | .enqueue id endpoint body trace =>
    s.now.HasRoom (Delivery.new id endpoint body s.now trace).ladderMs
  | _ => True

theorem mem_of_mem_replace {queue : List Delivery} {c d : Delivery} (mem : d ∈ replace queue c) :
    d = c ∨ d ∈ queue := by
  induction queue with
  | nil => contradiction
  | cons slot rest ih =>
    rw [replace] at mem
    split at mem
    · rcases List.mem_cons.mp mem with rfl | later
      · exact .inl rfl
      · exact .inr (List.mem_cons_of_mem _ later)
    · rcases List.mem_cons.mp mem with rfl | later
      · exact .inr List.mem_cons_self
      · exact (ih later).imp id (List.mem_cons_of_mem _)

/-- A step that holds on to copies of what was there, or of what it pushes. -/
theorem Copies.of (h : s.Copies) (more : s.pushed ⊆ t.pushed)
    (each : ∀ c ∈ t.queue ++ t.held, c ∈ t.pushed ∨ ∃ e ∈ s.queue ++ s.held, c.CopyOf e) :
    t.Copies := by
  intro c mem
  rcases each c mem with new | ⟨e, mem, copy⟩
  · exact ⟨c, new, .refl c⟩
  · obtain ⟨d, pushed, copy'⟩ := h e mem
    exact ⟨d, more pushed, copy.trans copy'⟩

theorem Copies.does (h : s.Copies) (does : Does s op t) : t.Copies := by
  have queued {c : Delivery} (mem : c ∈ s.queue) : ∃ e ∈ s.queue ++ s.held, c.CopyOf e :=
    ⟨c, List.mem_append_left _ mem, .refl c⟩
  have kept {c e : Delivery} (copy : c.CopyOf e) (mem : e ∈ s.held) :
      ∃ e ∈ s.queue ++ s.held, c.CopyOf e := ⟨e, List.mem_append_right _ mem, copy⟩
  -- A pass that goes on with the deliveries `due`, and maybe with a copy of one that it held.
  have goesOn {c e : Delivery} {due : List Delivery} (holds : s.held = e :: due)
      (copy : c.CopyOf e) {c' : Delivery} (mem : c' ∈ s.queue ++ c :: due) :
      ∃ e ∈ s.queue ++ s.held, c'.CopyOf e := by
    rcases List.mem_append.mp mem with mem | mem
    · exact queued mem
    · rcases List.mem_cons.mp mem with rfl | mem
      · exact kept copy (holds ▸ List.mem_cons_self)
      · exact kept (.refl c') (holds ▸ List.mem_cons_of_mem e mem)
  cases does with
  | clock | enqueue => exact h
  | @push k d found =>
    refine h.of (List.subset_append_left _ _) fun c mem => ?_
    simp only [List.append_assoc, List.mem_append, List.mem_singleton] at mem
    rcases mem with mem | rfl | mem
    · exact .inr (queued mem)
    · exact .inl (List.mem_append_right _ List.mem_cons_self)
    · exact .inr (kept (.refl c) mem)
  | tick | finish | panic =>
    refine h.of (List.Subset.refl _) fun c mem => .inr (queued ?_)
    simpa [held] using mem
  | collect at_ =>
    refine h.of (List.Subset.refl _) fun c mem => .inr (queued ?_)
    rcases List.mem_append.mp mem with mem | mem
    · exact mem
    · exact List.mem_of_mem_filter mem
  | @fail d due at_ | @post d due at_ =>
    have holds : s.held = d :: due := by rw [held, at_]
    exact h.of (List.Subset.refl _) fun c mem => .inr (goesOn holds d.copyOf_next mem)
  | @answer c due result at_ =>
    have holds : s.held = c :: due := by rw [held, at_]
    exact h.of (List.Subset.refl _) fun c mem => .inr (goesOn holds (.refl _) mem)
  | @emit c outcome due d event at_ settled =>
    have holds : s.held = c :: due := by rw [held, at_]
    refine h.of (List.Subset.refl _) fun c mem => .inr (goesOn holds ?_ mem)
    exact Delivery.settle_copyOf settled
  | @replace c due at_ =>
    have holds : s.held = c :: due := by rw [held, at_]
    refine h.of (List.Subset.refl _) fun c' mem => .inr ?_
    rcases List.mem_append.mp mem with mem | mem
    · rcases mem_of_mem_replace mem with rfl | mem
      · exact kept (.refl _) (holds ▸ List.mem_cons_self)
      · exact queued mem
    · exact kept (.refl c') (holds ▸ List.mem_cons_of_mem c mem)

theorem Copies.step (h : s.Copies) (op : Op) : (s.step op).Copies := by
  rcases s.step_cases op with same | does
  · rw [same]
    exact h
  · exact h.does does

theorem DueExactly.does (h : s.DueExactly) (copies : s.Copies) (does : Does s op t)
    (other : ∀ id endpoint body trace, op ≠ .enqueue id endpoint body trace) : t.DueExactly := by
  cases does with
  | clock => exact ⟨h.each, h.running⟩
  | enqueue => exact absurd rfl (other _ _ _ _)
  | @push k d found =>
    refine ⟨fun c mem => ?_, h.running⟩
    have inCalls := List.mem_of_getElem? found
    simp only [List.mem_append, List.mem_singleton] at mem
    rcases mem with mem | mem | rfl
    · exact h.each c (List.mem_append_left _ (List.mem_of_mem_eraseIdx mem))
    · exact h.each c (List.mem_append_right _ mem)
    · exact h.each c (List.mem_append_left _ inCalls)
  | @panic c outcome due at_ settled =>
    have holds : c ∈ s.held := by
      rw [held, at_]
      exact List.mem_cons_self
    obtain ⟨d, pushed, copy⟩ := copies c (List.mem_append_right _ holds)
    exact absurd settled ((h.each d (List.mem_append_right _ pushed)).settles copy outcome)
  | tick | collect | finish | fail | post | answer | emit | replace =>
    exact ⟨h.each, by simp⟩

theorem dueExactly_step_iff (copies : s.Copies) (h : s.DueExactly) (op : Op) :
    (s.step op).DueExactly ↔ s.HasRoom op := by
  cases op with
  | enqueue id endpoint body trace =>
    show (s.step _).DueExactly ↔ (Delivery.new id endpoint body s.now trace).enqueuedAt.HasRoom _
    rw [← Delivery.dueExactly_iff]
    constructor
    · intro after
      exact after.each _ (List.mem_append_left _ (List.mem_append_right _ List.mem_cons_self))
    · intro new
      refine ⟨fun d mem => ?_, h.running⟩
      simp only [System.step, List.mem_append, List.mem_singleton] at mem
      rcases mem with (mem | rfl) | mem
      · exact h.each d (List.mem_append_left _ mem)
      · exact new
      · exact h.each d (List.mem_append_right _ mem)
  | _ =>
    refine iff_of_true ?_ trivial
    rcases s.step_cases _ with same | does
    · rw [same]
      exact h
    · exact h.does copies does (by simp)

end System

/-- Whatever is enqueued and however the passes and the clock go, the attempts are due when they are
to be and no pass panics exactly if each enqueue has room for its ladder. -/
theorem dueExactly_run_iff (now : DateTime) (ops : List Op) :
    Machine.Throughout System.step System.DueExactly (.new now) ops ↔
      Machine.Along System.step System.HasRoom (.new now) ops := by
  refine Machine.throughout_iff_along_of_invariant (I := System.Copies) (A := fun _ _ => True)
    (fun s op copies _ => copies.step op)
    (fun s op copies h _ => System.dueExactly_step_iff copies h op) ?_ ?_ ?_
  · simp [System.Copies, System.new, System.held]
  · exact ⟨by simp [System.new], by simp [System.new]⟩
  · exact Machine.along_of_forall fun _ _ => trivial

def endless : NewDelivery :=
  ⟨"http://x", none, none, none, some [.ofNat (2 ^ 64 - 1)], some 1, none⟩

/-- The sum becomes `-1`: the second attempt is due before the enqueue. -/
theorem wrapped_ladder_due_early :
    ¬(∀ now ops, Machine.Throughout System.step System.DueExactly (.new now) ops) ∧
      ((System.new DateTime.unixEpoch).step (hooksSend endless (.fill 16 0) none)).calls.map
        (fun d => (d.dueFor 2).map (·.nanos)) = [some (-1000000)] := by
  refine ⟨fun all => ?_, by decide +kernel⟩
  obtain ⟨after, -⟩ := all DateTime.unixEpoch [hooksSend endless (.fill 16 0) none]
  obtain ⟨due, -, exact_⟩ := (after.each _ List.mem_cons_self).exact 2
  exact absurd exact_.hasRoom (by decide +kernel)

end Servr.Outbound
