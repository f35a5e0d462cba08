import Mathlib.Data.Fintype.Basic
import Servr.Clock
import Servr.Lib.Machine

/-! Concurrent callers of one clock.  Every load, store, swap and add inside `now`, `advance`,
`freeze` and `resume` is a step of its own, and so is every reading of the monotonic clock.  When no
call of `freeze` or `resume` is in progress together with another call of `now`, `freeze` or
`resume`, no observer sees virtual time run backwards. -/

namespace Servr.Clock.Observers

/-- Where a caller stands inside a call, with what it has read so far.  A call of `now` also keeps
the results of the calls of `now` that had returned when it began. -/
inductive Pc
  | idle
  | nowFlag (before : List DateTime) (frozen : Bool)
  | nowElapsed (before : List DateTime) (elapsed : Int)
  | freezeRead (captured : Int)
  | freezeStored
  | resumeSwapped
  | resumeRead (running : Int)
  | resumeSkip (skipped : Int)
  deriving DecidableEq

/-- The caller is between the first and the last step of a `freeze`, or of a `resume` that found
the clock frozen. -/
def Pc.writes : Pc → Prop
  | .freezeRead _ | .freezeStored | .resumeSwapped | .resumeRead _ | .resumeSkip _ => True
  | .idle | .nowFlag _ _ | .nowElapsed _ _ => False

instance (p : Pc) : Decidable p.writes := by
  cases p <;> simp only [Pc.writes] <;> infer_instance

structure Call where
  before : List DateTime
  result : DateTime

/-- What the callers share: the atomics of the clock, the monotonic time since its epoch, and the
calls of `now` that have returned. -/
structure Shared where
  clock : Clock
  elapsed : Nat
  calls : List Call

namespace Shared

def results (m : Shared) : List DateTime := m.calls.map (·.result)

def AtMost (m : Shared) (t : DateTime) (v : Int) : Prop :=
  t.nanos ≤ m.clock.epochWall.nanos + v * 1000000

def Bounded (m : Shared) (v : Int) : Prop := ∀ t ∈ m.results, m.AtMost t v

theorem AtMost.mono {m : Shared} {t : DateTime} {v w : Int} (h : m.AtMost t v) (hvw : v ≤ w) :
    m.AtMost t w := by
  simp only [AtMost] at h ⊢
  omega

theorem Bounded.mono {m : Shared} {v w : Int} (h : m.Bounded v) (hvw : v ≤ w) : m.Bounded w :=
  fun t ht => (h t ht).mono hvw

end Shared

/-- One atomic step of a caller on the shared memory. -/
inductive Atom : Shared → Pc → Shared → Pc → Prop
  | advance {m} (d : Nat) : InI64 (m.clock.offsetMs + millis d) →
      Atom m .idle { m with clock := m.clock.advance d } .idle
  /-- `now` begins and loads the flag. -/
  | loadFlag {m} : Atom m .idle m (.nowFlag m.results m.clock.frozen)
  | loadElapsed {m before frozen} : Atom m (.nowFlag before frozen) m (.nowElapsed before
      (if frozen then m.clock.frozenElapsedMs else runningElapsedMs m.elapsed))
  /-- `now` loads the offset and returns. -/
  | loadOffset {m before elapsed t} : InI64 (elapsed + m.clock.offsetMs) →
      m.clock.epochWall.addMillis (asI64 (elapsed + m.clock.offsetMs)) = some t →
      Atom m (.nowElapsed before elapsed) { m with calls := m.calls ++ [⟨before, t⟩] } .idle
  /-- `freeze` begins and reads the monotonic clock. -/
  | readElapsed {m} : Atom m .idle m (.freezeRead (runningElapsedMs m.elapsed))
  | storeElapsed {m captured} : Atom m (.freezeRead captured)
      { m with clock := { m.clock with frozenElapsedMs := captured } } .freezeStored
  | storeFlag {m} : Atom m .freezeStored { m with clock := { m.clock with frozen := true } } .idle
  /-- `resume` begins, swaps the flag and finds it set. -/
  | swapSet {m} : m.clock.frozen = true →
      Atom m .idle { m with clock := { m.clock with frozen := false } } .resumeSwapped
  /-- `resume` swaps the flag, finds it clear and returns. -/
  | swapClear {m} : m.clock.frozen = false → Atom m .idle m .idle
  | readRunning {m} : Atom m .resumeSwapped m (.resumeRead (runningElapsedMs m.elapsed))
  | loadCaptured {m running} : InI64 (running - m.clock.frozenElapsedMs) →
      Atom m (.resumeRead running) m (.resumeSkip (asI64 (running - m.clock.frozenElapsedMs)))
  | subSkipped {m skipped} : InI64 (m.clock.offsetMs - skipped) → Atom m (.resumeSkip skipped)
      { m with clock := { m.clock with offsetMs := asI64 (m.clock.offsetMs - skipped) } } .idle

structure State (ι : Type) where
  shared : Shared
  pc : ι → Pc

variable {ι : Type} [DecidableEq ι]

inductive Step : State ι → State ι → Prop
  | pass {s} (d : Nat) :
      Step s { s with shared := { s.shared with elapsed := s.shared.elapsed + d } }
  | caller {s m p} (i : ι) : Atom s.shared (s.pc i) m p →
      Step s { shared := m, pc := Function.update s.pc i p }

/-- What `Clock.new`, `Clock.frozenAt`, `Clock.restore` and `Clock.reset` leave: a frozen clock has
captured a time that has passed. -/
def Sound (c : Clock) (elapsed : Nat) : Prop :=
  c.frozen = true → c.frozenElapsedMs ≤ runningElapsedMs elapsed

omit [DecidableEq ι] in
def Fresh (s : State ι) : Prop :=
  Sound s.shared.clock s.shared.elapsed ∧ s.shared.calls = [] ∧ ∀ i, s.pc i = .idle

/-- A call of `freeze` or `resume` in progress is the only call in progress. -/
def Quiet (s : State ι) : Prop := ∀ i, (s.pc i).writes → ∀ j, j ≠ i → s.pc j = .idle

instance [Fintype ι] (s : State ι) : Decidable (Quiet s) :=
  inferInstanceAs (Decidable (∀ i, _ → ∀ j, j ≠ i → _))

/-- Every call of `now` returned at least what each call returned that had ended before it. -/
def Monotone (s : State ι) : Prop :=
  ∀ call ∈ s.shared.calls, ∀ t ∈ call.before, t ≤ call.result

theorem sound_new (wall : DateTime) (elapsed : Nat) : Sound (new wall) elapsed := by
  simp [Sound, new]

theorem sound_freeze (c : Clock) {e f : Nat} (h : e ≤ f) : Sound (c.freeze e) f :=
  fun _ => runningElapsedMs_mono h

theorem sound_restore (wall : DateTime) (offset : Int) (frozen : Bool) {e f : Nat} (h : e ≤ f) :
    Sound (restore wall offset frozen e) f := by
  cases frozen
  · simp [Sound, restore, new]
  · exact sound_freeze _ h

theorem sound_reset (c : Clock) (elapsed : Nat) : Sound c.reset elapsed := by
  simp [Sound, reset]

/-- What a caller's place in its call says about the shared memory. -/
def Pc.Holds (m : Shared) : Pc → Prop
  | .idle => True
  | .nowFlag before frozen => frozen = m.clock.frozen ∧ ∀ t ∈ before, t ∈ m.results
  | .nowElapsed before elapsed =>
    elapsed ≤ m.clock.elapsedMs m.elapsed ∧
    ∀ t ∈ before, m.AtMost t (elapsed + m.clock.offsetMs)
  | .freezeRead captured =>
    captured ≤ runningElapsedMs m.elapsed ∧ m.Bounded (captured + m.clock.offsetMs)
  | .freezeStored =>
    m.clock.frozenElapsedMs ≤ runningElapsedMs m.elapsed ∧
    m.Bounded (m.clock.frozenElapsedMs + m.clock.offsetMs)
  | .resumeSwapped =>
    m.clock.frozen = false ∧ m.Bounded (m.clock.frozenElapsedMs + m.clock.offsetMs)
  | .resumeRead running =>
    m.clock.frozen = false ∧ running ≤ runningElapsedMs m.elapsed ∧
    m.Bounded (m.clock.frozenElapsedMs + m.clock.offsetMs)
  | .resumeSkip skipped =>
    m.clock.frozen = false ∧ m.Bounded (runningElapsedMs m.elapsed + m.clock.offsetMs - skipped)

/-- The invariant of the runs whose states are quiet.  While no caller writes, no result is above
the virtual time; while one does, its place in the call bounds the results instead. -/
structure Inv (s : State ι) : Prop where
  sound : Sound s.shared.clock s.shared.elapsed
  holds : ∀ i, (s.pc i).Holds s.shared
  calm : (∀ i, ¬(s.pc i).writes) → s.shared.Bounded (s.shared.clock.virtualMs s.shared.elapsed)
  monotone : Monotone s

section Atom

variable {m m' : Shared} {p p' : Pc}

theorem elapsedMs_le {c : Clock} {elapsed : Nat} (h : Sound c elapsed) :
    c.elapsedMs elapsed ≤ runningElapsedMs elapsed := by
  unfold elapsedMs
  split
  · exact h ‹_›
  · exact Int.le_refl _

theorem Atom.sound (h : Atom m p m' p') (hs : Sound m.clock m.elapsed) (hp : p.Holds m) :
    Sound m'.clock m'.elapsed := by
  cases h with
  | advance | loadFlag | loadElapsed | loadOffset | readElapsed | swapClear | readRunning
  | loadCaptured | subSkipped => exact hs
  | storeElapsed => exact fun _ => hp.1
  | storeFlag => exact fun _ => hp.1
  | swapSet => exact fun set => nomatch set

theorem Atom.holds (h : Atom m p m' p') (hs : Sound m.clock m.elapsed) (hp : p.Holds m)
    (calm : ¬p.writes → p ≠ .idle ∨ p' ≠ .idle → m.Bounded (m.clock.virtualMs m.elapsed)) :
    p'.Holds m' := by
  cases h with
  | advance | loadOffset | storeFlag | swapClear | subSkipped => trivial
  | loadFlag => exact ⟨rfl, fun _ ht => ht⟩
  | @loadElapsed before frozen =>
    have bound := calm (by simp [Pc.writes]) (by simp)
    obtain ⟨rfl, seen⟩ := hp
    exact ⟨Int.le_refl _, fun t ht => bound t (seen t ht)⟩
  | readElapsed =>
    have bound := calm (by simp [Pc.writes]) (by simp)
    refine ⟨Int.le_refl _, bound.mono ?_⟩
    have := elapsedMs_le hs
    simp only [virtualMs]
    omega
  | storeElapsed => exact hp
  | swapSet set =>
    have bound := calm (by simp [Pc.writes]) (by simp)
    simp only [virtualMs, elapsedMs, set, if_true] at bound
    exact ⟨rfl, bound⟩
  | readRunning => exact ⟨hp.1, Int.le_refl _, hp.2⟩
  | loadCaptured fits =>
    obtain ⟨clear, read, bound⟩ := hp
    refine ⟨clear, bound.mono ?_⟩
    rw [asI64_of_mem fits]
    omega

/-- A step of one caller keeps what the place of another says, when at most one of them writes and
a writer meets no other call. -/
theorem Atom.others {q : Pc} (h : Atom m p m' p') (hq : q.Holds m)
    (other : q.writes → p = .idle ∧ p' = .idle) (own : p.writes ∨ p'.writes → q = .idle) :
    q.Holds m' := by
  cases h with
  | loadFlag | loadElapsed | readElapsed | swapClear | readRunning | loadCaptured => exact hq
  | storeElapsed | storeFlag | swapSet | subSkipped =>
    rw [own (by simp [Pc.writes])]
    trivial
  | advance d fits =>
    have grows := millis_nonneg d
    have offset : (m.clock.advance d).offsetMs = m.clock.offsetMs + millis d := asI64_of_mem fits
    have same : (m.clock.advance d).frozenElapsedMs = m.clock.frozenElapsedMs := rfl
    cases q with
    | idle => trivial
    | nowFlag => exact hq
    | nowElapsed => exact ⟨hq.1, fun t ht => (hq.2 t ht).mono (by dsimp only; omega)⟩
    | freezeRead => exact ⟨hq.1, hq.2.mono (by dsimp only; omega)⟩
    | freezeStored => exact ⟨hq.1, hq.2.mono (by dsimp only; omega)⟩
    | resumeSwapped => exact ⟨hq.1, hq.2.mono (by dsimp only; omega)⟩
    | resumeRead => exact ⟨hq.1, hq.2.1, hq.2.2.mono (by dsimp only; omega)⟩
    | resumeSkip => exact ⟨hq.1, hq.2.mono (by dsimp only; omega)⟩
  | loadOffset =>
    cases q with
    | idle => trivial
    | nowFlag before frozen =>
      refine ⟨hq.1, fun t ht => ?_⟩
      simp only [Shared.results, List.map_append, List.mem_append]
      exact .inl (hq.2 t ht)
    | nowElapsed => exact hq
    | freezeRead | freezeStored | resumeSwapped | resumeRead | resumeSkip =>
      exact absurd (other trivial).1 (by simp)

/-- A step that ends with no caller writing leaves every result at most the virtual time. -/
theorem Atom.calm (h : Atom m p m' p') (hp : p.Holds m)
    (calm : ¬p.writes → m.Bounded (m.clock.virtualMs m.elapsed)) (done : ¬p'.writes) :
    m'.Bounded (m'.clock.virtualMs m'.elapsed) := by
  cases h with
  | advance d fits =>
    apply (calm done).mono
    have grows := millis_nonneg d
    simp only [virtualMs_advance fits]
    omega
  | loadFlag | loadElapsed | swapClear => exact calm (by simp [Pc.writes])
  | @loadOffset before elapsed t fits sum =>
    have bound := calm (by simp [Pc.writes])
    intro u hu
    simp only [Shared.results, List.map_append, List.mem_append, List.map_cons, List.map_nil,
      List.mem_singleton] at hu
    rcases hu with old | rfl
    · exact bound u old
    · rw [asI64_of_mem fits, DateTime.addMillis_eq_some] at sum
      have read := hp.1
      simp only [Shared.AtMost, virtualMs]
      omega
  | storeFlag =>
    have bound := hp.2
    simp only [virtualMs, elapsedMs, if_true]
    exact bound
  | subSkipped fits =>
    obtain ⟨clear, bound⟩ := hp
    apply bound.mono
    simp only [virtualMs, elapsedMs, clear, Bool.false_eq_true, if_false, asI64_of_mem fits]
    omega
  | readElapsed | storeElapsed | swapSet | readRunning | loadCaptured =>
    exact absurd trivial done

theorem Atom.calls (h : Atom m p m' p') (hp : p.Holds m)
    (old : ∀ call ∈ m.calls, ∀ t ∈ call.before, t ≤ call.result) :
    ∀ call ∈ m'.calls, ∀ t ∈ call.before, t ≤ call.result := by
  cases h with
  | advance | loadFlag | loadElapsed | readElapsed | storeElapsed | storeFlag | swapSet | swapClear
  | readRunning | loadCaptured | subSkipped => exact old
  | @loadOffset before elapsed t fits sum =>
    intro call hc u hu
    rcases List.mem_append.mp hc with earlier | last
    · exact old call earlier u hu
    · obtain rfl : call = ⟨before, t⟩ := by simpa using last
      have bound := hp.2 u hu
      rw [asI64_of_mem fits, DateTime.addMillis_eq_some] at sum
      rw [DateTime.le_iff, sum]
      exact bound

end Atom

/-! ### Runs -/

theorem elapsedMs_pass (c : Clock) (elapsed d : Nat) :
    c.elapsedMs elapsed ≤ c.elapsedMs (elapsed + d) := by
  unfold elapsedMs
  split
  · exact Int.le_refl _
  · exact runningElapsedMs_mono (Nat.le_add_right elapsed d)

theorem Pc.Holds.pass {m : Shared} {p : Pc} (h : p.Holds m) (d : Nat) :
    p.Holds { m with elapsed := m.elapsed + d } := by
  have later := runningElapsedMs_mono (Nat.le_add_right m.elapsed d)
  cases p with
  | idle => trivial
  | nowFlag => exact h
  | nowElapsed before elapsed =>
    exact ⟨Int.le_trans h.1 (elapsedMs_pass m.clock m.elapsed d), h.2⟩
  | freezeRead => exact ⟨Int.le_trans h.1 later, h.2⟩
  | freezeStored => exact ⟨Int.le_trans h.1 later, h.2⟩
  | resumeSwapped => exact h
  | resumeRead => exact ⟨h.1, Int.le_trans h.2.1 later, h.2.2⟩
  | resumeSkip skipped =>
    refine ⟨h.1, h.2.mono ?_⟩
    simp only
    omega

theorem Inv.step {s t : State ι} (h : Inv s) (hs : Step s t) (before : Quiet s) (after : Quiet t) :
    Inv t := by
  cases hs with
  | pass d =>
    refine ⟨fun set => ?_, fun i => (h.holds i).pass d, fun none => ?_, h.monotone⟩
    · exact Int.le_trans (h.sound set) (runningElapsedMs_mono (Nat.le_add_right _ d))
    · exact (h.calm none).mono (Int.add_le_add_right (elapsedMs_pass _ _ d) _)
  | @caller m p i atom =>
    have still : ∀ j, j ≠ i → Function.update s.pc i p j = s.pc j :=
      fun j hj => Function.update_of_ne hj _ _
    -- With no writer but `i`, the results are bounded as soon as `i` does not write.
    have calm (alone : ∀ j, j ≠ i → ¬(s.pc j).writes) (hi : ¬(s.pc i).writes) :
        s.shared.Bounded (s.shared.clock.virtualMs s.shared.elapsed) := by
      refine h.calm fun j => ?_
      by_cases same : j = i
      · exact same ▸ hi
      · exact alone j same
    refine ⟨atom.sound h.sound (h.holds i), fun j => ?_, fun none => ?_,
      atom.calls (h.holds i) h.monotone⟩
    · by_cases same : j = i
      · subst same
        simp only [Function.update_self]
        refine atom.holds h.sound (h.holds j) fun hj busy => calm (fun k hk writes => ?_) hj
        have idle := before k writes j (Ne.symm hk)
        have idle' := after k (by simpa only [still k hk] using writes) j (Ne.symm hk)
        simp only [Function.update_self] at idle'
        exact busy.elim (· idle) (· idle')
      · simp only [still j same]
        refine atom.others (h.holds j) (fun writes => ⟨before j writes i (Ne.symm same), ?_⟩)
          (fun own => ?_)
        · simpa only [Function.update_self] using
            after j (by simpa only [still j same] using writes) i (Ne.symm same)
        · rcases own with writes | writes
          · exact before i writes j same
          · simpa only [still j same] using
              after i (by simpa only [Function.update_self] using writes) j same
    · refine atom.calm (h.holds i) (calm fun j hj => ?_) ?_
      · simpa only [still j hj] using none j
      · simpa only [Function.update_self] using none i

omit [DecidableEq ι] in
theorem Fresh.inv {s : State ι} (h : Fresh s) : Inv s ∧ Quiet s := by
  obtain ⟨sound, none, idle⟩ := h
  refine ⟨⟨sound, fun i => ?_, fun _ t ht => ?_, fun call hc => ?_⟩, fun i writes => ?_⟩
  · rw [idle i]
    trivial
  · simp [Shared.results, none] at ht
  · simp [none] at hc
  · simp [idle i, Pc.writes] at writes

/-- In every interleaving whose states are all quiet, a call of `now` that begins after another has
returned returns no earlier time. -/
theorem now_monotone {s : State ι}
    (h : Machine.Reachable Fresh (fun s t => Step s t ∧ Quiet t) s) : Monotone s := by
  have inv : Inv s ∧ Quiet s := h.invariant (fun _ fresh => fresh.inv)
    fun _ _ _ ih next => ⟨ih.1.step next.1 ih.2 next.2, next.2⟩
  exact inv.1.monotone

def twoCallers : State Bool := ⟨⟨Clock.new DateTime.unixEpoch, 0, []⟩, fun _ => .idle⟩

theorem twoCallers_fresh : Fresh twoCallers := ⟨sound_new _ _, rfl, fun _ => rfl⟩

/-- One caller reads the time while another is in the middle of a call of `now`.  When both have
returned the first freezes the clock, and 10 ms later the second reads it; the first resumes it, and
the second reads it again. -/
theorem now_monotone_turns : ∃ s : State Bool,
    Machine.Reachable Fresh (fun s t => Step s t ∧ Quiet t) s ∧ s.shared.calls.length = 4 ∧
    s.shared.clock.offsetMs = -10 ∧ Monotone s := by
  have start : Machine.Reachable Fresh (fun s t => Step s t ∧ Quiet t) twoCallers :=
    .start twoCallers_fresh
  have first := ((start.next ⟨.caller false .loadFlag, by decide⟩).next
    ⟨.caller true .loadFlag, by decide⟩).next ⟨.caller true .loadElapsed, by decide⟩
  have read := first.next ⟨.caller true (.loadOffset (t := DateTime.unixEpoch) (by decide)
    (by decide)), by decide⟩
  have second := (read.next ⟨.caller false .loadElapsed, by decide⟩).next
    ⟨.caller false (.loadOffset (t := DateTime.unixEpoch) (by decide) (by decide)), by decide⟩
  have frozen := ((second.next ⟨.caller false .readElapsed, by decide⟩).next
    ⟨.caller false .storeElapsed, by decide⟩).next ⟨.caller false .storeFlag, by decide⟩
  have third := (((frozen.next ⟨.pass 10000000, by decide⟩).next
    ⟨.caller true .loadFlag, by decide⟩).next ⟨.caller true .loadElapsed, by decide⟩).next
    ⟨.caller true (.loadOffset (t := DateTime.unixEpoch) (by decide) (by decide)), by decide⟩
  have resumed := (((third.next ⟨.caller false (.swapSet rfl), by decide⟩).next
    ⟨.caller false .readRunning, by decide⟩).next
    ⟨.caller false (.loadCaptured (by decide)), by decide⟩).next
    ⟨.caller false (.subSkipped (by decide)), by decide⟩
  have fourth := ((resumed.next ⟨.caller true .loadFlag, by decide⟩).next
    ⟨.caller true .loadElapsed, by decide⟩).next
    ⟨.caller true (.loadOffset (t := DateTime.unixEpoch) (by decide) (by decide)), by decide⟩
  exact ⟨_, fourth, rfl, by decide, now_monotone fourth⟩

/-- One caller freezes the clock; 10 ms later it has cleared the flag in `resume` when the other
reads 10 ms of virtual time, and when `resume` has taken them off the offset the other reads 0. -/
theorem resume_runs_back : ¬∀ s : State Bool, Machine.Reachable Fresh Step s → Monotone s := by
  intro monotone
  have start : Machine.Reachable Fresh Step twoCallers :=
    .start twoCallers_fresh
  have frozen := ((start.next (.caller false .readElapsed)).next
    (.caller false .storeElapsed)).next (.caller false .storeFlag)
  have swapped := (frozen.next (.pass 10000000)).next (.caller false (.swapSet rfl))
  have ahead := ((swapped.next (.caller true .loadFlag)).next
    (.caller true .loadElapsed)).next
    (.caller true (.loadOffset (t := ⟨10000000, by decide, by decide⟩) (by decide) (by decide)))
  have resumed := ((ahead.next (.caller false .readRunning)).next
    (.caller false (.loadCaptured (by decide)))).next (.caller false (.subSkipped (by decide)))
  have back := ((resumed.next (.caller true .loadFlag)).next
    (.caller true .loadElapsed)).next
    (.caller true (.loadOffset (t := DateTime.unixEpoch) (by decide) (by decide)))
  have order := monotone _ back ⟨[⟨10000000, by decide, by decide⟩], DateTime.unixEpoch⟩
    (List.mem_append_right _ (List.mem_singleton.mpr rfl)) _ (List.mem_singleton.mpr rfl)
  exact absurd order (by decide)

end Servr.Clock.Observers
