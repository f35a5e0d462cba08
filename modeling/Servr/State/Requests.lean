import Servr.Lib.Machine
import Servr.State

/-! Concurrent requests to change the fault list.  `add_fault` reads the resolved list before it
takes the lock under which `mutate` publishes, and every store under the lock is a step of its own.
When each `add_fault` publishes while the resolved list is still the one that it read, the requests
leave the list that they leave when they are served one at a time. -/

namespace Servr.State.Requests

inductive Request
  | add (spec : FaultSpec)
  | clear
  | reset

/-- A request that is served by itself. -/
def serve (s : State) : Request → State
  | .add spec => s.addFault spec
  | .clear => s.clearFaults
  | .reset => s.reset

/-- Where a request stands. -/
inductive Pc
  | waiting
  /-- `add_fault` has read the resolved list and pushed its rule. -/
  | pushed (faults : List FaultSpec)
  /-- The request holds the lock, with the overlay that it publishes. -/
  | locked (next : Overlay)
  | resolved (next : Overlay)
  | overlaid
  | done

/-- The request has stored the resolved configuration. -/
def Pc.published : Pc → Prop
  | .waiting | .pushed _ | .locked _ => False
  | .resolved _ | .overlaid | .done => True

/-- The overlay that a request makes of a copy of the one in force, once it takes the lock. -/
def Request.next (overlay : Overlay) : Request → Pc → Option Overlay
  | .add _, .pushed faults => some { overlay with faults := some faults }
  | .clear, .waiting => some { overlay with faults := some [] }
  | .reset, .waiting => some .default
  | _, _ => none

/-- What a request that takes the lock makes of the fault list, apart from an `add_fault`, whose
list was made before. -/
def Request.Intends (next : Overlay) : Request → Prop
  | .add _ => True
  | .clear => next.faults = some []
  | .reset => next.faults = none

structure Serving (ι : Type) where
  plane : State
  holder : Option ι
  pc : ι → Pc
  /-- The requests in the order in which they stored the resolved configuration. -/
  served : List ι

variable {ι : Type} [DecidableEq ι]

/-- One step of a request. -/
inductive Step (request : ι → Request) : Serving ι → Serving ι → Prop
  | read {s i spec} : request i = .add spec → s.pc i = .waiting →
      Step request s
        { s with pc := Function.update s.pc i (.pushed (s.plane.resolved.faults ++ [spec])) }
  | lock {s i next} : s.holder = none → (request i).next s.plane.overlay (s.pc i) = some next →
      Step request s { s with holder := some i, pc := Function.update s.pc i (.locked next) }
  | storeResolved {s i next} : s.pc i = .locked next →
      Step request s { s with
        plane := { s.plane with resolved := resolve s.plane.base next }
        pc := Function.update s.pc i (.resolved next)
        served := s.served ++ [i] }
  | storeOverlay {s i next} : s.pc i = .resolved next →
      Step request s { s with
        plane := { s.plane with overlay := next }
        pc := Function.update s.pc i .overlaid }
  | unlock {s i} : s.pc i = .overlaid →
      Step request s { s with
        plane := match request i with
          | .reset => { s.plane with clock := s.plane.clock.reset }
          | .add _ | .clear => s.plane
        holder := none
        pc := Function.update s.pc i .done }

omit [DecidableEq ι] in
/-- No request has begun. -/
def Fresh (start : State) (s : Serving ι) : Prop :=
  s.plane = start ∧ s.holder = none ∧ (∀ i, s.pc i = .waiting) ∧ s.served = []

omit [DecidableEq ι] in
/-- If the step is an `add_fault` that publishes, the resolved list is the one that it read. -/
def Undisturbed (request : ι → Request) (s t : Serving ι) : Prop :=
  ∀ i spec next, request i = .add spec → s.pc i = .locked next → t.pc i = .resolved next →
    next.faults = some (s.plane.resolved.faults ++ [spec])

omit [DecidableEq ι] in
/-- Once every request is done, the list is that of the requests served one at a time in some
order. -/
def Serial (request : ι → Request) (start : State) (s : Serving ι) : Prop :=
  (∀ i, s.pc i = .done) → ∃ order : List ι, order.Nodup ∧ (∀ i, i ∈ order) ∧
    s.plane.resolved.faults = ((order.map request).foldl serve start).resolved.faults

/-- The list that a request leaves when it is served by itself. -/
def Request.outcome (base : Scenario) (faults : List FaultSpec) : Request → List FaultSpec
  | .add spec => faults ++ [spec]
  | .clear => []
  | .reset => base.faults

theorem faults_serve (s : State) (q : Request) :
    (serve s q).resolved.faults = q.outcome s.base s.resolved.faults := by
  cases q <;> rfl

theorem base_serve (s : State) (q : Request) : (serve s q).base = s.base := by
  cases q <;> rfl

theorem base_foldl_serve (s : State) (qs : List Request) : (qs.foldl serve s).base = s.base := by
  induction qs generalizing s with
  | nil => rfl
  | cons q qs ih => rw [List.foldl_cons, ih, base_serve]

omit [DecidableEq ι] in
/-- Rules that are added one at a time all stand in the list. -/
theorem faults_adds (s : State) (spec : ι → FaultSpec) (order : List ι) :
    ((order.map fun i => .add (spec i)).foldl serve s).resolved.faults =
      s.resolved.faults ++ order.map spec := by
  induction order generalizing s with
  | nil => simp
  | cons i order ih => simp [ih, faults_serve, Request.outcome]

/-- The invariant: the resolved list is that of the requests served so far, in their order. -/
structure Inv (request : ι → Request) (start : State) (s : Serving ι) : Prop where
  base : s.plane.base = start.base
  faults : s.plane.resolved.faults = ((s.served.map request).foldl serve start).resolved.faults
  nodup : s.served.Nodup
  mem : ∀ i, i ∈ s.served ↔ (s.pc i).published
  intent : ∀ i next, s.pc i = .locked next → (request i).Intends next

variable {request : ι → Request} {start : State} {s t : Serving ι}

omit [DecidableEq ι] in
theorem Fresh.inv (h : Fresh start s) : Inv request start s := by
  obtain ⟨rfl, -, waiting, none⟩ := h
  refine ⟨rfl, by simp [none], by simp [none], fun i => ?_, fun i next locked => ?_⟩
  · simp [none, waiting i, Pc.published]
  · rw [waiting i] at locked
    contradiction

/-- A step of a request that stores no resolved configuration keeps the invariant. -/
theorem Inv.move (h : Inv request start s) {i : ι} {p : Pc} {t : Serving ι}
    (base : t.plane.base = s.plane.base) (resolved : t.plane.resolved = s.plane.resolved)
    (served : t.served = s.served) (pc : t.pc = Function.update s.pc i p)
    (published : p.published ↔ (s.pc i).published)
    (intent : ∀ next, p = .locked next → (request i).Intends next) : Inv request start t where
  base := base.trans h.base
  faults := by rw [resolved, served, h.faults]
  nodup := served ▸ h.nodup
  mem j := by
    rw [served, pc, h.mem j]
    by_cases same : j = i
    · subst same
      rw [Function.update_self, published]
    · rw [Function.update_of_ne same]
  intent j next := by
    rw [pc]
    by_cases same : j = i
    · subst same
      rw [Function.update_self]
      exact intent next
    · rw [Function.update_of_ne same]
      exact h.intent j next

theorem Request.intends_next {q : Request} {overlay next : Overlay} {p : Pc}
    (h : q.next overlay p = some next) : ¬p.published ∧ q.Intends next := by
  unfold Request.next at h
  split at h
  · exact ⟨id, trivial⟩
  · cases h
    exact ⟨id, rfl⟩
  · cases h
    exact ⟨id, rfl⟩
  · contradiction

/-- The list that is in force when a request publishes what it intends. -/
theorem Request.Intends.outcome {q : Request} {next : Overlay} {faults : List FaultSpec}
    (h : q.Intends next) (base : Scenario)
    (add : ∀ spec, q = .add spec → next.faults = some (faults ++ [spec])) :
    next.faults.getD base.faults = q.outcome base faults := by
  cases q with
  | add spec =>
    rw [add spec rfl]
    rfl
  | clear =>
    rw [show next.faults = some [] from h]
    rfl
  | reset =>
    rw [show next.faults = none from h]
    rfl

theorem Inv.step (h : Inv request start s) (hs : Step request s t)
    (calm : Undisturbed request s t) : Inv request start t := by
  cases hs with
  | @read i spec add waiting =>
    refine h.move rfl rfl rfl rfl ?_ ?_
    · rw [waiting]
      rfl
    · rintro _ ⟨⟩
  | @lock i next free ready =>
    obtain ⟨unpublished, intends⟩ := Request.intends_next ready
    refine h.move rfl rfl rfl rfl ?_ ?_
    · exact ⟨False.elim, unpublished⟩
    · rintro _ ⟨⟩
      exact intends
  | @storeResolved i next locked =>
    have fresh : i ∉ s.served := by
      rw [h.mem, locked]
      exact id
    have outcome := (h.intent i next locked).outcome s.plane.base
      fun spec q => calm i spec next q locked (Function.update_self ..)
    refine ⟨h.base, ?_, ?_, fun j => ?_, fun j next' => ?_⟩
    · rw [List.map_append, List.foldl_append, List.map_singleton, List.foldl_cons, List.foldl_nil,
        faults_serve, base_foldl_serve, ← h.base, ← h.faults, ← outcome]
      rfl
    · exact h.nodup.append (List.nodup_singleton i) (by simpa using fresh)
    · by_cases same : j = i
      · subst same
        simp [Pc.published]
      · simp [same, h.mem j]
    · dsimp only
      by_cases same : j = i
      · subst same
        simp
      · rw [Function.update_of_ne same]
        exact h.intent j next'
  | @storeOverlay i next resolved =>
    refine h.move rfl rfl rfl rfl ?_ ?_
    · rw [resolved]
      rfl
    · rintro _ ⟨⟩
  | @unlock i overlaid =>
    refine h.move ?_ ?_ rfl rfl ?_ ?_
    · cases request i <;> rfl
    · cases request i <;> rfl
    · rw [overlaid]
      rfl
    · rintro _ ⟨⟩

/-- In every run in which each `add_fault` publishes while the resolved list is still the one that
it read, the requests leave the list of some order in which they are served one at a time. -/
theorem serial {request : ι → Request} {start : State} {s : Serving ι}
    (h : Machine.Reachable (Fresh start)
      (fun s t => Step request s t ∧ Undisturbed request s t) s) : Serial request start s := by
  have inv : Inv request start s := h.invariant (fun _ fresh => fresh.inv)
    fun _ _ _ ih next => ih.step next.1 next.2
  intro done
  refine ⟨s.served, inv.nodup, fun i => ?_, inv.faults⟩
  rw [inv.mem, done]
  trivial

/-- A control plane whose scenario injects nothing. -/
def plain : State := State.plain (Clock.new DateTime.unixEpoch)

def twoWaiting : Serving Bool := ⟨plain, none, fun _ => .waiting, []⟩

theorem twoWaiting_fresh : Fresh plain twoWaiting := ⟨rfl, rfl, fun _ => rfl, rfl⟩

def rule (i : Bool) : FaultSpec := { FaultSpec.default with route := if i then "/b" else "/a" }

def addAndClear : Bool → Request
  | false => .add (rule false)
  | true => .clear

theorem undisturbed_addAndClear {s t : Serving Bool} (add : ∀ next, s.pc false = .locked next →
    next.faults = some (s.plane.resolved.faults ++ [rule false])) :
    Undisturbed addAndClear s t := by
  rintro (_ | _) spec next ⟨⟩ locked -
  exact add next locked

/-- A rule is read and pushed while a request to clear the list holds the lock. -/
theorem serial_pushed_under_lock :
    ∃ s : Serving Bool, (∀ i, s.pc i = .done) ∧ Serial addAndClear plain s := by
  have start : Machine.Reachable (Fresh plain)
      (fun s t => Step addAndClear s t ∧ Undisturbed addAndClear s t) twoWaiting :=
    .start twoWaiting_fresh
  have cleared := (start.next
    ⟨.lock (i := true) rfl rfl, undisturbed_addAndClear (by simp [twoWaiting])⟩).next
    ⟨.storeResolved (i := true) rfl, undisturbed_addAndClear (by simp [twoWaiting])⟩
  have pushed := cleared.next
    ⟨.read (i := false) rfl rfl, undisturbed_addAndClear (by simp [twoWaiting])⟩
  have released := (pushed.next
    ⟨.storeOverlay (i := true) rfl, undisturbed_addAndClear (by simp)⟩).next
    ⟨.unlock (i := true) rfl, undisturbed_addAndClear (by simp)⟩
  have added := (released.next
    ⟨.lock (i := false) rfl rfl, undisturbed_addAndClear (by simp)⟩).next
    ⟨.storeResolved (i := false) rfl, undisturbed_addAndClear (by rintro next ⟨⟩; rfl)⟩
  have done := (added.next
    ⟨.storeOverlay (i := false) rfl, undisturbed_addAndClear (by simp)⟩).next
    ⟨.unlock (i := false) rfl, undisturbed_addAndClear (by simp)⟩
  exact ⟨_, by intro i; cases i <;> rfl, serial done⟩

/-- Two rules are added at once, each to the list that the other has not changed yet, and the list
holds only the one that is published last. -/
theorem added_rule_lost : ¬∀ (request : Bool → Request) (start : State) (s : Serving Bool),
    Machine.Reachable (Fresh start) (Step request) s → Serial request start s := by
  intro kept
  have start : Machine.Reachable (Fresh plain) (Step fun i => .add (rule i)) twoWaiting :=
    .start twoWaiting_fresh
  have read := (start.next (.read (i := false) rfl rfl)).next (.read (i := true) rfl rfl)
  have first := (((read.next (.lock (i := false) rfl rfl)).next
    (.storeResolved (i := false) rfl)).next (.storeOverlay (i := false) rfl)).next
    (.unlock (i := false) rfl)
  have second := (((first.next (.lock (i := true) rfl rfl)).next
    (.storeResolved (i := true) rfl)).next (.storeOverlay (i := true) rfl)).next
    (.unlock (i := true) rfl)
  obtain ⟨order, -, all, faults⟩ := kept _ _ _ second (by intro i; cases i <;> rfl)
  have final : [rule true] = plain.resolved.faults ++ order.map rule :=
    faults.trans (faults_adds plain rule order)
  have held : rule false ∈ plain.resolved.faults ++ order.map rule :=
    List.mem_append_right _ (List.mem_map_of_mem (all false))
  rw [← final, List.mem_singleton] at held
  exact absurd (congrArg FaultSpec.route held) (by decide)

end Servr.State.Requests
