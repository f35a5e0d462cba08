import Servr.Lib.Machine
import Servr.Snapshot

/-! A capture among concurrent calls.  Every load inside `Snapshot::capture` is a step of its own,
and so is every load and store inside `advance`, `freeze`, `resume`, `mutate` and `reset`.  When no
store changes what a capture has still to load, unless what the capture has loaded is in force after
the store, each capture is what the control plane held at one instant. -/

namespace Servr.Snapshot.Cut

open Clock (runningElapsedMs millis)

/-- What a snapshot says of the control plane at one instant. -/
@[ext]
structure View where
  virtualNow : Option DateTime
  offsetMs : Int
  frozen : Bool
  overlay : Overlay
  deriving DecidableEq

def viewOf (plane : State) (elapsed : Nat) : View :=
  ⟨plane.clock.now elapsed, plane.clock.offsetMs, plane.clock.frozen, plane.overlay⟩

/-- Where a caller stands inside a call, with what it has read so far. -/
inductive Pc
  | idle
  /-- `capture` has read the wall time. -/
  | captureBegun
  | nowFlag (frozen : Bool)
  | nowElapsed (elapsed : Int)
  | nowRead (virtualNow : DateTime)
  | offsetRead (virtualNow : DateTime) (offset : Int)
  | flagRead (virtualNow : DateTime) (offset : Int) (frozen : Bool)
  | freezeRead (captured : Int)
  | freezeStored
  | resumeSwapped
  | resumeRead (running : Int)
  | resumeSkip (skipped : Int)
  | mutateLocked (next : Overlay)
  | mutateResolved (next : Overlay)
  | resetLocked
  | resetResolved
  | resetOverlaid
  | resetOffset
  | resetFlag
  deriving DecidableEq

/-- The caller is inside `capture`. -/
def Pc.captures : Pc → Bool
  | .captureBegun | .nowFlag _ | .nowElapsed _ | .nowRead _ | .offsetRead _ _ | .flagRead _ _ _ =>
    true
  | _ => false

/-- The caller is between the first and the last load of `capture`. -/
def Pc.reads : Pc → Bool
  | .nowFlag _ | .nowElapsed _ | .nowRead _ | .offsetRead _ _ | .flagRead _ _ _ => true
  | _ => false

structure Shared where
  plane : State
  locked : Bool
  elapsed : Nat

namespace Shared

def view (m : Shared) : View := viewOf m.plane m.elapsed

def setClock (m : Shared) (clock : Clock) : Shared := { m with plane := { m.plane with clock } }

end Shared

/-- One atomic step of a caller on the shared memory, with what it has captured at its end. -/
inductive Atom : Shared → Pc → Shared → Pc → Option View → Prop
  | begin_ {m} : Atom m .idle m .captureBegun none
  | loadFlag {m} : Atom m .captureBegun m (.nowFlag m.plane.clock.frozen) none
  | loadElapsed {m frozen} : Atom m (.nowFlag frozen) m (.nowElapsed
      (if frozen then m.plane.clock.frozenElapsedMs else runningElapsedMs m.elapsed)) none
  /-- `Clock::now` loads the offset and returns. -/
  | loadNow {m elapsed t} :
      m.plane.clock.epochWall.addMillis (asI64 (elapsed + m.plane.clock.offsetMs)) = some t →
      Atom m (.nowElapsed elapsed) m (.nowRead t) none
  | loadOffset {m t} : Atom m (.nowRead t) m (.offsetRead t m.plane.clock.offsetMs) none
  | loadFrozen {m t offset} :
      Atom m (.offsetRead t offset) m (.flagRead t offset m.plane.clock.frozen) none
  /-- `capture` loads the overlay and returns. -/
  | loadOverlay {m t offset frozen} : Atom m (.flagRead t offset frozen) m .idle
      (some ⟨some t, offset, frozen, m.plane.overlay⟩)
  | advance {m} (d : Nat) : Atom m .idle (m.setClock (m.plane.clock.advance d)) .idle none
  | readElapsed {m} : Atom m .idle m (.freezeRead (runningElapsedMs m.elapsed)) none
  | storeElapsed {m captured} : Atom m (.freezeRead captured)
      (m.setClock { m.plane.clock with frozenElapsedMs := captured }) .freezeStored none
  | storeFlag {m} : Atom m .freezeStored
      (m.setClock { m.plane.clock with frozen := true }) .idle none
  | swapSet {m} : m.plane.clock.frozen = true →
      Atom m .idle (m.setClock { m.plane.clock with frozen := false }) .resumeSwapped none
  | readRunning {m} : Atom m .resumeSwapped m (.resumeRead (runningElapsedMs m.elapsed)) none
  | loadCaptured {m running} : Atom m (.resumeRead running) m
      (.resumeSkip (asI64 (running - m.plane.clock.frozenElapsedMs))) none
  | subSkipped {m skipped} : Atom m (.resumeSkip skipped) (m.setClock
      { m.plane.clock with offsetMs := asI64 (m.plane.clock.offsetMs - skipped) }) .idle none
  | lockMutate {m next} (f : Overlay → Option Overlay) : m.locked = false →
      f m.plane.overlay = some next →
      Atom m .idle { m with locked := true } (.mutateLocked next) none
  | storeMutated {m next} : Atom m (.mutateLocked next)
      { m with plane := { m.plane with resolved := resolve m.plane.base next } }
      (.mutateResolved next) none
  | storeOverlay {m next} : Atom m (.mutateResolved next)
      { m with plane := { m.plane with overlay := next }, locked := false } .idle none
  | lockReset {m} : m.locked = false → Atom m .idle { m with locked := true } .resetLocked none
  | storeReset {m} : Atom m .resetLocked
      { m with plane := { m.plane with resolved := resolve m.plane.base .default } }
      .resetResolved none
  | dropOverlay {m} : Atom m .resetResolved
      { m with plane := { m.plane with overlay := .default } } .resetOverlaid none
  | zeroOffset {m} : Atom m .resetOverlaid
      (m.setClock { m.plane.clock with offsetMs := 0 }) .resetOffset none
  | clearFlag {m} : Atom m .resetOffset
      (m.setClock { m.plane.clock with frozen := false }) .resetFlag none
  | zeroElapsed {m} : Atom m .resetFlag
      { m.setClock { m.plane.clock with frozenElapsedMs := 0 } with locked := false } .idle none

/-- A capture that has returned, with what the control plane held at each instant of it. -/
structure Taken where
  captured : View
  held : List View

structure System (ι : Type) where
  shared : Shared
  pc : ι → Pc
  /-- What the control plane has held at each instant since the caller's capture began. -/
  held : ι → List View
  taken : List Taken

variable {ι : Type} [DecidableEq ι]

omit [DecidableEq ι] in
/-- The instants of each capture in progress, with the next one. -/
def System.hold (s : System ι) (v : View) (i : ι) : List View :=
  if (s.pc i).captures then s.held i ++ [v] else [v]

inductive Step : System ι → System ι → Prop
  | pass {s} (d : Nat) : Step s { s with
      shared := { s.shared with elapsed := s.shared.elapsed + d }
      held := s.hold { s.shared with elapsed := s.shared.elapsed + d }.view }
  | caller {s m p out} (i : ι) : Atom s.shared (s.pc i) m p out → Step s {
      shared := m
      pc := Function.update s.pc i p
      held := s.hold m.view
      taken := s.taken ++ out.toList.map fun v => ⟨v, s.hold m.view i⟩ }

omit [DecidableEq ι] in
def Fresh (s : System ι) : Prop := (∀ i, s.pc i = .idle) ∧ s.taken = []

/-- What a capture has loaded so far is what the control plane holds in `v`. -/
def Pc.Agrees (epochWall : DateTime) : Pc → View → Prop
  | .nowFlag frozen, v => v.frozen = frozen
  | .nowElapsed elapsed, v => v.virtualNow = epochWall.addMillis (asI64 (elapsed + v.offsetMs))
  | .nowRead t, v => v.virtualNow = some t
  | .offsetRead t offset, v => v.virtualNow = some t ∧ v.offsetMs = offset
  | .flagRead t offset frozen, v => v.virtualNow = some t ∧ v.offsetMs = offset ∧ v.frozen = frozen
  | _, _ => True

/-- What a capture has still to load is the same in `v` and `w`. -/
def Pc.SameAhead : Pc → View → View → Prop
  | .nowFlag _, v, w | .nowElapsed _, v, w | .nowRead _, v, w =>
    v.offsetMs = w.offsetMs ∧ v.frozen = w.frozen ∧ v.overlay = w.overlay
  | .offsetRead _ _, v, w => v.frozen = w.frozen ∧ v.overlay = w.overlay
  | .flagRead _ _ _, v, w => v.overlay = w.overlay
  | _, _, _ => True

omit [DecidableEq ι] in
/-- A step leaves what each capture has still to load, unless all that the capture has loaded is in
force after it. -/
def Untorn (s t : System ι) : Prop :=
  ∀ i, (s.pc i).SameAhead s.shared.view t.shared.view ∨
    (s.pc i).Agrees s.shared.plane.clock.epochWall t.shared.view

omit [DecidableEq ι] in
/-- What each capture has captured, the control plane held at one instant of the capture. -/
def Consistent (s : System ι) : Prop := ∀ taken ∈ s.taken, taken.captured ∈ taken.held

/-- One of the instants since a capture began holds all that it has loaded, and all that it would
load now. -/
def Pc.Holds (p : Pc) (held : List View) (m : Shared) : Prop :=
  p.reads = true → ∃ v ∈ held, p.Agrees m.plane.clock.epochWall v ∧ p.SameAhead v m.view

theorem Pc.SameAhead.refl (p : Pc) (v : View) : p.SameAhead v v := by
  cases p <;> simp [Pc.SameAhead]

theorem Pc.SameAhead.trans {p : Pc} {u v w : View} (first : p.SameAhead u v)
    (second : p.SameAhead v w) : p.SameAhead u w := by
  cases p <;> simp_all [Pc.SameAhead]

theorem Pc.captures_of_reads {p : Pc} (h : p.reads = true) : p.captures = true := by
  cases p <;> first | rfl | exact h

theorem Atom.epochWall {m m' : Shared} {p p' : Pc} {out : Option View} (h : Atom m p m' p' out) :
    m'.plane.clock.epochWall = m.plane.clock.epochWall := by
  cases h <;> rfl

/-- A load of a capture keeps an instant that holds what it has loaded. -/
theorem Atom.holds {m m' : Shared} {p p' : Pc} {out : Option View} {held after : List View}
    (h : Atom m p m' p' out) (before : p.Holds held m) (kept : p.reads = true → held ⊆ after)
    (now : m'.view ∈ after) : p'.Holds after m' := by
  intro reads
  cases h with
  | loadFlag => exact ⟨_, now, rfl, Pc.SameAhead.refl _ _⟩
  | loadElapsed =>
    obtain ⟨v, -, agrees, -, frozen, -⟩ := before rfl
    refine ⟨_, now, ?_, Pc.SameAhead.refl _ _⟩
    subst agrees
    rw [frozen]
    rfl
  | loadNow some =>
    obtain ⟨v, hv, agrees, ahead⟩ := before rfl
    refine ⟨v, kept rfl hv, ?_, ahead⟩
    rw [Pc.Agrees, agrees, ahead.1]
    exact some
  | loadOffset =>
    obtain ⟨v, hv, agrees, offset, ahead⟩ := before rfl
    exact ⟨v, kept rfl hv, ⟨agrees, offset⟩, ahead⟩
  | loadFrozen =>
    obtain ⟨v, hv, ⟨now, offset⟩, frozen, ahead⟩ := before rfl
    exact ⟨v, kept rfl hv, ⟨now, offset, frozen⟩, ahead⟩
  | _ => exact absurd reads (by simp [Pc.reads])

/-- What a capture returns is one of the instants that it has been holding. -/
theorem Atom.captured_mem {m m' : Shared} {p p' : Pc} {captured : View} {held : List View}
    (h : Atom m p m' p' (some captured)) (before : p.Holds held m) : captured ∈ held := by
  cases h with
  | loadOverlay =>
    obtain ⟨v, hv, ⟨now, offset, frozen⟩, overlay⟩ := before rfl
    have same : v = ⟨_, _, _, _⟩ := View.ext now offset frozen overlay
    exact same ▸ hv

/-- A capture at rest keeps its instant through the steps of others. -/
theorem Pc.Holds.frame {p : Pc} {held after : List View} {m m' : Shared} (h : p.Holds held m)
    (epoch : m'.plane.clock.epochWall = m.plane.clock.epochWall)
    (untorn : p.SameAhead m.view m'.view ∨ p.Agrees m.plane.clock.epochWall m'.view)
    (kept : p.reads = true → held ⊆ after) (now : m'.view ∈ after) : p.Holds after m' := by
  intro reads
  rw [epoch]
  rcases untorn with ahead | agrees
  · obtain ⟨v, hv, agrees, same⟩ := h reads
    exact ⟨v, kept reads hv, agrees, same.trans ahead⟩
  · exact ⟨_, now, agrees, Pc.SameAhead.refl _ _⟩

section

variable {s t : System ι}

omit [DecidableEq ι] in
theorem System.hold_subset {v : View} {i : ι} (h : (s.pc i).reads = true) :
    s.held i ⊆ s.hold v i := by
  rw [System.hold, if_pos (Pc.captures_of_reads h)]
  exact List.subset_append_left _ _

omit [DecidableEq ι] in
theorem System.mem_hold (v : View) (i : ι) : v ∈ s.hold v i := by
  unfold System.hold
  split <;> simp

omit [DecidableEq ι] in
/-- Every capture in progress has an instant of its own, and those that have returned are
consistent. -/
structure Inv (s : System ι) : Prop where
  holds : ∀ i, (s.pc i).Holds (s.held i) s.shared
  consistent : Consistent s

omit [DecidableEq ι] in
theorem Fresh.inv (h : Fresh s) : Inv s where
  holds i reads := by
    rw [h.1 i] at reads
    contradiction
  consistent := by simp [Consistent, h.2]

theorem Inv.step (h : Inv s) (hs : Step s t) (untorn : Untorn s t) : Inv t := by
  cases hs with
  | pass d =>
    refine ⟨fun i => ?_, h.consistent⟩
    exact (h.holds i).frame rfl (untorn i) System.hold_subset (System.mem_hold ..)
  | @caller m p out i atom =>
    refine ⟨fun j => ?_, fun taken mem => ?_⟩
    · by_cases same : j = i
      · subst same
        dsimp only
        rw [Function.update_self]
        exact atom.holds (h.holds j) System.hold_subset (System.mem_hold ..)
      · dsimp only
        rw [Function.update_of_ne same]
        exact (h.holds j).frame atom.epochWall (untorn j) System.hold_subset (System.mem_hold ..)
    · rcases List.mem_append.mp mem with before | returned
      · exact h.consistent taken before
      · cases out with
        | none => simp at returned
        | some captured =>
          obtain rfl : taken = ⟨captured, s.hold m.view i⟩ := by simpa using returned
          have reads : (s.pc i).reads = true := by
            cases hp : s.pc i <;> rw [hp] at atom <;> cases atom
            rfl
          exact System.hold_subset reads (atom.captured_mem (h.holds i))

end

omit [DecidableEq ι] in
/-- In every run in which each store leaves what the captures in progress have still to load, or
leaves in force what they have loaded, every capture is what the control plane held at one instant
between its start and its end. -/
theorem consistent_cut [DecidableEq ι] {s : System ι}
    (h : Machine.Reachable Fresh (fun s t => Step s t ∧ Untorn s t) s) : Consistent s :=
  (h.invariant (fun _ fresh => Fresh.inv fresh)
    fun _ _ _ ih next => ih.step next.1 next.2).consistent

def idle : System Bool :=
  ⟨⟨State.plain (Clock.new DateTime.unixEpoch), false, 0⟩, fun _ => .idle, fun _ => [], []⟩

theorem idle_fresh : Fresh idle := ⟨fun _ => rfl, rfl⟩

/-- The clock is advanced by a second before a capture loads it, and again after the capture has
loaded the offset. -/
theorem consistent_cut_advanced : ∃ s : System Bool, Consistent s ∧
    s.taken.map (·.captured) =
      [⟨some ⟨1000000000, by decide, by decide⟩, 1000, false, .default⟩] := by
  have start : Machine.Reachable Fresh (fun s t => Step s t ∧ Untorn s t) idle := .start idle_fresh
  have load {s : System Bool} (h : Machine.Reachable Fresh (fun s t => Step s t ∧ Untorn s t) s)
      {p out} (atom : Atom s.shared (s.pc false) s.shared p out) :=
    h.next ⟨.caller false atom, fun _ => .inl (Pc.SameAhead.refl _ _)⟩
  have advanced := (load start .begin_).next
    ⟨.caller true (.advance 1000000000), by rintro (_ | _) <;> exact .inl trivial⟩
  have timed := load (load (load advanced .loadFlag) .loadElapsed) (.loadNow rfl)
  have loaded := load timed .loadOffset
  have again := loaded.next
    ⟨.caller true (.advance 1000000000), by rintro (_ | _) <;> exact .inl (by trivial)⟩
  have taken := load (load again .loadFrozen) .loadOverlay
  exact ⟨_, consistent_cut taken, rfl⟩

/-- The clock is advanced by a second after a capture has loaded its time and before it loads the
offset. -/
theorem torn_by_advance :
    ¬∀ s : System Bool, Machine.Reachable Fresh Step s → Consistent s := by
  intro consistent
  have start : Machine.Reachable Fresh Step idle := .start idle_fresh
  have timed := (((start.next (.caller false .begin_)).next (.caller false .loadFlag)).next
    (.caller false .loadElapsed)).next (.caller false (.loadNow rfl))
  have advanced := timed.next (.caller true (.advance 1000000000))
  have taken := ((advanced.next (.caller false .loadOffset)).next
    (.caller false .loadFrozen)).next (.caller false .loadOverlay)
  have held := consistent _ taken _ (List.mem_singleton.mpr rfl)
  revert held
  decide

end Servr.Snapshot.Cut
