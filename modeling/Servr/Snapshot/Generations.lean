import Servr.Lib.Machine
import Servr.Snapshot.Displacement
import Servr.Snapshot.RoundTrip

/-! Control planes that outlive their processes: any number of processes boot from scenarios and
from snapshots, serve, write snapshots and end, in any order, over the files of one disk.  The paths
that they are given name files, and are neither temporary databases nor URIs. -/

namespace Servr.Snapshot

variable {Disk Text File : Type}

/-- Ordinary paths name files: a row goes to the file of its path, and paths of one file read
alike. -/
structure Host.Files (h : Host Disk Text) (file : String → File) : Prop where
  apart : ∀ disk path row disk' path', OrdinaryName path → OrdinaryName path' →
    h.upsert disk path row = .ok disk' → file path' ≠ file path →
      h.pathExists disk' path' = h.pathExists disk path' ∧
        h.select disk' path' = h.select disk path'
  alike : ∀ disk path path', OrdinaryName path → OrdinaryName path' → file path = file path' →
    h.pathExists disk path = h.pathExists disk path' ∧ h.select disk path = h.select disk path'

/-- A snapshot in a file, with the control plane that it was captured from. -/
structure Saved where
  plane : State
  snapshot : Snapshot

/-- The disk, the control planes of the processes that run, the scenarios that processes have booted
from with the runs that they drew, and what was last written to each file. -/
structure World (ι Disk File : Type) where
  disk : Disk
  process : ι → Option State
  booted : List (Scenario × RunId)
  saved : File → Option Saved

variable {ι : Type} (h : Host Disk Text) (file : String → File)

inductive World.Step [DecidableEq ι] [DecidableEq File] :
    World ι Disk File → World ι Disk File → Prop
  /-- A process boots from a scenario and draws a new run. -/
  | boot (w : World ι Disk File) (i : ι) (base : Scenario) (wall : DateTime) (run : RunId) :
      w.process i = none → run ∉ w.booted.map Prod.snd → Step w { w with
        process := Function.update w.process i (some (.new base (.new wall) run))
        booted := (base, run) :: w.booted }
  /-- A process serves an operation of the admin API. -/
  | serve (w : World ι Disk File) (i : ι) (s : State) (op : State.Op) : w.process i = some s →
      Offered op → Step w { w with process := Function.update w.process i (some (s.apply op)) }
  /-- A process answers `POST /_admin/snapshot`. -/
  | write (w : World ι Disk File) (i : ι) (s : State) (wall : DateTime) (elapsed : Nat)
      (snapshot : Snapshot) (disk : Disk) (path : String) : OrdinaryName path →
      w.process i = some s → capture s wall elapsed = some snapshot →
      snapshot.write h w.disk path = .ok disk →
      Step w { w with
        disk
        saved := Function.update w.saved (file path) (some ⟨s, snapshot⟩) }
  | exit (w : World ι Disk File) (i : ι) :
      Step w { w with process := Function.update w.process i none }
  /-- A process boots with `--restore`. -/
  | restore (w : World ι Disk File) (i : ι) (path : String) (snapshot : Snapshot)
      (wall : DateTime) (elapsed : Nat) : OrdinaryName path → w.process i = none →
      w.saved (file path) ≠ none → read h w.disk path = .ok snapshot →
      Step w { w with
        process := Function.update w.process i (some (snapshot.boot wall elapsed)) }

/-- No process runs, and nothing has been written. -/
def World.Blank (w : World ι Disk File) : Prop :=
  (∀ i, w.process i = none) ∧ w.booted = [] ∧ ∀ f, w.saved f = none

/-- One control plane goes on where another was. -/
structure Continues (s s' : State) : Prop where
  run : s'.run = s.run
  base : s'.base = s.base
  overlay : s'.overlay = s.overlay
  resolved : s'.resolved = s.resolved
  offsetMs : s'.clock.offsetMs = s.clock.offsetMs
  frozen : s'.clock.frozen = s.clock.frozen

namespace World

/-- A control plane that a process serves descends from a boot from a scenario. -/
def Descends (w : World ι Disk File) (s : State) : Prop :=
  ∃ base, (base, s.run) ∈ w.booted ∧ FiniteState base s

structure Inv (w : World ι Disk File) : Prop where
  runs : (w.booted.map Prod.snd).Nodup
  process : ∀ i s, w.process i = some s → w.Descends s
  saved : ∀ f saved, w.saved f = some saved → w.Descends saved.plane ∧
    ∃ wall elapsed, capture saved.plane wall elapsed = some saved.snapshot
  stored : ∀ path saved, OrdinaryName path → w.saved (file path) = some saved →
    h.pathExists w.disk path = true ∧
      h.select w.disk path = .ok (some (saved.snapshot.row h))

variable {h file}

theorem Blank.inv {w : World ι Disk File} (blank : w.Blank) : w.Inv h file where
  runs := by
    rw [blank.2.1]
    exact List.nodup_nil
  process i s running := by simp [blank.1] at running
  saved f saved written := by simp [blank.2.2] at written
  stored path saved _ written := by simp [blank.2.2] at written

end World

variable {h file}

theorem frozen_restore (wall : DateTime) (offset : Int) (frozen : Bool) (elapsed : Nat) :
    (Clock.restore wall offset frozen elapsed).frozen = frozen := by
  cases frozen <;> rfl

/-- A boot from a snapshot goes on where the capture was. -/
theorem continues_boot {s : State} (layered : s.Layered) {wall : DateTime} {elapsed : Nat}
    {snapshot : Snapshot} (captured : capture s wall elapsed = some snapshot) (wall' : DateTime)
    (elapsed' : Nat) : Continues s (snapshot.boot wall' elapsed') := by
  obtain ⟨run, base, overlay, resolved, -, -⟩ := boot_capture layered captured wall' elapsed'
  obtain ⟨-, -, offset, frozen⟩ := clock_capture captured
  refine ⟨run, base, overlay, resolved, ?_, ?_⟩
  · rw [← offset]
    exact Displacement.offsetMs_restore wall' snapshot.clockOffsetMs snapshot.clockFrozen elapsed'
  · rw [← frozen]
    exact frozen_restore wall' snapshot.clockOffsetMs snapshot.clockFrozen elapsed'

theorem Continues.finiteState {base : Scenario} {s s' : State} (goesOn : Continues s s')
    (h : FiniteState base s) : FiniteState base s' where
  base_eq := goesOn.base.trans h.base_eq
  layered := by
    rw [State.Layered, goesOn.resolved, goesOn.base, goesOn.overlay]
    exact h.layered
  overlay finite := goesOn.overlay ▸ h.overlay finite

namespace World

variable {w : World ι Disk File}

/-- A file gives back the snapshot that was written to it last, or none. -/
theorem Inv.read_iff (inv : w.Inv h file) (lawful : h.Lawful) {path : String} {saved : Saved}
    (ordinary : OrdinaryName path) (written : w.saved (file path) = some saved)
    {snapshot : Snapshot} :
    read h w.disk path = .ok snapshot ↔ snapshot = saved.snapshot ∧ saved.snapshot.Readable := by
  obtain ⟨there, stored⟩ := inv.stored path saved ordinary written
  obtain ⟨-, wall, elapsed, captured⟩ := inv.saved _ saved written
  have version : saved.snapshot.version = VERSION := by
    obtain ⟨virtualNow, -, made⟩ := Option.bind_eq_some_iff.mp captured
    rw [← Option.some.inj made]
  rw [read, if_pos there, stored, ← ofRow_row lawful version]
  rfl

theorem Inv.continues (inv : w.Inv h file) (lawful : h.Lawful) {path : String} {saved : Saved}
    (ordinary : OrdinaryName path) (written : w.saved (file path) = some saved)
    {snapshot : Snapshot} (reads : read h w.disk path = .ok snapshot) (wall : DateTime)
    (elapsed : Nat) : Continues saved.plane (snapshot.boot wall elapsed) := by
  obtain ⟨rfl, -⟩ := (inv.read_iff lawful ordinary written).mp reads
  obtain ⟨⟨base, -, finite⟩, wall', elapsed', captured⟩ := inv.saved _ saved written
  exact continues_boot finite.layered captured wall elapsed

/-- What holds of each state that is served goes on to hold, once a process begins to serve another
or ends. -/
theorem serves_update [DecidableEq ι] {P : State → Prop} {process : ι → Option State} {i : ι}
    {served : Option State} (all : ∀ j t, process j = some t → P t)
    (here : ∀ t, served = some t → P t) :
    ∀ j t, Function.update process i served j = some t → P t :=
  (Function.forall_update_iff process fun _ served => ∀ t, served = some t → P t).mpr
    ⟨here, fun j _ => all j⟩

theorem Inv.step [DecidableEq ι] [DecidableEq File] {w' : World ι Disk File} (lawful : h.Lawful)
    (files : h.Files file)
    (inv : w.Inv h file) (step : Step h file w w') : w'.Inv h file := by
  -- What a process comes to serve, beside what the others serve.
  have serving {i : ι} {s : State} (here : w.Descends s) : ∀ j t,
      Function.update w.process i (some s) j = some t → w.Descends t :=
    serves_update inv.process fun t running => Option.some.inj running ▸ here
  cases step with
  | boot i base wall run idle fresh =>
    have more {s : State} (here : w.Descends s) :
        ∃ b, (b, s.run) ∈ (base, run) :: w.booted ∧ FiniteState b s := by
      obtain ⟨b, mem, finite⟩ := here
      exact ⟨b, List.mem_cons_of_mem _ mem, finite⟩
    refine ⟨List.nodup_cons.mpr ⟨fresh, inv.runs⟩, ?_, fun f saved written => ?_, inv.stored⟩
    · refine serves_update (fun j t running => more (inv.process j t running)) fun t running => ?_
      obtain rfl := Option.some.inj running
      exact ⟨base, List.mem_cons_self, finiteState_run base (.new wall) run [] (by simp)⟩
    · obtain ⟨here, captured⟩ := inv.saved f saved written
      exact ⟨more here, captured⟩
  | serve i s op running offered =>
    obtain ⟨base, mem, finite⟩ := inv.process i s running
    have after := finite.apply offered
    have run : (s.apply op).run = s.run := by
      cases op with
      | mutate => exact offered.elim
      | _ => rfl
    exact ⟨inv.runs, serving ⟨base, run ▸ mem, after⟩, inv.saved, inv.stored⟩
  | write i s wall elapsed snapshot disk path ordinary running captured wrote =>
    refine ⟨inv.runs, inv.process, fun f saved written => ?_, fun path' saved named written => ?_⟩
    · dsimp only at written
      by_cases same : f = file path
      · subst same
        rw [Function.update_self] at written
        obtain rfl := Option.some.inj written
        exact ⟨inv.process i s running, wall, elapsed, captured⟩
      · rw [Function.update_of_ne same] at written
        exact inv.saved f saved written
    · dsimp only at written ⊢
      by_cases same : file path' = file path
      · rw [same, Function.update_self] at written
        obtain rfl := Option.some.inj written
        obtain ⟨there, stored⟩ := lawful.stored _ _ _ _ ordinary wrote
        obtain ⟨exists_, selects⟩ := files.alike disk path' path named ordinary same
        exact ⟨exists_.trans there, selects.trans stored⟩
      · rw [Function.update_of_ne same] at written
        obtain ⟨exists_, selects⟩ := files.apart _ _ _ _ path' ordinary named wrote same
        rw [exists_, selects]
        exact inv.stored path' saved named written
  | exit i =>
    exact ⟨inv.runs, serves_update inv.process (fun t running => nomatch running), inv.saved,
      inv.stored⟩
  | restore i path snapshot wall elapsed ordinary idle known reads =>
    obtain ⟨saved, written⟩ := Option.ne_none_iff_exists'.mp known
    have goesOn := inv.continues lawful ordinary written reads wall elapsed
    obtain ⟨⟨base, mem, finite⟩, -⟩ := inv.saved _ saved written
    exact ⟨inv.runs, serving ⟨base, goesOn.run ▸ mem, goesOn.finiteState finite⟩, inv.saved,
      inv.stored⟩

end World

theorem plainHost_files : plainHost.Files id where
  apart disk path row disk' path' ordinary named wrote other := by
    obtain rfl := Except.ok.inj wrote
    have other : path' ≠ path := other
    simp [plainHost, ordinary.1, named.1, other]
  alike disk path path' _ _ same := by
    obtain rfl : path = path' := same
    exact ⟨rfl, rfl⟩

/-- Nothing runs over an empty disk. -/
def blankWorld : World Bool (String → Option (Row Json.Value)) String :=
  ⟨fun _ => none, fun _ => none, [], fun _ => none⟩

abbrev PlainReached : World Bool (String → Option (Row Json.Value)) String → Prop :=
  Machine.Reachable World.Blank (World.Step plainHost id)

/-- A scenario with one rule, to which a second is added. -/
def ratedPlane : State :=
  (State.new (ratedScenario (.finite (.ofRat 1))) (.new DateTime.unixEpoch) plainRun).apply
    (.addFault .default)

/-- A process boots, adds a rule and writes a snapshot. -/
theorem reached_written : ∃ w, PlainReached w ∧ w.process true = none ∧ ∃ saved,
    w.saved "snapshot.sqlite" = some saved ∧ saved.plane = ratedPlane ∧
      saved.snapshot.createdAt = DateTime.unixEpoch ∧
      saved.snapshot.virtualNow = DateTime.unixEpoch := by
  have now : ratedPlane.clock.now 0 = some DateTime.unixEpoch := by decide
  have blank : PlainReached blankWorld := .start ⟨fun _ => rfl, rfl, fun _ => rfl⟩
  have booted : PlainReached _ := .next blank (.boot _ false
    (ratedScenario (.finite (.ofRat 1))) DateTime.unixEpoch plainRun rfl (by simp [blankWorld]))
  have served : PlainReached _ := .next booted (.serve _ false _ (.addFault .default) rfl
    (by decide))
  have wrote : PlainReached _ := .next served (.write _ false ratedPlane DateTime.unixEpoch 0 _ _
    "snapshot.sqlite" (by decide) rfl (capture_eq now) rfl)
  exact ⟨_, wrote, rfl, _, rfl, rfl, rfl, rfl⟩

end Servr.Snapshot
