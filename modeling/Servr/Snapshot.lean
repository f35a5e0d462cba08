import Servr.Config.Wire
import Servr.State

/-! Snapshots of the control plane, as `core/src/snapshot.rs` takes, writes and reads them, and the
branch of `main` that boots from one.  The file, the texts of chrono and uuid and the parser of
`serde_json` are those of a `Host`. -/

namespace Servr

open Json
open scoped List

/-- The year has four digits: from the start of the year 0 to the end of the year 9999. -/
def DateTime.FourDigitYear (t : DateTime) : Prop :=
  -62167219200 * 1000000000 ≤ t.nanos ∧ t.nanos < 253402300800 * 1000000000

instance (t : DateTime) : Decidable t.FourDigitYear := inferInstanceAs (Decidable (_ ∧ _))

/-- Bumped when the stored shape changes. -/
def VERSION : UInt32 := 1

/-- One captured control plane. -/
structure Snapshot where
  version : UInt32
  createdAt : DateTime
  virtualNow : DateTime
  run : RunId
  clockOffsetMs : Int
  clockFrozen : Bool
  base : Scenario
  overlay : Overlay

inductive SnapshotError
  | missing (path : String)
  | empty (path : String)
  | version (found expected : UInt32)
  | open_ (e : String)
  | sql (e : String)
  | field (name : String)
  | encode (e : String)
  | decode (e : String)

namespace Snapshot

/-- The row of the table `snapshot`, which has one at most. -/
structure Row (Text : Type) where
  version : UInt32
  createdAt : String
  virtualNow : String
  run : String
  clockOffsetMs : Int
  clockFrozen : Int
  base : Text
  overlay : Text

/-- What a snapshot passes through on its way to a file and back. -/
structure Host (Disk Text : Type) where
  /-- What `serde_json` writes. -/
  toString : Value → Text
  /-- What `serde_json` reads, where objects that differ in the order of their fields are one. -/
  fromStr : Text → Option Value
  /-- The error of a text that cannot be read as the type asked for. -/
  complaint : Text → String
  toRfc3339 : DateTime → String
  parseFromRfc3339 : String → Option DateTime
  uuidText : Uuid → String
  uuidParse : String → Option Uuid
  pathExists : Disk → String → Bool
  /-- Opens the file, creates the table unless it is there, and inserts or replaces the row. -/
  upsert : Disk → String → Row Text → Except SnapshotError Disk
  /-- Opens the file and queries the row, where `none` is no row. -/
  select : Disk → String → Except SnapshotError (Option (Row Text))

variable {Disk Text : Type}

/-- A name for which SQLite makes a database of its own each time it is opened. -/
def Temporary (path : String) : Prop := path = "" ∨ path = ":memory:"

/-- A name that SQLite takes for a URI, and not for the file of that name. -/
def IsUri (path : String) : Prop := "file:".toList <+: path.toList

def OrdinaryName (path : String) : Prop := ¬Temporary path ∧ ¬IsUri path

instance (path : String) : Decidable (Temporary path) := inferInstanceAs (Decidable (_ ∨ _))
instance (path : String) : Decidable (IsUri path) := inferInstanceAs (Decidable (_ <+: _))
instance (path : String) : Decidable (OrdinaryName path) := inferInstanceAs (Decidable (_ ∧ _))

/-- What the host is documented to do: SQLite returns the row that it stored in a file and finds
none in a database that it has just made, `serde_json` reads what it wrote down to a nesting of 127,
with finite floats as they were, identifiers read back from their texts, and so do times whose year
is written without a sign. -/
structure Host.Lawful (h : Host Disk Text) : Prop where
  written : ∀ v : Value, v.depth ≤ 127 → h.fromStr (h.toString v) = some v
  time : ∀ t, h.parseFromRfc3339 (h.toRfc3339 t) = if t.FourDigitYear then some t else none
  uuid : ∀ u, h.uuidParse (h.uuidText u) = some u
  stored : ∀ disk path row disk', OrdinaryName path → h.upsert disk path row = .ok disk' →
    h.pathExists disk' path = true ∧ h.select disk' path = .ok (some row)
  fresh : ∀ disk path row, Temporary path → h.select disk path ≠ .ok (some row)

/-- Captures the control plane at the wall time `wall`, or panics with `Clock::now`. -/
def capture (s : State) (wall : DateTime) (elapsed : Nat) : Option Snapshot := do
  let virtualNow ← s.clock.now elapsed
  return {
    version := VERSION
    createdAt := wall
    virtualNow := virtualNow
    run := s.run
    clockOffsetMs := s.clock.offsetMs
    clockFrozen := s.clock.frozen
    base := s.base
    overlay := s.overlay }

theorem capture_eq {s : State} {wall : DateTime} {elapsed : Nat} {virtualNow : DateTime}
    (now : s.clock.now elapsed = some virtualNow) :
    capture s wall elapsed = some
      ⟨VERSION, wall, virtualNow, s.run, s.clock.offsetMs, s.clock.frozen, s.base, s.overlay⟩ := by
  rw [capture, now]
  rfl

/-- What a snapshot holds of the clock. -/
theorem clock_capture {s : State} {wall : DateTime} {elapsed : Nat} {snapshot : Snapshot}
    (captured : capture s wall elapsed = some snapshot) :
    snapshot.createdAt = wall ∧ s.clock.now elapsed = some snapshot.virtualNow ∧
      snapshot.clockOffsetMs = s.clock.offsetMs ∧ snapshot.clockFrozen = s.clock.frozen := by
  obtain ⟨virtualNow, now, ⟨⟩⟩ := Option.bind_eq_some_iff.mp captured
  exact ⟨rfl, now, rfl, rfl⟩

/-- A clock carrying the snapshot's offset. -/
def restoreClock (snapshot : Snapshot) (wall : DateTime) (elapsed : Nat) : Clock :=
  Clock.restore wall snapshot.clockOffsetMs snapshot.clockFrozen elapsed

/-- The state with which `main` boots from a snapshot. -/
def boot (snapshot : Snapshot) (wall : DateTime) (elapsed : Nat) : State :=
  (State.new snapshot.base (snapshot.restoreClock wall elapsed) snapshot.run).mutate
    fun _ => some snapshot.overlay

section Host

variable (h : Host Disk Text)

/-- The parameters of the statement that inserts a snapshot. -/
def row (snapshot : Snapshot) : Row Text where
  version := snapshot.version
  createdAt := h.toRfc3339 snapshot.createdAt
  virtualNow := h.toRfc3339 snapshot.virtualNow
  run := h.uuidText snapshot.run.uuid
  clockOffsetMs := snapshot.clockOffsetMs
  clockFrozen := if snapshot.clockFrozen then 1 else 0
  base := h.toString snapshot.base.toValue
  overlay := h.toString snapshot.overlay.toValue

/-- Writes the snapshot, replacing whatever the file held. -/
def write (snapshot : Snapshot) (disk : Disk) (path : String) : Except SnapshotError Disk :=
  h.upsert disk path (snapshot.row h)

def parseTime (raw : String) : Except SnapshotError DateTime :=
  match h.parseFromRfc3339 raw with
  | none => .error (.field "timestamp")
  | some t => .ok t

def parseRun (raw : String) : Except SnapshotError RunId :=
  match h.uuidParse raw with
  | none => .error (.field "run")
  | some u => .ok ⟨u⟩

/-- `serde_json::from_str` to the type that `read` gives. -/
def decode {α : Type} (read : Value → Read α) (raw : Text) : Except SnapshotError α :=
  match h.fromStr raw with
  | none => .error (.decode (h.complaint raw))
  | some v =>
    match read v with
    | .ok a => .ok a
    | .error _ => .error (.decode (h.complaint raw))

/-- The snapshot that a row holds. -/
def ofRow (row : Row Text) : Except SnapshotError Snapshot := do
  if row.version ≠ VERSION then .error (.version row.version VERSION)
  else
    let createdAt ← parseTime h row.createdAt
    let virtualNow ← parseTime h row.virtualNow
    let run ← parseRun h row.run
    let base ← decode h Scenario.ofValue row.base
    let overlay ← decode h Overlay.ofValue row.overlay
    return {
      version := row.version
      createdAt := createdAt
      virtualNow := virtualNow
      run := run
      clockOffsetMs := row.clockOffsetMs
      clockFrozen := row.clockFrozen ≠ 0
      base := base
      overlay := overlay }

/-- Reads a snapshot back. -/
def read (disk : Disk) (path : String) : Except SnapshotError Snapshot :=
  if h.pathExists disk path then do
    match ← h.select disk path with
    | none => .error (.empty path)
    | some row => ofRow h row
  else .error (.missing path)

end Host

end Snapshot

end Servr
