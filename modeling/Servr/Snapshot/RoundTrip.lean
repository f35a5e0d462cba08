import Servr.Plain
import Servr.Snapshot
import Servr.State.Reference

/-! What comes back of a snapshot that was written: the control plane that it captured, exactly if
it was written to a file, the scenario's rates are numbers and the two times are in years of four
digits. -/

namespace Servr.Snapshot

open Json

variable {Disk Text : Type} {h : Host Disk Text}

/-- The times and rates of a snapshot read back. -/
def Readable (snapshot : Snapshot) : Prop :=
  snapshot.createdAt.FourDigitYear ∧ snapshot.virtualNow.FourDigitYear ∧
    snapshot.base.Finite ∧ snapshot.overlay.Finite

theorem parseTime_eq_ok (lawful : h.Lawful) {t t' : DateTime} :
    parseTime h (h.toRfc3339 t) = .ok t' ↔ t' = t ∧ t.FourDigitYear := by
  rw [parseTime, lawful.time]
  split
  · rename_i none
    split at none <;> simp_all
  · rename_i some
    split at some <;> simp_all [eq_comm]

theorem parseRun_text (lawful : h.Lawful) (run : RunId) :
    parseRun h (h.uuidText run.uuid) = .ok run := by
  rw [parseRun, lawful.uuid]

theorem decode_eq_ok (lawful : h.Lawful) {α : Type} {read : Value → Read α} {v : Value} {a : α}
    (depth : v.depth ≤ 127) : decode h read (h.toString v) = .ok a ↔ read v = .ok a := by
  rw [decode, lawful.written v depth]
  cases given : read v <;> simp [given]

/-- A flag that is stored as 0 or 1 comes back. -/
theorem frozen_back (snapshot : Snapshot) :
    { snapshot with clockFrozen := (if snapshot.clockFrozen then 1 else 0 : Int) ≠ 0 } =
      snapshot := by
  obtain ⟨version, createdAt, virtualNow, run, offset, clockFrozen, base, overlay⟩ := snapshot
  cases clockFrozen <;> rfl

/-- A row gives back the snapshot that it holds exactly if its times and rates read back. -/
theorem ofRow_row (lawful : h.Lawful) {snapshot snapshot' : Snapshot}
    (version : snapshot.version = VERSION) :
    ofRow h (snapshot.row h) = .ok snapshot' ↔ snapshot' = snapshot ∧ snapshot.Readable := by
  have base : snapshot.base.toValue.depth ≤ 127 := snapshot.base.depth_toValue.trans (by decide)
  have overlay : snapshot.overlay.toValue.depth ≤ 127 :=
    snapshot.overlay.depth_toValue.trans (by decide)
  have current : (snapshot.row h).version = VERSION := version
  rw [ofRow, if_neg (not_not_intro current)]
  simp only [row, Results.bind_eq_ok, parseTime_eq_ok lawful, parseRun_text lawful,
    decode_eq_ok lawful base, decode_eq_ok lawful overlay, Scenario.ofValue_toValue,
    Overlay.ofValue_toValue]
  constructor
  · rintro ⟨_, ⟨rfl, created⟩, _, ⟨rfl, now⟩, _, ⟨⟩, _, ⟨rfl, base⟩, _, ⟨rfl, overlay⟩, ⟨⟩⟩
    exact ⟨frozen_back snapshot, created, now, base, overlay⟩
  · rintro ⟨rfl, created, now, base, overlay⟩
    exact ⟨_, ⟨rfl, created⟩, _, ⟨rfl, now⟩, _, rfl, _, ⟨rfl, base⟩, _, ⟨rfl, overlay⟩,
      congrArg Except.ok (frozen_back snapshot')⟩

theorem read_write (lawful : h.Lawful) {snapshot snapshot' : Snapshot} {disk disk' : Disk}
    {path : String} (ordinary : OrdinaryName path) (version : snapshot.version = VERSION)
    (written : snapshot.write h disk path = .ok disk') :
    read h disk' path = .ok snapshot' ↔ snapshot' = snapshot ∧ snapshot.Readable := by
  obtain ⟨there, stored⟩ := lawful.stored _ _ _ _ ordinary written
  rw [read, if_pos there, stored, ← ofRow_row lawful version]
  rfl

/-- What reads is there, and has a row. -/
theorem read_ok {snapshot : Snapshot} {disk : Disk} {path : String}
    (reads : read h disk path = .ok snapshot) :
    h.pathExists disk path = true ∧ ∃ row, h.select disk path = .ok (some row) := by
  rw [read] at reads
  split at reads
  · rename_i there
    obtain ⟨found, selected, held⟩ := Results.bind_eq_ok.mp reads
    cases found with
    | none => cases held
    | some row => exact ⟨there, row, selected⟩
  · cases reads

/-! ### The states of a control plane -/

/-- An operation that the admin API offers.  Its rates come from a JSON body, which has numbers
only. -/
def Offered : State.Op → Prop
  | .addFault spec => spec.rate.IsFinite
  | .setTelemetryFaults fault => fault.rate.IsFinite
  | .mutate _ => False
  | .clearFaults | .clearTelemetryFaults | .reset | .advance _ | .freeze _ | .resume _ => True

instance (op : State.Op) : Decidable (Offered op) := by
  cases op <;> unfold Offered <;> infer_instance

/-- The state boots from finite rates and serves finite rates. -/
structure FiniteState (base : Scenario) (s : State) : Prop where
  base_eq : s.base = base
  layered : s.Layered
  overlay : base.Finite → s.overlay.Finite

theorem finite_default : Overlay.default.Finite := by
  simp [Overlay.Finite, Overlay.default]

theorem FiniteState.resolved {base : Scenario} {s : State} (inv : FiniteState base s)
    (finite : base.Finite) : FiniteRates s.resolved.faults := by
  have overlay := (inv.overlay finite).1
  rw [inv.layered, inv.base_eq, resolve]
  cases given : s.overlay.faults with
  | none => exact finite.1
  | some fs => exact overlay fs given

theorem FiniteState.apply {base : Scenario} {s : State} {op : State.Op} (inv : FiniteState base s)
    (offered : Offered op) : FiniteState base (s.apply op) := by
  have zero : TelemetryFault.default.rate.IsFinite := trivial
  refine ⟨?_, inv.layered.apply op, fun finite => ?_⟩
  · cases op with
    | mutate => exact offered.elim
    | addFault | clearFaults | setTelemetryFaults | clearTelemetryFaults | reset | advance | freeze
    | resume => exact inv.base_eq
  · obtain ⟨faults, telemetry⟩ := inv.overlay finite
    cases op with
    | addFault spec =>
      refine ⟨?_, telemetry⟩
      rintro _ ⟨⟩ f mem
      rcases List.mem_append.mp mem with old | new
      · exact inv.resolved finite f old
      · rw [List.mem_singleton.mp new]
        exact offered
    | clearFaults =>
      refine ⟨?_, telemetry⟩
      rintro _ ⟨⟩ f mem
      exact absurd mem List.not_mem_nil
    | setTelemetryFaults fault =>
      refine ⟨faults, ?_⟩
      rintro _ ⟨⟩
      exact offered
    | clearTelemetryFaults =>
      refine ⟨faults, ?_⟩
      rintro _ ⟨⟩
      exact zero
    | mutate => exact offered.elim
    | reset => exact finite_default
    | advance | freeze | resume => exact ⟨faults, telemetry⟩

theorem finiteState_run (base : Scenario) (clock : Clock) (run : RunId) (ops : List State.Op)
    (offered : ∀ op ∈ ops, Offered op) :
    FiniteState base (ops.foldl State.apply (State.new base clock run)) := by
  induction ops using List.reverseRecOn with
  | nil => exact ⟨rfl, rfl, fun _ => finite_default⟩
  | append_singleton ops op ih =>
    simp only [List.foldl_append, List.foldl_cons, List.foldl_nil]
    exact (ih fun o mem => offered o (List.mem_append_left _ mem)).apply
      (offered op (List.mem_append_right _ (List.mem_singleton_self op)))

/-- The snapshot that was captured from `s` reads back, and a boot from it gives the control plane
that it captured, over the base alone after a reset. -/
def Restores (h : Host Disk Text) (s : State) (snapshot : Snapshot) (disk : Disk) (path : String) :
    Prop :=
  read h disk path = .ok snapshot ∧ ∀ wall elapsed,
    let s' := snapshot.boot wall elapsed
    s'.run = s.run ∧ s'.base = s.base ∧ s'.overlay = s.overlay ∧ s'.resolved = s.resolved ∧
    s'.reset.overlay = .default ∧ s'.reset.resolved = resolve s.base .default

theorem boot_capture {s : State} (layered : s.Layered) {wall : DateTime} {elapsed : Nat}
    {snapshot : Snapshot} (captured : capture s wall elapsed = some snapshot) (wall' : DateTime)
    (elapsed' : Nat) :
    let s' := snapshot.boot wall' elapsed'
    s'.run = s.run ∧ s'.base = s.base ∧ s'.overlay = s.overlay ∧ s'.resolved = s.resolved ∧
    s'.reset.overlay = .default ∧ s'.reset.resolved = resolve s.base .default := by
  obtain ⟨virtualNow, -, ⟨⟩⟩ := Option.bind_eq_some_iff.mp captured
  exact ⟨rfl, rfl, rfl, layered.symm, rfl, rfl⟩

/-- Files that hold a row each, and texts that are their own values. -/
def plainHost : Host (String → Option (Row Value)) Value where
  toString v := v
  fromStr v := if v.depth ≤ 127 then some v else none
  complaint _ := "invalid type: null, expected f64"
  toRfc3339 := Plain.rfc3339
  parseFromRfc3339 s := (Plain.parseRfc3339 s).filter (·.FourDigitYear)
  uuidText := Plain.uuidText
  uuidParse := Plain.uuidParse
  pathExists disk path := (disk path).isSome
  upsert disk path row :=
    .ok (if Temporary path then disk else Function.update disk path (some row))
  select disk path :=
    if Temporary path then .error (.sql "no such table: snapshot") else .ok (disk path)

theorem plainHost_lawful : plainHost.Lawful where
  written v depth := if_pos depth
  time t := by
    simp only [plainHost, Plain.parseRfc3339_rfc3339, Option.filter_some, decide_eq_true_eq]
  uuid u := by
    simp only [plainHost]
    exact Plain.uuidParse_uuidText u
  stored disk path row disk' ordinary h := by
    obtain rfl := Except.ok.inj h
    simp [plainHost, ordinary.1]
  fresh disk path row temporary := by simp [plainHost, temporary]

/-- A scenario with one fault rule of the given rate. -/
def ratedScenario (rate : Ieee.Double) : Scenario :=
  ⟨"rated", none, none, [{ FaultSpec.default with rate := rate }], .default, []⟩

def plainRun : RunId := ⟨.fill 16 0⟩

end Servr.Snapshot
