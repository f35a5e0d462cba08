import Servr.Lib.Layers
import Servr.State

/-! What the control plane is for: a flat model in which each field is a setting with a value in
force.  The state with its base, overlay and resolved configuration refines it. -/

namespace Servr

open Layers (Setting)

/-- The flat model. -/
structure Reference where
  faults : Setting (List FaultSpec)
  telemetry : Setting TelemetryFault
  webhooks : Setting (List WebhookEndpoint)

namespace Reference

def boot (base : Scenario) : Reference where
  faults := .ofBoot base.faults
  telemetry := .ofBoot base.telemetry
  webhooks := .ofBoot base.webhooks

/-- The values in force. -/
def served (r : Reference) : Resolved := ⟨r.faults.current, r.telemetry.current, r.webhooks.current⟩

/-- The values that were given, and where none was. -/
def given (r : Reference) : Overlay := ⟨r.faults.upper, r.telemetry.upper, r.webhooks.upper⟩

def apply (r : Reference) : State.Op → Reference
  | .addFault spec => { r with faults := r.faults.give (r.faults.current ++ [spec]) }
  | .clearFaults => { r with faults := r.faults.give [] }
  | .setTelemetryFaults fault => { r with telemetry := r.telemetry.give fault }
  | .clearTelemetryFaults => { r with telemetry := r.telemetry.give .default }
  | .mutate f =>
    match f r.given with
    | none => r
    | some next =>
      { faults := r.faults.assign next.faults
        telemetry := r.telemetry.assign next.telemetry
        webhooks := r.webhooks.assign next.webhooks }
  | .reset => ⟨r.faults.drop, r.telemetry.drop, r.webhooks.drop⟩
  | .advance _ | .freeze _ | .resume _ => r

end Reference

namespace State

/-- A state refines the flat model: it boots from the same values, and its layers are those that
the model gives. -/
structure Refines (base : Scenario) (s : State) (r : Reference) : Prop where
  base_eq : s.base = base
  faults_boot : r.faults.boot = base.faults
  telemetry_boot : r.telemetry.boot = base.telemetry
  webhooks_boot : r.webhooks.boot = base.webhooks
  overlay_eq : s.overlay = r.given
  resolved_eq : s.resolved = r.served

/-- The configuration that is served is the overlay over the base. -/
def Layered (s : State) : Prop := s.resolved = resolve s.base s.overlay

theorem Layered.mutate {s : State} (h : s.Layered) (f : Overlay → Option Overlay) :
    (s.mutate f).Layered := by
  unfold State.mutate
  split
  · exact h
  · rfl

theorem Layered.apply {s : State} (h : s.Layered) (op : Op) : (s.apply op).Layered := by
  cases op with
  | addFault | clearFaults | setTelemetryFaults | clearTelemetryFaults | mutate => exact h.mutate _
  | reset => rfl
  | advance | freeze | resume => exact h

variable {base : Scenario} {s : State} {r : Reference}

theorem refines_new (base : Scenario) (clock : Clock) (run : RunId) :
    Refines base (new base clock run) (Reference.boot base) :=
  ⟨rfl, rfl, rfl, rfl, rfl, rfl⟩

theorem Refines.layered (h : Refines base s r) : s.Layered := by
  rw [Layered, h.resolved_eq, h.base_eq, h.overlay_eq, Reference.served, resolve,
    Setting.current_eq, Setting.current_eq, Setting.current_eq, h.faults_boot, h.telemetry_boot,
    h.webhooks_boot]
  rfl

/-- A state that publishes the overlay of a model booted from the same values refines it. -/
theorem Refines.publish (h : Refines base s r) {next : Overlay} {clock : Clock} {r' : Reference}
    (faults : r'.faults = r.faults.assign next.faults)
    (telemetry : r'.telemetry = r.telemetry.assign next.telemetry)
    (webhooks : r'.webhooks = r.webhooks.assign next.webhooks) :
    Refines base { s with resolved := resolve s.base next, overlay := next, clock := clock } r'
    where
  base_eq := h.base_eq
  faults_boot := by rw [faults, Setting.boot_assign, h.faults_boot]
  telemetry_boot := by rw [telemetry, Setting.boot_assign, h.telemetry_boot]
  webhooks_boot := by rw [webhooks, Setting.boot_assign, h.webhooks_boot]
  overlay_eq := by simp [Reference.given, faults, telemetry, webhooks]
  resolved_eq := by
    simp [Reference.served, resolve, faults, telemetry, webhooks, h.base_eq, h.faults_boot,
      h.telemetry_boot, h.webhooks_boot]

theorem Refines.apply (h : Refines base s r) (op : Op) :
    Refines base (s.apply op) (r.apply op) := by
  have current : s.resolved.faults = r.faults.current := by rw [h.resolved_eq]; rfl
  have given := h.overlay_eq
  cases op with
  | addFault spec =>
    refine h.publish ?_ ?_ ?_
    · rw [current]
      rfl
    · exact given ▸ (Setting.assign_upper _).symm
    · exact given ▸ (Setting.assign_upper _).symm
  | clearFaults =>
    refine h.publish rfl ?_ ?_
    · exact given ▸ (Setting.assign_upper _).symm
    · exact given ▸ (Setting.assign_upper _).symm
  | setTelemetryFaults | clearTelemetryFaults =>
    refine h.publish ?_ rfl ?_
    · exact given ▸ (Setting.assign_upper _).symm
    · exact given ▸ (Setting.assign_upper _).symm
  | mutate f =>
    simp only [State.apply, State.mutate, Reference.apply, given]
    cases f r.given with
    | none => exact h
    | some next => exact h.publish rfl rfl rfl
  | reset => refine h.publish ?_ ?_ ?_ <;> rfl
  | advance | freeze | resume => exact { h with }

theorem refines_run (base : Scenario) (clock : Clock) (run : RunId) (ops : List Op) :
    Refines base (ops.foldl State.apply (new base clock run))
      (ops.foldl Reference.apply (Reference.boot base)) := by
  induction ops using List.reverseRecOn with
  | nil => exact refines_new base clock run
  | append_singleton ops op ih =>
    simp only [List.foldl_append, List.foldl_cons, List.foldl_nil]
    exact ih.apply op

/-! ### What one operation leaves -/

inductive Field
  | faults
  | telemetry
  | webhooks
  deriving DecidableEq

/-- Two overlays set a field alike. -/
def SetAlike (a b : Overlay) : Field → Prop
  | .faults => a.faults = b.faults
  | .telemetry => a.telemetry = b.telemetry
  | .webhooks => a.webhooks = b.webhooks

/-- Two configurations serve a field alike. -/
def ServedAlike (a b : Resolved) : Field → Prop
  | .faults => a.faults = b.faults
  | .telemetry => a.telemetry = b.telemetry
  | .webhooks => a.webhooks = b.webhooks

/-- The operation sets a field in this state to what it was not. -/
def Op.Sets (s : State) : Op → Field → Prop
  | .addFault _, field | .clearFaults, field => field = .faults
  | .setTelemetryFaults _, field | .clearTelemetryFaults, field => field = .telemetry
  | .mutate f, field => ∃ next, f s.overlay = some next ∧ ¬SetAlike next s.overlay field
  | .reset, field => ¬SetAlike .default s.overlay field
  | .advance _, _ | .freeze _, _ | .resume _, _ => False

theorem resolve_alike {base : Scenario} {a b : Overlay} {field : Field} (h : SetAlike a b field) :
    ServedAlike (resolve base a) (resolve base b) field := by
  cases field <;> simp only [SetAlike] at h <;> simp [ServedAlike, resolve, h]

/-- An operation serves every field that it does not set as before. -/
theorem Layered.frame (h : s.Layered) {op : Op} {field : Field} (unset : ¬op.Sets s field) :
    ServedAlike (s.apply op).resolved s.resolved field := by
  -- What `mutate` publishes is alike in each field that its closure leaves.
  have publish {next : Overlay} (same : SetAlike next s.overlay field) :
      ServedAlike (resolve s.base next) s.resolved field := by
    rw [h]
    exact resolve_alike same
  have still : ServedAlike s.resolved s.resolved field := by cases field <;> rfl
  cases op with
  | addFault | clearFaults | setTelemetryFaults | clearTelemetryFaults =>
    refine publish ?_
    cases field <;> first | rfl | exact absurd rfl unset
  | mutate f =>
    simp only [State.apply, State.mutate]
    cases eq : f s.overlay with
    | none => exact still
    | some next => exact publish (by_contra fun changed => unset ⟨next, eq, changed⟩)
  | reset => exact publish (by_contra unset)
  | advance | freeze | resume => exact still

/-- After every sequence of operations the base is that of the boot, each field is served from the
overlay where it is set and from the base where it is not, the flat model serves the same, a reset
restores the configuration of the boot over a clock at offset zero that runs, and an operation
leaves every field that it does not set. -/
theorem layered_run (base : Scenario) (clock : Clock) (run : RunId) (ops : List Op) :
    let s := ops.foldl State.apply (new base clock run)
    s.base = base ∧
    s.resolved.faults = s.overlay.faults.getD base.faults ∧
    s.resolved.telemetry = s.overlay.telemetry.getD base.telemetry ∧
    s.resolved.webhooks = s.overlay.webhooks.getD base.webhooks ∧
    s.resolved = (ops.foldl Reference.apply (Reference.boot base)).served ∧
    (s.reset.overlay = .default ∧ s.reset.resolved = (new base clock run).resolved ∧
      s.reset.clock.offsetMs = 0 ∧ s.reset.clock.frozen = false) ∧
    ∀ op field, ¬Op.Sets s op field → ServedAlike (s.apply op).resolved s.resolved field := by
  intro s
  have refines := refines_run base clock run ops
  have layered := refines.layered
  refine ⟨refines.base_eq, ?_, ?_, ?_, refines.resolved_eq, ?_, fun op field => layered.frame⟩
  · rw [layered, refines.base_eq]
    rfl
  · rw [layered, refines.base_eq]
    rfl
  · rw [layered, refines.base_eq]
    rfl
  · refine ⟨rfl, ?_, rfl, rfl⟩
    show resolve s.base .default = resolve base .default
    rw [refines.base_eq]

end State

end Servr
