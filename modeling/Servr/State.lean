import Servr.Clock
import Servr.Config
import Servr.Queue.Job

/-! The control plane of `core/src/state.rs`, and the handlers of `admin/src/lib.rs` that change its
configuration.  Along every sequence of operations the served configuration is that of a flat model
in which each field has the value that it was last given. -/

namespace Servr

/-- A `State`, less its bus and its lock. -/
structure State where
  base : Scenario
  overlay : Overlay
  resolved : Resolved
  clock : Clock
  run : RunId

namespace State

def new (base : Scenario) (clock : Clock) (run : RunId) : State where
  base := base
  overlay := .default
  resolved := resolve base .default
  clock := clock
  run := run

/-- A control plane over `clock` whose scenario injects nothing. -/
def plain (clock : Clock) : State :=
  new ⟨"default", none, none, [], .default, []⟩ clock ⟨.fill 16 0⟩

/-- Applies `f` to a copy of the overlay, publishes it, and re-resolves.  A closure that panics, for
which `f` is `none`, unwinds before anything is published. -/
def mutate (s : State) (f : Overlay → Option Overlay) : State :=
  match f s.overlay with
  | none => s
  | some next => { s with resolved := resolve s.base next, overlay := next }

def reset (s : State) : State :=
  { s with resolved := resolve s.base .default, overlay := .default, clock := s.clock.reset }

/-! The handlers, less their answers. -/

def setTelemetryFaults (s : State) (fault : TelemetryFault) : State :=
  s.mutate fun overlay => some { overlay with telemetry := some fault }

def clearTelemetryFaults (s : State) : State :=
  s.mutate fun overlay => some { overlay with telemetry := some .default }

/-- Appends to the effective list, which it reads before it takes the lock of `mutate`. -/
def addFault (s : State) (spec : FaultSpec) : State :=
  let faults := s.resolved.faults ++ [spec]
  s.mutate fun overlay => some { overlay with faults := some faults }

def clearFaults (s : State) : State :=
  s.mutate fun overlay => some { overlay with faults := some [] }

/-- What happens to a control plane.  Durations and elapsed times are in nanoseconds. -/
inductive Op
  | addFault (spec : FaultSpec)
  | clearFaults
  | setTelemetryFaults (fault : TelemetryFault)
  | clearTelemetryFaults
  | mutate (f : Overlay → Option Overlay)
  | reset
  | advance (d : Nat)
  | freeze (elapsed : Nat)
  | resume (elapsed : Nat)

def apply (s : State) : Op → State
  | .addFault spec => s.addFault spec
  | .clearFaults => s.clearFaults
  | .setTelemetryFaults fault => s.setTelemetryFaults fault
  | .clearTelemetryFaults => s.clearTelemetryFaults
  | .mutate f => s.mutate f
  | .reset => s.reset
  | .advance d => { s with clock := s.clock.advance d }
  | .freeze elapsed => { s with clock := s.clock.freeze elapsed }
  | .resume elapsed => { s with clock := s.clock.resume elapsed }

end State

end Servr
