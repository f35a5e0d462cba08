import Servr.Lib.Double

/-! Layered behaviour configuration, as `core/src/config.rs` and the types of `core/src/fault.rs`
have it: a scenario file gives the base, and an overlay says which of its fields are overridden. -/

namespace Servr

open Ieee (Double)

/-- One fault rule, matched against a request route. -/
structure FaultSpec where
  route : String
  rate : Double
  latencyMs : Option UInt64
  jitterMs : Option UInt64
  status : Option UInt16
  truncateBodyAt : Option UInt64
  dropConnection : Bool
  deriving DecidableEq

/-- Corruption of the telemetry that the testbed emits. -/
structure TelemetryFault where
  rate : Double
  orphanSpans : Bool
  clockSkewMs : Option Int64
  cardinalityBomb : Option UInt32
  attributeBloatBytes : Option UInt64
  dropExport : Bool
  exportLatencyMs : Option UInt64
  corruptInboundTraceparent : Bool
  counterReset : Bool
  deriving DecidableEq

inductive SigningScheme
  | stripe
  | github
  | none
  deriving DecidableEq

/-- An outbound webhook destination. -/
structure WebhookEndpoint where
  name : String
  url : String
  sign : SigningScheme
  secret : Option String
  backoffMs : List UInt64
  failFirst : UInt32
  deriving DecidableEq

/-- The immutable half of the configuration. -/
structure Scenario where
  name : String
  description : Option String
  blastRadius : Option String
  faults : List FaultSpec
  telemetry : TelemetryFault
  webhooks : List WebhookEndpoint
  deriving DecidableEq

/-- The mutable half: `none` defers to the base, and `some` overrides it. -/
structure Overlay where
  faults : Option (List FaultSpec)
  telemetry : Option TelemetryFault
  webhooks : Option (List WebhookEndpoint)
  deriving DecidableEq

/-- The base with an overlay applied. -/
@[ext] structure Resolved where
  faults : List FaultSpec
  telemetry : TelemetryFault
  webhooks : List WebhookEndpoint
  deriving DecidableEq

/-- `TelemetryFault::default()`. -/
def TelemetryFault.default : TelemetryFault where
  rate := .finite (.ofRat 0)
  orphanSpans := false
  clockSkewMs := none
  cardinalityBomb := none
  attributeBloatBytes := none
  dropExport := false
  exportLatencyMs := none
  corruptInboundTraceparent := false
  counterReset := false

/-- `FaultSpec::default()`. -/
def FaultSpec.default : FaultSpec where
  route := "/*"
  rate := .finite (.ofRat 0)
  latencyMs := none
  jitterMs := none
  status := none
  truncateBodyAt := none
  dropConnection := false

/-- `Overlay::default()`. -/
def Overlay.default : Overlay := ⟨none, none, none⟩

def resolve (base : Scenario) (overlay : Overlay) : Resolved where
  faults := overlay.faults.getD base.faults
  telemetry := overlay.telemetry.getD base.telemetry
  webhooks := overlay.webhooks.getD base.webhooks

end Servr
