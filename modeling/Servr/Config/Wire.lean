import Servr.Config
import Servr.Serde

/-! Configuration as JSON: the schemas that serde derives for a scenario and an overlay.  What is
written reads back exactly if its rates are finite. -/

namespace Servr

open Ieee (Double F64)
open Json

/-! ### Writing -/

def FaultSpec.toValue (f : FaultSpec) : Value := .obj
  ([("route", .str f.route), ("rate", f64Value f.rate)] ++
    unlessNone "latency_ms" u64Value f.latencyMs ++
    unlessNone "jitter_ms" u64Value f.jitterMs ++
    unlessNone "status" u16Value f.status ++
    unlessNone "truncate_body_at" u64Value f.truncateBodyAt ++
    unlessFalse "drop_connection" f.dropConnection)

def TelemetryFault.toValue (t : TelemetryFault) : Value := .obj
  ([("rate", f64Value t.rate), ("orphan_spans", .bool t.orphanSpans)] ++
    unlessNone "clock_skew_ms" i64Value t.clockSkewMs ++
    unlessNone "cardinality_bomb" u32Value t.cardinalityBomb ++
    unlessNone "attribute_bloat_bytes" u64Value t.attributeBloatBytes ++
    [("drop_export", .bool t.dropExport)] ++
    unlessNone "export_latency_ms" u64Value t.exportLatencyMs ++
    [("corrupt_inbound_traceparent", .bool t.corruptInboundTraceparent),
      ("counter_reset", .bool t.counterReset)])

/-- The name that serde gives a scheme. -/
def SigningScheme.name : SigningScheme → String
  | .stripe => "stripe"
  | .github => "github"
  | .none => "none"

def WebhookEndpoint.toValue (e : WebhookEndpoint) : Value := .obj
  [("name", .str e.name), ("url", .str e.url), ("sign", .str e.sign.name),
    ("secret", optionValue .str e.secret), ("backoff_ms", .arr (e.backoffMs.map u64Value)),
    ("fail_first", u32Value e.failFirst)]

def faultsValue (fs : List FaultSpec) : Value := .arr (fs.map FaultSpec.toValue)

def webhooksValue (es : List WebhookEndpoint) : Value := .arr (es.map WebhookEndpoint.toValue)

def Scenario.toValue (s : Scenario) : Value := .obj
  ([("name", .str s.name)] ++
    unlessNone "description" .str s.description ++
    unlessNone "blast_radius" .str s.blastRadius ++
    [("faults", faultsValue s.faults), ("telemetry", s.telemetry.toValue),
      ("webhooks", webhooksValue s.webhooks)])

def Overlay.toValue (o : Overlay) : Value := .obj
  (unlessNone "faults" faultsValue o.faults ++
    unlessNone "telemetry" TelemetryFault.toValue o.telemetry ++
    unlessNone "webhooks" webhooksValue o.webhooks)

/-! ### Reading

Each of these types is read from an object, whose other fields are ignored; the arrays that serde
would also take for a struct are left out. -/

def FaultSpec.ofValue : Value → Read FaultSpec
  | .obj fields => do
    let route ← Read.required Read.string "route" fields
    let rate ← Read.required Read.f64 "rate" fields
    let latencyMs ← Read.optional Read.u64 "latency_ms" fields
    let jitterMs ← Read.optional Read.u64 "jitter_ms" fields
    let status ← Read.optional Read.u16 "status" fields
    let truncateBodyAt ← Read.optional Read.u64 "truncate_body_at" fields
    let dropConnection ← Read.orDefault Read.bool false "drop_connection" fields
    return { route, rate, latencyMs, jitterMs, status, truncateBodyAt, dropConnection }
  | _ => Read.invalid

def TelemetryFault.ofValue : Value → Read TelemetryFault
  | .obj fields => do
    let rate ← Read.orDefault Read.f64 (.finite (.ofRat 0)) "rate" fields
    let orphanSpans ← Read.orDefault Read.bool false "orphan_spans" fields
    let clockSkewMs ← Read.optional Read.i64 "clock_skew_ms" fields
    let cardinalityBomb ← Read.optional Read.u32 "cardinality_bomb" fields
    let attributeBloatBytes ← Read.optional Read.u64 "attribute_bloat_bytes" fields
    let dropExport ← Read.orDefault Read.bool false "drop_export" fields
    let exportLatencyMs ← Read.optional Read.u64 "export_latency_ms" fields
    let corruptInboundTraceparent ←
      Read.orDefault Read.bool false "corrupt_inbound_traceparent" fields
    let counterReset ← Read.orDefault Read.bool false "counter_reset" fields
    return { rate, orphanSpans, clockSkewMs, cardinalityBomb, attributeBloatBytes, dropExport,
             exportLatencyMs, corruptInboundTraceparent, counterReset }
  | _ => Read.invalid

/-- A scheme by its name: a string, or an object with the name as its one field. -/
def SigningScheme.ofValue : Value → Read SigningScheme
  | .str name | .obj [(name, .null)] =>
    Read.ofOption ([.stripe, .github, .none].find? fun scheme => scheme.name = name)
  | _ => Read.invalid

def WebhookEndpoint.ofValue : Value → Read WebhookEndpoint
  | .obj fields => do
    let name ← Read.required Read.string "name" fields
    let url ← Read.required Read.string "url" fields
    let sign ← Read.orDefault SigningScheme.ofValue .stripe "sign" fields
    let secret ← Read.optional Read.string "secret" fields
    let backoffMs ← Read.orDefault (Read.list Read.u64) [] "backoff_ms" fields
    let failFirst ← Read.orDefault Read.u32 0 "fail_first" fields
    return { name, url, sign, secret, backoffMs, failFirst }
  | _ => Read.invalid

def Scenario.ofValue : Value → Read Scenario
  | .obj fields => do
    let name ← Read.required Read.string "name" fields
    let description ← Read.optional Read.string "description" fields
    let blastRadius ← Read.optional Read.string "blast_radius" fields
    let faults ← Read.orDefault (Read.list FaultSpec.ofValue) [] "faults" fields
    let telemetry ← Read.orDefault TelemetryFault.ofValue .default "telemetry" fields
    let webhooks ← Read.orDefault (Read.list WebhookEndpoint.ofValue) [] "webhooks" fields
    return { name, description, blastRadius, faults, telemetry, webhooks }
  | _ => Read.invalid

def Overlay.ofValue : Value → Read Overlay
  | .obj fields => do
    let faults ← Read.optional (Read.list FaultSpec.ofValue) "faults" fields
    let telemetry ← Read.optional TelemetryFault.ofValue "telemetry" fields
    let webhooks ← Read.optional (Read.list WebhookEndpoint.ofValue) "webhooks" fields
    return { faults, telemetry, webhooks }
  | _ => Read.invalid

/-! ### What reads back -/

theorem FaultSpec.ofValue_toValue (f : FaultSpec) :
    FaultSpec.ofValue f.toValue = if f.rate.IsFinite then .ok f else Read.invalid := by
  unfold FaultSpec.ofValue FaultSpec.toValue
  dsimp only
  rw [Read.required_eq (v := .str f.route) (by simp [field]),
    Read.required_eq (v := f64Value f.rate) (by simp [field]),
    Read.optional_back (o := f.latencyMs) (by simp [field]) (by simp [u64Value])
      Read.u64_u64Value,
    Read.optional_back (o := f.jitterMs) (by simp [field]) (by simp [u64Value])
      Read.u64_u64Value,
    Read.optional_back (o := f.status) (by simp [field]) (by simp [u16Value])
      Read.u16_u16Value,
    Read.optional_back (o := f.truncateBodyAt) (by simp [field]) (by simp [u64Value])
      Read.u64_u64Value,
    Read.orDefault_unlessFalse (b := f.dropConnection) (by simp [field]), Read.f64_f64Value]
  split <;> rfl

theorem TelemetryFault.ofValue_toValue (t : TelemetryFault) :
    TelemetryFault.ofValue t.toValue = if t.rate.IsFinite then .ok t else Read.invalid := by
  unfold TelemetryFault.ofValue TelemetryFault.toValue
  dsimp only
  rw [Read.orDefault_eq (v := f64Value t.rate) (by simp [field]),
    Read.orDefault_eq (v := .bool t.orphanSpans) (by simp [field]),
    Read.optional_back (o := t.clockSkewMs) (by simp [field]) (by simp [i64Value])
      Read.i64_i64Value,
    Read.optional_back (o := t.cardinalityBomb) (by simp [field]) (by simp [u32Value])
      Read.u32_u32Value,
    Read.optional_back (o := t.attributeBloatBytes) (by simp [field]) (by simp [u64Value])
      Read.u64_u64Value,
    Read.orDefault_eq (v := .bool t.dropExport) (by simp [field]),
    Read.optional_back (o := t.exportLatencyMs) (by simp [field]) (by simp [u64Value])
      Read.u64_u64Value,
    Read.orDefault_eq (v := .bool t.corruptInboundTraceparent) (by simp [field]),
    Read.orDefault_eq (v := .bool t.counterReset) (by simp [field]), Read.f64_f64Value]
  split <;> rfl

theorem SigningScheme.ofValue_name (scheme : SigningScheme) :
    SigningScheme.ofValue (.str scheme.name) = .ok scheme := by
  cases scheme <;> decide

theorem WebhookEndpoint.ofValue_toValue (e : WebhookEndpoint) :
    WebhookEndpoint.ofValue e.toValue = .ok e := by
  unfold WebhookEndpoint.ofValue WebhookEndpoint.toValue
  dsimp only
  rw [Read.required_eq (v := .str e.name) (by simp [field]),
    Read.required_eq (v := .str e.url) (by simp [field]),
    Read.orDefault_eq (v := .str e.sign.name) (by simp [field]),
    Read.optional_string (s := e.secret) (by simp [field]),
    Read.orDefault_eq (v := .arr (e.backoffMs.map u64Value)) (by simp [field]),
    Read.orDefault_eq (v := u32Value e.failFirst) (by simp [field]), SigningScheme.ofValue_name,
    Read.list_u64, Read.u32_u32Value]
  rfl

def FiniteRates (fs : List FaultSpec) : Prop := ∀ f ∈ fs, f.rate.IsFinite

/-- The rates of a scenario are numbers. -/
def Scenario.Finite (s : Scenario) : Prop := FiniteRates s.faults ∧ s.telemetry.rate.IsFinite

/-- The rates that an overlay sets are numbers. -/
def Overlay.Finite (o : Overlay) : Prop :=
  (∀ fs ∈ o.faults, FiniteRates fs) ∧ ∀ t ∈ o.telemetry, t.rate.IsFinite

instance (fs : List FaultSpec) : Decidable (FiniteRates fs) :=
  inferInstanceAs (Decidable (∀ f ∈ fs, _))

instance (s : Scenario) : Decidable s.Finite := inferInstanceAs (Decidable (_ ∧ _))

theorem TelemetryFault.ofValue_eq_ok {t t' : TelemetryFault} :
    TelemetryFault.ofValue t.toValue = .ok t' ↔ t' = t ∧ t.rate.IsFinite := by
  rw [TelemetryFault.ofValue_toValue, Read.guarded_eq_ok]

theorem list_faultsValue {fs fs' : List FaultSpec} :
    Read.list FaultSpec.ofValue (faultsValue fs) = .ok fs' ↔ fs' = fs ∧ FiniteRates fs :=
  Results.mapM_map_eq_ok fun f f' => by rw [FaultSpec.ofValue_toValue, Read.guarded_eq_ok]

@[simp] theorem list_webhooksValue (es : List WebhookEndpoint) :
    Read.list WebhookEndpoint.ofValue (webhooksValue es) = .ok es :=
  (Results.mapM_map_eq_ok (P := fun _ => True)
    (by simp [WebhookEndpoint.ofValue_toValue, eq_comm])).mpr ⟨rfl, fun _ _ => trivial⟩

/-- A scenario reads back as it was written exactly if its rates are numbers. -/
theorem Scenario.ofValue_toValue {s s' : Scenario} :
    Scenario.ofValue s.toValue = .ok s' ↔ s' = s ∧ s.Finite := by
  unfold Scenario.ofValue Scenario.toValue
  dsimp only
  rw [Read.required_eq (v := .str s.name) (by simp [field]),
    Read.optional_string_written (o := s.description) (by simp [field]),
    Read.optional_string_written (o := s.blastRadius) (by simp [field]),
    Read.orDefault_eq (v := faultsValue s.faults) (by simp [field]),
    Read.orDefault_eq (v := s.telemetry.toValue) (by simp [field]),
    Read.orDefault_eq (v := webhooksValue s.webhooks) (by simp [field]), list_webhooksValue,
    Read.string]
  simp only [Results.bind_eq_ok, list_faultsValue, TelemetryFault.ofValue_eq_ok]
  constructor
  · rintro ⟨_, ⟨⟩, _, ⟨⟩, _, ⟨⟩, _, ⟨rfl, faults⟩, _, ⟨rfl, telemetry⟩, _, ⟨⟩, ⟨⟩⟩
    exact ⟨rfl, faults, telemetry⟩
  · rintro ⟨rfl, faults, telemetry⟩
    exact ⟨_, rfl, _, rfl, _, rfl, _, ⟨rfl, faults⟩, _, ⟨rfl, telemetry⟩, _, rfl, rfl⟩

/-- An overlay reads back as it was written exactly if the rates that it sets are numbers. -/
theorem Overlay.ofValue_toValue {o o' : Overlay} :
    Overlay.ofValue o.toValue = .ok o' ↔ o' = o ∧ o.Finite := by
  unfold Overlay.ofValue Overlay.toValue
  dsimp only
  rw [Read.optional_back (o := o.webhooks) (by simp) (by simp [webhooksValue])
    list_webhooksValue]
  simp only [Results.bind_eq_ok]
  constructor
  · rintro ⟨faults, readFaults, telemetry, readTelemetry, _, ⟨⟩, ⟨⟩⟩
    rw [Read.optional_map_eq_ok (o := o.faults) (by simp) (by simp [faultsValue])
      fun _ _ => list_faultsValue] at readFaults
    rw [Read.optional_map_eq_ok (o := o.telemetry) (by simp) (by simp [TelemetryFault.toValue])
      fun _ _ => TelemetryFault.ofValue_eq_ok] at readTelemetry
    obtain ⟨rfl, finiteFaults⟩ := readFaults
    obtain ⟨rfl, finiteTelemetry⟩ := readTelemetry
    exact ⟨rfl, finiteFaults, finiteTelemetry⟩
  · rintro ⟨rfl, finiteFaults, finiteTelemetry⟩
    refine ⟨o'.faults, ?_, o'.telemetry, ?_, o'.webhooks, rfl, rfl⟩
    · exact (Read.optional_map_eq_ok (by simp) (by simp [faultsValue])
        fun _ _ => list_faultsValue).mpr ⟨rfl, finiteFaults⟩
    · exact (Read.optional_map_eq_ok (by simp) (by simp [TelemetryFault.toValue])
        fun _ _ => TelemetryFault.ofValue_eq_ok).mpr
        ⟨rfl, finiteTelemetry⟩

/-! ### How deep the texts nest -/

theorem depth_unlessNone {α : Type} (write : α → Value) (name : String) (o : Option α) {n : ℕ}
    (h : ∀ a, (write a).depth ≤ n) : Value.depthFields (unlessNone name write o) ≤ n := by
  cases o with
  | none => simp [unlessNone, Value.depthFields]
  | some a => simpa [unlessNone, Value.depthFields] using h a

theorem depth_unlessFalse (name : String) (b : Bool) :
    Value.depthFields (unlessFalse name b) ≤ 0 := by
  cases b <;> simp [unlessFalse, Value.depthFields, Value.depth]

theorem depth_array {α : Type} (write : α → Value) (as : List α) {n : ℕ}
    (h : ∀ a, (write a).depth ≤ n) : (Value.arr (as.map write)).depth ≤ n + 1 := by
  rw [Value.depth, Nat.add_le_add_iff_right, depthElems_le_iff]
  simpa using fun a _ => h a

theorem depth_f64Value (x : Double) : (f64Value x).depth = 0 := by
  cases x <;> rfl

theorem depth_optionString (o : Option String) : (optionValue .str o).depth = 0 := by
  cases o <;> rfl

theorem FaultSpec.depth_toValue (f : FaultSpec) : f.toValue.depth ≤ 1 := by
  have u64 (name : String) (o : Option UInt64) :=
    depth_unlessNone u64Value name o (n := 0) fun _ => le_refl 0
  have status := depth_unlessNone u16Value "status" f.status (n := 0) fun _ => le_refl 0
  have latency := u64 "latency_ms" f.latencyMs
  have jitter := u64 "jitter_ms" f.jitterMs
  have cut := u64 "truncate_body_at" f.truncateBodyAt
  have drop := depth_unlessFalse "drop_connection" f.dropConnection
  simp only [FaultSpec.toValue, Value.depth, depthFields_append, Value.depthFields,
    depth_f64Value]
  omega

theorem TelemetryFault.depth_toValue (t : TelemetryFault) : t.toValue.depth ≤ 1 := by
  have u64 (name : String) (o : Option UInt64) :=
    depth_unlessNone u64Value name o (n := 0) fun _ => le_refl 0
  have bloat := u64 "attribute_bloat_bytes" t.attributeBloatBytes
  have latency := u64 "export_latency_ms" t.exportLatencyMs
  have skew := depth_unlessNone i64Value "clock_skew_ms" t.clockSkewMs (n := 0)
    fun _ => le_refl 0
  have bomb := depth_unlessNone u32Value "cardinality_bomb" t.cardinalityBomb (n := 0)
    fun _ => le_refl 0
  simp only [TelemetryFault.toValue, Value.depth, depthFields_append, Value.depthFields,
    depth_f64Value]
  omega

theorem WebhookEndpoint.depth_toValue (e : WebhookEndpoint) : e.toValue.depth ≤ 2 := by
  have backoff := depth_array u64Value e.backoffMs (n := 0) fun _ => le_refl 0
  simp only [Value.depth] at backoff
  simp only [WebhookEndpoint.toValue, Value.depth, Value.depthFields, depth_optionString, u32Value]
  omega

theorem Scenario.depth_toValue (s : Scenario) : s.toValue.depth ≤ 4 := by
  have faults := depth_array FaultSpec.toValue s.faults FaultSpec.depth_toValue
  have webhooks := depth_array WebhookEndpoint.toValue s.webhooks WebhookEndpoint.depth_toValue
  have telemetry := s.telemetry.depth_toValue
  have string (name : String) (o : Option String) :=
    depth_unlessNone Value.str name o (n := 0) fun _ => le_refl 0
  have description := string "description" s.description
  have blast := string "blast_radius" s.blastRadius
  simp only [Scenario.toValue, faultsValue, webhooksValue, Value.depth, depthFields_append,
    Value.depthFields] at *
  omega

theorem Overlay.depth_toValue (o : Overlay) : o.toValue.depth ≤ 4 := by
  have faults := depth_unlessNone faultsValue "faults" o.faults
    fun fs => depth_array FaultSpec.toValue fs FaultSpec.depth_toValue
  have webhooks := depth_unlessNone webhooksValue "webhooks" o.webhooks
    fun es => depth_array WebhookEndpoint.toValue es WebhookEndpoint.depth_toValue
  have telemetry := depth_unlessNone TelemetryFault.toValue "telemetry" o.telemetry
    TelemetryFault.depth_toValue
  simp only [Overlay.toValue, Value.depth, depthFields_append]
  omega

end Servr
