import Servr.Bus
import Servr.Inbound
import Servr.Mail
import Servr.Outbound
import Servr.Queue.Scheduler
import Servr.Queue.Wire
import Servr.Ws

/-! The events of `core/src/event.rs` and the JSON that serde derives for them, which
`/_admin/events` serves.  Every event reads back from its text, and what reads as an event, from
objects or from arrays, carries the tag of its kind. -/

namespace Servr

open Json

/-- `EventKind::HttpRequest`. -/
structure HttpRequest where
  method : String
  path : String
  status : UInt16
  latencyMs : UInt64
  /-- Names of the faults that fired on this request, in application order. -/
  faults : List String
  deriving DecidableEq

/-- `EventKind::WebhookIn`. -/
structure WebhookIn where
  endpoint : String
  /-- Lowercased header names to values. -/
  headers : Finmap fun _ : String => String
  bodySha256 : String

/-- The kinds of event other than a gap. -/
inductive DomainKind
  | httpRequest (request : HttpRequest)
  | jobTransition (transition : JobTransition)
  | mailSent (mail : Mail.MailSent)
  | webhookIn (webhook : WebhookIn)
  | webhookOut (webhook : Outbound.WebhookOut)
  | wsFrame (frame : Ws.WsFrame)
  | streamChunk (stream : Uuid) (seq : UInt32)

def EventKind.name : EventKind DomainKind → String
  | .domain (.httpRequest _) => "HttpRequest"
  | .domain (.jobTransition _) => "JobTransition"
  | .domain (.mailSent _) => "MailSent"
  | .domain (.webhookIn _) => "WebhookIn"
  | .domain (.webhookOut _) => "WebhookOut"
  | .domain (.wsFrame _) => "WsFrame"
  | .domain (.streamChunk ..) => "StreamChunk"
  | .gap _ => "Gap"

/-- The numbers of a kind that the model has as naturals are those of the source's `u64`. -/
def EventKind.InRange : EventKind DomainKind → Prop
  | .gap dropped => dropped < 2 ^ 64
  | .domain (.wsFrame frame) => frame.bytes < 2 ^ 64
  | .domain _ => True

/-- An event whose numbers are those of the source's `u64`. -/
structure Event.InRange (e : Event DomainKind) : Prop where
  id : e.id < 2 ^ 64
  kind : e.kind.InRange

/-! ### Writing -/

def natValue (n : Nat) : Value := .num (.int n)

/-- The name that serde gives a direction. -/
def Ws.Dir.name : Ws.Dir → String
  | .in_ => "in"
  | .out => "out"

def headersValue (headers : Finmap fun _ : String => String) : Value := .obj
  ((Inbound.inOrder headers.keys).map fun name => (name, .str ((headers.lookup name).getD "")))

section Writing

variable {Text : Type} (w : Wire Text)

def HttpRequest.toFields (r : HttpRequest) : List (String × Value) :=
  [("method", .str r.method), ("path", .str r.path), ("status", u16Value r.status),
    ("latency_ms", u64Value r.latencyMs), ("faults", .arr (r.faults.map .str))]

def JobTransition.toFields (t : JobTransition) : List (String × Value) :=
  [("job", .str (w.uuidText t.job.uuid)), ("from", .str t.from_.name), ("to", .str t.to_.name),
    ("attempt", u32Value t.attempt)]

def Mail.MailSent.toFields (m : Mail.MailSent) : List (String × Value) :=
  [("to", .str m.to_), ("subject", .str m.subject), ("message_id", .str m.messageId)]

def WebhookIn.toFields (i : WebhookIn) : List (String × Value) :=
  [("endpoint", .str i.endpoint), ("headers", headersValue i.headers),
    ("body_sha256", .str i.bodySha256)]

def Outbound.WebhookOut.toFields (o : Outbound.WebhookOut) : List (String × Value) :=
  [("endpoint", .str o.endpoint), ("attempt", u32Value o.attempt),
    ("status", optionValue u16Value o.status),
    ("next_retry_at", optionValue (fun t => .str (w.timeText t)) o.nextRetryAt)]

def Ws.WsFrame.toFields (f : Ws.WsFrame) : List (String × Value) :=
  [("topic", .str f.topic), ("conn", .str (w.uuidText f.conn.uuid)), ("dir", .str f.dir.name),
    ("bytes", natValue f.bytes)]

/-- The fields of a kind, less its tag. -/
def EventKind.toFields : EventKind DomainKind → List (String × Value)
  | .domain (.httpRequest r) => r.toFields
  | .domain (.jobTransition t) => t.toFields w
  | .domain (.mailSent m) => m.toFields
  | .domain (.webhookIn i) => i.toFields
  | .domain (.webhookOut o) => o.toFields w
  | .domain (.wsFrame f) => f.toFields w
  | .domain (.streamChunk stream seq) =>
    [("stream", .str (w.uuidText stream)), ("seq", u32Value seq)]
  | .gap dropped => [("dropped", natValue dropped)]

def EventKind.toValue (k : EventKind DomainKind) : Value :=
  .obj (("kind", .str k.name) :: k.toFields w)

def Event.toValue (e : Event DomainKind) : Value := .obj
  [("id", natValue e.id),
    ("run", .str (w.uuidText e.run.uuid)),
    ("at", .str (w.timeText e.at_)),
    ("wall_at", .str (w.timeText e.wallAt)),
    ("trace_id", optionValue (fun id => .str (HexId.display id)) e.traceId),
    ("span_id", optionValue (fun id => .str (HexId.display id)) e.spanId),
    ("kind", e.kind.toValue w)]

end Writing

/-! ### Reading -/

namespace Read

def nat64 : Value → Read Nat := natBelow (2 ^ 64)

def dir : Value → Read Ws.Dir
  | .str name | .obj [(name, .null)] =>
    ofOption ([.in_, .out].find? fun dir => dir.name = name)
  | _ => invalid

/-- A `BTreeMap<String, String>`. -/
def headers : Value → Read (Finmap fun _ : String => String)
  | .obj fields => do
    let entries ← fields.mapM fun (name, value) => (string value).map fun s => (name, s)
    return entries.foldl (fun map (name, value) => map.insert name value) ∅
  | _ => invalid

/-- A struct from an array, which has to have one element for each of its fields.  An element that
is missing is met where its field is read, one too many only after the last. -/
def elements {α : Type} (names : List String) (read : List (String × Value) → Read α)
    (elems : List Value) : Read α := do
  let a ← read (names.zip elems)
  if elems.length = names.length then return a else invalid

end Read

section Reading

variable {Text : Type} (w : Wire Text)

def HttpRequest.ofFields (fields : List (String × Value)) : Read HttpRequest := do
  let method ← Read.required Read.string "method" fields
  let path ← Read.required Read.string "path" fields
  let status ← Read.required Read.u16 "status" fields
  let latencyMs ← Read.required Read.u64 "latency_ms" fields
  let faults ← Read.required (Read.list Read.string) "faults" fields
  return { method, path, status, latencyMs, faults }

def JobTransition.ofFields (fields : List (String × Value)) : Read JobTransition := do
  let job ← Read.required (Read.uuid w) "job" fields
  let from_ ← Read.required Read.state "from" fields
  let to_ ← Read.required Read.state "to" fields
  let attempt ← Read.required Read.u32 "attempt" fields
  return { job := ⟨job⟩, from_, to_, attempt }

def Mail.MailSent.ofFields (fields : List (String × Value)) : Read Mail.MailSent := do
  let to_ ← Read.required Read.string "to" fields
  let subject ← Read.required Read.string "subject" fields
  let messageId ← Read.required Read.string "message_id" fields
  return { to_, subject, messageId }

def WebhookIn.ofFields (fields : List (String × Value)) : Read WebhookIn := do
  let endpoint ← Read.required Read.string "endpoint" fields
  let headers ← Read.required Read.headers "headers" fields
  let bodySha256 ← Read.required Read.string "body_sha256" fields
  return { endpoint, headers, bodySha256 }

def Outbound.WebhookOut.ofFields (fields : List (String × Value)) :
    Read Outbound.WebhookOut := do
  let endpoint ← Read.required Read.string "endpoint" fields
  let attempt ← Read.required Read.u32 "attempt" fields
  let status ← Read.optional Read.u16 "status" fields
  let nextRetryAt ← Read.optional (Read.time w) "next_retry_at" fields
  return { endpoint, attempt, status, nextRetryAt }

def Ws.WsFrame.ofFields (fields : List (String × Value)) : Read Ws.WsFrame := do
  let topic ← Read.required Read.string "topic" fields
  let conn ← Read.required (Read.uuid w) "conn" fields
  let dir ← Read.required Read.dir "dir" fields
  let bytes ← Read.required Read.nat64 "bytes" fields
  return { topic, conn := ⟨conn⟩, dir, bytes }

def readStreamChunk (fields : List (String × Value)) : Read (Uuid × UInt32) := do
  let stream ← Read.required (Read.uuid w) "stream" fields
  let seq ← Read.required Read.u32 "seq" fields
  return (stream, seq)

/-- The fields of each kind in the source's order, and the reader from them, by the tag. -/
def EventKind.readers :
    List (String × List String × (List (String × Value) → Read (EventKind DomainKind))) :=
  [("HttpRequest", ["method", "path", "status", "latency_ms", "faults"], fun fields =>
      (HttpRequest.ofFields fields).map (.domain ∘ .httpRequest)),
    ("JobTransition", ["job", "from", "to", "attempt"], fun fields =>
      (JobTransition.ofFields w fields).map (.domain ∘ .jobTransition)),
    ("MailSent", ["to", "subject", "message_id"], fun fields =>
      (Mail.MailSent.ofFields fields).map (.domain ∘ .mailSent)),
    ("WebhookIn", ["endpoint", "headers", "body_sha256"], fun fields =>
      (WebhookIn.ofFields fields).map (.domain ∘ .webhookIn)),
    ("WebhookOut", ["endpoint", "attempt", "status", "next_retry_at"], fun fields =>
      (Outbound.WebhookOut.ofFields w fields).map (.domain ∘ .webhookOut)),
    ("WsFrame", ["topic", "conn", "dir", "bytes"], fun fields =>
      (Ws.WsFrame.ofFields w fields).map (.domain ∘ .wsFrame)),
    ("StreamChunk", ["stream", "seq"], fun fields =>
      (readStreamChunk w fields).map fun chunk => .domain (.streamChunk chunk.1 chunk.2)),
    ("Gap", ["dropped"], fun fields => (Read.required Read.nat64 "dropped" fields).map .gap)]

def EventKind.ofFields (tag : String) (fields : List (String × Value)) :
    Read (EventKind DomainKind) :=
  match field tag (EventKind.readers w) with
  | some (_, read) => read fields
  | none => Read.invalid

def EventKind.ofElements (tag : String) (elems : List Value) : Read (EventKind DomainKind) :=
  match field tag (EventKind.readers w) with
  | some (names, read) => Read.elements names read elems
  | none => Read.invalid

/-- A kind is an object with its tag among the fields, or an array with the tag first. -/
def EventKind.ofValue : Value → Read (EventKind DomainKind)
  | .obj fields => do EventKind.ofFields w (← Read.required Read.string "kind" fields) fields
  | .arr (tag :: elems) => do EventKind.ofElements w (← Read.string tag) elems
  | _ => Read.invalid

def Event.ofFields (fields : List (String × Value)) : Read (Event DomainKind) := do
  let id ← Read.required Read.nat64 "id" fields
  let run ← Read.required (Read.uuid w) "run" fields
  let at_ ← Read.required (Read.time w) "at" fields
  let wallAt ← Read.required (Read.time w) "wall_at" fields
  let traceId ← Read.optional (Read.hexId 16) "trace_id" fields
  let spanId ← Read.optional (Read.hexId 8) "span_id" fields
  let kind ← Read.required (EventKind.ofValue w) "kind" fields
  return { id, run := ⟨run⟩, at_, wallAt, traceId, spanId, kind }

def Event.fieldNames : List String :=
  ["id", "run", "at", "wall_at", "trace_id", "span_id", "kind"]

/-- An event is an object, or an array of its fields in order. -/
def Event.ofValue : Value → Read (Event DomainKind)
  | .obj fields => Event.ofFields w fields
  | .arr elems => Read.elements Event.fieldNames (Event.ofFields w) elems
  | _ => Read.invalid

end Reading

/-! ### What reads back -/

theorem Read.nat64_natValue {n : Nat} (h : n < 2 ^ 64) : Read.nat64 (natValue n) = .ok n :=
  Read.natBelow_natCast h

theorem Read.dir_name (dir : Ws.Dir) : Read.dir (.str dir.name) = .ok dir := by
  cases dir <;> decide

theorem Read.list_string (ss : List String) : Read.list Read.string (.arr (ss.map .str)) = .ok ss :=
  (Results.mapM_map_eq_ok (P := fun _ => True) (by simp [Read.string, eq_comm])).mpr
    ⟨rfl, fun _ _ => trivial⟩

/-- An optional field that is written as `null` where it is `None` reads what was written. -/
theorem Read.optional_value {α : Type} {read : Value → Read α} {write : α → Value} {name : String}
    {fields : List (String × Value)} {o : Option α}
    (h : field name fields = some (optionValue write o)) (value : ∀ a, write a ≠ .null)
    (back : ∀ a, read (write a) = .ok a) : Read.optional read name fields = .ok o := by
  cases o with
  | none => simp [Read.optional, h, optionValue]
  | some a =>
    have present := value a
    simp only [Read.optional, h, optionValue, back]
    rfl

theorem lookup_foldl_insert (value : String → String) (names : List String)
    (map : Finmap fun _ : String => String) (a : String) :
    ((names.map fun name => (name, value name)).foldl
      (fun map (name, value) => map.insert name value) map).lookup a =
      if a ∈ names then some (value a) else map.lookup a := by
  induction names generalizing map with
  | nil => simp
  | cons name names ih =>
    simp only [List.map_cons, List.foldl_cons, ih]
    by_cases same : a = name
    · subst same
      simp
    · simp [same, Finmap.lookup_insert_of_ne]

/-- A map of headers reads back, in whatever order its names are written. -/
theorem Read.headers_headersValue (headers : Finmap fun _ : String => String) :
    Read.headers (headersValue headers) = .ok headers := by
  have entries : ((Inbound.inOrder headers.keys).map fun name =>
      (name, Value.str ((headers.lookup name).getD ""))).mapM
        (fun (name, value) => (Read.string value).map fun s => (name, s)) =
      .ok ((Inbound.inOrder headers.keys).map fun name =>
        (name, (headers.lookup name).getD "")) := by
    rw [Results.mapM_eq_ok, List.forall₂_map_left_iff, List.forall₂_map_right_iff]
    exact List.forall₂_same.mpr fun name _ => rfl
  rw [headersValue, Read.headers, entries]
  show Except.ok _ = _
  congr 1
  apply Finmap.ext_lookup
  intro name
  have listed : name ∈ Inbound.inOrder headers.keys ↔ name ∈ headers := by
    rw [Inbound.inOrder, Finset.mem_sort, Finmap.mem_keys]
  rw [lookup_foldl_insert]
  split
  · rename_i held
    obtain ⟨value, found⟩ := Finmap.mem_iff.mp (listed.mp held)
    rw [found, Option.getD_some]
  · rename_i absent
    rw [Finmap.lookup_empty, Finmap.lookup_eq_none.mpr (mt listed.mpr absent)]

section RoundTrip

variable {Text : Type} {w : Wire Text}

theorem HttpRequest.ofFields_toFields (r : HttpRequest) (tag : Value) :
    HttpRequest.ofFields (("kind", tag) :: r.toFields) = .ok r := by
  unfold HttpRequest.ofFields HttpRequest.toFields
  rw [Read.required_eq (v := .str r.method) (by simp [field]),
    Read.required_eq (v := .str r.path) (by simp [field]),
    Read.required_eq (v := u16Value r.status) (by simp [field]),
    Read.required_eq (v := u64Value r.latencyMs) (by simp [field]),
    Read.required_eq (v := .arr (r.faults.map .str)) (by simp [field]),
    Read.u16_u16Value, Read.u64_u64Value, Read.list_string]
  rfl

theorem JobTransition.ofFields_toFields (lawful : w.Lawful) (t : JobTransition) (tag : Value) :
    JobTransition.ofFields w (("kind", tag) :: t.toFields w) = .ok t := by
  unfold JobTransition.ofFields JobTransition.toFields
  rw [Read.required_eq (v := .str (w.uuidText t.job.uuid)) (by simp [field]),
    Read.required_eq (v := .str t.from_.name) (by simp [field]),
    Read.required_eq (v := .str t.to_.name) (by simp [field]),
    Read.required_eq (v := u32Value t.attempt) (by simp [field]),
    Read.uuid_text lawful, Read.state_name, Read.state_name, Read.u32_u32Value]
  rfl

theorem Mail.MailSent.ofFields_toFields (m : Mail.MailSent) (tag : Value) :
    Mail.MailSent.ofFields (("kind", tag) :: m.toFields) = .ok m := by
  unfold Mail.MailSent.ofFields Mail.MailSent.toFields
  rw [Read.required_eq (v := .str m.to_) (by simp [field]),
    Read.required_eq (v := .str m.subject) (by simp [field]),
    Read.required_eq (v := .str m.messageId) (by simp [field])]
  rfl

theorem WebhookIn.ofFields_toFields (i : WebhookIn) (tag : Value) :
    WebhookIn.ofFields (("kind", tag) :: i.toFields) = .ok i := by
  unfold WebhookIn.ofFields WebhookIn.toFields
  rw [Read.required_eq (v := .str i.endpoint) (by simp [field]),
    Read.required_eq (v := headersValue i.headers) (by simp [field]),
    Read.required_eq (v := .str i.bodySha256) (by simp [field]), Read.headers_headersValue]
  rfl

theorem Outbound.WebhookOut.ofFields_toFields (lawful : w.Lawful) (o : Outbound.WebhookOut)
    (tag : Value) : Outbound.WebhookOut.ofFields w (("kind", tag) :: o.toFields w) = .ok o := by
  unfold Outbound.WebhookOut.ofFields Outbound.WebhookOut.toFields
  rw [Read.required_eq (v := .str o.endpoint) (by simp [field]),
    Read.required_eq (v := u32Value o.attempt) (by simp [field]),
    Read.optional_value (o := o.status) (by simp [field]) (by simp [u16Value]) Read.u16_u16Value,
    Read.optional_value (o := o.nextRetryAt) (by simp [field]) (by simp) (Read.time_text lawful),
    Read.u32_u32Value]
  rfl

theorem Ws.WsFrame.ofFields_toFields (lawful : w.Lawful) {f : Ws.WsFrame}
    (inRange : f.bytes < 2 ^ 64) (tag : Value) :
    Ws.WsFrame.ofFields w (("kind", tag) :: f.toFields w) = .ok f := by
  unfold Ws.WsFrame.ofFields Ws.WsFrame.toFields
  rw [Read.required_eq (v := .str f.topic) (by simp [field]),
    Read.required_eq (v := .str (w.uuidText f.conn.uuid)) (by simp [field]),
    Read.required_eq (v := .str f.dir.name) (by simp [field]),
    Read.required_eq (v := natValue f.bytes) (by simp [field]),
    Read.uuid_text lawful, Read.dir_name, Read.nat64_natValue inRange]
  rfl

theorem readStreamChunk_fields (lawful : w.Lawful) (stream : Uuid) (seq : UInt32) (tag : Value) :
    readStreamChunk w
      [("kind", tag), ("stream", .str (w.uuidText stream)), ("seq", u32Value seq)] =
      .ok (stream, seq) := by
  unfold readStreamChunk
  rw [Read.required_eq (v := .str (w.uuidText stream)) (by simp [field]),
    Read.required_eq (v := u32Value seq) (by simp [field]), Read.uuid_text lawful,
    Read.u32_u32Value]
  rfl

theorem readDropped {dropped : Nat} (inRange : dropped < 2 ^ 64) (tag : Value) :
    Read.required Read.nat64 "dropped" [("kind", tag), ("dropped", natValue dropped)] =
      .ok dropped := by
  rw [Read.required_eq (v := natValue dropped) (by simp [field]), Read.nat64_natValue inRange]

/-- A kind reads back from the fields that its tag stands beside. -/
theorem EventKind.ofFields_toFields (lawful : w.Lawful) {k : EventKind DomainKind}
    (inRange : k.InRange) (tag : Value) :
    EventKind.ofFields w k.name (("kind", tag) :: k.toFields w) = .ok k := by
  rcases k with dropped | r | t | m | i | o | f | ⟨stream, seq⟩ <;>
    simp only [EventKind.ofFields, EventKind.readers, EventKind.name, EventKind.toFields, field,
      String.reduceEq, ↓reduceIte]
  · rw [readDropped inRange]
    rfl
  · rw [r.ofFields_toFields]
    rfl
  · rw [t.ofFields_toFields lawful]
    rfl
  · rw [m.ofFields_toFields]
    rfl
  · rw [i.ofFields_toFields]
    rfl
  · rw [o.ofFields_toFields lawful]
    rfl
  · rw [f.ofFields_toFields lawful inRange]
    rfl
  · rw [readStreamChunk_fields lawful]
    rfl

theorem EventKind.ofValue_toValue (lawful : w.Lawful) {k : EventKind DomainKind}
    (inRange : k.InRange) : EventKind.ofValue w (k.toValue w) = .ok k := by
  unfold EventKind.ofValue EventKind.toValue
  dsimp only
  rw [Read.required_eq (v := .str k.name) (by simp [field])]
  exact EventKind.ofFields_toFields lawful inRange _

theorem Event.ofValue_toValue (lawful : w.Lawful) {e : Event DomainKind} (inRange : e.InRange) :
    Event.ofValue w (e.toValue w) = .ok e := by
  unfold Event.ofValue Event.toValue
  dsimp only
  unfold Event.ofFields
  rw [Read.required_eq (v := natValue e.id) (by simp [field]),
    Read.required_eq (v := .str (w.uuidText e.run.uuid)) (by simp [field]),
    Read.required_eq (v := .str (w.timeText e.at_)) (by simp [field]),
    Read.required_eq (v := .str (w.timeText e.wallAt)) (by simp [field]),
    Read.optional_value (o := e.traceId) (by simp [field]) (by simp) Read.hexId_display,
    Read.optional_value (o := e.spanId) (by simp [field]) (by simp) Read.hexId_display,
    Read.required_eq (v := e.kind.toValue w) (by simp [field]),
    Read.nat64_natValue inRange.id, Read.uuid_text lawful, Read.time_text lawful,
    Read.time_text lawful, EventKind.ofValue_toValue lawful inRange.kind]
  rfl

/-! ### Texts -/

theorem mapElems_strings (f : Ieee.F64 → Ieee.F64) (ss : List String) :
    Value.mapElems f (ss.map .str) = ss.map .str := by
  induction ss with
  | nil => rfl
  | cons s ss ih => simp [Value.mapElems, Value.mapFloats, ih]

theorem mapFields_strings (f : Ieee.F64 → Ieee.F64) (value : String → String)
    (names : List String) :
    Value.mapFields f (names.map fun name => (name, .str (value name))) =
      names.map fun name => (name, .str (value name)) := by
  induction names with
  | nil => rfl
  | cons name names ih => simp [Value.mapFields, Value.mapFloats, ih]

theorem depthFields_strings (value : String → String) (names : List String) :
    Value.depthFields (names.map fun name => (name, .str (value name))) = 0 := by
  induction names with
  | nil => rfl
  | cons name names ih => simp [Value.depthFields, Value.depth, ih]

/-- The JSON of a kind has no floats. -/
theorem EventKind.mapFloats_toValue (f : Ieee.F64 → Ieee.F64) (k : EventKind DomainKind) :
    (k.toValue w).mapFloats f = k.toValue w := by
  rcases k with dropped | r | t | m | i | ⟨_, _, _ | _, _ | _⟩ | frame | ⟨stream, seq⟩ <;>
    simp [EventKind.toValue, EventKind.toFields, Value.mapFloats, Value.mapFields, natValue,
      HttpRequest.toFields, JobTransition.toFields, Mail.MailSent.toFields, WebhookIn.toFields,
      Outbound.WebhookOut.toFields, Ws.WsFrame.toFields, headersValue, u16Value, u32Value,
      u64Value, optionValue, mapElems_strings, mapFields_strings]

theorem EventKind.depth_toValue (k : EventKind DomainKind) : (k.toValue w).depth ≤ 2 := by
  have strings (ss : List String) : Value.depthElems (ss.map .str) ≤ 0 :=
    depthElems_le_iff.mpr (by simp [Value.depth])
  rcases k with dropped | r | t | m | i | ⟨_, _, _ | _, _ | _⟩ | frame | ⟨stream, seq⟩ <;>
    simp [EventKind.toValue, EventKind.toFields, Value.depth, Value.depthFields, natValue,
      HttpRequest.toFields, JobTransition.toFields, Mail.MailSent.toFields, WebhookIn.toFields,
      Outbound.WebhookOut.toFields, Ws.WsFrame.toFields, headersValue, u16Value, u32Value,
      u64Value, optionValue, depthFields_strings]
  have := strings r.faults
  omega

theorem Event.mapFloats_toValue (f : Ieee.F64 → Ieee.F64) (e : Event DomainKind) :
    (e.toValue w).mapFloats f = e.toValue w := by
  rcases e with ⟨_, _, _, _, _ | _, _ | _, _⟩ <;>
    simp [Event.toValue, Value.mapFloats, Value.mapFields, natValue, optionValue,
      EventKind.mapFloats_toValue]

theorem Event.depth_toValue (e : Event DomainKind) : (e.toValue w).depth ≤ 3 := by
  have deep := e.kind.depth_toValue (w := w)
  rcases e with ⟨_, _, _, _, _ | _, _ | _, kind⟩ <;>
    simp only [Event.toValue, Value.depth, Value.depthFields, natValue, optionValue] at deep ⊢ <;>
    omega

/-- The event that a text holds. -/
def Event.decode (w : Wire Text) (text : Text) : Option (Event DomainKind) := do
  (Event.ofValue w (← w.fromStr text)).toOption

/-- The text that is written of an event. -/
def Event.encode (w : Wire Text) (e : Event DomainKind) : Text := w.toString (e.toValue w)

theorem Event.decode_encode (lawful : w.Lawful) {e : Event DomainKind} (inRange : e.InRange) :
    Event.decode w (e.encode w) = some e := by
  have shallow := e.depth_toValue (w := w)
  rw [Event.decode, Event.encode, lawful.written, if_pos (by omega), Event.mapFloats_toValue,
    Option.bind_eq_bind, Option.bind_some, Event.ofValue_toValue lawful inRange]
  rfl

/-! ### What reads as an event -/

theorem Read.nat64_lt {v : Value} {n : Nat} (h : Read.nat64 v = .ok n) : n < 2 ^ 64 := by
  unfold Read.nat64 Read.natBelow at h
  split at h
  · split at h
    · cases h
      omega
    · cases h
  · cases h

theorem Read.required_eq_ok {α : Type} {read : Value → Read α} {name : String}
    {fields : List (String × Value)} {a : α} (h : Read.required read name fields = .ok a) :
    ∃ v, field name fields = some v ∧ read v = .ok a := by
  unfold Read.required at h
  split at h
  · cases h
  · exact ⟨_, ‹_›, h⟩

theorem Read.string_eq_ok {v : Value} {s : String} (h : Read.string v = .ok s) : v = .str s := by
  unfold Read.string at h
  split at h <;> cases h
  rfl

theorem map_eq_ok {ε α β : Type} {x : Except ε α} {f : α → β} {b : β} (h : x.map f = .ok b) :
    ∃ a, x = .ok a ∧ f a = b := by
  cases x with
  | error e => cases h
  | ok a =>
    cases h
    exact ⟨a, rfl, rfl⟩

theorem Ws.WsFrame.bytes_ofFields {fields : List (String × Value)} {f : Ws.WsFrame}
    (h : Ws.WsFrame.ofFields w fields = .ok f) : f.bytes < 2 ^ 64 := by
  obtain ⟨topic, -, h⟩ := Results.bind_eq_ok.mp h
  obtain ⟨conn, -, h⟩ := Results.bind_eq_ok.mp h
  obtain ⟨dir, -, h⟩ := Results.bind_eq_ok.mp h
  obtain ⟨bytes, read, h⟩ := Results.bind_eq_ok.mp h
  obtain ⟨v, -, read⟩ := Read.required_eq_ok read
  cases h
  exact Read.nat64_lt read

theorem Read.elements_eq_ok {α : Type} {names : List String}
    {read : List (String × Value) → Read α} {elems : List Value} {a : α}
    (h : Read.elements names read elems = .ok a) :
    read (names.zip elems) = .ok a ∧ elems.length = names.length := by
  obtain ⟨a', held, h⟩ := Results.bind_eq_ok.mp h
  split at h
  · cases h
    exact ⟨held, ‹_›⟩
  · cases h

/-- What the reader that a tag names gives has the tag as its name, and numbers of the source. -/
theorem EventKind.readers_eq_ok {tag : String} {names : List String}
    {read : List (String × Value) → Read (EventKind DomainKind)} {fields : List (String × Value)}
    {k : EventKind DomainKind} (named : field tag (EventKind.readers w) = some (names, read))
    (h : read fields = .ok k) : k.name = tag ∧ k.InRange := by
  simp only [EventKind.readers, field] at named
  split_ifs at named <;> cases named <;> rename_i same <;>
    obtain ⟨a, read, rfl⟩ := map_eq_ok h <;> refine ⟨same, ?_⟩
  · trivial
  · trivial
  · trivial
  · trivial
  · trivial
  · exact Ws.WsFrame.bytes_ofFields read
  · trivial
  · obtain ⟨v, -, read⟩ := Read.required_eq_ok read
    exact Read.nat64_lt read

/-- Where the JSON of an event has its kind. -/
def Event.kindValue : Value → Option Value
  | .obj fields => field "kind" fields
  | .arr [_, _, _, _, _, _, kind] => some kind
  | _ => none

/-- Where the JSON of a kind has its tag. -/
def EventKind.tagValue : Value → Option Value
  | .obj fields => field "kind" fields
  | .arr (tag :: _) => some tag
  | _ => none

theorem EventKind.ofValue_eq_ok {v : Value} {k : EventKind DomainKind}
    (h : EventKind.ofValue w v = .ok k) :
    EventKind.tagValue v = some (.str k.name) ∧ k.InRange := by
  unfold EventKind.ofValue at h
  split at h
  · rename_i fields
    obtain ⟨tag, readTag, h⟩ := Results.bind_eq_ok.mp h
    obtain ⟨v, tagged, readTag⟩ := Read.required_eq_ok readTag
    rw [Read.string_eq_ok readTag] at tagged
    unfold EventKind.ofFields at h
    split at h
    · obtain ⟨rfl, inRange⟩ := EventKind.readers_eq_ok ‹_› h
      exact ⟨tagged, inRange⟩
    · cases h
  · rename_i tagValue elems
    obtain ⟨tag, readTag, h⟩ := Results.bind_eq_ok.mp h
    rw [Read.string_eq_ok readTag]
    unfold EventKind.ofElements at h
    split at h
    · obtain ⟨rfl, inRange⟩ := EventKind.readers_eq_ok ‹_› (Read.elements_eq_ok h).1
      exact ⟨rfl, inRange⟩
    · cases h
  · cases h

theorem Event.ofFields_eq_ok {fields : List (String × Value)} {e : Event DomainKind}
    (h : Event.ofFields w fields = .ok e) :
    e.InRange ∧ ∃ kind, field "kind" fields = some kind ∧
      EventKind.tagValue kind = some (.str e.kind.name) := by
  obtain ⟨id, readId, h⟩ := Results.bind_eq_ok.mp h
  obtain ⟨run, -, h⟩ := Results.bind_eq_ok.mp h
  obtain ⟨at_, -, h⟩ := Results.bind_eq_ok.mp h
  obtain ⟨wallAt, -, h⟩ := Results.bind_eq_ok.mp h
  obtain ⟨traceId, -, h⟩ := Results.bind_eq_ok.mp h
  obtain ⟨spanId, -, h⟩ := Results.bind_eq_ok.mp h
  obtain ⟨kind, readKind, h⟩ := Results.bind_eq_ok.mp h
  obtain ⟨idValue, -, readId⟩ := Read.required_eq_ok readId
  obtain ⟨kindValue, held, readKind⟩ := Read.required_eq_ok readKind
  obtain ⟨tagged, inRange⟩ := EventKind.ofValue_eq_ok readKind
  cases h
  exact ⟨⟨Read.nat64_lt readId, inRange⟩, kindValue, held, tagged⟩

/-- The last of seven elements is the one that stands for the kind. -/
theorem Event.kindValue_arr {elems : List Value} {kind : Value}
    (seven : elems.length = Event.fieldNames.length)
    (held : field "kind" (Event.fieldNames.zip elems) = some kind) :
    Event.kindValue (.arr elems) = some kind := by
  match elems, seven with
  | [id, run, at_, wallAt, traceId, spanId, last], _ =>
    simpa [Event.fieldNames, field, Event.kindValue] using held

/-- What reads as an event has numbers of the source, and the tag of its kind where the kind is. -/
theorem Event.ofValue_eq_ok {v : Value} {e : Event DomainKind} (h : Event.ofValue w v = .ok e) :
    e.InRange ∧ (Event.kindValue v).bind EventKind.tagValue = some (.str e.kind.name) := by
  unfold Event.ofValue at h
  split at h
  · obtain ⟨inRange, kind, held, tagged⟩ := Event.ofFields_eq_ok h
    exact ⟨inRange, by rw [Event.kindValue, held, Option.bind_some, tagged]⟩
  · obtain ⟨h, seven⟩ := Read.elements_eq_ok h
    obtain ⟨inRange, kind, held, tagged⟩ := Event.ofFields_eq_ok h
    exact ⟨inRange, by rw [Event.kindValue_arr seven held, Option.bind_some, tagged]⟩
  · cases h

/-- Every event reads back from its text.  What reads as an event, be it from objects or from the
arrays that serde takes in their place, has the tag of the kind that is read where a consumer looks
for it, and reads back from the text that is written of it. -/
theorem event_texts (lawful : w.Lawful) :
    (∀ e : Event DomainKind, e.InRange → Event.decode w (e.encode w) = some e) ∧
    ∀ v e, Event.ofValue w v = .ok e →
      (Event.kindValue v).bind EventKind.tagValue = some (.str e.kind.name) ∧
      Event.decode w (e.encode w) = some e := by
  refine ⟨fun e inRange => Event.decode_encode lawful inRange, fun v e read => ?_⟩
  obtain ⟨inRange, tagged⟩ := Event.ofValue_eq_ok read
  exact ⟨tagged, Event.decode_encode lawful inRange⟩

/-- A gap from an array whose kind is an array: its one field follows the tag. -/
example : EventKind.ofValue w (.arr [.str "Gap", natValue 7]) = .ok (.gap 7) := rfl

end RoundTrip

/-- A subscriber that missed seven events. -/
theorem event_texts_gap :
    let e : Event DomainKind := gapEvent ⟨.fill 16 0⟩ DateTime.unixEpoch DateTime.unixEpoch 4 7
    e.InRange ∧ Event.decode Plain.wire (e.encode Plain.wire) = some e :=
  have inRange : (gapEvent (κ := DomainKind) ⟨.fill 16 0⟩ DateTime.unixEpoch DateTime.unixEpoch 4
      7).InRange := ⟨by decide, show 7 < 2 ^ 64 by decide⟩
  ⟨inRange, (event_texts Plain.wire_lawful).1 _ inRange⟩

end Servr
