import Servr.Plain
import Servr.Queue.Store
import Servr.Serde

/-! Jobs as text: the schema that serde derives for `Job`, over the codecs of other crates and of
Redis that a record passes through. -/

namespace Servr

open Ieee Json

/-- The codecs that the store relies on.  A `Text` is what the hash of jobs holds. -/
structure Wire (Text : Type) where
  /-- What `serde_json` writes. -/
  toString : Value → Text
  /-- What `serde_json` reads, where objects that differ in the order of their fields are one. -/
  fromStr : Text → Option Value
  /-- The error of a text that cannot be read as a job. -/
  complaint : Text → String
  /-- A float that `serde_json` writes and reads, which may change in its last place. -/
  reread : F64 → F64
  /-- A numeral with a point or an exponent, as `serde_json` reads it. -/
  readDecimal : Bool → ℕ → ℤ → F64
  cjsonDecode : Text → Option Lua
  cjsonEncode : Lua → Option Text
  /-- A string that Lua converts to a number. -/
  tonumber : String → Option F64
  /-- The longest list that Lua's `unpack` returns. -/
  maxUnpack : ℕ
  /-- The error of a script that fails. -/
  scriptError : String
  uuidText : Uuid → String
  uuidParse : String → Option Uuid
  timeText : DateTime → String
  timeParse : String → Option DateTime

variable {Text : Type}

/-- What the codecs are documented to do: `serde_json` reads what it wrote down to a nesting of 127
and `cjson` down to 1000, `serde_json` reads what `cjson` wrote as the value that `toValue` gives,
and identifiers and times read back from their texts. -/
structure Wire.Lawful (w : Wire Text) : Prop where
  written : ∀ v, w.fromStr (w.toString v) =
    if v.depth ≤ 127 then some (v.mapFloats w.reread) else none
  decoded : ∀ v, w.cjsonDecode (w.toString v) =
    if v.depth ≤ 1000 then some (Lua.ofValue v) else none
  encodes : ∀ l, (l.toValue w.readDecimal).depth ≤ 1000 → (w.cjsonEncode l).isSome
  encoded : ∀ l text, w.cjsonEncode l = some text →
    w.fromStr text = if (l.toValue w.readDecimal).depth ≤ 127 then some (l.toValue w.readDecimal)
      else none
  uuid : ∀ u, w.uuidParse (w.uuidText u) = some u
  time : ∀ t, w.timeParse (w.timeText t) = some t

/-! ### Writing a job -/

/-- The fields of `Job`, in the order of the struct. -/
def Job.toFields (w : Wire Text) (j : Job) : List (String × Value) :=
  [("id", .str (w.uuidText j.id.uuid)),
    ("run", .str (w.uuidText j.run.uuid)),
    ("kind", .str j.kind),
    ("payload", j.payload),
    ("state", .str j.state.name),
    ("attempt", u32Value j.attempt),
    ("max_attempts", u32Value j.maxAttempts),
    ("due_at", .str (w.timeText j.dueAt)),
    ("backoff_ms", .arr (j.backoffMs.map u64Value)),
    ("enqueued_trace", optionValue (fun id => .str (HexId.display id)) j.enqueuedTrace),
    ("enqueued_span", optionValue (fun id => .str (HexId.display id)) j.enqueuedSpan),
    ("last_error", optionValue .str j.lastError)]

def Job.toValue (w : Wire Text) (j : Job) : Value := .obj (j.toFields w)

/-! ### Reading a job -/

namespace Read

def uuid (w : Wire Text) (v : Value) : Read Uuid := do ofOption (w.uuidParse (← string v))

def time (w : Wire Text) (v : Value) : Read DateTime := do ofOption (w.timeParse (← string v))

/-- A `TraceId` or `SpanId`, whose `from_str` may panic. -/
def hexId (len : Nat) (v : Value) : Read (HexId len) := do
  match HexId.fromStr len (← string v) with
  | .ok id => .ok id
  | .error (.err _) => invalid
  | .error .panic => .error .panic

/-- A state by its name: a string, or an object with the name as its one field. -/
def state : Value → Read JobState
  | .str name | .obj [(name, .null)] =>
    ofOption ([.scheduled, .running, .succeeded, .failed, .dead].find? fun st => st.name = name)
  | _ => invalid

end Read

/-- The fields of an object that is a job; others are ignored. -/
def Job.ofFields (w : Wire Text) (fields : List (String × Value)) : Read Job := do
  let id ← Read.required (Read.uuid w) "id" fields
  let run ← Read.required (Read.uuid w) "run" fields
  let kind ← Read.required Read.string "kind" fields
  let payload ← Read.required .ok "payload" fields
  let state ← Read.required Read.state "state" fields
  let attempt ← Read.required Read.u32 "attempt" fields
  let maxAttempts ← Read.required Read.u32 "max_attempts" fields
  let dueAt ← Read.required (Read.time w) "due_at" fields
  let backoffMs ← Read.required (Read.list Read.u64) "backoff_ms" fields
  let enqueuedTrace ← Read.optional (Read.hexId 16) "enqueued_trace" fields
  let enqueuedSpan ← Read.optional (Read.hexId 8) "enqueued_span" fields
  let lastError ← Read.optional Read.string "last_error" fields
  return { id := ⟨id⟩, run := ⟨run⟩, kind, payload, state, attempt, maxAttempts, dueAt, backoffMs,
           enqueuedTrace, enqueuedSpan, lastError }

def Job.fieldNames : List String :=
  ["id", "run", "kind", "payload", "state", "attempt", "max_attempts", "due_at", "backoff_ms",
    "enqueued_trace", "enqueued_span", "last_error"]

/-- A job is an object, or an array of its fields in order. -/
def Job.ofValue (w : Wire Text) : Value → Read Job
  | .obj fields => Job.ofFields w fields
  | .arr elems =>
    if elems.length = Job.fieldNames.length then Job.ofFields w (Job.fieldNames.zip elems)
    else Read.invalid
  | _ => Read.invalid

namespace Wire

variable (w : Wire Text)

/-- `RedisStore::encode`. -/
def encode (j : Job) : Text := w.toString (j.toValue w)

/-- `RedisStore::decode`. -/
def decode (raw : Text) : StoreResult Job :=
  match w.fromStr raw with
  | none => .error (.err (.corrupt (w.complaint raw)))
  | some v =>
    match Job.ofValue w v with
    | .ok j => .ok j
    | .error (.err ()) => .error (.err (.corrupt (w.complaint raw)))
    | .error .panic => .error .panic

end Wire

/-! ### What reads back -/

@[simp] theorem Read.state_name (st : JobState) : Read.state (.str st.name) = .ok st := by
  cases st <;> decide

@[simp] theorem Read.hexId_display {len : Nat} (id : HexId len) :
    Read.hexId len (.str id.display) = .ok id := by
  simp [Read.hexId, Read.string, HexId.fromStr_display, bind, Except.bind]

theorem Read.optional_hexId {len : Nat} {name : String} {fields : List (String × Value)}
    {id : Option (HexId len)}
    (h : field name fields = some (optionValue (fun id => .str (HexId.display id)) id)) :
    Read.optional (Read.hexId len) name fields = .ok id := by
  cases id <;> simp [Read.optional, h, optionValue, Except.map]

theorem Read.uuid_text {w : Wire Text} (lawful : w.Lawful) (u : Uuid) :
    Read.uuid w (.str (w.uuidText u)) = .ok u := by
  simp [Read.uuid, Read.string, lawful.uuid, Read.ofOption, bind, Except.bind]

theorem Read.time_text {w : Wire Text} (lawful : w.Lawful) (t : DateTime) :
    Read.time w (.str (w.timeText t)) = .ok t := by
  simp [Read.time, Read.string, lawful.time, Read.ofOption, bind, Except.bind]

/-- The fields of a job with other values in the four that a claim may change. -/
def Job.fieldsWith (w : Wire Text) (j : Job) (payload state attempt backoff : Value) :
    List (String × Value) :=
  [("id", .str (w.uuidText j.id.uuid)),
    ("run", .str (w.uuidText j.run.uuid)),
    ("kind", .str j.kind),
    ("payload", payload),
    ("state", state),
    ("attempt", attempt),
    ("max_attempts", u32Value j.maxAttempts),
    ("due_at", .str (w.timeText j.dueAt)),
    ("backoff_ms", backoff),
    ("enqueued_trace", optionValue (fun id => .str (HexId.display id)) j.enqueuedTrace),
    ("enqueued_span", optionValue (fun id => .str (HexId.display id)) j.enqueuedSpan),
    ("last_error", optionValue .str j.lastError)]

/-- What is read from such fields is the job with what is read from the four. -/
theorem Job.ofFields_fieldsWith {w : Wire Text} (lawful : w.Lawful) (j : Job)
    (payload state attempt backoff : Value) :
    Job.ofFields w (j.fieldsWith w payload state attempt backoff) = do
      let state ← Read.state state
      let attempt ← Read.u32 attempt
      let backoffMs ← Read.list Read.u64 backoff
      return { j with payload, state, attempt, backoffMs } := by
  set fields := j.fieldsWith w payload state attempt backoff with hfields
  have id : Read.required (Read.uuid w) "id" fields = .ok j.id.uuid :=
    (Read.required_eq (by simp [hfields, Job.fieldsWith, field])).trans (Read.uuid_text lawful _)
  have run : Read.required (Read.uuid w) "run" fields = .ok j.run.uuid :=
    (Read.required_eq (by simp [hfields, Job.fieldsWith, field])).trans (Read.uuid_text lawful _)
  have kind : Read.required Read.string "kind" fields = .ok j.kind :=
    Read.required_eq (v := .str j.kind) (by simp [hfields, Job.fieldsWith, field])
  have payload' : Read.required .ok "payload" fields = .ok payload :=
    Read.required_eq (by simp [hfields, Job.fieldsWith, field])
  have state' : Read.required Read.state "state" fields = Read.state state :=
    Read.required_eq (by simp [hfields, Job.fieldsWith, field])
  have attempt' : Read.required Read.u32 "attempt" fields = Read.u32 attempt :=
    Read.required_eq (by simp [hfields, Job.fieldsWith, field])
  have max : Read.required Read.u32 "max_attempts" fields = .ok j.maxAttempts :=
    (Read.required_eq (by simp [hfields, Job.fieldsWith, field])).trans (Read.u32_u32Value _)
  have due : Read.required (Read.time w) "due_at" fields = .ok j.dueAt :=
    (Read.required_eq (by simp [hfields, Job.fieldsWith, field])).trans (Read.time_text lawful _)
  have backoff' : Read.required (Read.list Read.u64) "backoff_ms" fields =
      Read.list Read.u64 backoff :=
    Read.required_eq (by simp [hfields, Job.fieldsWith, field])
  have trace : Read.optional (Read.hexId 16) "enqueued_trace" fields = .ok j.enqueuedTrace :=
    Read.optional_hexId (by simp [hfields, Job.fieldsWith, field])
  have span : Read.optional (Read.hexId 8) "enqueued_span" fields = .ok j.enqueuedSpan :=
    Read.optional_hexId (by simp [hfields, Job.fieldsWith, field])
  have error : Read.optional Read.string "last_error" fields = .ok j.lastError :=
    Read.optional_string (by simp [hfields, Job.fieldsWith, field])
  rw [Job.ofFields, id, run, kind, payload', state', attempt', max, due, backoff', trace, span,
    error]
  rfl

/-- Such fields read as a job exactly if the state, the attempt and the backoff read. -/
theorem Job.ofFields_fieldsWith_eq_ok {w : Wire Text} (lawful : w.Lawful) {j j' : Job}
    {payload state attempt backoff : Value} :
    Job.ofFields w (j.fieldsWith w payload state attempt backoff) = .ok j' ↔
      ∃ st n delays, Read.state state = .ok st ∧ Read.u32 attempt = .ok n ∧
        Read.list Read.u64 backoff = .ok delays ∧
        j' = { j with payload := payload, state := st, attempt := n, backoffMs := delays } := by
  rw [Job.ofFields_fieldsWith lawful]
  constructor
  · intro h
    obtain ⟨st, hst, h⟩ := Results.bind_eq_ok.mp h
    obtain ⟨n, hn, h⟩ := Results.bind_eq_ok.mp h
    obtain ⟨delays, hdelays, h⟩ := Results.bind_eq_ok.mp h
    cases h
    exact ⟨st, n, delays, hst, hn, hdelays, rfl⟩
  · rintro ⟨st, n, delays, hst, hn, hdelays, rfl⟩
    rw [hst, hn, hdelays]
    rfl

/-! ### Plain codecs -/

namespace Plain

def readDecimal (neg : Bool) (digits : ℕ) (exp : ℤ) : F64 :=
  .ofRat ((if neg then -1 else 1) * digits * 10 ^ exp)

/-- Codecs that keep a value as its own text, for a Lua whose `unpack` returns up to 8000 values. -/
def wire : Wire Value where
  toString v := v
  fromStr v := if v.depth ≤ 127 then some v else none
  complaint _ := "invalid type"
  reread := id
  readDecimal := readDecimal
  cjsonDecode v := if v.depth ≤ 1000 then some (.ofValue v) else none
  cjsonEncode l :=
    if (l.toValue readDecimal).depth ≤ 1000 then some (l.toValue readDecimal) else none
  tonumber _ := none
  maxUnpack := 8000
  scriptError := "too many results to unpack"
  uuidText := uuidText
  uuidParse := uuidParse
  timeText := timeText
  timeParse := timeParse

theorem wire_lawful : wire.Lawful where
  written v := by
    have same : v.mapFloats wire.reread = v := mapFloats_id v
    rw [same]
    rfl
  decoded v := rfl
  encodes l h := Option.isSome_iff_exists.mpr ⟨_, if_pos h⟩
  encoded l text h := by
    have stored : text = l.toValue readDecimal := by
      have h : (if (l.toValue readDecimal).depth ≤ 1000 then some (l.toValue readDecimal)
        else none) = some text := h
      split at h
      · exact (Option.some.inj h).symm
      · contradiction
    rw [stored]
    rfl
  uuid u := by
    simp only [wire]
    exact uuidParse_uuidText u
  time t := by
    simp only [wire]
    exact timeParse_timeText t

end Plain

end Servr
