import Servr.Queue.RedisStore

/-! What a claim makes of the record of one job: `cjson` takes the record through a Lua table, so
the job that comes back is the one that was put, claimed, exactly if the table holds all of it. -/

namespace Servr

open Ieee Json

variable {Text : Type} {w : Wire Text}

namespace RedisStore

/-- The job that a claim returns for a record, when the script can rewrite the record and the result
reads as a job. -/
def claimedJob (w : Wire Text) (raw : Text) : Option Job :=
  (rewrite w raw).bind fun encoded => (w.decode encoded).toOption

/-- The fields of a record after the script: the payload and the backoff have been through Lua. -/
def rewrittenFields (w : Wire Text) (j : Job) : List (String × Value) :=
  j.fieldsWith w (j.payload.trip w.readDecimal) (.str "running")
    (.num (.int (j.attempt.toNat + 1 : ℕ)))
    ((Value.arr (j.backoffMs.map u64Value)).trip w.readDecimal)

/-! ### Numbers and lists in Lua -/

theorem trip_natCast {float : Bool → ℕ → ℤ → F64} {n : ℕ} (h : n < 10 ^ 14) :
    (Value.num (.int n)).trip float = .num (.int n) :=
  (trip_eq_iff float _).mpr (by
    simp only [Value.Survives, Num.Survives, Nat.abs_cast]
    exact_mod_cast h)

theorem trip_u32Value (float : Bool → ℕ → ℤ → F64) (n : UInt32) :
    (u32Value n).trip float = u32Value n :=
  trip_natCast (n.toNat_lt.trans (by norm_num))

theorem trip_optionStr {α : Type} (float : Bool → ℕ → ℤ → F64) (write : α → String)
    (a : Option α) : (optionValue (fun a => .str (write a)) a).trip float =
      optionValue (fun a => .str (write a)) a := by
  cases a <;> rfl

theorem attempt_add_one (n : UInt32) :
    F64.ofRat ((F64.ofRat (n.toNat : ℤ)).value + 1) = .ofRat ((n.toNat + 1 : ℕ) : ℤ) := by
  have bound := n.toNat_lt
  rw [F64.value_ofRat_intCast (by rw [Nat.abs_cast]; norm_num; omega)]
  push_cast
  rfl

theorem toElems_ofElems (float : Bool → ℕ → ℤ → F64) (vs : List Value) :
    Lua.toElems float (Lua.ofElems vs) = vs.map (·.trip float) := by
  induction vs with
  | nil => rfl
  | cons v vs ih =>
    rw [Lua.ofElems, Lua.toElems, ih]
    rfl

theorem read_delay_iff {float : Bool → ℕ → ℤ → F64} (d d' : UInt64) :
    Read.u64 ((u64Value d).trip float) = .ok d' ↔ d' = d ∧ d.toNat < 10 ^ 14 := by
  constructor
  · intro h
    have small : d.toNat < 10 ^ 14 := by
      by_contra large
      obtain ⟨x, hx⟩ := readNumeral_large float (n := d.toNat) (by rw [Nat.abs_cast]; omega)
      have trip : (u64Value d).trip float = .num (.float x) := congrArg Value.num hx
      rw [trip] at h
      contradiction
    rw [u64Value, trip_natCast small, ← u64Value, Read.u64_u64Value] at h
    cases h
    exact ⟨rfl, small⟩
  · rintro ⟨rfl, small⟩
    rw [u64Value, trip_natCast small, ← u64Value, Read.u64_u64Value]

/-- A list of delays comes back from Lua exactly if it is not empty and each of its delays does. -/
theorem read_backoff_iff {float : Bool → ℕ → ℤ → F64} {delays delays' : List UInt64} :
    Read.list Read.u64 ((Value.arr (delays.map u64Value)).trip float) = .ok delays' ↔
      delays' = delays ∧ delays ≠ [] ∧ ∀ d ∈ delays, d.toNat < 10 ^ 14 := by
  cases delays with
  | nil => simp [Value.trip, Lua.ofValue, Lua.toValue, Lua.toFields, Read.list, Read.invalid]
  | cons d rest =>
    have trip : (Value.arr ((d :: rest).map u64Value)).trip float =
        .arr ((d :: rest).map fun d => (u64Value d).trip float) := by
      have elems := toElems_ofElems float ((d :: rest).map u64Value)
      rw [List.map_map] at elems
      exact congrArg Value.arr elems
    rw [trip, Read.list, Results.mapM_map_eq_ok read_delay_iff]
    simp

/-! ### The script on the record of a job -/

def claimedTable (w : Wire Text) (j : Job) : List (String × Lua) :=
  setField "attempt" (.num (.ofRat ((j.attempt.toNat + 1 : ℕ) : ℤ)))
    (setField "state" (.str "running") (Lua.ofFields (j.toFields w)))

theorem toFields_claimedTable (j : Job) :
    Lua.toFields w.readDecimal (claimedTable w j) = rewrittenFields w j := by
  have num (n : UInt32) := trip_u32Value w.readDecimal n
  have str {α : Type} (write : α → String) (a : Option α) := trip_optionStr w.readDecimal write a
  have attempt : readNumeral w.readDecimal (fmt14g (.ofRat ((j.attempt.toNat + 1 : ℕ) : ℤ))) =
      .int (j.attempt.toNat + 1 : ℕ) := by
    have bound := j.attempt.toNat_lt
    apply readNumeral_small
    rw [Nat.abs_cast]
    norm_num
    omega
  simp only [Value.trip] at num str
  simp only [claimedTable, Job.toFields, Lua.ofFields, setField, String.reduceEq, if_false, if_true,
    Lua.toFields, num, str, Lua.ofValue, Lua.toValue, attempt]
  rfl

theorem depth_toValue (w : Wire Text) (j : Job) :
    (j.toValue w).depth = max j.payload.depth 1 + 1 := by
  have backoff : Value.depthElems (j.backoffMs.map u64Value) = 0 := by
    induction j.backoffMs with
    | nil => rfl
    | cons d rest ih => simp [Value.depthElems, u64Value, Value.depth, ih]
  have option {α : Type} (write : α → String) (a : Option α) :
      (optionValue (fun a => .str (write a)) a).depth = 0 := by
    cases a <;> simp [optionValue, Value.depth]
  simp [Job.toValue, Job.toFields, Value.depth, Value.depthFields, backoff, option, u32Value]

theorem depth_rewritten (j : Job) :
    (Value.obj (rewrittenFields w j)).depth = (j.toValue w).depth := by
  have option {α : Type} (write : α → String) (a : Option α) :
      (optionValue (fun a => .str (write a)) a).depth = 0 := by
    cases a <;> simp [optionValue, Value.depth]
  simp [Job.toValue, Job.toFields, rewrittenFields, Job.fieldsWith, Value.depth,
    Value.depthFields, option, u32Value, depth_trip]

/-- `cjson` takes the records in that nest no deeper than 1000; of what it writes, `serde_json`
reads the records that nest no deeper than 127. -/
theorem rewrite_encode (lawful : w.Lawful) (j : Job) :
    if (j.toValue w).depth ≤ 1000 then
      ∃ encoded, rewrite w (w.encode j) = some encoded ∧
        w.fromStr encoded =
          if (j.toValue w).depth ≤ 127 then some (.obj (rewrittenFields w j)) else none
    else rewrite w (w.encode j) = none := by
  have decoded := lawful.decoded (j.toValue w)
  split
  · rename_i shallow
    rw [if_pos shallow] at decoded
    have table : Lua.ofValue (j.toValue w) = .table (Lua.ofFields (j.toFields w)) := by
      rw [Job.toValue, Lua.ofValue]
    have read : field "attempt" (setField "state" (.str "running") (Lua.ofFields (j.toFields w))) =
        some (.num (.ofRat (j.attempt.toNat : ℤ))) := by
      simp [Job.toFields, Lua.ofFields, setField, field, u32Value, Lua.ofValue, Num.toF64]
    have value : (Lua.table (claimedTable w j)).toValue w.readDecimal =
        .obj (rewrittenFields w j) := by
      rw [Lua.toValue, toFields_claimedTable]
    obtain ⟨encoded, hencoded⟩ := Option.isSome_iff_exists.mp
      (lawful.encodes (.table (claimedTable w j)) (by rwa [value, depth_rewritten]))
    refine ⟨encoded, ?_, ?_⟩
    · rw [rewrite, Wire.encode, decoded, table]
      simp only [read, luaNumber, Option.bind_eq_bind, Option.bind_some, attempt_add_one]
      exact hencoded
    · rw [lawful.encoded _ encoded hencoded, value, depth_rewritten]
  · rename_i deep
    rw [if_neg deep] at decoded
    rw [rewrite, Wire.encode, decoded]

/-! ### The job that comes back -/

/-- The jobs whose record a claim can rewrite and read: those with an attempt left to count, at
least one delay, no delay of 15 digits or more, and a payload that nests no deeper than 126. -/
structure Claimable (j : Job) : Prop where
  attempt : j.attempt.toNat + 1 < 2 ^ 32
  nonempty : j.backoffMs ≠ []
  delays : ∀ d ∈ j.backoffMs, d.toNat < 10 ^ 14
  depth : j.payload.depth ≤ 126

/-- The job that comes back for a claimable one. -/
def afterTrip (w : Wire Text) (j : Job) : Job :=
  { j.claimed with payload := j.payload.trip w.readDecimal }

theorem ofFields_rewritten (lawful : w.Lawful) {j j' : Job} :
    Job.ofFields w (rewrittenFields w j) = .ok j' ↔
      j' = afterTrip w j ∧ j.attempt.toNat + 1 < 2 ^ 32 ∧ j.backoffMs ≠ [] ∧
        ∀ d ∈ j.backoffMs, d.toNat < 10 ^ 14 := by
  have running : Read.state (.str "running") = .ok .running := Read.state_name .running
  rw [rewrittenFields, Job.ofFields_fieldsWith_eq_ok lawful, running]
  constructor
  · rintro ⟨st, n, delays, hst, hn, hdelays, rfl⟩
    obtain ⟨rfl, nonempty, small⟩ := read_backoff_iff.mp hdelays
    cases hst
    have bound : j.attempt.toNat + 1 < 2 ^ 32 := by
      by_contra large
      rw [Read.u32, Read.natBelow, if_neg (by omega)] at hn
      contradiction
    rw [Read.u32, Read.natBelow_natCast bound] at hn
    cases hn
    refine ⟨?_, bound, nonempty, small⟩
    rw [afterTrip, Job.claimed, UInt32.ofNat_add, UInt32.ofNat_toNat]
    rfl
  · rintro ⟨rfl, bound, nonempty, small⟩
    refine ⟨.running, j.attempt + 1, j.backoffMs, rfl, ?_,
      read_backoff_iff.mpr ⟨rfl, nonempty, small⟩, rfl⟩
    rw [Read.u32, Read.natBelow_natCast bound, Except.map, UInt32.ofNat_add, UInt32.ofNat_toNat]
    rfl

theorem decode_eq_ok {raw : Text} {j : Job} :
    w.decode raw = .ok j ↔ ∃ v, w.fromStr raw = some v ∧ Job.ofValue w v = .ok j := by
  unfold Wire.decode
  cases w.fromStr raw with
  | none => simp
  | some v =>
    simp only [Option.some.injEq, exists_eq_left']
    split <;> simp [*]

/-- A claim returns a job for the record of `j` exactly if `j` is claimable, and then the claimed
job with the payload that comes back from Lua. -/
theorem claimedJob_encode (lawful : w.Lawful) {j j' : Job} :
    claimedJob w (w.encode j) = some j' ↔ Claimable j ∧ j' = afterTrip w j := by
  have depth := depth_toValue w j
  have script := rewrite_encode lawful j
  have shallow : (j.toValue w).depth ≤ 127 ↔ j.payload.depth ≤ 126 := by omega
  split at script
  · obtain ⟨encoded, hencoded, read⟩ := script
    rw [claimedJob, hencoded, Option.bind_some, Results.toOption_eq_some, decode_eq_ok, read]
    constructor
    · rintro ⟨v, hv, ok⟩
      split at hv
      · cases hv
        obtain ⟨rfl, attempt, nonempty, delays⟩ := (ofFields_rewritten lawful).mp ok
        exact ⟨⟨attempt, nonempty, delays, shallow.mp ‹_›⟩, rfl⟩
      · contradiction
    · rintro ⟨claimable, rfl⟩
      rw [if_pos (shallow.mpr claimable.depth)]
      exact ⟨_, rfl, (ofFields_rewritten lawful).mpr
        ⟨rfl, claimable.attempt, claimable.nonempty, claimable.delays⟩⟩
  · rw [claimedJob, script]
    constructor
    · intro h
      contradiction
    · rintro ⟨claimable, -⟩
      have := shallow.mpr claimable.depth
      omega

theorem afterTrip_eq_claimed {j : Job} :
    afterTrip w j = j.claimed ↔ j.payload.Survives w.readDecimal := by
  rw [← trip_eq_iff]
  constructor
  · intro same
    exact congrArg Job.payload same
  · intro same
    rw [afterTrip, same]
    rfl

/-- A job without delays comes back from Lua with an object where they should be. -/
theorem decode_noDelays (lawful : w.Lawful) {j : Job} (attempt : j.attempt.toNat + 1 < 2 ^ 32)
    (none : j.backoffMs = []) (depth : j.payload.depth ≤ 126) :
    ∃ encoded, rewrite w (w.encode j) = some encoded ∧
      w.decode encoded = .error (.err (.corrupt (w.complaint encoded))) := by
  have script := rewrite_encode lawful j
  rw [depth_toValue, if_pos (by omega), if_pos (by omega)] at script
  obtain ⟨encoded, hencoded, read⟩ := script
  have running : Read.state (.str "running") = .ok .running := Read.state_name .running
  have count : Read.u32 (.num (.int (j.attempt.toNat + 1 : ℕ))) =
      .ok (UInt32.ofNat (j.attempt.toNat + 1)) := by
    rw [Read.u32, Read.natBelow_natCast attempt, Except.map]
  have fields : Job.ofValue w (.obj (rewrittenFields w j)) = Read.invalid := by
    rw [Job.ofValue, rewrittenFields, Job.ofFields_fieldsWith lawful, running, count, none]
    rfl
  refine ⟨encoded, hencoded, ?_⟩
  rw [Wire.decode, read]
  simp only [fields, Read.invalid]

/-- A record that is put reads as the job with its floats read once. -/
theorem decode_encode (lawful : w.Lawful) {j : Job} (depth : j.payload.depth ≤ 126) :
    w.decode (w.encode j) = .ok { j with payload := j.payload.mapFloats w.reread } := by
  have backoff : Value.mapElems w.reread (j.backoffMs.map u64Value) = j.backoffMs.map u64Value := by
    induction j.backoffMs with
    | nil => rfl
    | cons d rest ih => simp [Value.mapElems, u64Value, Value.mapFloats, ih]
  have option {α : Type} (write : α → String) (a : Option α) :
      (optionValue (fun a => .str (write a)) a).mapFloats w.reread =
        optionValue (fun a => .str (write a)) a := by
    cases a <;> simp [optionValue, Value.mapFloats]
  have value : (j.toValue w).mapFloats w.reread =
      .obj (j.fieldsWith w (j.payload.mapFloats w.reread) (.str j.state.name) (u32Value j.attempt)
        (.arr (j.backoffMs.map u64Value))) := by
    simp only [Job.toValue, Job.toFields, Value.mapFloats, Value.mapFields, u32Value, backoff,
      option]
    rfl
  have shallow : (j.toValue w).depth ≤ 127 := by
    rw [depth_toValue]
    omega
  rw [decode_eq_ok, Wire.encode, lawful.written, if_pos shallow, value]
  exact ⟨_, rfl, (Job.ofFields_fieldsWith_eq_ok lawful).mpr
    ⟨_, _, _, Read.state_name _, Read.u32_u32Value _, Read.list_u64 _, rfl⟩⟩

end RedisStore

end Servr
