import Servr.Lib.Double

/-! JSON values and the trip that they make through a Lua script: `cjson.decode` turns numbers into
doubles and an array or object without elements into the empty table, and `cjson.encode` writes the
empty table as an object and numbers with 14 significant digits.  `trip_eq_iff` says which values
come back as they were. -/

namespace Json

open Ieee

/-- A JSON number as a reader that tells integers from floats has it. -/
inductive Num
  | int (n : ℤ)
  | float (x : F64)
  deriving DecidableEq

/-- A JSON value.  The fields of an object are in the order of their keys, each key once. -/
inductive Value
  | null
  | bool (b : Bool)
  | num (n : Num)
  | str (s : String)
  | arr (elems : List Value)
  | obj (fields : List (String × Value))

mutual

def Value.depth : Value → ℕ
  | .null | .bool _ | .num _ | .str _ => 0
  | .arr elems => depthElems elems + 1
  | .obj fields => depthFields fields + 1

def Value.depthElems : List Value → ℕ
  | [] => 0
  | v :: rest => max v.depth (depthElems rest)

def Value.depthFields : List (String × Value) → ℕ
  | [] => 0
  | (_, v) :: rest => max v.depth (depthFields rest)

end

theorem depthElems_le_iff {n : ℕ} {elems : List Value} :
    Value.depthElems elems ≤ n ↔ ∀ v ∈ elems, v.depth ≤ n := by
  induction elems with
  | nil => simp [Value.depthElems]
  | cons v elems ih => simp [Value.depthElems, ih]

theorem depthFields_append (xs ys : List (String × Value)) :
    Value.depthFields (xs ++ ys) = max (Value.depthFields xs) (Value.depthFields ys) := by
  induction xs with
  | nil => simp [Value.depthFields]
  | cons x xs ih => simp [Value.depthFields, ih, max_assoc]

section Floats

variable (f : F64 → F64)

mutual

/-- Applies a function to the floats of a value. -/
def Value.mapFloats : Value → Value
  | .num (.float x) => .num (.float (f x))
  | .arr elems => .arr (mapElems elems)
  | .obj fields => .obj (mapFields fields)
  | v => v

def Value.mapElems : List Value → List Value
  | [] => []
  | v :: rest => v.mapFloats :: mapElems rest

def Value.mapFields : List (String × Value) → List (String × Value)
  | [] => []
  | (k, v) :: rest => (k, v.mapFloats) :: mapFields rest

end

end Floats

mutual

theorem mapFloats_id : ∀ v : Value, v.mapFloats id = v
  | .null | .bool _ | .str _ | .num (.int _) | .num (.float _) => by simp [Value.mapFloats]
  | .arr elems => by simp [Value.mapFloats, mapElems_id elems]
  | .obj fields => by simp [Value.mapFloats, mapFields_id fields]

theorem mapElems_id : ∀ elems : List Value, Value.mapElems id elems = elems
  | [] => rfl
  | v :: rest => by simp [Value.mapElems, mapFloats_id v, mapElems_id rest]

theorem mapFields_id : ∀ fields : List (String × Value), Value.mapFields id fields = fields
  | [] => rfl
  | (k, v) :: rest => by simp [Value.mapFields, mapFloats_id v, mapFields_id rest]

end

def field {α : Type} (name : String) : List (String × α) → Option α
  | [] => none
  | (k, v) :: rest => if k = name then some v else field name rest

/-- Sets a field where it stands, or as the last one. -/
def setField {α : Type} (name : String) (v : α) : List (String × α) → List (String × α)
  | [] => [(name, v)]
  | (k, w) :: rest => if k = name then (k, v) :: rest else (k, w) :: setField name v rest

/-- A Lua value as `cjson.decode` makes it.  A table of elements is never empty: an empty table has
no fields either. -/
inductive Lua
  | null
  | bool (b : Bool)
  | num (x : F64)
  | str (s : String)
  | list (elems : List Lua)
  | table (fields : List (String × Lua))

def Num.toF64 : Num → F64
  | .int n => .ofRat n
  | .float x => x

mutual

/-- `cjson.decode` on the text of a value. -/
def Lua.ofValue : Value → Lua
  | .null => .null
  | .bool b => .bool b
  | .num n => .num n.toF64
  | .str s => .str s
  | .arr [] => .table []
  | .arr (v :: rest) => .list (ofValue v :: ofElems rest)
  | .obj fields => .table (ofFields fields)

def Lua.ofElems : List Value → List Lua
  | [] => []
  | v :: rest => ofValue v :: ofElems rest

def Lua.ofFields : List (String × Value) → List (String × Lua)
  | [] => []
  | (k, v) :: rest => (k, ofValue v) :: ofFields rest

end

section Encode

/-! What a JSON reader makes of the text of `cjson.encode`, where `float` is how it reads a numeral
with a point or an exponent. -/

variable (float : Bool → ℕ → ℤ → F64)

def readNumeral : Numeral → Num
  | .integer false n => .int n
  | .integer true 0 => .float .negZero
  | .integer true n => .int (-n)
  | .decimal neg digits exp => .float (float neg digits exp)

mutual

def Lua.toValue : Lua → Value
  | .null => .null
  | .bool b => .bool b
  | .num x => .num (readNumeral float (fmt14g x))
  | .str s => .str s
  | .list elems => .arr (toElems elems)
  | .table fields => .obj (toFields fields)

def Lua.toElems : List Lua → List Value
  | [] => []
  | v :: rest => toValue v :: toElems rest

def Lua.toFields : List (String × Lua) → List (String × Value)
  | [] => []
  | (k, v) :: rest => (k, toValue v) :: toFields rest

end

/-- A number that 14 significant digits carry: an integer of at most 14 digits, or a float that they
print with a point or an exponent and that reads back as it was. -/
def Num.Survives : Num → Prop
  | .int n => |n| < 10 ^ 14
  | .float x => readNumeral float (fmt14g x) = .float x

mutual

/-- A value without empty arrays, all of whose numbers 14 significant digits carry. -/
def Value.Survives : Value → Prop
  | .null | .bool _ | .str _ => True
  | .num n => n.Survives float
  | .arr elems => elems ≠ [] ∧ SurviveElems elems
  | .obj fields => SurviveFields fields

def Value.SurviveElems : List Value → Prop
  | [] => True
  | v :: rest => v.Survives ∧ SurviveElems rest

def Value.SurviveFields : List (String × Value) → Prop
  | [] => True
  | (_, v) :: rest => v.Survives ∧ SurviveFields rest

end

/-- The trip of a value through a Lua table and back. -/
def Value.trip (v : Value) : Value := (Lua.ofValue v).toValue float

theorem readNumeral_small {n : ℤ} (h : |n| < 10 ^ 14) :
    readNumeral float (fmt14g (.ofRat n)) = .int n := by
  have hmag : (F64.ofRat n).mag = (n.natAbs : ℕ) := by
    rw [F64.mag_ofRat_intCast (h.le.trans (by norm_num)), Nat.cast_natAbs, Int.cast_abs]
  have habs : n.natAbs < 10 ^ 14 := by
    rw [Int.abs_eq_natAbs] at h
    exact_mod_cast h
  have hneg : (F64.ofRat n).neg = decide (n < 0) := by simp [F64.ofRat]
  rw [fmt14g_of_lt hmag habs, hneg]
  rcases lt_or_ge n 0 with neg | pos
  · obtain ⟨k, hk⟩ : ∃ k, n.natAbs = k + 1 := ⟨n.natAbs - 1, by omega⟩
    rw [decide_eq_true neg, hk]
    simp only [readNumeral, Num.int.injEq]
    omega
  · rw [decide_eq_false (by omega)]
    simp only [readNumeral, Num.int.injEq]
    omega

/-- An integer of 15 digits or more comes back as a float. -/
theorem readNumeral_large {n : ℤ} (h : 10 ^ 14 ≤ |n|) :
    ∃ x, readNumeral float (fmt14g (.ofRat n)) = .float x := by
  obtain ⟨d, e, hd⟩ := fmt14g_of_ge (F64.mag_ofRat_ge h)
  exact ⟨_, by rw [hd, readNumeral]⟩

theorem num_trip_eq_iff (n : Num) :
    readNumeral float (fmt14g n.toF64) = n ↔ n.Survives float := by
  cases n with
  | int n =>
    simp only [Num.toF64, Num.Survives]
    constructor
    · intro same
      by_contra large
      obtain ⟨x, hx⟩ := readNumeral_large float (not_lt.mp large)
      rw [hx] at same
      contradiction
    · exact readNumeral_small float
  | float x => rfl

mutual

/-- The trip keeps the nesting: an empty array is an empty object afterwards. -/
theorem depth_trip : ∀ v : Value, (v.trip float).depth = v.depth
  | .null | .bool _ | .str _ | .num _ => by
    simp [Value.trip, Lua.ofValue, Lua.toValue, Value.depth]
  | .arr [] => by
    simp [Value.trip, Lua.ofValue, Lua.toValue, Lua.toFields, Value.depth, Value.depthElems,
      Value.depthFields]
  | .arr (v :: rest) => by
    have head := depth_trip v
    have tail := depth_trip_elems rest
    rw [Value.trip] at head
    simp [Value.trip, Lua.ofValue, Lua.toValue, Lua.toElems, Value.depth, Value.depthElems,
      head, tail]
  | .obj fields => by
    simp [Value.trip, Lua.ofValue, Lua.toValue, Value.depth, depth_trip_fields fields]

theorem depth_trip_elems : ∀ elems : List Value,
    Value.depthElems (Lua.toElems float (Lua.ofElems elems)) = Value.depthElems elems
  | [] => rfl
  | v :: rest => by
    have head := depth_trip v
    have tail := depth_trip_elems rest
    rw [Value.trip] at head
    simp [Lua.ofElems, Lua.toElems, Value.depthElems, head, tail]

theorem depth_trip_fields : ∀ fields : List (String × Value),
    Value.depthFields (Lua.toFields float (Lua.ofFields fields)) = Value.depthFields fields
  | [] => rfl
  | (k, v) :: rest => by
    have head := depth_trip v
    have tail := depth_trip_fields rest
    rw [Value.trip] at head
    simp [Lua.ofFields, Lua.toFields, Value.depthFields, head, tail]

end

mutual

theorem trip_eq_iff : ∀ v : Value, v.trip float = v ↔ v.Survives float
  | .null | .bool _ | .str _ => by simp [Value.trip, Lua.ofValue, Lua.toValue, Value.Survives]
  | .num n => by
    simpa [Value.trip, Lua.ofValue, Lua.toValue, Value.Survives] using num_trip_eq_iff float n
  | .arr [] => by simp [Value.trip, Lua.ofValue, Lua.toValue, Lua.toFields, Value.Survives]
  | .arr (v :: rest) => by
    have head := trip_eq_iff v
    have tail := trip_elems_eq_iff rest
    rw [Value.trip] at head
    simp [Value.trip, Lua.ofValue, Lua.toValue, Lua.toElems, Value.Survives, Value.SurviveElems,
      head, tail]
  | .obj fields => by
    simp [Value.trip, Lua.ofValue, Lua.toValue, Value.Survives, trip_fields_eq_iff fields]

theorem trip_elems_eq_iff : ∀ elems : List Value,
    Lua.toElems float (Lua.ofElems elems) = elems ↔ Value.SurviveElems float elems
  | [] => by simp [Lua.ofElems, Lua.toElems, Value.SurviveElems]
  | v :: rest => by
    have head := trip_eq_iff v
    have tail := trip_elems_eq_iff rest
    rw [Value.trip] at head
    simp [Lua.ofElems, Lua.toElems, Value.SurviveElems, head, tail]

theorem trip_fields_eq_iff : ∀ fields : List (String × Value),
    Lua.toFields float (Lua.ofFields fields) = fields ↔ Value.SurviveFields float fields
  | [] => by simp [Lua.ofFields, Lua.toFields, Value.SurviveFields]
  | (k, v) :: rest => by
    have head := trip_eq_iff v
    have tail := trip_fields_eq_iff rest
    rw [Value.trip] at head
    simp [Lua.ofFields, Lua.toFields, Value.SurviveFields, head, tail]

end

end Encode

end Json
