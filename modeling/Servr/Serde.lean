import Servr.Lib.Cjson
import Servr.Lib.Results
import Servr.Rust

/-! Reading and writing the fields of a struct as serde's derives do it over JSON. -/

namespace Servr

open Ieee Json

/-! ### Writing -/

def u32Value (n : UInt32) : Value := .num (.int n.toNat)

def u64Value (n : UInt64) : Value := .num (.int n.toNat)

def optionValue {α : Type} (write : α → Value) : Option α → Value
  | none => .null
  | some a => write a

def u16Value (n : UInt16) : Value := .num (.int n.toNat)

def i64Value (n : Int64) : Value := .num (.int n.toInt)

/-- A float, for which `serde_json` writes `null` where JSON has no numeral. -/
def f64Value : Double → Value
  | .finite x => .num (.float x)
  | .infinite _ | .nan => .null

/-- A field that is left out where it is `None`. -/
def unlessNone {α : Type} (name : String) (write : α → Value) (o : Option α) :
    List (String × Value) :=
  match o with
  | none => []
  | some a => [(name, write a)]

/-- A flag that is left out where it is `false`. -/
def unlessFalse (name : String) (b : Bool) : List (String × Value) :=
  if b then [(name, .bool true)] else []

/-! ### Reading -/

/-- What reading gives: the value, an error, or a panic. -/
abbrev Read (α : Type) := Except (Fault Unit) α

namespace Read

def invalid {α : Type} : Read α := .error (.err ())

def ofOption {α : Type} : Option α → Read α
  | none => invalid
  | some a => .ok a

def string : Value → Read String
  | .str s => .ok s
  | _ => invalid

def bool : Value → Read Bool
  | .bool b => .ok b
  | _ => invalid

def natBelow (bound : Nat) : Value → Read Nat
  | .num (.int n) => if 0 ≤ n ∧ n < bound then .ok n.toNat else invalid
  | _ => invalid

def u16 (v : Value) : Read UInt16 := (natBelow (2 ^ 16) v).map UInt16.ofNat

def u32 (v : Value) : Read UInt32 := (natBelow (2 ^ 32) v).map UInt32.ofNat

def u64 (v : Value) : Read UInt64 := (natBelow (2 ^ 64) v).map UInt64.ofNat

def i64 : Value → Read Int64
  | .num (.int n) => if InI64 n then .ok (Int64.ofInt n) else invalid
  | _ => invalid

def f64 : Value → Read Double
  | .num (.int n) => .ok (.finite (.ofRat n))
  | .num (.float x) => .ok (.finite x)
  | _ => invalid

def list {α : Type} (read : Value → Read α) : Value → Read (List α)
  | .arr elems => elems.mapM read
  | _ => invalid

def required {α : Type} (read : Value → Read α) (name : String) (fields : List (String × Value)) :
    Read α :=
  match field name fields with
  | none => invalid
  | some v => read v

def optional {α : Type} (read : Value → Read α) (name : String) (fields : List (String × Value)) :
    Read (Option α) :=
  match field name fields with
  | none | some .null => .ok none
  | some v => (read v).map some

/-- A field under `#[serde(default)]`. -/
def orDefault {α : Type} (read : Value → Read α) (default : α) (name : String)
    (fields : List (String × Value)) : Read α :=
  match field name fields with
  | none => .ok default
  | some v => read v

end Read

/-! ### What reads back -/

theorem Read.natBelow_natCast {bound n : Nat} (h : n < bound) :
    Read.natBelow bound (.num (.int n)) = .ok n := by
  rw [Read.natBelow, if_pos (by omega), Int.toNat_natCast]

@[simp] theorem Read.u16_u16Value (n : UInt16) : Read.u16 (u16Value n) = .ok n := by
  rw [Read.u16, u16Value, Read.natBelow_natCast n.toNat_lt, Except.map, UInt16.ofNat_toNat]

@[simp] theorem Read.u32_u32Value (n : UInt32) : Read.u32 (u32Value n) = .ok n := by
  rw [Read.u32, u32Value, Read.natBelow_natCast n.toNat_lt, Except.map, UInt32.ofNat_toNat]

@[simp] theorem Read.u64_u64Value (n : UInt64) : Read.u64 (u64Value n) = .ok n := by
  rw [Read.u64, u64Value, Read.natBelow_natCast n.toNat_lt, Except.map, UInt64.ofNat_toNat]

@[simp] theorem Read.i64_i64Value (n : Int64) : Read.i64 (i64Value n) = .ok n := by
  have low := n.le_toInt
  have high := n.toInt_lt
  unfold Read.i64 i64Value
  dsimp only
  rw [if_pos ⟨low, high⟩, Int64.ofInt_toInt]

/-- A float reads back exactly if it is finite, and otherwise fails to read. -/
theorem Read.f64_f64Value (x : Double) :
    Read.f64 (f64Value x) = if x.IsFinite then .ok x else Read.invalid := by
  cases x <;> rfl

@[simp] theorem Read.list_u64 (ns : List UInt64) :
    Read.list Read.u64 (.arr (ns.map u64Value)) = .ok ns :=
  (Results.mapM_map_eq_ok (P := fun _ => True) (by simp [eq_comm])).mpr ⟨rfl, fun _ _ => trivial⟩

theorem Read.required_eq {α : Type} {read : Value → Read α} {name : String}
    {fields : List (String × Value)} {v : Value} (h : field name fields = some v) :
    Read.required read name fields = read v := by
  rw [Read.required, h]

@[simp] theorem field_append {α : Type} (name : String) (xs ys : List (String × α)) :
    field name (xs ++ ys) = (field name xs).or (field name ys) := by
  induction xs with
  | nil => rfl
  | cons x xs ih =>
    simp only [List.cons_append, field]
    split
    · rfl
    · exact ih

@[simp] theorem field_unlessNone {α : Type} (name other : String) (write : α → Value)
    (o : Option α) :
    field name (unlessNone other write o) = if other = name then o.map write else none := by
  cases o <;> simp [unlessNone, field]

@[simp] theorem field_unlessFalse (name other : String) (b : Bool) :
    field name (unlessFalse other b) =
      if other = name then (if b then some (.bool true) else none) else none := by
  cases b <;> simp [unlessFalse, field]

/-- An optional field that is written unless it is `None` is absent or reads what was written. -/
theorem Read.optional_map {α : Type} {read : Value → Read α} {write : α → Value} {name : String}
    {fields : List (String × Value)} {o : Option α} (h : field name fields = o.map write)
    (value : ∀ a, write a ≠ .null) :
    Read.optional read name fields =
      match o with
      | none => .ok none
      | some a => (read (write a)).map some := by
  cases o with
  | none => simp [Read.optional, h]
  | some a =>
    have present := value a
    simp only [Read.optional, h, Option.map_some]

/-- Reading an optional field that is written unless it is `None`. -/
theorem Read.optional_map_eq_ok {α : Type} {read : Value → Read α} {write : α → Value}
    {P : α → Prop} {name : String} {fields : List (String × Value)} {o o' : Option α}
    (h : field name fields = o.map write) (value : ∀ a, write a ≠ .null)
    (back : ∀ a a', read (write a) = .ok a' ↔ a' = a ∧ P a) :
    Read.optional read name fields = .ok o' ↔ o' = o ∧ ∀ a ∈ o, P a := by
  rw [Read.optional_map h value]
  cases o with
  | none => simp [eq_comm]
  | some a =>
    dsimp only
    cases given : read (write a) with
    | error e =>
      have refused : ¬P a := fun holds => by simp [(back a a).mpr ⟨rfl, holds⟩] at given
      simp [Except.map, refused]
    | ok b =>
      obtain ⟨rfl, holds⟩ := (back a b).mp given
      simp [Except.map, holds, eq_comm]

theorem Read.guarded_eq_ok {α : Type} {p : Prop} [Decidable p] {a a' : α} :
    (if p then .ok a else Read.invalid) = .ok a' ↔ a' = a ∧ p := by
  split <;> simp_all [Read.invalid, eq_comm]

theorem Read.optional_back {α : Type} {read : Value → Read α} {write : α → Value} {name : String}
    {fields : List (String × Value)} {o : Option α} (h : field name fields = o.map write)
    (value : ∀ a, write a ≠ .null) (back : ∀ a, read (write a) = .ok a) :
    Read.optional read name fields = .ok o := by
  rw [Read.optional_map h value]
  cases o with
  | none => rfl
  | some a => simp [back, Except.map]

theorem Read.optional_string_written {name : String} {fields : List (String × Value)}
    {o : Option String} (h : field name fields = o.map .str) :
    Read.optional Read.string name fields = .ok o :=
  Read.optional_back h (by simp) fun _ => rfl

theorem Read.orDefault_eq {α : Type} {read : Value → Read α} {default : α} {name : String}
    {fields : List (String × Value)} {v : Value} (h : field name fields = some v) :
    Read.orDefault read default name fields = read v := by
  rw [Read.orDefault, h]

theorem Read.orDefault_unlessFalse {name : String} {fields : List (String × Value)} {b : Bool}
    (h : field name fields = if b then some (.bool true) else none) :
    Read.orDefault Read.bool false name fields = .ok b := by
  cases b <;> simp_all [Read.orDefault, Read.bool]

theorem Read.optional_string {name : String} {fields : List (String × Value)} {s : Option String}
    (h : field name fields = some (optionValue .str s)) :
    Read.optional Read.string name fields = .ok s := by
  cases s <;> simp [Read.optional, h, optionValue, Read.string, Except.map]

end Servr
