import Mathlib.Data.Int.Order.Basic
import Mathlib.Order.Basic
import Servr.Rust

/-! Points in time as `chrono::DateTime<Utc>` has them, with the additions of milliseconds that
panic out of range. -/

namespace Servr

/-- The nanoseconds since the epoch of the first and the last `DateTime<Utc>`: the start of the
year -262143 and the end of the year 262142. -/
def minNanos : Int := -8334601228800000000000
def maxNanos : Int := 8210266876799999999999

/-- A `DateTime<Utc>`: nanoseconds since the epoch, in chrono's range, leap seconds left out. -/
@[ext] structure DateTime where
  nanos : Int
  low : minNanos ≤ nanos
  high : nanos ≤ maxNanos
  deriving DecidableEq, Repr

namespace DateTime

instance : LinearOrder DateTime := LinearOrder.lift' nanos fun _ _ h => DateTime.ext h

theorem le_iff {t u : DateTime} : t ≤ u ↔ t.nanos ≤ u.nanos := Iff.rfl

def unixEpoch : DateTime := ⟨0, by decide, by decide⟩

/-- `timestamp_millis()`: whole milliseconds since the epoch, rounded down. -/
def timestampMillis (t : DateTime) : Int := t.nanos / 1000000

theorem timestampMillis_mono {t u : DateTime} (h : t ≤ u) :
    t.timestampMillis ≤ u.timestampMillis :=
  Int.ediv_le_ediv (by decide) h

/-- Every timestamp in milliseconds is an integer that a double holds exactly. -/
theorem timestampMillis_bound (t : DateTime) : |t.timestampMillis| ≤ 2 ^ 53 := by
  have low := t.low
  have high := t.high
  simp only [minNanos, maxNanos] at low high
  rw [timestampMillis, abs_le]
  constructor <;> norm_num <;> omega

/-- `t + TimeDelta::milliseconds(ms)`, where `none` is the panic of a sum out of range.  The one
`i64` that `TimeDelta::milliseconds` itself refuses, `i64::MIN`, is out of range for every `t`. -/
def addMillis (t : DateTime) (ms : Int) : Option DateTime :=
  if h : minNanos ≤ t.nanos + ms * 1000000 ∧ t.nanos + ms * 1000000 ≤ maxNanos then
    some ⟨t.nanos + ms * 1000000, h.1, h.2⟩
  else none

theorem addMillis_eq_some {t u : DateTime} {ms : Int} :
    t.addMillis ms = some u ↔ u.nanos = t.nanos + ms * 1000000 := by
  unfold addMillis
  constructor
  · intro h
    split at h
    · cases h; rfl
    · contradiction
  · intro h
    rw [dif_pos ⟨h ▸ u.low, h ▸ u.high⟩]
    exact congrArg some (DateTime.ext h.symm)

/-- The time `ms` milliseconds after `t` is one that chrono holds. -/
def HasRoom (t : DateTime) (ms : Nat) : Prop := t.nanos + ms * 1000000 ≤ maxNanos

instance (t : DateTime) (ms : Nat) : Decidable (t.HasRoom ms) := inferInstanceAs (Decidable (_ ≤ _))

theorem HasRoom.mono {t : DateTime} {m n : Nat} (h : t.HasRoom n) (le : m ≤ n) : t.HasRoom m := by
  unfold HasRoom at h ⊢
  omega

theorem HasRoom.lt {t : DateTime} {ms : Nat} (h : t.HasRoom ms) : ms < 2 ^ 63 := by
  have low := t.low
  simp only [HasRoom, minNanos, maxNanos] at h low
  omega

/-- `u` is the time exactly `ms` milliseconds after `t`, and so not before it. -/
structure After (t : DateTime) (ms : Nat) (u : DateTime) : Prop where
  exact : u.nanos = t.nanos + ms * 1000000
  notBefore : t ≤ u

theorem after_of_nanos {t u : DateTime} {ms : Nat} (h : u.nanos = t.nanos + ms * 1000000) :
    t.After ms u := ⟨h, le_iff.mpr (by omega)⟩

theorem After.hasRoom {t u : DateTime} {ms : Nat} (h : t.After ms u) : t.HasRoom ms := by
  have high := u.high
  rwa [h.exact] at high

theorem HasRoom.addMillis {t : DateTime} {ms : Nat} (h : t.HasRoom ms) :
    ∃ u, t.addMillis (asI64 ms) = some u ∧ t.After ms u := by
  have low := t.low
  have fits : InI64 ms := ⟨by omega, by exact_mod_cast h.lt⟩
  let u : DateTime := ⟨t.nanos + ms * 1000000, by omega, h⟩
  refine ⟨u, ?_, after_of_nanos rfl⟩
  rw [asI64_of_mem fits, addMillis_eq_some]

end DateTime

end Servr
