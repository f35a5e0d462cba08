import Mathlib.Algebra.Order.Floor.Ring
import Mathlib.Data.Int.Log
import Mathlib.Data.Rat.Floor
import Mathlib.Tactic.FieldSimp
import Mathlib.Tactic.Linarith
import Mathlib.Tactic.Positivity
import Mathlib.Tactic.Ring

/-! Double-precision numbers as the rationals that they hold: rounding to the nearest double with
ties to even, and the numerals that C prints for `%.14g`.  The largest exponent is left out, so
nothing overflows. -/

namespace Ieee

/-- The nearest integer, the even one of two that are equally near. -/
def roundEven (q : ℚ) : ℤ :=
  if q - ⌊q⌋ < 1 / 2 ∨ q - ⌊q⌋ = 1 / 2 ∧ ⌊q⌋ % 2 = 0 then ⌊q⌋ else ⌊q⌋ + 1

@[simp] theorem roundEven_intCast (n : ℤ) : roundEven n = n := by
  simp [roundEven]

theorem le_roundEven {n : ℤ} {q : ℚ} (h : (n : ℚ) ≤ q) : n ≤ roundEven q := by
  have low : n ≤ ⌊q⌋ := Int.le_floor.mpr h
  unfold roundEven
  split <;> omega

theorem roundEven_le {n : ℤ} {q : ℚ} (h : q ≤ n) : roundEven q ≤ n := by
  have below := Int.floor_le q
  unfold roundEven
  split
  · exact_mod_cast below.trans h
  · rename_i up
    by_contra large
    have same : ⌊q⌋ = n := by
      have : ⌊q⌋ ≤ n := by exact_mod_cast below.trans h
      omega
    rw [same] at below up
    exact up (.inl (by linarith))

/-- The exponent of the last place of the double nearest to `q`. -/
def ulp (q : ℚ) : ℤ := max (Int.log 2 |q| - 52) (-1074)

/-- The double nearest to `q`. -/
def toDouble (q : ℚ) : ℚ := roundEven (q / 2 ^ ulp q) * 2 ^ ulp q

theorem two_zpow_pos (e : ℤ) : (0 : ℚ) < 2 ^ e := zpow_pos (by norm_num) e

theorem two_zpow_add (d e : ℤ) : (2 : ℚ) ^ (d + e) = 2 ^ d * 2 ^ e := zpow_add₀ (by norm_num) d e

/-- A number of 53 significant bits, with an exponent in range, is an integer in units of its own
last place. -/
theorem bits_div_ulp {m e : ℤ} (hm : |m| ≤ 2 ^ 53) (he : -1074 ≤ e) :
    ∃ k : ℤ, (m * 2 ^ e : ℚ) / 2 ^ ulp (m * 2 ^ e) = k := by
  rcases eq_or_ne m 0 with rfl | hne
  · exact ⟨0, by simp⟩
  have habs : |(m : ℚ) * 2 ^ e| = |(m : ℚ)| * 2 ^ e := by
    rw [abs_mul, abs_of_pos (two_zpow_pos e)]
  have hpos : 0 < |(m : ℚ) * 2 ^ e| :=
    habs ▸ mul_pos (abs_pos.mpr (Int.cast_ne_zero.mpr hne)) (two_zpow_pos e)
  rcases hm.lt_or_eq with lt | eq
  · have hlog : Int.log 2 |(m : ℚ) * 2 ^ e| < 53 + e := by
      rw [← Int.lt_zpow_iff_log_lt (by norm_num) hpos, habs, Nat.cast_ofNat, two_zpow_add]
      have : |(m : ℚ)| < 2 ^ (53 : ℤ) := by exact_mod_cast lt
      exact mul_lt_mul_of_pos_right this (two_zpow_pos e)
    have hle : ulp (m * 2 ^ e) ≤ e := by unfold ulp; omega
    obtain ⟨n, hn⟩ := Int.eq_ofNat_of_zero_le (Int.sub_nonneg.mpr hle)
    refine ⟨m * 2 ^ n, ?_⟩
    have split : (2 : ℚ) ^ e = 2 ^ n * 2 ^ ulp (m * 2 ^ e) := by
      rw [← zpow_natCast, ← hn, ← two_zpow_add, sub_add_cancel]
    rw [div_eq_iff (two_zpow_pos _).ne']
    push_cast
    rw [mul_assoc, ← split]
  · have hlog : Int.log 2 |(m : ℚ) * 2 ^ e| = 53 + e := by
      have hm' : |(m : ℚ)| = 2 ^ (53 : ℤ) := by exact_mod_cast eq
      rw [habs, hm', ← two_zpow_add]
      exact_mod_cast Int.log_zpow (R := ℚ) (b := 2) (by norm_num) (53 + e)
    have hulp : ulp (m * 2 ^ e) = e + 1 := by unfold ulp; omega
    obtain ⟨k, rfl⟩ : ∃ k, m = k * 2 := by
      rcases (abs_eq (by norm_num)).mp eq with h | h
      · exact ⟨2 ^ 52, by rw [h]; norm_num⟩
      · exact ⟨-(2 ^ 52), by rw [h]; norm_num⟩
    refine ⟨k, ?_⟩
    rw [hulp, div_eq_iff (two_zpow_pos _).ne', two_zpow_add]
    push_cast
    ring

theorem toDouble_of_bits {m e : ℤ} (hm : |m| ≤ 2 ^ 53) (he : -1074 ≤ e) :
    toDouble (m * 2 ^ e) = m * 2 ^ e := by
  obtain ⟨k, hk⟩ := bits_div_ulp hm he
  rw [toDouble, hk, roundEven_intCast, ← hk, div_mul_cancel₀ _ (two_zpow_pos _).ne']

theorem toDouble_intCast {n : ℤ} (h : |n| ≤ 2 ^ 53) : toDouble n = n := by
  simpa using toDouble_of_bits h (e := 0) (by norm_num)

theorem abs_div_ulp_le (q : ℚ) : |q / 2 ^ ulp q| ≤ 2 ^ (53 : ℤ) := by
  have hlt := Int.lt_zpow_succ_log_self (b := 2) (by norm_num) |q|
  rw [abs_div, abs_of_pos (two_zpow_pos _), div_le_iff₀ (two_zpow_pos _), ← two_zpow_add]
  apply hlt.le.trans
  rw [Nat.cast_ofNat]
  exact zpow_le_zpow_right₀ (by norm_num) (by unfold ulp; omega)

theorem toDouble_toDouble (q : ℚ) : toDouble (toDouble q) = toDouble q := by
  have bound := abs_le.mp (abs_div_ulp_le q)
  refine toDouble_of_bits (abs_le.mpr ⟨le_roundEven ?_, roundEven_le ?_⟩) (by unfold ulp; omega)
  · exact_mod_cast bound.1
  · exact_mod_cast bound.2

theorem toDouble_nonneg {q : ℚ} (h : 0 ≤ q) : 0 ≤ toDouble q := by
  have hround : 0 ≤ roundEven (q / 2 ^ ulp q) := by
    apply le_roundEven
    rw [Int.cast_zero]
    exact div_nonneg h (two_zpow_pos _).le
  exact mul_nonneg (by exact_mod_cast hround) (two_zpow_pos _).le

theorem two_pow_le_toDouble {q : ℚ} (h : 2 ^ (53 : ℤ) ≤ q) : 2 ^ (53 : ℤ) ≤ toDouble q := by
  have hq : 0 < q := lt_of_lt_of_le (two_zpow_pos _) h
  have hlog : 53 ≤ Int.log 2 q := (Int.zpow_le_iff_le_log (by norm_num) hq).mp (by exact_mod_cast h)
  have hulp : ulp q = Int.log 2 q - 52 := by unfold ulp; rw [abs_of_pos hq]; omega
  have hsplit : (2 : ℚ) ^ Int.log 2 q = (2 ^ 52 : ℤ) * 2 ^ ulp q := by
    rw [hulp, show Int.log 2 q = 52 + (Int.log 2 q - 52) by omega, two_zpow_add]
    norm_num
  have hlow : (2 ^ 52 : ℤ) ≤ roundEven (q / 2 ^ ulp q) := by
    apply le_roundEven
    rw [le_div_iff₀ (two_zpow_pos _), ← hsplit]
    exact_mod_cast Int.zpow_log_le_self (b := 2) (by norm_num) hq
  calc (2 : ℚ) ^ (53 : ℤ) ≤ 2 ^ Int.log 2 q := zpow_le_zpow_right₀ (by norm_num) hlog
    _ = (2 ^ 52 : ℤ) * 2 ^ ulp q := hsplit
    _ ≤ toDouble q := mul_le_mul_of_nonneg_right (by exact_mod_cast hlow) (two_zpow_pos _).le

/-- A finite double: its sign and the rational that it holds without it. -/
@[ext] structure F64 where
  neg : Bool
  mag : ℚ
  nonneg : 0 ≤ mag
  double : toDouble mag = mag
  deriving DecidableEq

namespace F64

def value (x : F64) : ℚ := if x.neg then -x.mag else x.mag

def ofRat (q : ℚ) : F64 :=
  ⟨q < 0, toDouble |q|, toDouble_nonneg (abs_nonneg q), toDouble_toDouble _⟩

def negZero : F64 := ⟨true, 0, le_refl 0, by simpa using toDouble_intCast (n := 0) (by norm_num)⟩

theorem mag_ofRat_intCast {n : ℤ} (h : |n| ≤ 2 ^ 53) : (ofRat n).mag = |n| := by
  have := toDouble_intCast (n := |n|) (by rwa [abs_abs])
  simpa [ofRat] using this

theorem value_ofRat_intCast {n : ℤ} (h : |n| ≤ 2 ^ 53) : (ofRat n).value = n := by
  have hneg : (ofRat n).neg = decide (n < 0) := by simp [ofRat]
  rw [value, mag_ofRat_intCast h, hneg]
  rcases lt_or_ge n 0 with neg | pos
  · simp [neg, abs_of_neg neg]
  · simp [not_lt.mpr pos, abs_of_nonneg pos]

end F64

theorem F64.mag_ofRat_ge {n : ℤ} (h : 10 ^ 14 ≤ |n|) : 10 ^ 14 ≤ (F64.ofRat n).mag := by
  rcases le_or_gt |n| (2 ^ 53) with small | large
  · rw [F64.mag_ofRat_intCast small]
    exact_mod_cast h
  · have : (2 : ℚ) ^ (53 : ℤ) ≤ |(n : ℚ)| := by exact_mod_cast large.le
    exact le_trans (by norm_num) (two_pow_le_toDouble this)

/-- A double, with the values that are no numbers. -/
inductive Double
  | finite (x : F64)
  | infinite (neg : Bool)
  | nan
  deriving DecidableEq

def Double.IsFinite : Double → Prop
  | .finite _ => True
  | .infinite _ | .nan => False

instance (x : Double) : Decidable x.IsFinite := by
  cases x <;> simp only [Double.IsFinite] <;> infer_instance

namespace Double

/-- `x >= y`, which is false when either is no number. -/
def ge : Double → Double → Bool
  | .finite x, .finite y => decide (y.value ≤ x.value)
  | .infinite neg, .infinite neg' => !neg || neg'
  | .infinite neg, .finite _ => !neg
  | .finite _, .infinite neg => neg
  | .nan, _ | _, .nan => false

/-- `x * y`. -/
def mul : Double → Double → Double
  | .finite x, .finite y =>
    .finite ⟨x.neg != y.neg, toDouble (x.mag * y.mag),
      toDouble_nonneg (mul_nonneg x.nonneg y.nonneg), toDouble_toDouble _⟩
  | .infinite neg, .infinite neg' => .infinite (neg != neg')
  | .infinite neg, .finite x | .finite x, .infinite neg =>
    if x.mag = 0 then .nan else .infinite (neg != x.neg)
  | .nan, _ | _, .nan => .nan

/-- `x as uN`: the integer part of `x`, or the nearest of `0` and `max` where it is out of range. -/
def saturatingNat (max : ℕ) : Double → ℕ
  | .finite x => if x.neg then 0 else min ⌊x.mag⌋₊ max
  | .infinite neg => if neg then 0 else max
  | .nan => 0

end Double

/-! ### Numerals -/

/-- A numeral: the digits of an integer, or `digits * 10 ^ exp` written with a point or an
exponent. -/
inductive Numeral
  | integer (neg : Bool) (n : ℕ)
  | decimal (neg : Bool) (digits : ℕ) (exp : ℤ)
  deriving DecidableEq

/-- Drops up to `fuel` zeros at the end of the digits. -/
def dropZeros : ℕ → ℕ → ℤ → ℕ × ℤ
  | 0, digits, exp => (digits, exp)
  | fuel + 1, digits, exp =>
    if digits % 10 = 0 then dropZeros fuel (digits / 10) (exp + 1) else (digits, exp)

/-- The 14 significant digits of `q` and the decimal exponent of the first. -/
def digits14 (q : ℚ) : ℕ × ℤ :=
  let x := Int.log 10 q
  let d := (roundEven (q / 10 ^ (x - 13))).toNat
  if d = 10 ^ 14 then (10 ^ 13, x + 1) else (d, x)

/-- What `%.14g` prints: 14 significant digits less the zeros at the end, with an exponent when the
first digit has exponent 14 or more, or less than -4. -/
def fmt14g (x : F64) : Numeral :=
  if x.mag = 0 then .integer x.neg 0
  else
    let (d, e) := digits14 x.mag
    let (m, k) := dropZeros 14 d (e - 13)
    if -4 ≤ e ∧ e < 14 ∧ 0 ≤ k then .integer x.neg (m * 10 ^ k.toNat) else .decimal x.neg m k

theorem dropZeros_spec (fuel digits : ℕ) (exp : ℤ) :
    ∃ i : ℕ, (dropZeros fuel digits exp).2 = exp + i ∧
      (dropZeros fuel digits exp).1 * 10 ^ i = digits := by
  induction fuel generalizing digits exp with
  | zero => exact ⟨0, by simp [dropZeros], by simp [dropZeros]⟩
  | succ fuel ih =>
    unfold dropZeros
    split
    · rename_i zero
      obtain ⟨i, hexp, hdigits⟩ := ih (digits / 10) (exp + 1)
      refine ⟨i + 1, by rw [hexp]; push_cast; ring, ?_⟩
      rw [pow_succ, ← mul_assoc, hdigits]
      omega
    · exact ⟨0, by simp, by simp⟩

theorem dropZeros_scaled {fuel n j : ℕ} (h : j ≤ fuel) :
    ∃ i : ℕ, (dropZeros fuel (n * 10 ^ j) (-j)).2 = i ∧
      (dropZeros fuel (n * 10 ^ j) (-j)).1 * 10 ^ i = n := by
  induction j generalizing fuel with
  | zero => simpa using dropZeros_spec fuel n 0
  | succ j ih =>
    obtain ⟨fuel, rfl⟩ : ∃ f, fuel = f + 1 := ⟨fuel - 1, by omega⟩
    have hzero : n * 10 ^ (j + 1) % 10 = 0 := by
      rw [pow_succ, ← mul_assoc, Nat.mul_mod_left]
    have hdiv : n * 10 ^ (j + 1) / 10 = n * 10 ^ j := by
      rw [pow_succ, ← mul_assoc, Nat.mul_div_cancel _ (by norm_num)]
    have hexp : -((j + 1 : ℕ) : ℤ) + 1 = -(j : ℤ) := by push_cast; ring
    rw [dropZeros, if_pos hzero, hdiv, hexp]
    exact ih (by omega)

theorem digits14_natCast {n : ℕ} (hn : 0 < n) (h : n < 10 ^ 14) :
    digits14 n = (n * 10 ^ (13 - Nat.log 10 n), (Nat.log 10 n : ℤ)) := by
  have hlog : Nat.log 10 n ≤ 13 := Nat.lt_succ_iff.mp (Nat.log_lt_of_lt_pow hn.ne' h)
  have hscale : (n : ℚ) / 10 ^ (Int.log 10 (n : ℚ) - 13) =
      ((n * 10 ^ (13 - Nat.log 10 n) : ℕ) : ℤ) := by
    rw [Int.log_natCast, show (Nat.log 10 n : ℤ) - 13 = -((13 - Nat.log 10 n : ℕ) : ℤ) by omega,
      zpow_neg, div_inv_eq_mul, zpow_natCast]
    push_cast
    ring
  have hlt : n * 10 ^ (13 - Nat.log 10 n) < 10 ^ 14 := by
    calc n * 10 ^ (13 - Nat.log 10 n) < 10 ^ (Nat.log 10 n + 1) * 10 ^ (13 - Nat.log 10 n) :=
          Nat.mul_lt_mul_of_pos_right (Nat.lt_pow_succ_log_self (by norm_num) n) (by positivity)
      _ = 10 ^ 14 := by rw [← pow_add]; congr 1; omega
  rw [digits14, hscale, roundEven_intCast, Int.toNat_natCast, if_neg hlt.ne, Int.log_natCast]

/-- An integer below `10 ^ 14` is printed as its digits. -/
theorem fmt14g_of_lt {x : F64} {n : ℕ} (hx : x.mag = n) (h : n < 10 ^ 14) :
    fmt14g x = .integer x.neg n := by
  rcases Nat.eq_zero_or_pos n with rfl | hn
  · simp [fmt14g, hx]
  have hlog : Nat.log 10 n ≤ 13 := Nat.lt_succ_iff.mp (Nat.log_lt_of_lt_pow hn.ne' h)
  obtain ⟨i, hexp, hdigits⟩ := dropZeros_scaled (n := n) (show 13 - Nat.log 10 n ≤ 14 by omega)
  have hneg : (Nat.log 10 n : ℤ) - 13 = -((13 - Nat.log 10 n : ℕ) : ℤ) := by omega
  rw [← hneg] at hexp hdigits
  simp only [fmt14g, hx, Nat.cast_eq_zero, hn.ne', if_false, digits14_natCast hn h]
  rw [hexp, if_pos (by omega), Int.toNat_natCast, hdigits]

/-- A number of 15 digits or more before the point is printed with an exponent. -/
theorem fmt14g_of_ge {x : F64} (h : 10 ^ 14 ≤ x.mag) : ∃ d e, fmt14g x = .decimal x.neg d e := by
  have hpos : 0 < x.mag := lt_of_lt_of_le (by norm_num) h
  have hlog : 14 ≤ Int.log 10 x.mag :=
    (Int.zpow_le_iff_le_log (by norm_num) hpos).mp (by exact_mod_cast h)
  have hexp : 14 ≤ (digits14 x.mag).2 := by
    unfold digits14
    dsimp only
    split <;> dsimp only <;> omega
  rw [fmt14g, if_neg hpos.ne']
  dsimp only
  rw [if_neg (by omega)]
  exact ⟨_, _, rfl⟩

end Ieee
