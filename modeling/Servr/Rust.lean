import Mathlib.Tactic.NormNum
import Mathlib.Tactic.Ring

/-! What the code uses of Rust's language and standard library: the conversions of 64-bit integers,
failures apart from panics, and slices and hexadecimal digits of a `str`. -/

namespace Servr

/-! ### 64-bit integers -/

def InI64 (x : Int) : Prop := -2 ^ 63 ≤ x ∧ x < 2 ^ 63

instance (x : Int) : Decidable (InI64 x) := inferInstanceAs (Decidable (_ ∧ _))

/-- `x as i64`, and the wrapping of `i64` arithmetic: the low 64 bits in two's complement. -/
def asI64 (x : Int) : Int := x.bmod (2 ^ 64)

/-- `i64::try_from(n).unwrap_or(i64::MAX)`. -/
def saturatingI64 (n : Nat) : Int := min n (2 ^ 63 - 1)

theorem asI64_of_mem {x : Int} (h : InI64 x) : asI64 x = x := by
  obtain ⟨low, high⟩ := h
  exact Int.bmod_eq_of_le (by norm_num at low ⊢; omega) (by norm_num at high ⊢; omega)

theorem saturatingI64_mono {m n : Nat} (h : m ≤ n) : saturatingI64 m ≤ saturatingI64 n := by
  simp only [saturatingI64]; omega

theorem saturatingI64_nonneg (n : Nat) : 0 ≤ saturatingI64 n := by
  simp only [saturatingI64]; omega

/-! ### Failures -/

/-- How a call ends that returns no value: with `Err`, or with a panic. -/
inductive Fault (ε : Type)
  | err (e : ε)
  | panic
  deriving DecidableEq, Repr

/-! ### Strings -/

/-- `s.len()`, the number of bytes of a `str`. -/
def byteLen (cs : List Char) : Nat := (cs.map Char.utf8Size).sum

/-- The first `n` bytes of a `str` and the rest, or `none` where slicing there panics: past the end,
or inside a character. -/
def splitBytes : Nat → List Char → Option (List Char × List Char)
  | 0, cs => some ([], cs)
  | _ + 1, [] => none
  | n + 1, c :: cs =>
    if c.utf8Size ≤ n + 1 then (splitBytes (n + 1 - c.utf8Size) cs).map fun (a, b) => (c :: a, b)
    else none

def hexValue (c : Char) : Option Nat :=
  if '0' ≤ c ∧ c ≤ '9' then some (c.toNat - '0'.toNat)
  else if 'a' ≤ c ∧ c ≤ 'f' then some (c.toNat - 'a'.toNat + 10)
  else if 'A' ≤ c ∧ c ≤ 'F' then some (c.toNat - 'A'.toNat + 10)
  else none

/-- `u8::from_str_radix(s, 16)`, which takes a sign `+` before the digits. -/
def u8FromHex (cs : List Char) : Option UInt8 :=
  let digits := match cs with
    | '+' :: c :: rest => c :: rest
    | cs => cs
  if digits = [] then none
  else do
    let n ← digits.foldlM (fun acc c => do
      let n := 16 * acc + (← hexValue c)
      if n < 256 then some n else none) 0
    return UInt8.ofNat n

/-- `{byte:02x}`. -/
def hexByte (b : UInt8) : List Char :=
  [Nat.digitChar (b.toNat / 16), Nat.digitChar (b.toNat % 16)]

/-- A character inside `{:?}` of a `str`.  Rust also escapes what Unicode calls unprintable or
combining beyond ASCII, which stays as it is here. -/
def debugChar (c : Char) : List Char :=
  if c.toNat = 0x22 ∨ c.toNat = 0x5c then [Char.ofNat 0x5c, c]
  else if c.toNat = 0 then [Char.ofNat 0x5c, '0']
  else if c.toNat = 9 then [Char.ofNat 0x5c, 't']
  else if c.toNat = 10 then [Char.ofNat 0x5c, 'n']
  else if c.toNat = 13 then [Char.ofNat 0x5c, 'r']
  else if c.toNat < 32 ∨ c.toNat = 127 then
    [Char.ofNat 0x5c, 'u', Char.ofNat 0x7b] ++ Nat.toDigits 16 c.toNat ++ [Char.ofNat 0x7d]
  else [c]

def debugStr (s : String) : String :=
  String.ofList ([Char.ofNat 0x22] ++ s.toList.flatMap debugChar ++ [Char.ofNat 0x22])

theorem hexValue_digitChar : ∀ n < 16, hexValue (Nat.digitChar n) = some n := by decide

theorem utf8Size_digitChar : ∀ n < 16, (Nat.digitChar n).utf8Size = 1 := by decide

theorem digitChar_ne_plus : ∀ n < 16, Nat.digitChar n ≠ '+' := by decide

theorem u8FromHex_unsigned {c : Char} (unsigned : c ≠ '+') (cs : List Char) :
    u8FromHex (c :: cs) = ((c :: cs).foldlM (fun acc c => do
      let n := 16 * acc + (← hexValue c)
      if n < 256 then some n else none) 0).map UInt8.ofNat := by
  have digits : (match c :: cs with
    | '+' :: c :: rest => c :: rest
    | cs => cs) = c :: cs := by
    split
    · rename_i h
      injection h with h
      contradiction
    · rfl
  unfold u8FromHex
  rw [digits, Option.map_eq_bind]
  exact if_neg (List.cons_ne_nil c cs)

theorem u8FromHex_hexByte (b : UInt8) : u8FromHex (hexByte b) = some b := by
  have hb := b.toNat_lt
  have hi : b.toNat / 16 < 16 := by omega
  have lo : b.toNat % 16 < 16 := by omega
  have low : 16 * 0 + b.toNat / 16 < 256 := by omega
  have byte : 16 * (16 * 0 + b.toNat / 16) + b.toNat % 16 = b.toNat := by omega
  rw [hexByte, u8FromHex_unsigned (digitChar_ne_plus _ hi)]
  simp only [List.foldlM_cons, List.foldlM_nil, hexValue_digitChar _ hi, hexValue_digitChar _ lo,
    Option.bind_eq_bind, Option.bind_some, low, if_true, byte, hb, Option.pure_def,
    Option.map_some, UInt8.ofNat_toNat]

theorem splitBytes_hexByte (b : UInt8) (cs : List Char) :
    splitBytes 2 (hexByte b ++ cs) = some (hexByte b, cs) := by
  have hb := b.toNat_lt
  simp [hexByte, splitBytes, utf8Size_digitChar _ (show b.toNat / 16 < 16 by omega),
    utf8Size_digitChar _ (show b.toNat % 16 < 16 by omega)]

theorem byteLen_hexByte (b : UInt8) : byteLen (hexByte b) = 2 := by
  have hb := b.toNat_lt
  simp [hexByte, byteLen, utf8Size_digitChar _ (show b.toNat / 16 < 16 by omega),
    utf8Size_digitChar _ (show b.toNat % 16 < 16 by omega)]

theorem byteLen_cons (c : Char) (cs : List Char) :
    byteLen (c :: cs) = c.utf8Size + byteLen cs := by
  simp [byteLen]

theorem byteLen_append (cs ds : List Char) : byteLen (cs ++ ds) = byteLen cs + byteLen ds := by
  simp [byteLen]

end Servr
