import Mathlib.Data.List.DropRight
import Servr.Rust

/-! What the code uses of Rust's `str`, as a list of characters: white space, trimming, splitting,
decimal numbers, and the bytes in UTF-8; and the hexadecimal texts of the crate `hex`. -/

namespace Servr

/-! ### White space -/

/-- `char::is_whitespace`: the property `White_Space` of Unicode. -/
def isWhitespace (c : Char) : Bool :=
  let n := c.toNat
  (9 ≤ n && n ≤ 13) || n == 0x20 || n == 0x85 || n == 0xa0 || n == 0x1680 ||
    (0x2000 ≤ n && n ≤ 0x200a) || n == 0x2028 || n == 0x2029 || n == 0x202f || n == 0x205f ||
    n == 0x3000

def trimStart (cs : List Char) : List Char := cs.dropWhile isWhitespace

def trimEnd (cs : List Char) : List Char := cs.rdropWhile isWhitespace

def trim (cs : List Char) : List Char := trimEnd (trimStart cs)

theorem isWhitespace_ascii {c : Char} (h : 0x20 < c.toNat ∧ c.toNat < 0x80) :
    isWhitespace c = false := by
  obtain ⟨low, high⟩ := h
  simp only [isWhitespace, Bool.or_eq_false_iff, Bool.and_eq_false_iff, decide_eq_false_iff_not,
    beq_eq_false_iff_ne]
  omega

theorem trim_of_free {cs : List Char} (h : ∀ c ∈ cs, isWhitespace c = false) : trim cs = cs := by
  have start : trimStart cs = cs := by
    cases cs with
    | nil => rfl
    | cons c cs => exact List.dropWhile_cons_of_neg (by simp [h c List.mem_cons_self])
  rw [trim, start, trimEnd, List.rdropWhile_eq_self_iff]
  intro ne
  simp [h _ (List.getLast_mem ne)]

/-! ### Case -/

/-- `s.to_ascii_lowercase()`. -/
def asciiLowercase (cs : List Char) : List Char := cs.map Char.toLower

/-- `s.eq_ignore_ascii_case(t)`. -/
def eqIgnoreAsciiCase (cs ds : List Char) : Bool := asciiLowercase cs == asciiLowercase ds

/-! ### Splitting -/

/-- `s.split_once(sep)`: what is before and after the first `sep`. -/
def splitOnce (sep : Char) : List Char → Option (List Char × List Char)
  | [] => none
  | c :: cs => if c = sep then some ([], cs) else (splitOnce sep cs).map fun (a, b) => (c :: a, b)

/-- `s.rsplit_once(sep)`: what is before and after the last `sep`. -/
def rsplitOnce (sep : Char) (cs : List Char) : Option (List Char × List Char) :=
  (splitOnce sep cs.reverse).map fun (a, b) => (b.reverse, a.reverse)

/-- `s.strip_prefix(prefix)`. -/
def stripPrefix : List Char → List Char → Option (List Char)
  | [], cs => some cs
  | p :: ps, c :: cs => if c = p then stripPrefix ps cs else none
  | _ :: _, [] => none

theorem splitOnce_append {sep : Char} {before : List Char} (after : List Char)
    (h : sep ∉ before) : splitOnce sep (before ++ sep :: after) = some (before, after) := by
  induction before with
  | nil => exact if_pos rfl
  | cons c cs ih =>
    simp only [List.mem_cons, not_or] at h
    rw [List.cons_append, splitOnce, if_neg (Ne.symm h.1), ih h.2]
    rfl

/-- The first separator of a list is where it is. -/
theorem append_separator_inj {α : Type} {sep : α} {before before' after after' : List α}
    (h : sep ∉ before) (h' : sep ∉ before')
    (same : before ++ sep :: after = before' ++ sep :: after') :
    before = before' ∧ after = after' := by
  induction before generalizing before' with
  | nil =>
    cases before' with
    | nil => exact ⟨rfl, (List.cons.inj same).2⟩
    | cons b bs => exact absurd ((List.cons.inj same).1 ▸ List.mem_cons_self) h'
  | cons a as ih =>
    cases before' with
    | nil => exact absurd ((List.cons.inj same).1 ▸ List.mem_cons_self) h
    | cons b bs =>
      obtain ⟨head, tail⟩ := List.cons.inj same
      obtain ⟨rest, hafter⟩ := ih (fun mem => h (List.mem_cons_of_mem _ mem))
        (fun mem => h' (List.mem_cons_of_mem _ mem)) tail
      exact ⟨by rw [head, rest], hafter⟩

theorem splitOnce_eq_some {sep : Char} {cs before after : List Char}
    (h : splitOnce sep cs = some (before, after)) : cs = before ++ sep :: after ∧ sep ∉ before := by
  induction cs generalizing before with
  | nil => contradiction
  | cons c cs ih =>
    rw [splitOnce] at h
    split at h
    · rename_i same
      cases h
      exact ⟨by rw [same, List.nil_append], List.not_mem_nil⟩
    · rename_i other
      obtain ⟨⟨first, rest⟩, found, same⟩ := Option.map_eq_some_iff.mp h
      cases same
      obtain ⟨rfl, free⟩ := ih found
      exact ⟨rfl, by simp [free, Ne.symm other]⟩

theorem rsplitOnce_append {sep : Char} (before : List Char) {after : List Char}
    (h : sep ∉ after) : rsplitOnce sep (before ++ sep :: after) = some (before, after) := by
  have turned : (before ++ sep :: after).reverse = after.reverse ++ sep :: before.reverse := by
    simp
  rw [rsplitOnce, turned, splitOnce_append _ (by simpa using h)]
  simp

theorem rsplitOnce_eq_some {sep : Char} {cs before after : List Char}
    (h : rsplitOnce sep cs = some (before, after)) :
    cs = before ++ sep :: after ∧ sep ∉ after := by
  obtain ⟨⟨a, b⟩, found, same⟩ := Option.map_eq_some_iff.mp h
  cases same
  obtain ⟨whole, free⟩ := splitOnce_eq_some found
  have forward := congrArg List.reverse whole
  simp only [List.reverse_reverse, List.reverse_append, List.reverse_cons, List.append_assoc,
    List.singleton_append] at forward
  exact ⟨forward, by rwa [List.mem_reverse]⟩

theorem stripPrefix_append (before after : List Char) :
    stripPrefix before (before ++ after) = some after := by
  induction before with
  | nil => rfl
  | cons c cs ih => rw [List.cons_append, stripPrefix, if_pos rfl, ih]

theorem eq_append_of_stripPrefix {before cs after : List Char}
    (h : stripPrefix before cs = some after) : cs = before ++ after := by
  induction before generalizing cs with
  | nil => exact Option.some.inj h
  | cons p ps ih =>
    cases cs with
    | nil => contradiction
    | cons c cs =>
      rw [stripPrefix] at h
      split at h
      · rename_i same
        rw [same, ih h, List.cons_append]
      · contradiction

/-- `s.trim_start_matches(pattern)`: less the pattern at the start, as often as it is there. -/
def trimStartMatches (pattern cs : List Char) : List Char := go cs.length cs
where
  go : Nat → List Char → List Char
    | 0, cs => cs
    | n + 1, cs =>
      match stripPrefix pattern cs with
      | some rest => go n rest
      | none => cs

theorem trimStartMatches_go {pattern cs : List Char} (h : stripPrefix pattern cs = none)
    (n : Nat) : trimStartMatches.go pattern n cs = cs := by
  cases n with
  | zero => rfl
  | succ n => rw [trimStartMatches.go, h]

theorem trimStartMatches_of_none {pattern cs : List Char} (h : stripPrefix pattern cs = none) :
    trimStartMatches pattern cs = cs :=
  trimStartMatches_go h _

theorem trimStartMatches_once {pattern cs : List Char} (nonempty : pattern ≠ [])
    (h : stripPrefix pattern cs = none) : trimStartMatches pattern (pattern ++ cs) = cs := by
  obtain ⟨p, ps, rfl⟩ := List.exists_cons_of_ne_nil nonempty
  rw [trimStartMatches, List.cons_append, List.length_cons, trimStartMatches.go,
    ← List.cons_append, stripPrefix_append]
  exact trimStartMatches_go h _

/-! ### Decimal numbers -/

/-- `n` in decimal digits, as `Display` writes it. -/
def displayInt : Int → List Char
  | .ofNat n => Nat.toDigits 10 n
  | .negSucc n => '-' :: Nat.toDigits 10 (n + 1)

def parseDigits (cs : List Char) : Option Nat :=
  if cs ≠ [] ∧ cs.all Char.isDigit then some (Nat.ofDigitChars 10 cs 0) else none

/-- The integer that an optional sign and decimal digits stand for. -/
def parseInt : List Char → Option Int
  | '+' :: cs => (parseDigits cs).map Int.ofNat
  | '-' :: cs => (parseDigits cs).map fun n => -Int.ofNat n
  | cs => (parseDigits cs).map Int.ofNat

/-- `s.parse::<i64>().ok()`. -/
def parseI64 (cs : List Char) : Option Int := (parseInt cs).filter fun n => decide (InI64 n)

/-- `s.parse::<u16>().ok()`. -/
def parseU16 (cs : List Char) : Option UInt16 :=
  let digits := match cs with
    | '+' :: cs => parseDigits cs
    | cs => parseDigits cs
  digits.bind fun n => if n < 2 ^ 16 then some (.ofNat n) else none

/-- The characters of a decimal number. -/
def IsDecimal (c : Char) : Prop := c = '+' ∨ c = '-' ∨ c.isDigit

instance (c : Char) : Decidable (IsDecimal c) := inferInstanceAs (Decidable (_ ∨ _))

/-- They are printable characters of ASCII. -/
theorem IsDecimal.bounds {c : Char} (h : IsDecimal c) : 0x20 < c.toNat ∧ c.toNat < 0x80 := by
  rcases h with rfl | rfl | digit
  · decide
  · decide
  · simp only [Char.isDigit, Bool.and_eq_true, decide_eq_true_eq, ge_iff_le, UInt32.le_iff_toNat_le]
      at digit
    have low : 48 ≤ c.val.toNat := digit.1
    have high : c.val.toNat ≤ 57 := digit.2
    rw [Char.toNat]
    omega

theorem parseDigits_toDigits (n : Nat) : parseDigits (Nat.toDigits 10 n) = some n := by
  have digits : (Nat.toDigits 10 n).all Char.isDigit := by
    rw [List.all_eq_true]
    exact fun c mem => Nat.isDigit_of_mem_toDigits (by decide) (by decide) mem
  rw [parseDigits, if_pos ⟨Nat.toDigits_ne_nil, digits⟩, Nat.ofDigitChars_ten_toDigits]

theorem parseInt_toDigits (n : Nat) : parseInt (Nat.toDigits 10 n) = some (n : Int) := by
  have digit (c : Char) (mem : c ∈ Nat.toDigits 10 n) : c.isDigit :=
    Nat.isDigit_of_mem_toDigits (by decide) (by decide) mem
  unfold parseInt
  split
  · rename_i cs h
    exact absurd (digit '+' (h ▸ List.mem_cons_self)) (by decide)
  · rename_i cs h
    exact absurd (digit '-' (h ▸ List.mem_cons_self)) (by decide)
  · rw [parseDigits_toDigits]
    rfl

/-- A number reads back from its decimal digits. -/
theorem parseInt_displayInt (n : Int) : parseInt (displayInt n) = some n := by
  cases n with
  | ofNat n => exact parseInt_toDigits n
  | negSucc n =>
    rw [displayInt, parseInt, parseDigits_toDigits]
    rfl

theorem parseI64_of_parseInt {cs : List Char} {n : Int} (h : parseInt cs = some n) :
    parseI64 cs = if InI64 n then some n else none := by
  rw [parseI64, h, Option.filter_some]
  simp

theorem isDecimal_of_parseDigits {cs : List Char} {n : Nat} (h : parseDigits cs = some n) :
    ∀ c ∈ cs, IsDecimal c := by
  unfold parseDigits at h
  split at h
  · rename_i digits
    exact fun c mem => .inr (.inr (List.all_eq_true.mp digits.2 c mem))
  · contradiction

theorem isDecimal_of_parseInt {cs : List Char} {n : Int} (h : parseInt cs = some n) :
    ∀ c ∈ cs, IsDecimal c := by
  unfold parseInt at h
  split at h <;> obtain ⟨m, digits, -⟩ := Option.map_eq_some_iff.mp h
  · exact List.forall_mem_cons.mpr ⟨.inl rfl, isDecimal_of_parseDigits digits⟩
  · exact List.forall_mem_cons.mpr ⟨.inr (.inl rfl), isDecimal_of_parseDigits digits⟩
  · exact isDecimal_of_parseDigits digits

theorem isDecimal_of_parseU16 {cs : List Char} {n : UInt16} (h : parseU16 cs = some n) :
    ∀ c ∈ cs, IsDecimal c := by
  obtain ⟨m, digits, -⟩ := Option.bind_eq_some_iff.mp h
  split at digits
  · exact List.forall_mem_cons.mpr ⟨.inl rfl, isDecimal_of_parseDigits digits⟩
  · exact isDecimal_of_parseDigits digits

theorem isDecimal_displayInt (n : Int) : ∀ c ∈ displayInt n, IsDecimal c :=
  isDecimal_of_parseInt (parseInt_displayInt n)

/-! ### Bytes -/

/-- `s.as_bytes()`: the characters in UTF-8. -/
def asBytes (cs : List Char) : List UInt8 := cs.flatMap String.utf8EncodeChar

theorem asBytes_append (cs ds : List Char) : asBytes (cs ++ ds) = asBytes cs ++ asBytes ds :=
  List.flatMap_append

def IsAscii (c : Char) : Prop := c.toNat < 128

instance (c : Char) : Decidable (IsAscii c) := inferInstanceAs (Decidable (_ < _))

theorem utf8EncodeChar_ascii {c : Char} (h : IsAscii c) :
    String.utf8EncodeChar c = [UInt8.ofNat c.toNat] :=
  if_pos (Nat.le_of_lt_succ h)

theorem asBytes_ascii {cs : List Char} (h : ∀ c ∈ cs, IsAscii c) :
    asBytes cs = cs.map fun c => UInt8.ofNat c.toNat := by
  rw [List.map_eq_flatMap]
  exact List.flatMap_congr fun c mem => utf8EncodeChar_ascii (h c mem)

theorem toNat_byte_ascii {c : Char} (h : IsAscii c) : (UInt8.ofNat c.toNat).toNat = c.toNat := by
  have lt : c.toNat < 2 ^ 8 := Nat.lt_trans h (by decide)
  exact UInt8.toNat_ofNat_of_lt lt

theorem byte_ascii_injective {c d : Char} (hc : IsAscii c) (hd : IsAscii d)
    (h : UInt8.ofNat c.toNat = UInt8.ofNat d.toNat) : c = d := by
  have same := congrArg UInt8.toNat h
  rw [toNat_byte_ascii hc, toNat_byte_ascii hd] at same
  exact Char.toNat_inj.mp same

theorem asBytes_injective {cs ds : List Char} (hc : ∀ c ∈ cs, IsAscii c) (hd : ∀ d ∈ ds, IsAscii d)
    (h : asBytes cs = asBytes ds) : cs = ds := by
  rw [asBytes_ascii hc, asBytes_ascii hd] at h
  induction cs generalizing ds with
  | nil => exact (List.map_eq_nil_iff.mp h.symm).symm
  | cons c cs ih =>
    cases ds with
    | nil => simp at h
    | cons d ds =>
      rw [List.forall_mem_cons] at hc hd
      simp only [List.map_cons, List.cons.injEq] at h
      rw [byte_ascii_injective hc.1 hd.1 h.1, ih hc.2 hd.2 h.2]

theorem map_asBytes {cs : List Char} (ascii : ∀ c ∈ cs, IsAscii c) :
    (asBytes cs).map (fun b => Char.ofNat b.toNat) = cs := by
  rw [asBytes_ascii ascii, List.map_map]
  refine (List.map_congr_left fun c mem => ?_).trans (List.map_id cs)
  rw [Function.comp_apply, toNat_byte_ascii (ascii c mem), Char.ofNat_toNat, id]

/-! ### Header values -/

/-- A `HeaderValue` of the crate http. -/
abbrev HeaderValue := List UInt8

namespace HeaderValue

/-- The printable characters of ASCII, and the tab. -/
def isVisible (b : UInt8) : Bool := b == 9 || (32 ≤ b && b < 127)

/-- `HeaderValue::to_str`, which reads visible characters only. -/
def toStr (header : HeaderValue) : Option String :=
  if header.all isVisible then some (String.ofList (header.map fun b => Char.ofNat b.toNat))
  else none

/-- `HeaderValue::from_str`, of the same characters as `to_str`. -/
def fromStr (text : List Char) : Option HeaderValue :=
  if (asBytes text).all isVisible then some (asBytes text) else none

/-- The bytes of the header are those of a text in visible characters. -/
structure Spells (header : HeaderValue) (text : String) : Prop where
  bytes : header = asBytes text.toList
  visible : ∀ c ∈ text.toList, c.toNat = 9 ∨ 32 ≤ c.toNat ∧ c.toNat < 127

theorem isVisible_iff {b : UInt8} :
    isVisible b = true ↔ b.toNat = 9 ∨ 32 ≤ b.toNat ∧ b.toNat < 127 := by
  rw [isVisible, Bool.or_eq_true, Bool.and_eq_true, beq_iff_eq, decide_eq_true_eq,
    decide_eq_true_eq, UInt8.le_iff_toNat_le, UInt8.lt_iff_toNat_lt, ← UInt8.toNat_inj]
  rfl

theorem toNat_visible {b : UInt8} (h : isVisible b = true) :
    (Char.ofNat b.toNat).toNat = b.toNat ∧ IsAscii (Char.ofNat b.toNat) := by
  have bound : b.toNat < 128 := by
    rcases isVisible_iff.mp h with tab | ⟨-, high⟩ <;> omega
  have back : ∀ n < 128, (Char.ofNat n).toNat = n := by decide +kernel
  exact ⟨back _ bound, by rw [IsAscii, back _ bound]; exact bound⟩

/-- A header reads as the text that it spells. -/
theorem toStr_eq_some {header : HeaderValue} {text : String} :
    header.toStr = some text ↔ header.Spells text := by
  unfold toStr
  constructor
  · intro read
    split at read
    · rename_i all
      have visible := List.all_eq_true.mp all
      cases read
      refine ⟨?_, fun c mem => ?_⟩
      · rw [String.toList_ofList, asBytes_ascii, List.map_map]
        · refine ((List.map_id header).symm.trans (List.map_congr_left fun b mem => ?_))
          rw [Function.comp_apply, (toNat_visible (visible b mem)).1, UInt8.ofNat_toNat, id]
        · intro c mem
          obtain ⟨b, inHeader, rfl⟩ := List.mem_map.mp mem
          exact (toNat_visible (visible b inHeader)).2
      · rw [String.toList_ofList] at mem
        obtain ⟨b, inHeader, rfl⟩ := List.mem_map.mp mem
        rw [(toNat_visible (visible b inHeader)).1]
        exact isVisible_iff.mp (visible b inHeader)
    · contradiction
  · rintro ⟨rfl, visible⟩
    have ascii : ∀ c ∈ text.toList, IsAscii c := by
      intro c mem
      rcases visible c mem with tab | ⟨-, high⟩ <;> simp only [IsAscii] <;> omega
    rw [if_pos, map_asBytes ascii, String.ofList_toList]
    rw [List.all_eq_true, asBytes_ascii ascii]
    intro b mem
    obtain ⟨c, inText, rfl⟩ := List.mem_map.mp mem
    rw [isVisible_iff, toNat_byte_ascii (ascii c inText)]
    exact visible c inText

theorem visible_of_toStr {header : HeaderValue} {text : String} (h : header.toStr = some text) :
    ∀ b ∈ header, isVisible b = true := by
  unfold toStr at h
  split at h
  · exact List.all_eq_true.mp ‹_›
  · contradiction

end HeaderValue

/-! ### Hexadecimal texts -/

/-- The crate `hex` writes bytes in lower case. -/
def hexEncode (bytes : List UInt8) : List Char := bytes.flatMap hexByte

/-- It reads pairs of digits of either case. -/
def hexDecode : List Char → Option (List UInt8)
  | [] => some []
  | [_] => none
  | a :: b :: cs => do
    let high ← hexValue a
    let low ← hexValue b
    let bytes ← hexDecode cs
    return UInt8.ofNat (16 * high + low) :: bytes

theorem hexDecode_hexEncode (bytes : List UInt8) : hexDecode (hexEncode bytes) = some bytes := by
  induction bytes with
  | nil => rfl
  | cons b bytes ih =>
    have hb := b.toNat_lt
    have byte : 16 * (b.toNat / 16) + b.toNat % 16 = b.toNat := by omega
    rw [hexEncode] at ih
    simp only [hexEncode, List.flatMap_cons, hexByte, List.cons_append, List.nil_append, hexDecode,
      hexValue_digitChar _ (show b.toNat / 16 < 16 by omega),
      hexValue_digitChar _ (show b.toNat % 16 < 16 by omega), ih, Option.bind_eq_bind,
      Option.bind_some, byte, UInt8.ofNat_toNat, Option.pure_def]

end Servr
