import Servr.Trace

/-! Which texts `core/src/trace.rs` reads as identifiers: what `from_str_radix` makes of two bytes,
and where the slices of the loop cut a character. -/

namespace Servr

/-! ### Two bytes -/

theorem hexValue_of_wide {c : Char} (wide : 128 ≤ c.toNat) : hexValue c = none := by
  have above (d : Char) (small : d.toNat < 128) : ¬c ≤ d := by
    intro le
    have : c.toNat ≤ d.toNat := le
    omega
  simp [hexValue, above '9' (by decide), above 'f' (by decide), above 'F' (by decide)]

theorem toNat_lt_of_isHexDigit {c : Char} (h : c.isHexDigit) : c.toNat < 128 := by
  simp only [Char.isHexDigit, Char.isDigit, Bool.or_eq_true, Bool.and_eq_true, decide_eq_true_eq,
    UInt32.le_iff_toNat_le, ge_iff_le] at h
  have nine : '9'.val.toNat = 57 := rfl
  have f : 'f'.val.toNat = 102 := rfl
  have upper : 'F'.val.toNat = 70 := rfl
  show c.val.toNat < 128
  omega

/-- A hexadecimal digit of either case stands for the lowercase digit of its value. -/
theorem hexValue_cases (c : Char) :
    (hexValue c = none ∧ ¬c.isHexDigit) ∨
      ∃ v < 16, hexValue c = some v ∧ c.isHexDigit ∧ Nat.digitChar v = c.toLower := by
  by_cases ascii : c.toNat < 128
  · have table : ∀ n < 128,
        (hexValue (Char.ofNat n) = none ∧ ¬(Char.ofNat n).isHexDigit) ∨
          ∃ v < 16, hexValue (Char.ofNat n) = some v ∧ (Char.ofNat n).isHexDigit ∧
            Nat.digitChar v = (Char.ofNat n).toLower := by
      decide +kernel
    simpa only [Char.ofNat_toNat] using table c.toNat ascii
  · exact .inl ⟨hexValue_of_wide (by omega), fun digit => ascii (toNat_lt_of_isHexDigit digit)⟩

theorem utf8Size_of_isHexDigit {c : Char} (h : c.isHexDigit) : c.utf8Size = 1 :=
  Char.utf8Size_eq_one_iff.mpr (Nat.le_of_lt_succ (toNat_lt_of_isHexDigit h))

/-- Two characters that `u8::from_str_radix(_, 16)` takes: a digit, after a digit or a sign. -/
def Readable (c d : Char) : Prop := (c = '+' ∨ c.isHexDigit) ∧ d.isHexDigit

theorem not_isHexDigit_plus : ¬Char.isHexDigit '+' := by decide

theorem utf8Size_of_readable {c d : Char} (h : Readable c d) :
    c.utf8Size = 1 ∧ d.utf8Size = 1 := by
  refine ⟨?_, utf8Size_of_isHexDigit h.2⟩
  rcases h.1 with rfl | digit
  · rfl
  · exact utf8Size_of_isHexDigit digit

theorem u8FromHex_plus (d : Char) :
    u8FromHex ['+', d] = (hexValue d).bind fun v => if v < 256 then some (.ofNat v) else none := by
  cases value : hexValue d with
  | none => simp [u8FromHex, value]
  | some v => by_cases small : v < 256 <;> simp [u8FromHex, value, small]

theorem u8FromHex_pair {c : Char} (unsigned : c ≠ '+') (d : Char) :
    u8FromHex [c, d] = (hexValue c).bind fun u =>
      (if u < 256 then some u else none).bind fun u => (hexValue d).bind fun v =>
        if 16 * u + v < 256 then some (.ofNat (16 * u + v)) else none := by
  rw [u8FromHex_unsigned unsigned]
  cases first : hexValue c with
  | none => simp [first]
  | some u =>
    by_cases small : u < 256
    · cases second : hexValue d with
      | none => simp [first, second, small]
      | some v => by_cases sum : 16 * u + v < 256 <;> simp [first, second, small, sum]
    · simp [first, small]

theorem hexByte_ofNat {u v : Nat} (hu : u < 16) (hv : v < 16) :
    hexByte (.ofNat (16 * u + v)) = [Nat.digitChar u, Nat.digitChar v] := by
  have small : (UInt8.ofNat (16 * u + v)).toNat = 16 * u + v := by
    rw [UInt8.toNat_ofNat']
    omega
  rw [hexByte, small, show (16 * u + v) / 16 = u by omega, show (16 * u + v) % 16 = v by omega]

/-- A pair reads as a byte, which is shown as its digits in lower case where it has no sign. -/
theorem u8FromHex_of_readable {c d : Char} (h : Readable c d) :
    ∃ b, u8FromHex [c, d] = some b ∧ (c ≠ '+' → hexByte b = [c.toLower, d.toLower]) := by
  obtain ⟨first, second⟩ := h
  obtain ⟨-, no⟩ | ⟨v, hv, value, -, digit⟩ := hexValue_cases d
  · contradiction
  · rcases first with rfl | first
    · refine ⟨.ofNat v, ?_, fun h => absurd rfl h⟩
      rw [u8FromHex_plus, value, Option.bind_some, if_pos (by omega)]
    · have unsigned : c ≠ '+' := fun plus => not_isHexDigit_plus (plus ▸ first)
      obtain ⟨-, no⟩ | ⟨u, hu, value', -, digit'⟩ := hexValue_cases c
      · contradiction
      · refine ⟨.ofNat (16 * u + v), ?_, fun _ => ?_⟩
        · rw [u8FromHex_pair unsigned, value', Option.bind_some, if_pos (by omega),
            Option.bind_some, value, Option.bind_some, if_pos (by omega)]
        · rw [hexByte_ofNat hu hv, digit, digit']

theorem u8FromHex_of_not_readable {c d : Char} (h : ¬Readable c d) : u8FromHex [c, d] = none := by
  obtain ⟨none_, no⟩ | ⟨v, -, -, second, -⟩ := hexValue_cases d
  · by_cases sign : c = '+'
    · rw [sign, u8FromHex_plus, none_, Option.bind_none]
    · rw [u8FromHex_pair sign, none_]
      simp
  · have first : ¬(c = '+' ∨ c.isHexDigit) := fun first => h ⟨first, second⟩
    obtain ⟨sign, no⟩ := not_or.mp first
    obtain ⟨none_, -⟩ | ⟨_, -, -, digit, -⟩ := hexValue_cases c
    · rw [u8FromHex_pair sign, none_, Option.bind_none]
    · contradiction

theorem u8FromHex_wide {c : Char} (wide : c.utf8Size ≠ 1) : u8FromHex [c] = none := by
  have value : hexValue c = none := by
    obtain ⟨none_, -⟩ | ⟨_, -, -, digit, -⟩ := hexValue_cases c
    · exact none_
    · exact absurd (utf8Size_of_isHexDigit digit) wide
  have unsigned : c ≠ '+' := by
    rintro rfl
    exact wide rfl
  rw [u8FromHex_unsigned unsigned]
  simp [value]

theorem splitBytes_pair {c d : Char} (hc : c.utf8Size = 1) (hd : d.utf8Size = 1)
    (cs : List Char) : splitBytes 2 (c :: d :: cs) = some ([c, d], cs) := by
  simp [splitBytes, hc, hd]

theorem splitBytes_wide {c : Char} (wide : c.utf8Size = 2) (cs : List Char) :
    splitBytes 2 (c :: cs) = some ([c], cs) := by
  simp [splitBytes, wide]

theorem splitBytes_inside {c : Char} (inside : 2 < c.utf8Size) (cs : List Char) :
    splitBytes 2 (c :: cs) = none := by
  rw [splitBytes, if_neg (by omega)]

theorem splitBytes_after {c d : Char} (hc : c.utf8Size = 1) (hd : d.utf8Size ≠ 1)
    (cs : List Char) : splitBytes 2 (c :: d :: cs) = none := by
  have positive := d.utf8Size_pos
  simp only [splitBytes, hc, Nat.reduceLeDiff, if_true, Nat.reduceAdd, Nat.reduceSub]
  rw [if_neg (by omega), Option.map_none]

/-! ### The loop -/

namespace HexId

variable {len : Nat}

/-- Texts that the loop of `from_str` reads to the end. -/
inductive Reads : List Char → Prop
  | nil : Reads []
  | pair {c d : Char} {cs : List Char} : Readable c d → Reads cs → Reads (c :: d :: cs)

/-- Texts of which the loop of `from_str` reads pairs until a slice cuts a character. -/
inductive Cuts : List Char → Prop
  | inside {c : Char} {cs : List Char} : 2 < c.utf8Size → Cuts (c :: cs)
  | after {c d : Char} {cs : List Char} :
    c.utf8Size = 1 → d.utf8Size ≠ 1 → Cuts (c :: d :: cs)
  | pair {c d : Char} {cs : List Char} : Readable c d → Cuts cs → Cuts (c :: d :: cs)

/-- How the next slice of a text of two bytes or more goes. -/
inductive Sliced : List Char → Prop
  | inside {c : Char} {cs : List Char} : 2 < c.utf8Size → Sliced (c :: cs)
  | wide {c : Char} {cs : List Char} : c.utf8Size = 2 → Sliced (c :: cs)
  | after {c d : Char} {cs : List Char} :
    c.utf8Size = 1 → d.utf8Size ≠ 1 → Sliced (c :: d :: cs)
  | pair {c d : Char} {cs : List Char} : c.utf8Size = 1 → d.utf8Size = 1 → Sliced (c :: d :: cs)

theorem sliced {cs : List Char} (h : 2 ≤ byteLen cs) : Sliced cs := by
  cases cs with
  | nil => simp [byteLen] at h
  | cons c cs =>
    have positive := c.utf8Size_pos
    by_cases inside : 2 < c.utf8Size
    · exact .inside inside
    · by_cases wide : c.utf8Size = 2
      · exact .wide wide
      · have one : c.utf8Size = 1 := by omega
        cases cs with
        | nil => simp [byteLen, one] at h
        | cons d cs =>
          by_cases narrow : d.utf8Size = 1
          · exact .pair one narrow
          · exact .after one narrow

theorem cuts_of_readable {c d : Char} {cs : List Char} (h : Readable c d) :
    Cuts (c :: d :: cs) ↔ Cuts cs := by
  obtain ⟨hc, hd⟩ := utf8Size_of_readable h
  refine ⟨fun cuts => ?_, .pair h⟩
  cases cuts with
  | inside inside => omega
  | after _ wide => exact absurd hd wide
  | pair _ cuts => exact cuts

theorem reads_of_readable {c d : Char} {cs : List Char} (h : Readable c d) :
    Reads (c :: d :: cs) ↔ Reads cs := by
  refine ⟨fun reads => ?_, .pair h⟩
  cases reads with
  | pair _ reads => exact reads

theorem Reads.narrow {c : Char} {cs : List Char} (reads : Reads (c :: cs)) : c.utf8Size = 1 := by
  cases reads with
  | pair readable => exact (utf8Size_of_readable readable).1

theorem Reads.readable {c d : Char} {cs : List Char} (reads : Reads (c :: d :: cs)) :
    Readable c d := by
  cases reads with
  | pair readable => exact readable

theorem Cuts.not_wide {c : Char} {cs : List Char} (cuts : Cuts (c :: cs)) : c.utf8Size ≠ 2 := by
  cases cuts with
  | inside inside => omega
  | after narrow => omega
  | pair readable =>
    have narrow := (utf8Size_of_readable readable).1
    omega

theorem Cuts.readable {c d : Char} {cs : List Char} (cuts : Cuts (c :: d :: cs))
    (hc : c.utf8Size = 1) (hd : d.utf8Size = 1) : Readable c d := by
  cases cuts with
  | inside inside => omega
  | after _ wide => exact absurd hd wide
  | pair readable => exact readable

theorem readBytes_of_cut {n : Nat} {cs : List Char} (h : splitBytes 2 cs = none) :
    readBytes (n + 1) cs = .error .panic := by
  rw [readBytes, h]

theorem readBytes_of_notHex {n : Nat} {cs slice rest : List Char}
    (h : splitBytes 2 cs = some (slice, rest)) (notHex : u8FromHex slice = none) :
    readBytes (n + 1) cs = .error (.err .notHex) := by
  rw [readBytes, h]
  simp only [notHex]

theorem readBytes_of_byte {n : Nat} {cs slice rest : List Char} {b : UInt8}
    (h : splitBytes 2 cs = some (slice, rest)) (byte : u8FromHex slice = some b) :
    readBytes (n + 1) cs = (readBytes n rest).map (b :: ·) := by
  rw [readBytes, h]
  simp only [byte]

/-- The loop panics at a cut, and succeeds if it reads to the end. -/
theorem readBytes_cases {n : Nat} {cs : List Char} (h : byteLen cs = n * 2) :
    (readBytes n cs = .error .panic ↔ Cuts cs) ∧ ((∃ bs, readBytes n cs = .ok bs) ↔ Reads cs) := by
  induction n generalizing cs with
  | zero =>
    cases cs with
    | nil =>
      refine ⟨⟨nofun, nofun⟩, fun _ => .nil, fun _ => ⟨[], rfl⟩⟩
    | cons c cs =>
      have positive := c.utf8Size_pos
      rw [byteLen_cons] at h
      omega
  | succ n ih =>
    cases sliced (show 2 ≤ byteLen cs by omega) with
    | inside inside =>
      rw [readBytes_of_cut (splitBytes_inside inside _)]
      refine ⟨iff_of_true rfl (.inside inside), iff_of_false (by simp) fun reads => ?_⟩
      have narrow := reads.narrow
      omega
    | after hc hd =>
      rw [readBytes_of_cut (splitBytes_after hc hd _)]
      refine ⟨iff_of_true rfl (.after hc hd), iff_of_false (by simp) fun reads => ?_⟩
      exact hd (utf8Size_of_readable reads.readable).2
    | wide wide =>
      rw [readBytes_of_notHex (splitBytes_wide wide _) (u8FromHex_wide (by omega))]
      refine ⟨iff_of_false (by simp) fun cuts => cuts.not_wide wide, ?_⟩
      refine iff_of_false (by simp) fun reads => ?_
      have narrow := reads.narrow
      omega
    | @pair c d cs hc hd =>
      have rest : byteLen cs = n * 2 := by
        rw [byteLen_cons, byteLen_cons, hc, hd] at h
        omega
      have slice := splitBytes_pair hc hd cs
      by_cases readable : Readable c d
      · obtain ⟨b, byte, -⟩ := u8FromHex_of_readable readable
        obtain ⟨panics, succeeds⟩ := ih rest
        rw [readBytes_of_byte slice byte, cuts_of_readable readable, reads_of_readable readable,
          ← panics, ← succeeds]
        cases readBytes n cs <;> simp [Except.map]
      · rw [readBytes_of_notHex slice (u8FromHex_of_not_readable readable)]
        exact ⟨iff_of_false (by simp) fun cuts => readable (cuts.readable hc hd),
          iff_of_false (by simp) fun reads => readable reads.readable⟩

/-- Without a sign, what is read is shown as the text in lower case. -/
theorem display_readBytes {n : Nat} {cs : List Char} (reads : Reads cs) (unsigned : '+' ∉ cs)
    {bs : List UInt8} (h : readBytes n cs = .ok bs) (length : byteLen cs = n * 2) :
    bs.flatMap hexByte = cs.map Char.toLower := by
  induction reads generalizing n bs with
  | nil =>
    cases n with
    | zero =>
      cases h
      rfl
    | succ n => simp [byteLen] at length
  | @pair c d cs readable _ ih =>
    obtain ⟨hc, hd⟩ := utf8Size_of_readable readable
    obtain ⟨b, byte, shown⟩ := u8FromHex_of_readable readable
    simp only [List.mem_cons, not_or] at unsigned
    obtain ⟨sign, -, unsigned⟩ := unsigned
    rw [byteLen_cons, byteLen_cons, hc, hd] at length
    cases n with
    | zero => omega
    | succ n =>
      rw [readBytes_of_byte (splitBytes_pair hc hd cs) byte] at h
      cases tail : readBytes n cs with
      | error e =>
        rw [tail] at h
        contradiction
      | ok bytes =>
        rw [tail] at h
        cases h
        rw [List.flatMap_cons, shown (Ne.symm sign), ih unsigned tail (by omega)]
        rfl

/-! ### Texts of digits -/

theorem isHexDigit_of_reads {cs : List Char} (reads : Reads cs) (unsigned : '+' ∉ cs) :
    ∀ c ∈ cs, c.isHexDigit := by
  induction reads with
  | nil => exact List.forall_mem_nil _
  | pair readable _ ih =>
    simp only [List.mem_cons, not_or] at unsigned
    obtain ⟨sign, -, unsigned⟩ := unsigned
    have digit := readable.1.resolve_left (Ne.symm sign)
    exact List.forall_mem_cons.mpr ⟨digit, List.forall_mem_cons.mpr ⟨readable.2, ih unsigned⟩⟩

theorem reads_of_isHexDigit {n : Nat} {cs : List Char} (length : cs.length = n * 2)
    (digits : ∀ c ∈ cs, c.isHexDigit) : Reads cs := by
  induction n generalizing cs with
  | zero =>
    rw [List.eq_nil_of_length_eq_zero (by omega : cs.length = 0)]
    exact .nil
  | succ n ih =>
    match cs, length, digits with
    | [c], length, _ =>
      simp only [List.length_singleton] at length
      omega
    | c :: d :: cs, length, digits =>
      obtain ⟨hc, digits⟩ := List.forall_mem_cons.mp digits
      obtain ⟨hd, digits⟩ := List.forall_mem_cons.mp digits
      simp only [List.length_cons] at length
      exact .pair ⟨.inr hc, hd⟩ (ih (by omega) digits)

theorem byteLen_of_isHexDigit {cs : List Char} (digits : ∀ c ∈ cs, c.isHexDigit) :
    byteLen cs = cs.length := by
  induction cs with
  | nil => rfl
  | cons c cs ih =>
    obtain ⟨hc, digits⟩ := List.forall_mem_cons.mp digits
    rw [byteLen_cons, utf8Size_of_isHexDigit hc, ih digits, List.length_cons]
    omega

/-- A text is read exactly: without a panic, as an identifier if it is as many digits as that has,
and then as the one that is shown as the text in lower case. -/
structure ReadExactly (len : Nat) (s : String) : Prop where
  total : fromStr len s ≠ .error .panic
  accepts : (∃ id, fromStr len s = .ok id) ↔
    s.toList.length = len * 2 ∧ ∀ c ∈ s.toList, c.isHexDigit
  displays : ∀ id, fromStr len s = .ok id → id.display = s.toLower

theorem fromStr_of_length {s : String} (length : byteLen s.toList ≠ len * 2) :
    fromStr len s = .error (.err (.length (len * 2) (byteLen s.toList))) :=
  if_pos length

theorem fromStr_cases {s : String} (length : byteLen s.toList = len * 2) :
    (∃ id, fromStr len s = .ok id ∧ readBytes len s.toList = .ok id.bytes) ∨
      ∃ e, fromStr len s = .error e ∧ readBytes len s.toList = .error e := by
  unfold fromStr
  rw [if_neg (not_not_intro length)]
  split
  · rename_i bytes read
    exact .inl ⟨_, rfl, read⟩
  · rename_i e read
    exact .inr ⟨e, rfl, read⟩

theorem ReadExactly.of_err {s : String} {e : TraceIdError}
    (parsed : fromStr len s = .error (.err e))
    (other : ¬(s.toList.length = len * 2 ∧ ∀ c ∈ s.toList, c.isHexDigit)) : ReadExactly len s := by
  have no (id : HexId len) : fromStr len s ≠ .ok id := by
    rw [parsed]
    simp
  refine ⟨?_, iff_of_false ?_ other, fun id ok => absurd ok (no id)⟩
  · rw [parsed]
    simp
  · rintro ⟨id, ok⟩
    exact no id ok

theorem ReadExactly.of_ok {s : String} {id : HexId len} (parsed : fromStr len s = .ok id)
    (read : readBytes len s.toList = .ok id.bytes) (length : byteLen s.toList = len * 2)
    (unsigned : '+' ∉ s.toList) : ReadExactly len s := by
  have reads := (readBytes_cases length).2.mp ⟨_, read⟩
  have digits := isHexDigit_of_reads reads unsigned
  have shown : id.display = s.toLower := by
    apply String.toList_inj.mp
    rw [display, String.toList_ofList, display_readBytes reads unsigned read length]
    exact (String.toList_map ..).symm
  refine ⟨?_, iff_of_true ⟨id, parsed⟩ ⟨?_, digits⟩, fun id' parsed' => ?_⟩
  · rw [parsed]
    simp
  · rw [← byteLen_of_isHexDigit digits, length]
  · rw [parsed, Except.ok.injEq] at parsed'
    exact parsed' ▸ shown

theorem readExactly_of_length {s : String} (length : byteLen s.toList ≠ len * 2) :
    ReadExactly len s := by
  apply ReadExactly.of_err (fromStr_of_length length)
  rintro ⟨digitsLength, digits⟩
  exact length ((byteLen_of_isHexDigit digits).trans digitsLength)

/-- Every identifier reads back from what is shown of it.  A text is read exactly unless it is as
long as an identifier, and a slice cuts a character or a sign is read. -/
theorem readExactly_iff (len : Nat) :
    (∀ id : HexId len, fromStr len id.display = .ok id) ∧
      ∀ s, ReadExactly len s ↔
        (byteLen s.toList = len * 2 → ¬Cuts s.toList ∧ (Reads s.toList → '+' ∉ s.toList)) := by
  refine ⟨fromStr_display, fun s => ?_⟩
  by_cases length : byteLen s.toList = len * 2
  · obtain ⟨panics, succeeds⟩ := readBytes_cases length
    rw [imp_iff_right length, ← panics, ← succeeds]
    obtain ⟨id, parsed, read⟩ | ⟨e, parsed, read⟩ := fromStr_cases length
    · constructor
      · intro exact_
        have digits := (exact_.accepts.mp ⟨id, parsed⟩).2
        rw [read]
        exact ⟨by simp, fun _ sign => not_isHexDigit_plus (digits _ sign)⟩
      · rintro ⟨-, unsigned⟩
        exact .of_ok parsed read length (unsigned ⟨_, read⟩)
    · have unread : ¬∃ bs, readBytes len s.toList = .ok bs := by
        rintro ⟨bs, read'⟩
        rw [read] at read'
        contradiction
      cases e with
      | panic => exact iff_of_false (fun exact_ => exact_.total parsed) fun uncut => uncut.1 read
      | err e =>
        refine iff_of_true (.of_err parsed ?_) ⟨?_, fun reads => absurd reads unread⟩
        · rintro ⟨digitsLength, digits⟩
          exact unread (succeeds.mpr (reads_of_isHexDigit digitsLength digits))
        · rw [read]
          simp
  · exact iff_of_true (readExactly_of_length length) fun h => absurd h length

def signed : String := String.ofList (List.replicate 16 ['+', '1']).flatten

def accented : String := String.ofList (['a', 'é'] ++ List.replicate 29 '0')

/-- The signs are read, and the `é` panics. -/
theorem signed_read :
    ¬(∀ s, ReadExactly 16 s) ∧ fromStr 16 signed = .ok (fill 16 1) ∧
      fromStr 16 accented = .error .panic := by
  have panics : fromStr 16 accented = .error .panic := by decide +kernel
  exact ⟨fun all => (all accented).total panics, by decide +kernel, panics⟩

end HexId

end Servr
