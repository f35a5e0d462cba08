import Servr.Rust

/-! The trace identifiers of `core/src/trace.rs`: bytes that are shown as lowercase hexadecimal
digits and read back from them. -/

namespace Servr

/-- Why a string is no identifier. -/
inductive TraceIdError
  | length (expected got : Nat)
  | notHex
  deriving DecidableEq, Repr

/-- What the macro `hex_id!` defines: an identifier of `len` bytes. -/
@[ext] structure HexId (len : Nat) where
  bytes : List UInt8
  length_bytes : bytes.length = len
  deriving DecidableEq, Repr

abbrev TraceId := HexId 16
abbrev SpanId := HexId 8

namespace HexId

variable {len : Nat}

/-- The identifier whose bytes are all `b`. -/
def fill (len : Nat) (b : UInt8) : HexId len := ⟨List.replicate len b, List.length_replicate⟩

/-- `Display`: two lowercase digits for each byte. -/
def display (id : HexId len) : String := String.ofList (id.bytes.flatMap hexByte)

/-- The loop of `from_str`: byte `i` is read from the slice of bytes `i * 2` and `i * 2 + 1`, which
panics when it cuts a character. -/
def readBytes : Nat → List Char → Except (Fault TraceIdError) (List UInt8)
  | 0, _ => .ok []
  | n + 1, cs =>
    match splitBytes 2 cs with
    | none => .error .panic
    | some (slice, rest) =>
      match u8FromHex slice with
      | none => .error (.err .notHex)
      | some b => (readBytes n rest).map (b :: ·)

theorem length_readBytes {n : Nat} {cs : List Char} {bs : List UInt8}
    (h : readBytes n cs = .ok bs) : bs.length = n := by
  induction n generalizing cs bs with
  | zero =>
    cases h
    rfl
  | succ n ih =>
    simp only [readBytes] at h
    split at h
    · contradiction
    · split at h
      · contradiction
      · rename_i _ slice rest _ _ b _
        cases tail : readBytes n rest with
        | error e => simp [tail, Except.map] at h
        | ok bytes =>
          simp only [tail, Except.map, Except.ok.injEq] at h
          subst h
          simp [ih tail]

/-- `FromStr`. -/
def fromStr (len : Nat) (s : String) : Except (Fault TraceIdError) (HexId len) :=
  if byteLen s.toList ≠ len * 2 then .error (.err (.length (len * 2) (byteLen s.toList)))
  else
    match h : readBytes len s.toList with
    | .ok bytes => .ok ⟨bytes, length_readBytes h⟩
    | .error e => .error e

theorem readBytes_display (bs : List UInt8) :
    readBytes bs.length (bs.flatMap hexByte) = .ok bs := by
  induction bs with
  | nil => rfl
  | cons b bs ih =>
    simp only [List.length_cons, List.flatMap_cons, readBytes, splitBytes_hexByte,
      u8FromHex_hexByte, ih, Except.map]

theorem byteLen_display (bs : List UInt8) : byteLen (bs.flatMap hexByte) = bs.length * 2 := by
  induction bs with
  | nil => rfl
  | cons b bs ih =>
    rw [List.flatMap_cons, byteLen_append, byteLen_hexByte, ih, List.length_cons]
    omega

/-- An identifier reads back from what `display` shows. -/
theorem fromStr_display (id : HexId len) : fromStr len id.display = .ok id := by
  obtain ⟨bytes, rfl⟩ := id
  have hlen : byteLen (display ⟨bytes, rfl⟩).toList = bytes.length * 2 := by
    simpa [display] using byteLen_display bytes
  have hread : readBytes bytes.length (display ⟨bytes, rfl⟩).toList = .ok bytes := by
    simpa [display] using readBytes_display bytes
  unfold fromStr
  rw [if_neg (not_not_intro hlen)]
  split
  · rename_i bs h
    rw [hread] at h
    cases h
    rfl
  · rename_i e h
    rw [hread] at h
    contradiction

end HexId

end Servr
