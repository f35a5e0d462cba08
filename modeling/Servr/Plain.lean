import Mathlib.Data.Nat.Digits.Defs
import Servr.Queue.Job
import Servr.Text

/-! Texts of identifiers and times that read back, as the texts of uuid and chrono do. -/

namespace Servr.Plain

/-- The hyphenated text of an identifier. -/
def uuidText (u : Uuid) : String :=
  String.ofList (u.bytes.zipIdx.flatMap fun (b, i) =>
    if i ∈ [4, 6, 8, 10] then '-' :: hexByte b else hexByte b)

def uuidParse (s : String) : Option Uuid :=
  (HexId.fromStr 16 (String.ofList (s.toList.filter (· ≠ '-')))).toOption

/-- RFC 3339 for the epoch, and the digits of the nanoseconds since the first date, from the last to
the first, for every other time. -/
def timeText (t : DateTime) : String :=
  if t = DateTime.unixEpoch then "1970-01-01T00:00:00Z"
  else String.ofList ('n' :: (Nat.digits 10 (t.nanos - minNanos).toNat).map Nat.digitChar)

def timeParse (s : String) : Option DateTime :=
  if s = "1970-01-01T00:00:00Z" then some DateTime.unixEpoch
  else
    let digits := s.toList.tail.map fun c => (hexValue c).getD 0
    let n := minNanos + (Nat.ofDigits 10 digits : ℕ)
    if h : minNanos ≤ n ∧ n ≤ maxNanos then some ⟨n, h.1, h.2⟩ else none

theorem uuidParse_uuidText (u : Uuid) : uuidParse (uuidText u) = some u := by
  have digits (b : UInt8) : (hexByte b).filter (· ≠ '-') = hexByte b := by
    have hb := b.toNat_lt
    have plain : ∀ n < 16, Nat.digitChar n ≠ '-' := by decide
    simp [hexByte, plain _ (show b.toNat / 16 < 16 by omega),
      plain _ (show b.toNat % 16 < 16 by omega)]
  have text (bs : List UInt8) (k : ℕ) :
      ((bs.zipIdx k).flatMap fun (b, i) =>
        if i ∈ [4, 6, 8, 10] then '-' :: hexByte b else hexByte b).filter (· ≠ '-') =
        bs.flatMap hexByte := by
    induction bs generalizing k with
    | nil => rfl
    | cons b bs ih =>
      have head : (if k ∈ [4, 6, 8, 10] then '-' :: hexByte b else hexByte b).filter (· ≠ '-') =
          hexByte b := by
        split
        · rw [List.filter_cons_of_neg (by simp), digits]
        · exact digits b
      rw [List.zipIdx_cons, List.flatMap_cons, List.filter_append, head, ih, List.flatMap_cons]
  have read := HexId.fromStr_display u
  rw [HexId.display] at read
  rw [uuidParse, uuidText, String.toList_ofList, text, read]
  rfl

/-- RFC 3339 with a numeric offset for the epoch, and the text of `timeText` for other times. -/
def rfc3339 (t : DateTime) : String :=
  if t = DateTime.unixEpoch then "1970-01-01T00:00:00+00:00" else timeText t

def parseRfc3339 (s : String) : Option DateTime :=
  if s = "1970-01-01T00:00:00+00:00" then some DateTime.unixEpoch else timeParse s

theorem timeText_ne {t : DateTime} (other : t ≠ DateTime.unixEpoch) {s : String}
    (first : s.toList.head? ≠ some 'n') : timeText t ≠ s := by
  rintro rfl
  simp [timeText, other] at first

theorem timeParse_timeText (t : DateTime) : timeParse (timeText t) = some t := by
  unfold timeText
  split
  · rename_i same
    rw [timeParse, if_pos rfl, same]
  · have other (cs : List Char) : String.ofList ('n' :: cs) ≠ "1970-01-01T00:00:00Z" := by
      intro same
      have first := congrArg (fun s => s.toList.head?) same
      simp at first
    have digits : ((Nat.digits 10 (t.nanos - minNanos).toNat).map Nat.digitChar).map
        (fun c => (hexValue c).getD 0) = Nat.digits 10 (t.nanos - minNanos).toNat := by
      have digit (d : ℕ) (mem : d ∈ Nat.digits 10 (t.nanos - minNanos).toNat) :
          ((fun c => (hexValue c).getD 0) ∘ Nat.digitChar) d = id d := by
        have bound := Nat.digits_lt_base (by norm_num) mem
        rw [Function.comp_apply, hexValue_digitChar d (by omega)]
        rfl
      rw [List.map_map, List.map_congr_left digit, List.map_id]
    have low := t.low
    have nanos : minNanos + ((t.nanos - minNanos).toNat : ℤ) = t.nanos := by omega
    have bounds : minNanos ≤ minNanos + ((t.nanos - minNanos).toNat : ℤ) ∧
        minNanos + ((t.nanos - minNanos).toNat : ℤ) ≤ maxNanos := by
      rw [nanos]
      exact ⟨low, t.high⟩
    rw [timeParse, if_neg (other _)]
    simp only [String.toList_ofList, List.tail_cons, digits, Nat.ofDigits_digits]
    rw [dif_pos bounds]
    exact congrArg some (DateTime.ext nanos)

theorem parseRfc3339_rfc3339 (t : DateTime) : parseRfc3339 (rfc3339 t) = some t := by
  unfold rfc3339
  split
  · rename_i same
    rw [parseRfc3339, if_pos rfl, same]
  · rename_i other
    rw [parseRfc3339, if_neg (timeText_ne other (by decide)), timeParse_timeText]

end Servr.Plain

namespace Servr

/-- `RunId::header_value`: the hyphenated text of the identifier. -/
def RunId.headerValue (run : RunId) : String := Plain.uuidText run.uuid

/-- The text of a run has hexadecimal digits and hyphens only. -/
theorem headerValue_chars {run : RunId} {c : Char} (mem : c ∈ run.headerValue.toList) :
    c = '-' ∨ ∃ n < 16, c = Nat.digitChar n := by
  have byte {b : UInt8} (mem : c ∈ hexByte b) : ∃ n < 16, c = Nat.digitChar n := by
    have bound := b.toNat_lt
    simp only [hexByte, List.mem_cons, List.not_mem_nil, or_false] at mem
    rcases mem with rfl | rfl
    · exact ⟨_, by omega, rfl⟩
    · exact ⟨_, by omega, rfl⟩
  rw [RunId.headerValue, Plain.uuidText, String.toList_ofList, List.mem_flatMap] at mem
  obtain ⟨⟨b, i⟩, -, here⟩ := mem
  dsimp only at here
  split at here
  · rcases List.mem_cons.mp here with hyphen | digit
    · exact .inl hyphen
    · exact .inr (byte digit)
  · exact .inr (byte here)

/-- The header of a run spells its text. -/
theorem spells_headerValue (run : RunId) :
    HeaderValue.Spells (asBytes run.headerValue.toList) run.headerValue := by
  have digit : ∀ n < 16, 32 ≤ (Nat.digitChar n).toNat ∧ (Nat.digitChar n).toNat < 127 := by decide
  refine ⟨rfl, fun c mem => .inr ?_⟩
  rcases headerValue_chars mem with rfl | ⟨n, bound, rfl⟩
  · decide
  · exact digit n bound

end Servr
