import Mathlib.Logic.Function.Basic
import Servr.Sign

/-! Signing and verifying agree: a value that `header` makes verifies under the same scheme and for
the same body, and for no other. -/

namespace Servr.Sign

/-! ### The payload -/

theorem dot_not_mem_displayInt (t : Int) : (0x2e : UInt8) ∉ asBytes (displayInt t) := by
  rw [asBytes_ascii fun c mem => (isDecimal_displayInt t c mem).bounds.2, List.mem_map]
  rintro ⟨c, mem, dot⟩
  have decimal := isDecimal_displayInt t c mem
  have same : c = '.' := byte_ascii_injective decimal.bounds.2 (d := '.') (by decide) dot
  exact absurd (same ▸ decimal) (by decide)

theorem displayInt_injective {t u : Int} (h : displayInt t = displayInt u) : t = u := by
  have read := parseInt_displayInt t
  rw [h, parseInt_displayInt u] at read
  exact (Option.some_inj.mp read).symm

/-- A payload determines its time and its body. -/
theorem stripePayload_injective {t u : Int} {b c : List UInt8}
    (h : stripePayload t b = stripePayload u c) : t = u ∧ b = c := by
  have dot : asBytes ['.'] = [0x2e] := by decide
  simp only [stripePayload, asBytes_append, dot, List.append_assoc, List.singleton_append] at h
  obtain ⟨digits, body⟩ :=
    append_separator_inj (dot_not_mem_displayInt t) (dot_not_mem_displayInt u) h
  have ascii (t : Int) : ∀ c ∈ displayInt t, IsAscii c := fun c mem =>
    (isDecimal_displayInt t c mem).bounds.2
  exact ⟨displayInt_injective (asBytes_injective (ascii t) (ascii u) digits), body⟩

/-! ### Reading a value back -/

theorem hexEncode_plain (bytes : List UInt8) :
    ∀ c ∈ hexEncode bytes, c ≠ ',' ∧ isWhitespace c = false := by
  have digit : ∀ n < 16, Nat.digitChar n ≠ ',' ∧ isWhitespace (Nat.digitChar n) = false := by decide
  intro c mem
  obtain ⟨b, -, here⟩ := List.mem_flatMap.mp mem
  have hb := b.toNat_lt
  simp only [hexByte, List.mem_cons, List.not_mem_nil, or_false] at here
  rcases here with rfl | rfl
  · exact digit _ (by omega)
  · exact digit _ (by omega)

section Parts

variable {raw : List Char} (found : Option Int × Option (List Char))

theorem readPart_t (h : ∀ c ∈ raw, isWhitespace c = false) :
    readPart found (['t', '='] ++ raw) = (parseI64 raw, found.2) := by
  have trimmed : trim (['t', '='] ++ raw) = ['t', '='] ++ raw :=
    trim_of_free (List.forall_mem_append.mpr ⟨by simp [isWhitespace], h⟩)
  have once : splitOnce '=' (['t', '='] ++ raw) = some (['t'], raw) :=
    @splitOnce_append '=' ['t'] raw (by decide)
  rw [readPart, trimmed, once]
  exact if_pos rfl

theorem readPart_v1 (h : ∀ c ∈ raw, isWhitespace c = false) :
    readPart found (['v', '1', '='] ++ raw) = (found.1, some raw) := by
  have trimmed : trim (['v', '1', '='] ++ raw) = ['v', '1', '='] ++ raw :=
    trim_of_free (List.forall_mem_append.mpr ⟨by simp [isWhitespace], h⟩)
  have once : splitOnce '=' (['v', '1', '='] ++ raw) = some (['v', '1'], raw) :=
    @splitOnce_append '=' ['v', '1'] raw (by decide)
  rw [readPart, trimmed, once]
  simp

end Parts

/-- What `parse_stripe` reads from a value of the form that `header` writes. -/
theorem parseStripe_stripeValue {raw digest : List Char} (hraw : ∀ c ∈ raw, IsDecimal c)
    (hdigest : ∀ c ∈ digest, c ≠ ',' ∧ isWhitespace c = false) :
    parseStripe (stripeValue raw digest) = (parseI64 raw).map fun t => (t, digest) := by
  have commaT : ',' ∉ ['t', '='] ++ raw := by
    simp only [List.mem_append, not_or]
    exact ⟨by decide, fun mem => absurd (hraw _ mem) (by decide)⟩
  have commaV : ',' ∉ ['v', '1', '='] ++ digest := by
    simp only [List.mem_append, not_or]
    exact ⟨by decide, fun mem => (hdigest _ mem).1 rfl⟩
  have parts : (stripeValue raw digest).splitOn ',' =
      [['t', '='] ++ raw, ['v', '1', '='] ++ digest] := by
    have whole : stripeValue raw digest =
        (['t', '='] ++ raw) ++ ',' :: (['v', '1', '='] ++ digest) := by simp [stripeValue]
    rw [whole, List.splitOn_append_cons_self_of_not_mem commaT, List.splitOn_eq_singleton commaV]
  rw [parseStripe, parts, List.foldl_cons, List.foldl_cons, List.foldl_nil,
    readPart_t _ fun c mem => isWhitespace_ascii (hraw c mem).bounds,
    readPart_v1 _ fun c mem => (hdigest c mem).2]
  cases parseI64 raw <;> rfl

/-- A value of one scheme has not the form of the other. -/
theorem parseStripe_github (digest : List Char)
    (h : ∀ c ∈ digest, c ≠ ',' ∧ isWhitespace c = false) :
    parseStripe (githubPrefix ++ digest) = none := by
  have comma : ',' ∉ githubPrefix ++ digest := by
    simp only [List.mem_append, not_or]
    exact ⟨by decide, fun mem => (h _ mem).1 rfl⟩
  have trimmed : trim (githubPrefix ++ digest) = githubPrefix ++ digest :=
    trim_of_free (List.forall_mem_append.mpr
      ⟨by simp [githubPrefix, isWhitespace], fun c mem => (h c mem).2⟩)
  have once : splitOnce '=' (githubPrefix ++ digest) =
      some (['s', 'h', 'a', '2', '5', '6'], digest) :=
    @splitOnce_append '=' ['s', 'h', 'a', '2', '5', '6'] digest (by decide)
  rw [parseStripe, List.splitOn_eq_singleton comma, List.foldl_cons, List.foldl_nil, readPart,
    trimmed, once]
  rfl

theorem stripPrefix_stripeValue (raw digest : List Char) :
    stripPrefix githubPrefix (stripeValue raw digest) = none := rfl

/-! ### Verifying -/

section Verifying

variable {hmac : String → List UInt8 → List UInt8} {secret : String}

theorem constantTimeEq_hexHmac (inj : Function.Injective (hmac secret)) (m m' : List UInt8) :
    constantTimeEq hmac secret m (hexHmac hmac secret m') = true ↔ m' = m := by
  rw [constantTimeEq, hexHmac, hexDecode_hexEncode, beq_iff_eq]
  constructor
  · exact fun same => (inj same).symm
  · rintro rfl
    rfl

/-- A Stripe value with the digest of one payload verifies for the same time and body only. -/
theorem verify_stripe_iff (inj : Function.Injective (hmac secret)) {raw : List Char} {t u : Int}
    (hraw : parseInt raw = some t) (b c : List UInt8) :
    verify hmac .stripe secret c
        (stripeValue raw (hexHmac hmac secret (stripePayload u b))) = true ↔
      InI64 t ∧ u = t ∧ b = c := by
  have read := parseStripe_stripeValue (isDecimal_of_parseInt hraw)
    (hexEncode_plain (hmac secret (stripePayload u b)))
  rw [verify, hexHmac, read, ← hexHmac, parseI64_of_parseInt hraw]
  by_cases fits : InI64 t
  · rw [if_pos fits, Option.map_some]
    simp only [constantTimeEq_hexHmac inj, fits, true_and]
    constructor
    · exact stripePayload_injective
    · rintro ⟨rfl, rfl⟩
      rfl
  · simp [fits]

theorem verify_github_iff (inj : Function.Injective (hmac secret)) (b c : List UInt8) :
    verify hmac .github secret c (githubPrefix ++ hexHmac hmac secret b) = true ↔ b = c := by
  rw [verify, stripPrefix_append]
  exact constantTimeEq_hexHmac inj c b

/-- The seconds of a time fit in an `i64`. -/
theorem inI64_timestamp (t : DateTime) : InI64 (timestamp t) := by
  have low := t.low
  have high := t.high
  simp only [minNanos, maxNanos] at low high
  rw [timestamp]
  constructor <;> norm_num <;> omega

/-- For an injective digest: what `header` makes verifies under the same scheme for the same body
and not otherwise, and a Stripe value with another integer for its time does not verify. -/
theorem signatures_exact (inj : Function.Injective (hmac secret)) :
    (∀ s₁ s₂ b₁ b₂ at_, s₁ ≠ .none → ∃ name value,
      header hmac s₁ secret b₁ at_ = some (name, value) ∧
      (verify hmac s₂ secret b₂ value = true ↔ s₁ = s₂ ∧ b₁ = b₂)) ∧
    ∀ b₁ b₂ at_ raw t, parseInt raw = some t → t ≠ timestamp at_ →
      ∃ digest, header hmac .stripe secret b₁ at_ =
          some (STRIPE_HEADER, stripeValue (displayInt (timestamp at_)) digest) ∧
        verify hmac .stripe secret b₂ (stripeValue raw digest) = false := by
  constructor
  · intro s₁ s₂ b₁ b₂ at_ signed
    cases s₁ with
    | none => contradiction
    | stripe =>
      refine ⟨_, _, rfl, ?_⟩
      cases s₂ with
      | stripe =>
        rw [verify_stripe_iff inj (parseInt_displayInt _)]
        simp [inI64_timestamp]
      | github => simp [verify, stripPrefix_stripeValue]
      | none => simp [verify]
    | github =>
      refine ⟨_, _, rfl, ?_⟩
      cases s₂ with
      | stripe => simp [verify, hexHmac, parseStripe_github _ (hexEncode_plain _)]
      | github =>
        rw [verify_github_iff inj]
        simp
      | none => simp [verify]
  · intro b₁ b₂ at_ raw t hraw other
    refine ⟨_, rfl, Bool.eq_false_iff.mpr fun verified => ?_⟩
    obtain ⟨-, same, -⟩ := (verify_stripe_iff inj hraw b₁ b₂).mp verified
    exact other same.symm

end Verifying

/-- A digest that is `digest` for one message and longer for all others. -/
def sampleHmac (message digest : List UInt8) (_ : String) (m : List UInt8) : List UInt8 :=
  if m = message then digest else digest ++ 0 :: m

theorem sampleHmac_injective (message digest : List UInt8) (secret : String) :
    Function.Injective (sampleHmac message digest secret) := by
  have longer (m : List UInt8) : digest ++ 0 :: m ≠ digest := by simp
  intro m m' same
  unfold sampleHmac at same
  split_ifs at same with h h' h'
  · rw [h, h']
  · exact absurd same.symm (longer m')
  · exact absurd same (longer m)
  · simpa using same

/-- The second 1700000000 of the epoch. -/
def sampleTime : DateTime := ⟨1700000000000000000, by decide, by decide⟩

/-- `1700000000.a` and its digest under the secret `whsec_test`. -/
def sampleDigest : List UInt8 :=
  [0x8e, 0x8d, 0xfe, 0x6a, 0x0a, 0x4a, 0x2a, 0x42, 0x7a, 0xed, 0xbd, 0x61, 0x50, 0x58, 0xc6, 0x09,
    0x9f, 0x9d, 0x5a, 0x7e, 0x81, 0x47, 0x83, 0x1f, 0x10, 0x1e, 0xdb, 0x57, 0x49, 0x08, 0xe3, 0xce]

theorem signatures_exact_sample : ∃ name value,
    header (sampleHmac (stripePayload 1700000000 [0x61]) sampleDigest) .stripe "whsec_test" [0x61]
      sampleTime = some (name, value) ∧
    verify (sampleHmac (stripePayload 1700000000 [0x61]) sampleDigest) .stripe "whsec_test" [0x61]
      value = true := by
  obtain ⟨name, value, made, iff⟩ := (signatures_exact (sampleHmac_injective
    (stripePayload 1700000000 [0x61]) sampleDigest "whsec_test")).1 .stripe .stripe [0x61] [0x61]
      sampleTime (by decide)
  exact ⟨name, value, made, iff.mpr ⟨rfl, rfl⟩⟩

end Servr.Sign
