import Servr.Telemetry.Chaos

/-! The inbound fault of `telemetry/src/propagation.rs`, which rewrites the trace that a request
says it belongs to before the propagator reads its headers. -/

namespace Servr.Telemetry

open Ieee (Double)
open HeaderValue (isVisible)

/-- The values of each header, in their order. -/
abbrev HeaderMap := String → List HeaderValue

namespace HeaderMap

def get (headers : HeaderMap) (name : String) : Option HeaderValue := (headers name).head?

/-- The value takes the place of all that the name had. -/
def insert (headers : HeaderMap) (name : String) (value : HeaderValue) : HeaderMap :=
  Function.update headers name [value]

end HeaderMap

/-- The standard header. -/
def TRACEPARENT : String := "traceparent"

/-- The fields of a `traceparent`. -/
def joined (version trace parent flags : List Char) : List Char :=
  version ++ '-' :: trace ++ '-' :: parent ++ '-' :: flags

/-- The headers with another trace in a `traceparent` of four fields, whose bytes are `drawn`. -/
def mangle (headers : HeaderMap) (drawn : TraceId) : HeaderMap :=
  match (headers.get TRACEPARENT).bind HeaderValue.toStr with
  | none => headers
  | some value =>
    match value.toList.splitOn '-' with
    | [version, _, parent, flags] =>
      match HeaderValue.fromStr (joined version (hexEncode drawn.bytes) parent flags) with
      | some header => headers.insert TRACEPARENT header
      | none => headers
    | _ => headers

/-- What `extract_faulted` gives to `extract`, with the roll and the bytes that it draws. -/
def inbound (headers : HeaderMap) (fault : TelemetryFault) (roll : Double) (drawn : TraceId) :
    HeaderMap :=
  if !fault.corruptInboundTraceparent || Double.ge (.finite (.ofRat 0)) fault.rate then headers
  else if roll.ge fault.rate then headers
  else mangle headers drawn

/-- `extract` with `corrupt_inbound_traceparent` applied, over what the propagator makes of
headers. -/
def extractFaulted {κ : Type} (extract : HeaderMap → κ) (headers : HeaderMap)
    (fault : TelemetryFault) (roll : Double) (drawn : TraceId) : κ :=
  extract (inbound headers fault roll drawn)

/-- Only the trace of the `traceparent` is another, a well formed one. -/
structure Severed (headers mangled : HeaderMap) (drawn : TraceId) : Prop where
  others : ∀ name, name ≠ TRACEPARENT → mangled name = headers name
  trace : ∃ version trace parent flags,
    headers.get TRACEPARENT = some (asBytes (joined version trace parent flags)) ∧
    mangled TRACEPARENT = [asBytes (joined version drawn.display.toList parent flags)]

theorem visible_digitChar : ∀ n < 16, IsAscii (Nat.digitChar n) ∧
    isVisible (UInt8.ofNat (Nat.digitChar n).toNat) = true := by
  decide

theorem visible_hexEncode (bytes : List UInt8) :
    ∀ b ∈ asBytes (hexEncode bytes), isVisible b = true := by
  have digit {n : Nat} (lt : n < 16) :
      ∀ b ∈ String.utf8EncodeChar (Nat.digitChar n), isVisible b = true := by
    obtain ⟨ascii, visible⟩ := visible_digitChar n lt
    rw [utf8EncodeChar_ascii ascii, List.forall_mem_singleton]
    exact visible
  intro b mem
  rw [hexEncode, asBytes, List.flatMap_assoc] at mem
  obtain ⟨byte, -, inside⟩ := List.mem_flatMap.mp mem
  have lt := byte.toNat_lt
  simp only [hexByte, List.flatMap_cons, List.flatMap_nil, List.append_nil,
    List.mem_append] at inside
  rcases inside with high | low
  · exact digit (by omega) b high
  · exact digit (by omega) b low

theorem asBytes_joined (version trace parent flags : List Char) :
    asBytes (joined version trace parent flags) = asBytes version ++ asBytes ['-'] ++
      asBytes trace ++ asBytes ['-'] ++ asBytes parent ++ asBytes ['-'] ++ asBytes flags := by
  rw [← asBytes_append, ← asBytes_append, ← asBytes_append, ← asBytes_append, ← asBytes_append,
    ← asBytes_append]
  simp [joined]

/-- The headers are mangled if the `traceparent` has four fields that read as text, and else they
stay as they are. -/
theorem mangle_cases (headers : HeaderMap) (drawn : TraceId) :
    mangle headers drawn = headers ∨ Severed headers (mangle headers drawn) drawn := by
  unfold mangle
  split
  · exact .inl rfl
  · rename_i value read
    obtain ⟨header, first, toStr⟩ := Option.bind_eq_some_iff.mp read
    have bytes := (HeaderValue.toStr_eq_some.mp toStr).bytes.symm
    have visible := HeaderValue.visible_of_toStr toStr
    split
    · rename_i version trace parent flags fields
      have text : value.toList = joined version trace parent flags := by
        have whole := @List.intercalate_splitOn _ value.toList _ _ '-'
        rw [fields] at whole
        rw [← whole]
        simp [joined]
      rw [text] at bytes
      have valid : ∀ b ∈ asBytes (joined version (hexEncode drawn.bytes) parent flags),
          isVisible b = true := by
        rw [← bytes, asBytes_joined] at visible
        rw [asBytes_joined]
        simp only [List.forall_mem_append] at visible ⊢
        obtain ⟨⟨⟨⟨⟨⟨v, dash⟩, -⟩, -⟩, p⟩, -⟩, f⟩ := visible
        exact ⟨⟨⟨⟨⟨⟨v, dash⟩, visible_hexEncode drawn.bytes⟩, dash⟩, p⟩, dash⟩, f⟩
      right
      rw [HeaderValue.fromStr, if_pos (List.all_eq_true.mpr valid)]
      refine ⟨fun name other => Function.update_of_ne other _ _, version, trace, parent, flags,
        bytes ▸ first, ?_⟩
      rw [HexId.display, String.toList_ofList]
      exact Function.update_self ..
    · exact .inl rfl

/-! ### Quiet faults -/

/-- A fault whose rate is at most zero. -/
def Quiet (fault : TelemetryFault) : Prop := Double.ge (.finite (.ofRat 0)) fault.rate = true

theorem Quiet.fires {fault : TelemetryFault} (h : Quiet fault) (roll : Double) :
    fires fault roll = false := by
  have zero : lt (.finite (.ofRat 0)) fault.rate = false := by
    rw [lt, show Double.ge (.finite (.ofRat 0)) fault.rate = true from h, Bool.not_true,
      Bool.and_false]
  rw [Telemetry.fires, zero, Bool.false_and]

theorem Quiet.corruptMetrics {fault : TelemetryFault} (h : Quiet fault) (rendered : List Char)
    (roll : Double) (nonce : UInt64) : corruptMetrics rendered fault roll nonce = rendered := by
  rw [Telemetry.corruptMetrics, h.fires]
  rfl

theorem Quiet.inbound {fault : TelemetryFault} (h : Quiet fault) (headers : HeaderMap)
    (roll : Double) (drawn : TraceId) : inbound headers fault roll drawn = headers := by
  rw [Telemetry.inbound, show Double.ge (.finite (.ofRat 0)) fault.rate = true from h,
    Bool.or_true]
  rfl

theorem quiet_default : Quiet .default := by
  unfold Quiet
  decide +kernel

end Servr.Telemetry
