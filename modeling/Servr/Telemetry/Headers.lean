import Servr.Telemetry.Probe

/-! The headers for the collector in `telemetry/src/lib.rs`: what `OTEL_EXPORTER_OTLP_HEADERS`
becomes, and what of it the log shows. -/

namespace Servr.Telemetry

/-- What `otlp_headers` logs of an entry that it ignores. -/
inductive Warning
  | malformed (pair : List Char)
  | unusable (key : List Char)
  deriving DecidableEq

section Headers

variable {Key Value : Type} [DecidableEq Key]

/-- `MetadataMap::insert`, which replaces what the key had. -/
def insertMetadata (metadata : List (Key × Value)) (k : Key) (v : Value) : List (Key × Value) :=
  (k, v) :: metadata.filter fun entry => entry.1 ≠ k

/-- A `MetadataMap`, and what was logged. -/
structure Metadata (Key Value : Type) where
  entries : List (Key × Value)
  warnings : List Warning
  deriving DecidableEq

variable (readKey : List Char → Option Key) (readValue : List Char → Option Value)

/-- One entry: `from_bytes` and `try_from` of the crate tonic take keys and values. -/
def Metadata.read (metadata : Metadata Key Value) (pair : List Char) : Metadata Key Value :=
  match splitOnce '=' pair with
  | none => { metadata with warnings := metadata.warnings ++ [.malformed pair] }
  | some (key, value) =>
    match readKey (asciiLowercase (trim key)), readValue (trim value) with
    | some k, some v => { metadata with entries := insertMetadata metadata.entries k v }
    | _, _ => { metadata with warnings := metadata.warnings ++ [.unusable (trim key)] }

/-- The headers of the variable, if it is set. -/
def otlpHeaders : Option (List Char) → Metadata Key Value
  | none => ⟨[], []⟩
  | some raw => (raw.splitOn ',').foldl (Metadata.read readKey readValue) ⟨[], []⟩

/-! ### What is read -/

omit [DecidableEq Key] in
/-- The header of an entry that can be used. -/
def usable (pair : List Char) : Option (Key × Value) := do
  let (key, value) ← splitOnce '=' pair
  return (← readKey (asciiLowercase (trim key)), ← readValue (trim value))

/-- What is logged of an entry. -/
def warning (pair : List Char) : Option Warning :=
  match splitOnce '=' pair with
  | none => some (.malformed pair)
  | some (key, value) =>
    if (readKey (asciiLowercase (trim key))).isSome ∧ (readValue (trim value)).isSome then none
    else some (.unusable (trim key))

variable {readKey readValue}

theorem lookup_insertMetadata (metadata : List (Key × Value)) (k k' : Key) (v : Value) :
    (insertMetadata metadata k v).lookup k' = ((k, v) :: metadata).lookup k' := by
  rw [insertMetadata, List.lookup_cons, List.lookup_cons]
  by_cases same : k' = k
  · simp [same]
  · have other : (k' == k) = false := by simpa using same
    rw [other]
    dsimp only
    induction metadata with
    | nil => rfl
    | cons entry metadata ih =>
      by_cases replaced : entry.1 = k
      · have skipped : (k' == entry.1) = false := by simpa [replaced] using same
        rw [List.filter_cons_of_neg (by simpa using replaced), ih, List.lookup_cons, skipped]
      · rw [List.filter_cons_of_pos (by simpa using replaced), List.lookup_cons, List.lookup_cons,
          ih]

/-- One entry sets a header or logs a warning. -/
theorem Metadata.read_eq (metadata : Metadata Key Value) (pair : List Char) :
    (∀ k, (metadata.read readKey readValue pair).entries.lookup k =
      ((usable readKey readValue pair).toList ++ metadata.entries).lookup k) ∧
    (metadata.read readKey readValue pair).warnings =
      metadata.warnings ++ (warning readKey readValue pair).toList := by
  unfold Metadata.read usable warning
  split
  · rename_i none_
    simp [none_]
  · rename_i key value split_
    cases readsKey : readKey (asciiLowercase (trim key)) with
    | none => simp [split_, readsKey]
    | some k =>
      cases readsValue : readValue (trim value) with
      | none => simp [split_, readsKey, readsValue]
      | some v => simp [split_, readsKey, readsValue, lookup_insertMetadata]

theorem foldl_read (pairs : List (List Char)) (metadata : Metadata Key Value) :
    (∀ k, (pairs.foldl (Metadata.read readKey readValue) metadata).entries.lookup k =
      ((pairs.filterMap (usable readKey readValue)).reverse ++ metadata.entries).lookup k) ∧
    (pairs.foldl (Metadata.read readKey readValue) metadata).warnings =
      metadata.warnings ++ pairs.filterMap (warning readKey readValue) := by
  induction pairs generalizing metadata with
  | nil => simp
  | cons pair pairs ih =>
    obtain ⟨entries, warnings⟩ := ih (metadata.read readKey readValue pair)
    obtain ⟨sets, logs⟩ := @Metadata.read_eq _ _ _ readKey readValue metadata pair
    have head {β : Type} (f : List Char → Option β) :
        (pair :: pairs).filterMap f = (f pair).toList ++ pairs.filterMap f := by
      cases h : f pair <;> simp [h]
    have turned : (usable readKey readValue pair).toList.reverse =
        (usable readKey readValue pair).toList := by
      cases usable readKey readValue pair <;> rfl
    rw [List.foldl_cons]
    refine ⟨fun k => ?_, ?_⟩
    · rw [entries, List.lookup_append, sets, head, List.reverse_append, turned,
        List.append_assoc]
      simp only [List.lookup_append]
    · rw [warnings, logs, head, List.append_assoc]

/-- The header of a key is the last one in the text that can be used. -/
theorem lookup_otlpHeaders (raw : List Char) (k : Key) :
    (otlpHeaders readKey readValue (some raw)).entries.lookup k =
      ((raw.splitOn ',').filterMap (usable readKey readValue)).reverse.lookup k := by
  rw [otlpHeaders, (foldl_read _ _).1, List.append_nil]

theorem warnings_otlpHeaders (raw : List Char) :
    (otlpHeaders readKey readValue (some raw)).warnings =
      (raw.splitOn ',').filterMap (warning readKey readValue) := by
  rw [otlpHeaders, (foldl_read _ _).2, List.nil_append]

/-! ### What is written -/

/-- The text of headers. -/
def headersText (headers : List (List Char × List Char)) : List Char :=
  [','].intercalate (headers.map fun (name, value) => name ++ '=' :: value)

theorem splitOn_headersText {headers : List (List Char × List Char)} (some_ : headers ≠ [])
    (names : ∀ h ∈ headers, ',' ∉ h.1) (values : ∀ h ∈ headers, ',' ∉ h.2) :
    (headersText headers).splitOn ',' = headers.map fun (name, value) => name ++ '=' :: value := by
  refine List.splitOn_intercalate _ (fun part mem => ?_) (by simpa using some_)
  obtain ⟨h, inHeaders, rfl⟩ := List.mem_map.mp mem
  simp [names h inHeaders, values h inHeaders]

/-! ### What the log shows -/

/-- Two entries of one name whose values can both be used, or neither. -/
inductive Masked (readValue : List Char → Option Value) : List Char → List Char → Prop
  | plain (pair : List Char) : Masked readValue pair pair
  | value {name value value' : List Char} : '=' ∉ name →
      (readValue (trim value)).isSome = (readValue (trim value')).isSome →
      Masked readValue (name ++ '=' :: value) (name ++ '=' :: value')

omit [DecidableEq Key] in
theorem Masked.warning {pair pair' : List Char} (h : Masked readValue pair pair') :
    warning readKey readValue pair = warning readKey readValue pair' := by
  cases h with
  | plain => rfl
  | value free both =>
    unfold Telemetry.warning
    rw [splitOnce_append _ free, splitOnce_append _ free]
    dsimp only
    rw [both]

omit [DecidableEq Key] in
theorem Masked.warnings {pairs pairs' : List (List Char)}
    (h : List.Forall₂ (Masked readValue) pairs pairs') :
    pairs.filterMap (Telemetry.warning readKey readValue) =
      pairs'.filterMap (Telemetry.warning readKey readValue) := by
  induction h with
  | nil => rfl
  | cons first _ ih => rw [List.filterMap_cons, List.filterMap_cons, first.warning, ih]

/-- The headers of a text are, for each key, the last entry with it that can be used.  Headers whose
texts have no comma, and no `=` in the name, are read as they were written, with the `=` of their
values, and nothing is logged of them.  What is logged of a text does not depend on the values in
it, only on whether they can be used. -/
theorem otlpHeaders_exact (readKey : List Char → Option Key)
    (readValue : List Char → Option Value) :
    (∀ raw k, (otlpHeaders readKey readValue (some raw)).entries.lookup k =
      ((raw.splitOn ',').filterMap (usable readKey readValue)).reverse.lookup k) ∧
    (∀ headers : List (List Char × List Char), headers ≠ [] →
      (∀ h ∈ headers, '=' ∉ h.1 ∧ ',' ∉ h.1 ∧ ',' ∉ h.2) →
      ∀ read : List (Key × Value), List.Forall₂ (fun h r =>
        readKey (asciiLowercase (trim h.1)) = some r.1 ∧ readValue (trim h.2) = some r.2)
          headers read →
      (otlpHeaders readKey readValue (some (headersText headers))).warnings = [] ∧
      ∀ k, (otlpHeaders readKey readValue (some (headersText headers))).entries.lookup k =
        read.reverse.lookup k) ∧
    ∀ raw raw', List.Forall₂ (Masked readValue) (raw.splitOn ',') (raw'.splitOn ',') →
      (otlpHeaders readKey readValue (some raw)).warnings =
        (otlpHeaders readKey readValue (some raw')).warnings := by
  refine ⟨lookup_otlpHeaders, fun headers some_ free read reads => ?_, fun raw raw' masked => ?_⟩
  · have parts := splitOn_headersText some_ (fun h mem => (free h mem).2.1)
      fun h mem => (free h mem).2.2
    have each : (headers.map fun (name, value) => name ++ '=' :: value).filterMap
          (usable readKey readValue) = read ∧
        (headers.map fun (name, value) => name ++ '=' :: value).filterMap
          (warning readKey readValue) = [] := by
      clear some_ parts
      induction reads with
      | nil => exact ⟨rfl, rfl⟩
      | @cons h r headers read first _ ih =>
        rw [List.forall_mem_cons] at free
        obtain ⟨reads, silent⟩ := ih free.2
        have split_ := splitOnce_append h.2 free.1.1
        rw [List.map_cons, List.filterMap_cons, List.filterMap_cons, reads, silent]
        simp [usable, warning, split_, first]
    refine ⟨?_, fun k => ?_⟩
    · rw [warnings_otlpHeaders, parts, each.2]
    · rw [lookup_otlpHeaders, parts, each.1]
  · rw [warnings_otlpHeaders, warnings_otlpHeaders, Masked.warnings masked]

end Headers

end Servr.Telemetry
