import Mathlib.Data.Finmap
import Mathlib.Data.Finset.Sort
import Mathlib.Data.String.Basic
import Servr.Lib.Cjson
import Servr.Text
import Servr.Time

/-! The capture inbox of `hooks/src/inbound.rs`, under any calls of `record` and `clear` in the
order in which they take its lock, against a log of what each endpoint has received.  The reading of
JSON and of UTF-8 and the digest are parameters. -/

namespace Servr.Inbound

/-- Captures kept per endpoint before the oldest are dropped. -/
def CAPACITY : Nat := 500

/-- `serde_json::from_slice`, `String::from_utf8_lossy` and `Sha256::digest`. -/
structure Readers where
  fromSlice : List UInt8 → Option Json.Value
  fromUtf8Lossy : List UInt8 → String
  sha256 : List UInt8 → List UInt8

structure Capture where
  at_ : DateTime
  headers : Finmap fun _ : String => String
  body : Json.Value
  bodySha256 : String

abbrev Inbox := Finmap fun _ : String => List Capture

/-- A body that is no JSON is kept as a JSON string. -/
def parseBody (readers : Readers) (raw : List UInt8) : Json.Value :=
  (readers.fromSlice raw).getD (.str (readers.fromUtf8Lossy raw))

def bodySha256 (readers : Readers) (raw : List UInt8) : String :=
  String.ofList (hexEncode (readers.sha256 raw))

/-- `value.to_str().unwrap_or("<non-utf8>")` of a header. -/
def headerText (value : HeaderValue) : String := value.toStr.getD "<non-utf8>"

/-- What `record` makes of a request at the reading `now` of the clock.  Of the values of one name
the last one stays. -/
def capture (readers : Readers) (headers : List (String × List UInt8)) (raw : List UInt8)
    (now : DateTime) : Capture where
  at_ := now
  headers := headers.foldl (fun map (name, value) =>
    map.insert (String.ofList (asciiLowercase name.toList)) (headerText value)) ∅
  body := parseBody readers raw
  bodySha256 := bodySha256 readers raw

/-- The keys of a `BTreeMap`, in its order. -/
def inOrder {κ : Type} [LinearOrder κ] (keys : Finset κ) : List κ := keys.sort

namespace Inbox

def captures (inbox : Inbox) (endpoint : String) : List Capture := (inbox.lookup endpoint).getD []

/-- Records a request and returns the capture. -/
def record (inbox : Inbox) (readers : Readers) (endpoint : String)
    (headers : List (String × List UInt8)) (raw : List UInt8) (now : DateTime) : Capture × Inbox :=
  let capture := capture readers headers raw now
  let captures := inbox.captures endpoint ++ [capture]
  let captures :=
    if CAPACITY < captures.length then captures.drop (captures.length - CAPACITY) else captures
  (capture, inbox.insert endpoint captures)

/-- The names of the endpoints with their counts: a `BTreeMap` in the order of its keys. -/
def summary (inbox : Inbox) : List (String × Nat) :=
  (inOrder inbox.keys).map fun name => (name, (inbox.captures name).length)

def clear (inbox : Inbox) : Option String → Inbox
  | some name => inbox.erase name
  | none => ∅

end Inbox

/-! ### Calls -/

inductive Call
  | record (endpoint : String) (headers : List (String × List UInt8)) (raw : List UInt8)
      (now : DateTime)
  | clear (endpoint : Option String)

variable (readers : Readers)

def Call.apply (inbox : Inbox) : Call → Inbox
  | record endpoint headers raw now => (inbox.record readers endpoint headers raw now).2
  | clear endpoint => inbox.clear endpoint

def run (calls : List Call) : Inbox := calls.foldl (Call.apply readers) ∅

/-- The log of an endpoint after one more call: what `record` returns for it, from the last call on
that clears it. -/
def Call.log (endpoint : String) (log : List Capture) : Call → List Capture
  | record name headers raw now =>
    if name = endpoint then log ++ [capture readers headers raw now] else log
  | clear none => []
  | clear (some name) => if name = endpoint then [] else log

def received (endpoint : String) (calls : List Call) : List Capture :=
  calls.foldl (Call.log readers endpoint) []

def Call.Concerns (endpoint : String) : Call → Prop
  | record name .. | clear (some name) => name = endpoint
  | clear none => True

variable {readers} {inbox : Inbox} {endpoint : String} {log : List Capture}

/-- An inbox has the last captures of a log under an endpoint, or nothing of an empty log. -/
def Keeps (inbox : Inbox) (endpoint : String) (log : List Capture) : Prop :=
  inbox.lookup endpoint = if log = [] then none else some (log.rtake CAPACITY)

theorem Keeps.captures (h : Keeps inbox endpoint log) :
    inbox.captures endpoint = log.rtake CAPACITY := by
  rw [Inbox.captures, h]
  by_cases empty : log = []
  · rw [if_pos empty, empty, List.rtake_nil, Option.getD_none]
  · rw [if_neg empty, Option.getD_some]

/-- The last ones of a list stay the last ones when the first ones are dropped early. -/
theorem rtake_append_rtake {α : Type} (n : Nat) (l m : List α) :
    (l.rtake n ++ m).rtake n = (l ++ m).rtake n := by
  rw [List.rtake_eq_reverse_take_reverse, List.rtake_eq_reverse_take_reverse (l ++ m),
    List.rtake_eq_reverse_take_reverse l, List.reverse_append, List.reverse_append,
    List.reverse_reverse, List.take_append, List.take_append, List.take_take]
  congr 3
  omega

theorem length_rtake {α : Type} (n : Nat) (l : List α) :
    (l.rtake n).length = min n l.length := by
  rw [List.rtake, List.length_drop]
  omega

theorem rtake_of_length_le {α : Type} {n : Nat} {l : List α} (h : l.length ≤ n) :
    l.rtake n = l := by
  rw [List.rtake, Nat.sub_eq_zero_of_le h, List.drop_zero]

/-- A push and the drain of the overflow keep the last ones. -/
theorem Keeps.record (h : Keeps inbox endpoint log) (headers : List (String × List UInt8))
    (raw : List UInt8) (now : DateTime) :
    Keeps (inbox.record readers endpoint headers raw now).2 endpoint
      (log ++ [capture readers headers raw now]) := by
  have drained (l : List Capture) :
      (if CAPACITY < l.length then l.drop (l.length - CAPACITY) else l) = l.rtake CAPACITY := by
    split
    · rfl
    · rename_i few
      exact (rtake_of_length_le (Nat.le_of_not_lt few)).symm
  rw [Keeps, Inbox.record, Finmap.lookup_insert, drained, h.captures, rtake_append_rtake,
    if_neg (by simp)]

theorem Keeps.apply (h : Keeps inbox endpoint log) (call : Call) :
    Keeps (call.apply readers inbox) endpoint (call.log readers endpoint log) := by
  cases call with
  | record name headers raw now =>
    by_cases same : name = endpoint
    · subst same
      rw [Call.log, if_pos rfl]
      exact h.record headers raw now
    · rw [Call.log, if_neg same, Keeps, ← h]
      exact Finmap.lookup_insert_of_ne _ (Ne.symm same)
  | clear which =>
    cases which with
    | none => exact Finmap.lookup_empty endpoint
    | some name =>
      by_cases same : name = endpoint
      · subst same
        rw [Call.log, if_pos rfl]
        exact Finmap.lookup_erase name inbox
      · rw [Call.log, if_neg same, Keeps, ← h]
        exact Finmap.lookup_erase_ne (Ne.symm same)

theorem keeps_run (readers : Readers) (endpoint : String) (calls : List Call) :
    Keeps (run readers calls) endpoint (received readers endpoint calls) := by
  induction calls using List.reverseRecOn with
  | nil => exact Finmap.lookup_empty endpoint
  | append_singleton calls call ih =>
    rw [run, received, List.foldl_append, List.foldl_append]
    exact ih.apply call

theorem mem_summary {name : String} {n : Nat} :
    (name, n) ∈ inbox.summary ↔ name ∈ inbox ∧ n = (inbox.captures name).length := by
  simp only [Inbox.summary, inOrder, List.mem_map, Finset.mem_sort,
    Finmap.mem_keys, Prod.mk.injEq]
  constructor
  · rintro ⟨_, mem, rfl, rfl⟩
    exact ⟨mem, rfl⟩
  · rintro ⟨mem, rfl⟩
    exact ⟨name, mem, rfl, rfl⟩

theorem sorted_summary (inbox : Inbox) : (inbox.summary.map Prod.fst).Pairwise (· < ·) := by
  have names : inbox.summary.map Prod.fst = inOrder inbox.keys := by
    simp [Inbox.summary, Function.comp_def]
  rw [names]
  exact (Finset.sortedLT_sort inbox.keys).pairwise

end Servr.Inbound
