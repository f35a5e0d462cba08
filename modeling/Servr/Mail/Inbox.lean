import Servr.Lib.Results
import Servr.Mail

/-! The inbox of one run in the mailbox that all runs share: what a run-filtered read returns, and
what the messages of others do to it. -/

namespace Servr.Mail

/-! ### Lists to which others are added -/

section Adds

variable {α : Type} {p : α → Bool} {before after : List α}

/-- `after` is `before` with entries for which `p` fails added at any position. -/
inductive Adds (p : α → Bool) : List α → List α → Prop
  | nil : Adds p [] []
  | keep {before after : List α} (a : α) : Adds p before after → Adds p (a :: before) (a :: after)
  | add {before after : List α} {a : α} : p a = false → Adds p before after →
      Adds p before (a :: after)

/-- Of the entries for which `p` holds, the first `n` after the addition are the first ones of the
first `n` before. -/
theorem Adds.take_prefix (h : Adds p before after) (n : Nat) :
    (after.take n).filter p <+: (before.take n).filter p := by
  induction h generalizing n with
  | nil => simp
  | keep a _ ih =>
    cases n with
    | zero => simp
    | succ n =>
      rw [List.take_succ_cons, List.take_succ_cons, List.filter_cons, List.filter_cons]
      split
      · exact List.cons_prefix_cons.mpr ⟨rfl, ih n⟩
      · exact ih n
  | add other _ ih =>
    cases n with
    | zero => simp
    | succ n =>
      rw [List.take_succ_cons, List.filter_cons_of_neg (by simp [other])]
      exact (ih n).trans ((List.take_prefix_take_left (Nat.le_succ n)).filter p)

end Adds

/-! ### The mailbox -/

/-- A message that Mailpit holds: what it lists of it, and its headers. -/
structure Stored where
  summary : Summary
  headers : List (String × List String)
  deriving DecidableEq

/-- The message is tagged with the run. -/
def Stored.taggedWith (run : RunId) (m : Stored) : Bool :=
  Inbox.runTag m.headers == some run.headerValue

/-- Mailpit holds the messages `box`, newest first: a listing without a query has the newest ones of
all runs, and the headers of a listed message can be fetched. -/
structure Holds (rest : Rest) (box : List Stored) : Prop where
  listing : ∀ limit, rest.listing (Inbox.messagesPath limit) =
    .ok ((box.take limit).map Stored.summary)
  headers : ∀ m ∈ box, rest.headers (Inbox.headersPath m.summary.id) = .ok m.headers

/-! ### A Mailpit -/

/-- A Mailpit that holds `box`. -/
def mailpit (box : List Stored) : Rest where
  listing path :=
    match (stripPrefix "/api/v1/messages?limit=".toList path.toList).bind parseDigits with
    | some limit => .ok ((box.take limit).map Stored.summary)
    | none => .error (.status 404 path)
  headers path :=
    match box.find? fun m => Inbox.headersPath m.summary.id == path with
    | some m => .ok m.headers
    | none => .error (.status 404 path)

theorem headersPath_injective {id id' : String} (h : Inbox.headersPath id = Inbox.headersPath id') :
    id = id' :=
  (String.append_right_inj _).mp ((String.append_left_inj _).mp h)

theorem find_headersPath {box : List Stored} (distinct : (box.map fun m => m.summary.id).Nodup)
    {m : Stored} (mem : m ∈ box) :
    (box.find? fun m' => Inbox.headersPath m'.summary.id == Inbox.headersPath m.summary.id) =
      some m := by
  induction box with
  | nil => contradiction
  | cons m' box ih =>
    rw [List.map_cons, List.nodup_cons] at distinct
    rcases List.mem_cons.mp mem with rfl | inBox
    · exact List.find?_cons_of_pos (beq_self_eq_true _)
    · have other : m'.summary.id ≠ m.summary.id := fun same =>
        distinct.1 (same ▸ List.mem_map_of_mem inBox)
      rw [List.find?_cons_of_neg (by simpa using fun same => other (headersPath_injective same))]
      exact ih distinct.2 inBox

theorem toList_messagesPath (limit : Nat) : (Inbox.messagesPath limit).toList =
    "/api/v1/messages?limit=".toList ++ Nat.toDigits 10 limit := by
  unfold Inbox.messagesPath
  rw [String.toList_append]
  congr 1
  exact Nat.toList_repr

/-- What is assumed of Mailpit holds of it while the identifiers of the messages are distinct. -/
theorem mailpit_holds {box : List Stored} (distinct : (box.map fun m => m.summary.id).Nodup) :
    Holds (mailpit box) box where
  listing limit := by
    simp only [mailpit]
    rw [toList_messagesPath, stripPrefix_append, Option.bind_some, parseDigits_toDigits]
  headers m mem := by
    simp only [mailpit]
    rw [find_headersPath distinct mem]

/-! ### Reads -/

/-- A message as `for_run` returns it to the run. -/
def Stored.reported (run : RunId) (m : Stored) : Message :=
  { Message.of m.summary with run := some run.headerValue }

namespace Inbox

variable {rest rest' : Rest} {box box' : List Stored} {run : RunId} {limit : Nat}

theorem collect_eq {ms : List Stored}
    (headers : ∀ m ∈ ms, rest.headers (headersPath m.summary.id) = .ok m.headers) :
    collect rest run.headerValue (ms.map fun m => Message.of m.summary) =
      .ok ((ms.filter (Stored.taggedWith run)).map (Stored.reported run)) := by
  induction ms with
  | nil => rfl
  | cons m ms ih =>
    rw [List.forall_mem_cons] at headers
    have tag : runHeader rest (Message.of m.summary).id = .ok (runTag m.headers) := by
      rw [runHeader, Message.of, headers.1, Except.map]
    rw [List.map_cons, collect, tag, ih headers.2, List.filter_cons]
    by_cases mine : runTag m.headers = some run.headerValue
    · simp [bind, Except.bind, pure, Except.pure, Stored.taggedWith, mine, Stored.reported]
    · simp [bind, Except.bind, pure, Except.pure, Stored.taggedWith, mine]

/-- A read without a query returns the messages of the run among the newest ones of all runs. -/
theorem forRun_eq (holds : Holds rest box) : forRun rest run none limit =
    .ok (((box.take limit).filter (Stored.taggedWith run)).map (Stored.reported run)) := by
  rw [forRun, all, holds.listing]
  have read : collect rest run.headerValue ((box.take limit).map fun m => Message.of m.summary) =
      .ok (((box.take limit).filter (Stored.taggedWith run)).map (Stored.reported run)) :=
    collect_eq fun m mem => holds.headers m (List.mem_of_mem_take mem)
  simpa [bind, Except.bind, pure, Except.pure, Function.comp_def] using read

/-- A read returns only messages of the run.  What others add to the mailbox can only hide the
oldest of them, and it does not change the result exactly if the messages of the run that were among
the newest `limit` still are. -/
theorem forRun_isolated (holds : Holds rest box) (holds' : Holds rest' box')
    (added : Adds (Stored.taggedWith run) box box') :
    ∃ out out', forRun rest run none limit = .ok out ∧ forRun rest' run none limit = .ok out' ∧
      (∀ m ∈ out, ∃ stored ∈ box, stored.taggedWith run = true ∧ m = stored.reported run) ∧
      (∀ m ∈ out', ∃ stored ∈ box', stored.taggedWith run = true ∧ m = stored.reported run) ∧
      out' <+: out ∧
      (out' = out ↔
        ((box.take limit).filter (Stored.taggedWith run)).Sublist (box'.take limit)) := by
  have tagged (bs : List Stored) : ∀ m ∈ ((bs.take limit).filter (Stored.taggedWith run)).map
      (Stored.reported run), ∃ stored ∈ bs, stored.taggedWith run = true ∧
        m = stored.reported run := by
    intro m mem
    obtain ⟨stored, inFilter, rfl⟩ := List.mem_map.mp mem
    obtain ⟨inTake, mine⟩ := List.mem_filter.mp inFilter
    exact ⟨stored, List.mem_of_mem_take inTake, mine, rfl⟩
  have first := added.take_prefix limit
  refine ⟨_, _, forRun_eq holds, forRun_eq holds', tagged box, tagged box', first.map _, ?_⟩
  constructor
  · intro same
    have lengths := congrArg List.length same
    rw [List.length_map, List.length_map] at lengths
    rw [← first.eq_of_length lengths]
    exact List.filter_sublist
  · intro kept
    have still := kept.filter (Stored.taggedWith run)
    rw [List.filter_filter] at still
    simp only [Bool.and_self] at still
    rw [first.eq_of_length_le still.length_le]

/-- A message with an identifier and a run. -/
def sampleStored (id : String) (run : RunId) : Stored :=
  ⟨⟨id, id, none, none, "", "", ""⟩, [(RUN_HEADER_NAME, [run.headerValue])]⟩

def sampleRun : RunId := ⟨.fill 16 1⟩
def otherRun : RunId := ⟨.fill 16 2⟩

/-- A mailbox with one message of a run, and one of another run that came later. -/
def sampleBox : List Stored := [sampleStored "a" sampleRun]
def fullerBox : List Stored := [sampleStored "b" otherRun, sampleStored "a" sampleRun]

theorem sampleBox_adds : Adds (Stored.taggedWith sampleRun) sampleBox fullerBox :=
  .add (by decide +kernel) (.keep _ .nil)

/-- With room for both messages, a read returns the message of the run before and after. -/
theorem forRun_isolated_sample : ∃ out, forRun (mailpit sampleBox) sampleRun none 2 = .ok out ∧
    forRun (mailpit fullerBox) sampleRun none 2 = .ok out := by
  obtain ⟨out, out', read, read', -, -, -, iff⟩ :=
    @forRun_isolated _ _ _ _ sampleRun 2 (mailpit_holds (by decide)) (mailpit_holds (by decide))
      sampleBox_adds
  have kept : ((sampleBox.take 2).filter (Stored.taggedWith sampleRun)).Sublist
      (fullerBox.take 2) :=
    List.filter_sublist.trans (.cons _ (List.Sublist.refl _))
  exact ⟨out, read, iff.mpr kept ▸ read'⟩

/-- With room for one, the message of another run hides that of the run. -/
theorem other_mail_hides :
    Holds (mailpit sampleBox) sampleBox ∧ Holds (mailpit fullerBox) fullerBox ∧
    Adds (Stored.taggedWith sampleRun) sampleBox fullerBox ∧
    forRun (mailpit sampleBox) sampleRun none 1 =
      .ok [(sampleStored "a" sampleRun).reported sampleRun] ∧
    forRun (mailpit fullerBox) sampleRun none 1 = .ok [] := by
  have holds : Holds (mailpit sampleBox) sampleBox := mailpit_holds (by decide)
  have holds' : Holds (mailpit fullerBox) fullerBox := mailpit_holds (by decide)
  refine ⟨holds, holds', sampleBox_adds, ?_, ?_⟩
  · rw [forRun_eq holds]
    decide +kernel
  · rw [forRun_eq holds']
    decide +kernel

end Inbox

end Servr.Mail
