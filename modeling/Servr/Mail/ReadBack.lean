import Servr.Lib.Machine
import Servr.Mail.Inbox

/-! Mails through Mailpit and back: what the sends of any number of runs leave in the one mailbox,
which others write to and which is purged, and what each run reads of it. -/

namespace Servr.Mail

/-- Mailpit stores a message under an identifier of its own. -/
structure Mailpit (lettre : Lettre) where
  hold : String → lettre.Message → Stored

/-- What it lists and serves of a message that was built of known parts: its message id, and its
one added header as it was written. -/
structure Mailpit.Faithful {lettre : Lettre} (mailpit : Mailpit lettre) : Prop where
  id : ∀ id message, (mailpit.hold id message).summary.id = id
  messageId : ∀ id parts message, lettre.build parts = .ok message →
    (mailpit.hold id message).summary.messageId = parts.messageId
  header : ∀ id parts message, lettre.build parts = .ok message →
    ∃ name, (name, [parts.header.2]) ∈ (mailpit.hold id message).headers ∧
      eqIgnoreAsciiCase name.toList parts.header.1.toList = true
  only : ∀ id parts message, lettre.build parts = .ok message →
    ∀ entry ∈ (mailpit.hold id message).headers,
      eqIgnoreAsciiCase entry.1.toList parts.header.1.toList = true → entry.2 = [parts.header.2]

/-- The transport answers as it is told. -/
def Lettre.answering (lettre : Lettre) (answer : Except String Unit) : Lettre :=
  { lettre with transport := fun _ => answer }

/-- What `send` returns for a mail that was sent. -/
def OutgoingMail.sent (mail : OutgoingMail) (uuid : String) (run : RunId) : SentMail :=
  ⟨uuid ++ "@testbed", mail.to_, mail.subject, run⟩

def SentMail.event (sent : SentMail) : MailSent := ⟨sent.to_, sent.subject, sent.messageId⟩

/-- A message that Mailpit holds, with the send that it came from if it came from one. -/
structure Held where
  stored : Stored
  origin : Option SentMail

/-- What Mailpit holds, newest first, and what it has deleted; what the sends have drawn, emitted
and returned. -/
structure Mailbox where
  held : List Held
  removed : List SentMail
  drawn : List String
  events : List MailSent
  returned : List SentMail

namespace Mailbox

def new : Mailbox := ⟨[], [], [], [], []⟩

/-- What a REST request sees. -/
def box (s : Mailbox) : List Stored := s.held.map (·.stored)

/-- Messages of sends among those that are held. -/
def sends (held : List Held) : List SentMail := held.filterMap (·.origin)

section Steps

variable (lettre : Lettre) (mailpit : Mailpit lettre) (mailer : Mailer)

inductive Step : Mailbox → Mailbox → Prop
  /-- A send hands a message over, which Mailpit takes if the transport says so, and perhaps if it
  does not. -/
  | send (s : Mailbox) (uuid id : String) (run : RunId) (mail : OutgoingMail)
      (answer : Except String Unit) (taken : Bool) (message : lettre.Message) :
      uuid ∉ s.drawn → id ∉ s.box.map (·.summary.id) →
      (mailer.send (lettre.answering answer) uuid run mail).transmitted = some message →
      (answer = .ok () → taken = true) → Step s
        (let sending := mailer.send (lettre.answering answer) uuid run mail
        { s with
          held := if taken then
              ⟨mailpit.hold id message, some (mail.sent uuid run)⟩ :: s.held
            else s.held
          drawn := uuid :: s.drawn
          events := s.events ++ sending.event.toList
          returned := s.returned ++ sending.result.toOption.toList })
  /-- A send ends before the transport. -/
  | refuse (s : Mailbox) (uuid : String) (run : RunId) (mail : OutgoingMail) :
      (mailer.send lettre uuid run mail).transmitted = none → Step s
        (let sending := mailer.send lettre uuid run mail
        { s with
          events := s.events ++ sending.event.toList
          returned := s.returned ++ sending.result.toOption.toList })
  /-- A message comes from elsewhere, without the header. -/
  | foreign (s : Mailbox) (stored : Stored) : stored.summary.id ∉ s.box.map (·.summary.id) →
      Inbox.runTag stored.headers = none → Step s { s with held := ⟨stored, none⟩ :: s.held }
  /-- Mailpit deletes all but the newest messages: all of them on a purge, or those past the number
  that it keeps. -/
  | keep (s : Mailbox) (n : Nat) : Step s { s with
      held := s.held.take n
      removed := s.removed ++ sends (s.held.drop n) }

end Steps

end Mailbox

/-! ### One send -/

section Sends

variable {lettre : Lettre} {mailer : Mailer} {uuid : String} {run : RunId} {mail : OutgoingMail}

theorem message_eq_ok {messageId : String} {message : lettre.Message}
    (h : mailer.sender.message lettre uuid run mail = .ok (messageId, message)) :
    messageId = uuid ++ "@testbed" ∧ ∃ parts, lettre.build parts = .ok message ∧
      parts.messageId = messageId ∧ parts.header = (RUN_HEADER_NAME, run.headerValue) := by
  simp only [Sender.message, Results.bind_eq_ok] at h
  obtain ⟨from_, -, to_, -, built, builds, same⟩ := h
  obtain ⟨rfl, rfl⟩ := Prod.mk.inj (Except.ok.inj same)
  refine ⟨rfl, ⟨from_, to_, mail.subject, uuid ++ "@testbed", (RUN_HEADER_NAME, run.headerValue),
    mail.body⟩, ?_, rfl, rfl⟩
  revert builds
  cases lettre.build ⟨from_, to_, mail.subject, uuid ++ "@testbed",
    (RUN_HEADER_NAME, run.headerValue), mail.body⟩ with
  | error e => exact fun builds => nomatch builds
  | ok m => exact fun builds => congrArg Except.ok (Except.ok.inj builds)

/-- A send that ends before the transport leaves no event and fails. -/
theorem send_refused (h : (mailer.send lettre uuid run mail).transmitted = none) :
    (mailer.send lettre uuid run mail).event = none ∧
      (mailer.send lettre uuid run mail).result.toOption = none := by
  unfold Mailer.send at h ⊢
  split
  · exact ⟨rfl, rfl⟩
  · rename_i permitted
    rw [if_neg permitted] at h
    split
    · exact ⟨rfl, rfl⟩
    · rename_i made
      rw [made] at h
      dsimp only at h
      split at h <;> contradiction

/-- A message that goes to the transport is tagged with the run, and the send returns what the
transport answers. -/
theorem send_transmitted {answer : Except String Unit} {message : lettre.Message}
    (h : (mailer.send (lettre.answering answer) uuid run mail).transmitted = some message) :
    (∃ parts, lettre.build parts = .ok message ∧ parts.messageId = uuid ++ "@testbed" ∧
      parts.header = (RUN_HEADER_NAME, run.headerValue)) ∧
    (mailer.send (lettre.answering answer) uuid run mail).event =
      (answer.toOption.map fun _ => (mail.sent uuid run).event) ∧
    (mailer.send (lettre.answering answer) uuid run mail).result.toOption =
      answer.toOption.map fun _ => mail.sent uuid run := by
  unfold Mailer.send at h ⊢
  split
  · rename_i refused
    rw [if_pos refused] at h
    contradiction
  · rename_i permitted
    rw [if_neg permitted] at h
    split
    · rename_i made
      rw [made] at h
      contradiction
    · rename_i messageId built made
      rw [made] at h
      obtain ⟨rfl, parts, builds, same, header⟩ := message_eq_ok made
      have transport : (lettre.answering answer).transport built = answer := rfl
      dsimp only at h ⊢
      rw [transport] at h ⊢
      cases answer with
      | error e =>
        obtain rfl := Option.some.inj h
        exact ⟨⟨parts, builds, same, header⟩, rfl, rfl⟩
      | ok _ =>
        obtain rfl := Option.some.inj h
        exact ⟨⟨parts, builds, same, header⟩, rfl, rfl⟩

end Sends

theorem headerValue_injective : Function.Injective RunId.headerValue := by
  intro run other same
  have read := Plain.uuidParse_uuidText run.uuid
  rw [show Plain.uuidText run.uuid = Plain.uuidText other.uuid from same,
    Plain.uuidParse_uuidText] at read
  exact RunId.ext (Option.some.inj read).symm

theorem headerValue_plain (run : RunId) : ∀ c ∈ run.headerValue.toList, isWhitespace c = false := by
  have digit : ∀ n < 16, isWhitespace (Nat.digitChar n) = false := by decide
  intro c mem
  rcases headerValue_chars mem with rfl | ⟨n, bound, rfl⟩
  · decide
  · exact digit n bound

/-- The tag of a message comes back from Mailpit. -/
theorem Mailpit.Faithful.runTag {lettre : Lettre} {mailpit : Mailpit lettre}
    (h : mailpit.Faithful) {parts : Parts lettre.Mailbox} {message : lettre.Message} {run : RunId}
    (builds : lettre.build parts = .ok message)
    (header : parts.header = (RUN_HEADER_NAME, run.headerValue)) (id : String) :
    Inbox.runTag (mailpit.hold id message).headers = some run.headerValue := by
  obtain ⟨name, mem, same⟩ := h.header id parts message builds
  have only := h.only id parts message builds
  rw [header] at mem same only
  have there : ((mailpit.hold id message).headers.find? fun entry =>
      eqIgnoreAsciiCase entry.1.toList RUN_HEADER_NAME.toList).isSome = true :=
    List.find?_isSome.mpr ⟨_, mem, same⟩
  obtain ⟨⟨name', values⟩, found⟩ := Option.isSome_iff_exists.mp there
  obtain rfl : values = [run.headerValue] :=
    only (name', values) (List.mem_of_find?_eq_some found) (by simpa using List.find?_some found)
  calc Inbox.runTag (mailpit.hold id message).headers
      = ((some (name', [run.headerValue])).bind fun entry => entry.2.head?).map
          fun v => String.ofList (trim v.toList) := by
        rw [← found]
        rfl
    _ = some (String.ofList (trim run.headerValue.toList)) := rfl
    _ = some run.headerValue := by rw [trim_of_free (headerValue_plain run), String.ofList_toList]

/-! ### The mailbox over a run -/

namespace Mailbox

variable {lettre : Lettre} {mailpit : Mailpit lettre} {mailer : Mailer} {s t : Mailbox}

/-- What Mailpit says of a held message is what was sent. -/
def Held.Sound (h : Held) : Prop :=
  match h.origin with
  | some sent => h.stored.summary.messageId = sent.messageId ∧
    Inbox.runTag h.stored.headers = some sent.run.headerValue
  | none => Inbox.runTag h.stored.headers = none

/-- The mails that Mailpit has taken, held or deleted since. -/
def taken (s : Mailbox) : List SentMail := sends s.held ++ s.removed

structure Inv (s : Mailbox) : Prop where
  sound : ∀ h ∈ s.held, Held.Sound h
  once : (s.taken.map (·.messageId)).Nodup
  drawn : ∀ m ∈ s.taken, ∃ uuid ∈ s.drawn, m.messageId = uuid ++ "@testbed"
  kept : s.returned ⊆ s.taken
  unique : (s.returned.map (·.messageId)).Nodup
  events : s.events = s.returned.map SentMail.event

theorem inv_new : new.Inv where
  sound _ mem := absurd mem List.not_mem_nil
  once := List.nodup_nil
  drawn _ mem := absurd mem List.not_mem_nil
  kept := List.nil_subset _
  unique := List.nodup_nil
  events := rfl

theorem sends_append (held more : List Held) : sends (held ++ more) = sends held ++ sends more :=
  List.filterMap_append

/-- An identifier that is drawn anew is that of no mail. -/
theorem Inv.fresh (h : s.Inv) {uuid : String} (new : uuid ∉ s.drawn) :
    ∀ m ∈ s.taken, m.messageId ≠ uuid ++ "@testbed" := by
  intro m mem same
  obtain ⟨uuid', old, messageId⟩ := h.drawn m mem
  have equal : uuid' = uuid := (String.append_left_inj _).mp (messageId.symm.trans same)
  exact new (equal ▸ old)

/-- Mailpit takes the message of a send that has drawn a new identifier. -/
theorem Inv.take (h : s.Inv) {uuid : String} {run : RunId} {mail : OutgoingMail} {stored : Stored}
    (new : uuid ∉ s.drawn) (sound : Held.Sound ⟨stored, some (mail.sent uuid run)⟩)
    (acknowledged : Bool) : Inv { s with
      held := ⟨stored, some (mail.sent uuid run)⟩ :: s.held
      drawn := uuid :: s.drawn
      events := s.events ++ if acknowledged then [(mail.sent uuid run).event] else []
      returned := s.returned ++ if acknowledged then [mail.sent uuid run] else [] } := by
  have fresh := h.fresh new
  have unreturned : (mail.sent uuid run).messageId ∉ s.returned.map (·.messageId) := by
    intro mem
    obtain ⟨m, old, same⟩ := List.mem_map.mp mem
    exact fresh m (h.kept old) same
  refine ⟨fun held mem => ?_, List.nodup_cons.mpr ⟨fun mem => ?_, h.once⟩, fun m mem => ?_,
    fun m mem => ?_, ?_, ?_⟩
  · rcases List.mem_cons.mp mem with rfl | old
    · exact sound
    · exact h.sound held old
  · obtain ⟨m, old, same⟩ := List.mem_map.mp mem
    exact fresh m old same
  · rcases List.mem_cons.mp mem with rfl | old
    · exact ⟨uuid, List.mem_cons_self, rfl⟩
    · obtain ⟨u, there, same⟩ := h.drawn m old
      exact ⟨u, List.mem_cons_of_mem _ there, same⟩
  · rcases List.mem_append.mp mem with old | last
    · exact List.mem_cons_of_mem _ (h.kept old)
    · cases acknowledged with
      | false => contradiction
      | true => exact List.mem_singleton.mp last ▸ List.mem_cons_self
  · cases acknowledged with
    | false => simpa using h.unique
    | true =>
      simp only [if_true, List.map_append, List.map_singleton]
      rw [List.nodup_append']
      exact ⟨h.unique, List.nodup_singleton _, List.disjoint_singleton.mpr unreturned⟩
  · cases acknowledged with
    | false => simpa using h.events
    | true => simp [h.events]

theorem Inv.draw (h : s.Inv) (uuid : String) : Inv { s with drawn := uuid :: s.drawn } :=
  ⟨h.sound, h.once, fun m mem => by
    obtain ⟨u, there, same⟩ := h.drawn m mem
    exact ⟨u, List.mem_cons_of_mem _ there, same⟩, h.kept, h.unique, h.events⟩

theorem Inv.step (faithful : mailpit.Faithful) (h : s.Inv)
    (step : Step lettre mailpit mailer s t) : t.Inv := by
  cases step with
  | send uuid id run mail answer isTaken message new _ transmitted accepted =>
    obtain ⟨⟨parts, builds, messageId, header⟩, event, result⟩ := send_transmitted transmitted
    have sound : Held.Sound ⟨mailpit.hold id message, some (mail.sent uuid run)⟩ :=
      ⟨(faithful.messageId id parts message builds).trans messageId,
        faithful.runTag builds header id⟩
    dsimp only
    rw [event, result]
    cases isTaken with
    | true =>
      cases answer with
      | ok _ => exact h.take new sound true
      | error e => exact h.take new sound false
    | false =>
      cases answer with
      | ok _ => exact absurd (accepted rfl) (by simp)
      | error e =>
        have drawn := h.draw uuid
        rwa [← List.append_nil s.events, ← List.append_nil s.returned] at drawn
  | refuse uuid run mail transmitted =>
    obtain ⟨event, result⟩ := send_refused transmitted
    dsimp only
    rw [event, result, Option.toList_none, Option.toList_none, List.append_nil, List.append_nil]
    exact h
  | foreign stored _ untagged =>
    refine ⟨fun held mem => ?_, h.once, h.drawn, h.kept, h.unique, h.events⟩
    rcases List.mem_cons.mp mem with rfl | old
    · exact untagged
    · exact h.sound held old
  | keep n =>
    have perm : (sends (s.held.take n) ++ (s.removed ++ sends (s.held.drop n))).Perm s.taken := by
      rw [taken, ← List.take_append_drop n s.held, sends_append, List.append_assoc,
        List.take_append_drop]
      exact List.perm_append_comm.append_left _
    refine ⟨fun held mem => h.sound held (List.mem_of_mem_take mem), ?_, fun m mem => ?_,
      fun m mem => ?_, h.unique, h.events⟩
    · exact (perm.map _).nodup_iff.mpr h.once
    · exact h.drawn m (perm.subset mem)
    · exact perm.symm.subset (h.kept mem)

/-! ### Reads -/

/-- Of held messages, those that a run reads are those of its sends. -/
theorem reported_sends {held : List Held} (sound : ∀ h ∈ held, Held.Sound h) (run : RunId) :
    (((held.map (·.stored)).filter (Stored.taggedWith run)).map (Stored.reported run)).map
        (fun m => (m.messageId, m.run)) =
      ((sends held).filter fun m => m.run = run).map fun m =>
        (m.messageId, some run.headerValue) := by
  induction held with
  | nil => rfl
  | cons h held ih =>
    rw [List.forall_mem_cons] at sound
    have rest := ih sound.2
    obtain ⟨stored, origin⟩ := h
    cases origin with
    | none =>
      have untagged : Inbox.runTag stored.headers = none := sound.1
      rw [List.map_cons, List.filter_cons_of_neg (by simp [Stored.taggedWith, untagged])]
      exact rest
    | some sent =>
      obtain ⟨messageId, tag⟩ : stored.summary.messageId = sent.messageId ∧
        Inbox.runTag stored.headers = some sent.run.headerValue := sound.1
      have origins : sends (⟨stored, some sent⟩ :: held) = sent :: sends held := rfl
      rw [List.map_cons, origins]
      by_cases mine : sent.run = run
      · rw [List.filter_cons_of_pos (by simp [Stored.taggedWith, tag, mine]),
          List.filter_cons_of_pos (by simpa using mine), List.map_cons, List.map_cons,
          List.map_cons, rest, ← messageId]
        rfl
      · have other : sent.run.headerValue ≠ run.headerValue := fun same =>
          mine (headerValue_injective same)
        rw [List.filter_cons_of_neg (by simp [Stored.taggedWith, tag, other]),
          List.filter_cons_of_neg (by simpa using mine)]
        exact rest

/-- However sends of any runs, other mail and deletions follow each other: a read returns, newest
first and each once, exactly the mails of its run among the newest that Mailpit holds; a mail whose
send was answered and that has not been deleted since is read by its run, when the read looks that
far, and never by another; and the events are those of the sends that were answered. -/
theorem mail_reads_back (faithful : mailpit.Faithful)
    (reached : Machine.Reachable (· = new) (Step lettre mailpit mailer) s) {rest : Rest}
    (holds : Holds rest s.box) :
    (∀ run limit, ∃ out, Inbox.forRun rest run none limit = .ok out ∧
      (out.map (·.messageId)).Nodup ∧
      out.map (fun m => (m.messageId, m.run)) =
        ((sends (s.held.take limit)).filter fun m => m.run = run).map fun m =>
          (m.messageId, some run.headerValue)) ∧
    (∀ sent ∈ s.returned, sent ∉ s.removed → ∀ run limit out,
      Inbox.forRun rest run none limit = .ok out →
        (sent.messageId ∈ out.map (·.messageId) → run = sent.run) ∧
        (s.held.length ≤ limit → run = sent.run → sent.messageId ∈ out.map (·.messageId))) ∧
    s.events = s.returned.map SentMail.event ∧ (s.returned.map (·.messageId)).Nodup := by
  have inv : s.Inv := reached.invariant (fun _ start => start ▸ inv_new)
    fun _ _ _ inv step => inv.step faithful step
  have reads (run : RunId) (limit : Nat) : ∃ out, Inbox.forRun rest run none limit = .ok out ∧
      out.map (fun m => (m.messageId, m.run)) =
        ((sends (s.held.take limit)).filter fun m => m.run = run).map fun m =>
          (m.messageId, some run.headerValue) := by
    refine ⟨_, Inbox.forRun_eq holds, ?_⟩
    rw [box, ← List.map_take]
    exact reported_sends (fun h mem => inv.sound h (List.mem_of_mem_take mem)) run
  -- The identifiers that a read returns are those of its run's sends.
  have ids (run : RunId) (limit : Nat) {out : List Message}
      (read : Inbox.forRun rest run none limit = .ok out) : out.map (·.messageId) =
        ((sends (s.held.take limit)).filter fun m => m.run = run).map (·.messageId) := by
    obtain ⟨out', read', pairs⟩ := reads run limit
    obtain rfl := Except.ok.inj (read.symm.trans read')
    have firsts := congrArg (List.map Prod.fst) pairs
    simpa [List.map_map, Function.comp_def] using firsts
  have within (limit : Nat) : (sends (s.held.take limit)).Sublist s.taken :=
    ((List.take_sublist limit s.held).filterMap _).trans (List.sublist_append_left _ _)
  refine ⟨fun run limit => ?_, fun sent returned kept run limit out read => ⟨fun mem => ?_,
    fun far mine => ?_⟩, inv.events, inv.unique⟩
  · obtain ⟨out, read, pairs⟩ := reads run limit
    refine ⟨out, read, ?_, pairs⟩
    rw [ids run limit read]
    exact inv.once.sublist ((List.filter_sublist.trans (within limit)).map _)
  · rw [ids run limit read] at mem
    obtain ⟨m, inReads, same⟩ := List.mem_map.mp mem
    obtain ⟨inTake, ofRun⟩ := List.mem_filter.mp inReads
    have one := List.inj_on_of_nodup_map inv.once ((within limit).subset inTake)
      (inv.kept returned) same
    rw [← one]
    exact (of_decide_eq_true ofRun).symm
  · rw [ids run limit read, List.take_of_length_le far]
    have inHeld : sent ∈ sends s.held :=
      (List.mem_append.mp (inv.kept returned)).resolve_right kept
    exact List.mem_map_of_mem (List.mem_filter.mpr ⟨inHeld, by simp [mine]⟩)

def plainMailpit : Mailpit plainLettre where
  hold id (parts : Parts String) :=
    ⟨⟨id, parts.messageId, some parts.from_, some [parts.to_], parts.subject, parts.body, ""⟩,
      [(parts.header.1, [parts.header.2])]⟩

theorem plainMailpit_faithful : plainMailpit.Faithful where
  id _ _ := rfl
  messageId id parts message builds := by
    obtain rfl := Except.ok.inj builds
    rfl
  header id parts message builds := by
    obtain rfl := Except.ok.inj builds
    exact ⟨parts.header.1, List.mem_cons_self, by simp [eqIgnoreAsciiCase]⟩
  only id parts message builds entry mem _ := by
    obtain rfl := Except.ok.inj builds
    rw [List.mem_singleton.mp mem]

def plainMailer : Mailer :=
  .new ⟨"localhost:1025", "http://localhost:8025", none, .parse []⟩

/-- A run reads the mail that it sent. -/
theorem mail_reads_back_one : ∃ s out,
    Machine.Reachable (· = new) (Step plainLettre plainMailpit plainMailer) s ∧
    Inbox.forRun (Mail.mailpit s.box) Inbox.sampleRun none DEFAULT_LIMIT = .ok out ∧
      "a@testbed" ∈ out.map (·.messageId) := by
  have sent : Machine.Reachable (· = new) (Step plainLettre plainMailpit plainMailer) _ :=
    .next (.start rfl) (.send new "a" "1" Inbox.sampleRun
      ⟨"b@c.test", "hello", "", none⟩ (.ok ()) true _ (by simp [new]) (by simp [new, box]) rfl
      fun _ => rfl)
  obtain ⟨reads, kept, -⟩ := mail_reads_back plainMailpit_faithful sent
    (mailpit_holds (List.nodup_singleton _))
  obtain ⟨out, read, -⟩ := reads Inbox.sampleRun DEFAULT_LIMIT
  exact ⟨_, out, sent, read,
    (kept _ List.mem_cons_self (by simp [new]) _ _ out read).2 (by decide) rfl⟩

end Mailbox

end Servr.Mail
