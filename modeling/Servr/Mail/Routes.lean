import Servr.Data
import Servr.Mail.ReadBack
import Servr.Mail.Search

/-! The mail endpoints of `admin/src`: the run that a request acts as, sends, listings that a query
narrows, and purges. -/

namespace Servr.Mail

/-- `MailError::NoInbox` is told apart from the errors of a mailer that has one. -/
inductive MailApiError
  | unconfigured
  | badRun (text : String)
  | noInbox
  | mail (e : MailError)
  deriving DecidableEq

def MailError.display : MailError → String
  | .build text => s!"building the message failed: {text}"
  | .smtp text => s!"SMTP send to Mailpit failed: {text}"
  | .api text => s!"Mailpit REST API unreachable: {text}"
  | .status code path => s!"Mailpit answered {code} for {path}"
  | .recipientNotAllowed to_ allowed =>
    s!"refusing to relay to {to_}: not in MAIL_ALLOWED_RECIPIENTS ({allowed}).          " ++
      "This endpoint is unauthenticated; without the allowlist it is an open relay."

namespace MailApiError

def display : MailApiError → String
  | unconfigured => "Mailpit is not configured; set MAILPIT_SMTP and MAILPIT_API"
  | badRun text => text
  | noInbox =>
    "this testbed relays mail and has no inbox; a relay accepts mail and reports nothing back"
  | mail e => e.display

def status : MailApiError → Nat
  | unconfigured => 503
  | badRun _ => 400
  | mail (.recipientNotAllowed _ _) => 403
  | noInbox => 501
  | mail _ => 502

end MailApiError

/-- The read side of a mailer: none in relay mode. -/
def Mailer.inbox (mailer : Mailer) (rest : Rest) : Option Rest :=
  if mailer.config.isRelay then none else some rest

structure MailQuery where
  query : Option String
  limit : Option Nat
  all : Bool

/-- What a listing returns; of `all` runs it names none. -/
structure Listing where
  run : Option String
  count : Nat
  messages : List Message
  deriving DecidableEq

/-- What the endpoints share: the mailer if Mailpit was reachable at boot, the run of the process,
how the crate uuid reads a text, and how the crate http writes a header for debugging. -/
structure MailRouter where
  mailer : Option Mailer
  run : RunId
  parse : String → Except String Uuid
  debug : HeaderValue → String

namespace MailRouter

variable (router : MailRouter)

/-- The run a mail request acts as. -/
def runOf : Option HeaderValue → Except MailApiError RunId
  | none => .ok router.run
  | some raw =>
    match raw.toStr.bind fun text => (router.parse text).toOption with
    | some uuid => .ok ⟨uuid⟩
    | none => .error (.badRun (router.debug raw ++ " is not a run id"))

def configured : Except MailApiError Mailer :=
  match router.mailer with
  | some mailer => .ok mailer
  | none => .error .unconfigured

/-- What a send has the mailer do, with the run that it acts as. -/
def mailSend (lettre : Lettre) (uuid : String) (header : Option HeaderValue) (mail : OutgoingMail) :
    Except MailApiError (RunId × Sending lettre) := do
  let mailer ← router.configured
  let run ← router.runOf header
  return (run, mailer.send lettre uuid run mail)

/-- The run-filtered inbox. -/
def mailList (rest : Rest) (header : Option HeaderValue) (params : MailQuery) :
    Except MailApiError Listing := do
  let mailer ← router.configured
  let run ← router.runOf header
  let limit := params.limit.getD DEFAULT_LIMIT
  match mailer.inbox rest with
  | none => throw .noInbox
  | some inbox =>
    let messages ← (if params.all then Inbox.all inbox params.query limit
      else Inbox.forRun inbox run params.query limit).mapError .mail
    return ⟨if params.all then none else some run.headerValue, messages.length, messages⟩

/-- A purge, with what Mailpit answers to it. -/
def mailPurge (rest : Rest) (answer : Except MailError Unit) : Except MailApiError Unit := do
  let mailer ← router.configured
  match mailer.inbox rest with
  | none => throw .noInbox
  | some _ => answer.mapError .mail

/-! ### Headers -/

/-- The header with which a request acts as a run. -/
def headerOf (run : RunId) : HeaderValue := asBytes run.headerValue.toList

theorem toStr_headerOf (run : RunId) : (headerOf run).toStr = some run.headerValue :=
  HeaderValue.toStr_eq_some.mpr (spells_headerValue run)

/-- A request with the header of a run acts as it, where the crate uuid reads what it writes. -/
theorem runOf_headerOf (reads : ∀ uuid, router.parse (Plain.uuidText uuid) = .ok uuid)
    (run : RunId) : router.runOf (some (headerOf run)) = .ok run := by
  simp only [runOf, toStr_headerOf, Option.bind_some, RunId.headerValue, reads, Except.toOption]

/-! ### Runs of requests -/

open Mailbox (sends)

section Steps

variable (lettre : Lettre) (mailpit : Mailpit lettre)

/-- What the requests of any clients do, and what Mailpit does on its own. -/
inductive Step : Mailbox → Mailbox → Prop
  | send (s : Mailbox) (uuid id : String) (header : Option HeaderValue) (mail : OutgoingMail)
      (answer : Except String Unit) (taken : Bool) (message : lettre.Message) (run : RunId)
      (sending : Sending (lettre.answering answer)) :
      router.mailSend (lettre.answering answer) uuid header mail = .ok (run, sending) →
      uuid ∉ s.drawn → id ∉ s.box.map (·.summary.id) → sending.transmitted = some message →
      (answer = .ok () → taken = true) → Step s { s with
        held := if taken then ⟨mailpit.hold id message, some (mail.sent uuid run)⟩ :: s.held
          else s.held
        drawn := uuid :: s.drawn
        events := s.events ++ sending.event.toList
        returned := s.returned ++ sending.result.toOption.toList }
  /-- The mailer refuses a send, or cannot build its message. -/
  | refuse (s : Mailbox) (uuid : String) (header : Option HeaderValue) (mail : OutgoingMail)
      (run : RunId) (sending : Sending lettre) :
      router.mailSend lettre uuid header mail = .ok (run, sending) → sending.transmitted = none →
      Step s { s with
        events := s.events ++ sending.event.toList
        returned := s.returned ++ sending.result.toOption.toList }
  /-- No mailer, or a header that is no run. -/
  | reject (s : Mailbox) (uuid : String) (header : Option HeaderValue) (mail : OutgoingMail)
      (e : MailApiError) : router.mailSend lettre uuid header mail = .error e → Step s s
  | purge (s : Mailbox) (rest : Rest) : router.mailPurge rest (.ok ()) = .ok () → Step s { s with
      held := []
      removed := s.removed ++ sends s.held }
  /-- Mailpit drops what is past the number that it keeps. -/
  | drop (s : Mailbox) (n : Nat) : Step s { s with
      held := s.held.take n
      removed := s.removed ++ sends (s.held.drop n) }
  | foreign (s : Mailbox) (stored : Stored) : stored.summary.id ∉ s.box.map (·.summary.id) →
      Inbox.runTag stored.headers = none → Step s { s with held := ⟨stored, none⟩ :: s.held }

end Steps

variable {router} {lettre : Lettre} {mailpit : Mailpit lettre} {mailer : Mailer} {s t : Mailbox}

theorem mailSend_eq_ok (configured : router.mailer = some mailer) {uuid : String}
    {header : Option HeaderValue} {mail : OutgoingMail} {run : RunId} {sending : Sending lettre}
    (ok : router.mailSend lettre uuid header mail = .ok (run, sending)) :
    router.runOf header = .ok run ∧ sending = mailer.send lettre uuid run mail := by
  rw [mailSend, MailRouter.configured, configured] at ok
  cases named : router.runOf header with
  | error e =>
    rw [named] at ok
    contradiction
  | ok run' =>
    rw [named] at ok
    obtain ⟨rfl, rfl⟩ := Prod.mk.inj (Except.ok.inj ok)
    exact ⟨rfl, rfl⟩

/-- The requests do to the mailbox what sends and deletions do. -/
theorem Step.mailbox (configured : router.mailer = some mailer)
    (step : router.Step lettre mailpit s t) :
    Mailbox.Step lettre mailpit mailer s t ∨ t = s := by
  cases step with
  | send uuid id header mail answer taken message run sending ok new unused transmitted accepted =>
    obtain ⟨-, rfl⟩ := mailSend_eq_ok configured ok
    exact .inl (.send s uuid id run mail answer taken message new unused transmitted accepted)
  | refuse uuid header mail run sending ok refused =>
    obtain ⟨-, rfl⟩ := mailSend_eq_ok configured ok
    exact .inl (.refuse s uuid run mail refused)
  | reject => exact .inr rfl
  | purge rest _ => exact .inl (.keep s 0)
  | drop n => exact .inl (.keep s n)
  | foreign stored unused untagged => exact .inl (.foreign s stored unused untagged)

theorem reachable_mailbox (configured : router.mailer = some mailer)
    (reached : Machine.Reachable (· = Mailbox.new) (router.Step lettre mailpit) s) :
    Machine.Reachable (· = Mailbox.new) (Mailbox.Step lettre mailpit mailer) s := by
  refine reached.simulate id (fun _ start => start) fun s t _ step => ?_
  rcases step.mailbox configured with does | rfl
  · exact .single does
  · exact .refl

/-! ### What the listings show -/

/-- The newest messages that the query of a listing is about. -/
def found (accepts : List UInt8 → Stored → Bool) (held : List Held) (params : MailQuery) :
    List Held :=
  (held.filter fun h => Inbox.shown accepts params.query h.stored).take
    (params.limit.getD DEFAULT_LIMIT)

variable {accepts : List UInt8 → Stored → Bool} {rest : Rest}

theorem found_box (held : List Held) (params : MailQuery) :
    (((held.map (·.stored)).filter (Inbox.shown accepts params.query)).take
      (params.limit.getD DEFAULT_LIMIT)) = (found accepts held params).map (·.stored) := by
  rw [found, List.filter_map, List.map_take]
  rfl

theorem found_sublist (held : List Held) (params : MailQuery) :
    (found accepts held params).Sublist held :=
  (List.take_sublist _ _).trans List.filter_sublist

/-- What a listing returns where there is an inbox. -/
theorem mailList_eq (configured : router.mailer = some mailer)
    (searches : Searches accepts rest s.box) {header : Option HeaderValue} {run : RunId}
    (named : router.runOf header = .ok run) (params : MailQuery) :
    router.mailList rest header params =
      if mailer.config.isRelay then .error .noInbox
      else
        let messages := if params.all then
            (found accepts s.held params).map fun h => Message.of h.stored.summary
          else (((found accepts s.held params).map (·.stored)).filter (Stored.taggedWith run)).map
            (Stored.reported run)
        .ok ⟨if params.all then none else some run.headerValue, messages.length, messages⟩ := by
  have everything := Inbox.all_shown searches params.query (params.limit.getD DEFAULT_LIMIT)
  have mine := Inbox.forRun_shown searches run params.query (params.limit.getD DEFAULT_LIMIT)
  rw [Mailbox.box, found_box, List.map_map] at everything
  rw [Mailbox.box, found_box] at mine
  rw [mailList, MailRouter.configured, configured, named]
  by_cases relay : mailer.config.isRelay
  · have closed : mailer.inbox rest = none := if_pos relay
    rw [if_pos relay]
    simp only [bind, Except.bind, closed]
    rfl
  · have inbox : mailer.inbox rest = some rest := if_neg relay
    rw [if_neg relay]
    simp only [bind, Except.bind, inbox]
    cases params.all with
    | true =>
      simp only [if_true, everything, Except.mapError, pure, Except.pure]
      rfl
    | false =>
      simp only [mine, Except.mapError, pure, Except.pure]
      rfl

/-- Without a run there is no listing. -/
theorem mailList_badRun (configured : router.mailer = some mailer) {header : Option HeaderValue}
    {e : MailApiError} (named : router.runOf header = .error e) (params : MailQuery) :
    router.mailList rest header params = .error e := by
  rw [mailList, MailRouter.configured, configured, named]
  rfl

/-- A listing of one run, as the sends that it shows. -/
theorem mailList_sends (configured : router.mailer = some mailer) (inv : s.Inv)
    (searches : Searches accepts rest s.box) {header : Option HeaderValue} {run : RunId}
    (named : router.runOf header = .ok run) {params : MailQuery} (filtered : params.all = false)
    {listing : Listing} (lists : router.mailList rest header params = .ok listing) :
    listing.count = listing.messages.length ∧ listing.run = some run.headerValue ∧
    listing.messages.map (fun m => (m.messageId, m.run)) =
      ((sends (found accepts s.held params)).filter fun m => m.run = run).map fun m =>
        (m.messageId, some run.headerValue) := by
  rw [mailList_eq configured searches named] at lists
  split at lists
  · contradiction
  · simp only [filtered] at lists
    obtain rfl := Except.ok.inj lists
    exact ⟨rfl, rfl, Mailbox.reported_sends
      (fun h mem => inv.sound h ((found_sublist s.held params).subset mem)) run⟩

/-- Requests of any clients reach the mailbox in any order.  Where the server has an inbox, a
listing answers exactly the requests that name a run; it never stands for an inbox that is not
there.  It shows, newest first, the mails of its run among the newest that its query is about, byte
for byte as it was given; listings for two runs share no mail, whatever they ask for; and a listing
with the header of a run shows each of its mails that was answered, is not deleted and is within the
query and the limit. -/
theorem listings_read_back (reads : ∀ uuid, router.parse (Plain.uuidText uuid) = .ok uuid)
    (faithful : mailpit.Faithful) (configured : router.mailer = some mailer)
    (reached : Machine.Reachable (· = Mailbox.new) (router.Step lettre mailpit) s)
    (searches : Searches accepts rest s.box) :
    (∀ header params, (∃ listing, router.mailList rest header params = .ok listing) ↔
      mailer.config.isRelay = false ∧ ∃ run, router.runOf header = .ok run) ∧
    (∀ header params listing run, router.mailList rest header params = .ok listing →
      router.runOf header = .ok run → listing.count = listing.messages.length ∧
        if params.all then listing.run = none ∧ listing.messages =
          (found accepts s.held params).map fun h => Message.of h.stored.summary
        else listing.run = some run.headerValue ∧
          listing.messages.map (fun m => (m.messageId, m.run)) =
            ((sends (found accepts s.held params)).filter fun m => m.run = run).map fun m =>
              (m.messageId, some run.headerValue)) ∧
    (∀ header header' params params' listing listing' run run',
      router.runOf header = .ok run → router.runOf header' = .ok run' → run ≠ run' →
      params.all = false → params'.all = false →
      router.mailList rest header params = .ok listing →
      router.mailList rest header' params' = .ok listing' →
        (listing.messages.map (·.messageId)).Disjoint (listing'.messages.map (·.messageId))) ∧
    ∀ sent ∈ s.returned, sent ∉ s.removed → ∀ params listing, params.all = false →
      s.held.length ≤ params.limit.getD DEFAULT_LIMIT →
      (∀ h ∈ s.held, h.origin = some sent → Inbox.shown accepts params.query h.stored = true) →
      router.mailList rest (some (headerOf sent.run)) params = .ok listing →
        sent.messageId ∈ listing.messages.map (·.messageId) := by
  have inv : s.Inv := (reachable_mailbox configured reached).invariant
    (fun _ start => start ▸ Mailbox.inv_new) fun _ _ _ inv step => inv.step faithful step
  -- The identifiers that a listing shows are those of its run's sends.
  have ids {header run params listing} (named : router.runOf header = .ok run)
      (filtered : params.all = false) (lists : router.mailList rest header params = .ok listing) :
      listing.messages.map (·.messageId) =
        ((sends (found accepts s.held params)).filter fun m => m.run = run).map (·.messageId) := by
    have firsts := congrArg (List.map Prod.fst)
      (mailList_sends configured inv searches named filtered lists).2.2
    simpa [List.map_map, Function.comp_def] using firsts
  have within (params : MailQuery) : sends (found accepts s.held params) ⊆ s.taken :=
    (((found_sublist s.held params).filterMap _).trans (List.sublist_append_left _ _)).subset
  refine ⟨fun header params => ?_, fun header params listing run lists named => ?_, ?_, ?_⟩
  · cases named : router.runOf header with
    | error e => simp [mailList_badRun configured named]
    | ok run =>
      rw [mailList_eq configured searches named]
      cases mailer.config.isRelay <;> simp
  · by_cases every : params.all
    · rw [mailList_eq configured searches named] at lists
      split at lists
      · contradiction
      · simp only [every] at lists ⊢
        obtain rfl := Except.ok.inj lists
        exact ⟨rfl, rfl, rfl⟩
    · rw [if_neg every]
      exact mailList_sends configured inv searches named (Bool.eq_false_iff.mpr every) lists
  · intro header header' params params' listing listing' run run' named named' other filtered
      filtered' lists lists'
    rw [ids named filtered lists, ids named' filtered' lists']
    intro messageId mem mem'
    obtain ⟨m, inReads, rfl⟩ := List.mem_map.mp mem
    obtain ⟨m', inReads', same⟩ := List.mem_map.mp mem'
    obtain ⟨inFound, ofRun⟩ := List.mem_filter.mp inReads
    obtain ⟨inFound', ofRun'⟩ := List.mem_filter.mp inReads'
    have one := List.inj_on_of_nodup_map inv.once (within params' inFound') (within params inFound)
      same
    exact other ((of_decide_eq_true ofRun).symm.trans (one ▸ of_decide_eq_true ofRun'))
  · intro sent returned kept params listing filtered far about lists
    rw [ids (runOf_headerOf router reads sent.run) filtered lists]
    refine List.mem_map_of_mem (List.mem_filter.mpr ⟨?_, by simp⟩)
    have inHeld : sent ∈ sends s.held :=
      (List.mem_append.mp (inv.kept returned)).resolve_right kept
    obtain ⟨h, mem, origin⟩ := List.mem_filterMap.mp inHeld
    refine List.mem_filterMap.mpr ⟨h, ?_, origin⟩
    rw [found, List.take_of_length_le ((List.length_filter_le _ _).trans far)]
    exact List.mem_filter.mpr ⟨mem, about h mem origin⟩

/-- A mail sent with the header of a run, and its listing with a query of several words. -/
theorem listings_read_back_one :
    let router : MailRouter := ⟨some Mailbox.plainMailer, Inbox.otherRun, fun text =>
      (Plain.uuidParse text).elim (.error "no") .ok, fun _ => ""⟩
    let accepts text (m : Stored) := decide (asBytes m.summary.subject.toList = text)
    let header := some (headerOf Inbox.sampleRun)
    ∃ s listing,
      Machine.Reachable (· = Mailbox.new)
        (router.Step plainLettre Mailbox.plainMailpit) s ∧
      router.mailList (searchingMailpit accepts s.box) header ⟨some "50% off: é", none, false⟩ =
        .ok listing ∧
      "a@testbed" ∈ listing.messages.map (·.messageId) := by
  intro router accepts header
  have reads (uuid : Uuid) : router.parse (Plain.uuidText uuid) = .ok uuid := by
    simp only [router, Plain.uuidParse_uuidText]
    rfl
  have named := runOf_headerOf router reads Inbox.sampleRun
  have sent : Machine.Reachable (· = Mailbox.new)
      (router.Step plainLettre Mailbox.plainMailpit) _ :=
    .next (.start rfl) (.send Mailbox.new "a" "1" header ⟨"b@c.test", "50% off: é", "", none⟩
      (.ok ()) true _ Inbox.sampleRun _ (by
        rw [mailSend, named]
        rfl) (by simp [Mailbox.new]) (by simp [Mailbox.new, Mailbox.box]) rfl fun _ => rfl)
  obtain ⟨answers, -, -, shown⟩ := listings_read_back reads Mailbox.plainMailpit_faithful rfl sent
    (searchingMailpit_searches accepts (List.nodup_singleton _))
  obtain ⟨listing, lists⟩ := (answers header ⟨some "50% off: é", none, false⟩).mpr
    ⟨rfl, Inbox.sampleRun, named⟩
  refine ⟨_, listing, sent, lists, ?_⟩
  refine shown _ List.mem_cons_self (by simp [Mailbox.new]) _ listing rfl (by decide) ?_ lists
  intro h mem _
  obtain rfl := List.mem_singleton.mp mem
  decide +kernel

end MailRouter

end Servr.Mail
