import Servr.Event
import Servr.Http
import Servr.Outbound.Laddered
import Servr.Sign.Exact

/-! The two halves of `hooks`, pointed at each other: what the sender posts to the inbox of the same
process is in flight until it is lost, the fault layer answers it, or the layer lets the inbox
record it.  How JSON is written and read, the digests, where a URL leads and which status goes out
are parameters. -/

namespace Servr.Hooks

/-- The headers of a request, in the order in which they were added, and its body. -/
structure Request where
  headers : List (String × List UInt8)
  body : List UInt8

def secretOf (endpoint : WebhookEndpoint) : String := endpoint.secret.getD Sign.DEFAULT_SECRET

/-- The name of the header that a scheme signs with. -/
def signatureHeader : SigningScheme → Option String
  | .stripe => some Sign.STRIPE_HEADER
  | .github => some Sign.GITHUB_HEADER
  | .none => none

/-- The name of a header as the inbox writes it. -/
def lowercase (name : String) : String := String.ofList (asciiLowercase name.toList)

/-- Headers of the propagator and of the client: none of them is a signature. -/
def Unsigned (headers : List (String × List UInt8)) : Prop :=
  ∀ entry ∈ headers, lowercase entry.1 ≠ Sign.STRIPE_HEADER ∧ lowercase entry.1 ≠ Sign.GITHUB_HEADER

section Requests

variable (hmac : String → List UInt8 → List UInt8) (toVec : Json.Value → List UInt8)

/-- The request that `deliver` sends when it signs at `at_`. -/
def request (d : Outbound.Delivery) (at_ : DateTime) (others : List (String × List UInt8)) :
    Request :=
  let body := toVec d.body
  let signature := Sign.header hmac d.endpoint.sign (secretOf d.endpoint) body at_
  { headers := ("content-type", asBytes "application/json".toList) ::
      (signature.map fun (name, value) => (name, asBytes value)).toList ++ others
    body }

end Requests

/-- A request that goes to an inbox, with what the fault layer does to it once that is known. -/
structure Flight where
  post : Outbound.Post
  request : Request
  effects : Option Effects

/-- A request that the inbox has recorded. -/
structure Arrival where
  post : Outbound.Post
  endpoint : String
  capture : Inbound.Capture
  effects : Effects

/-- The event that the handler emits. -/
def Arrival.event (a : Arrival) : WebhookIn := ⟨a.endpoint, a.capture.headers, a.capture.bodySha256⟩

/-- What the layer makes of the handler's answer, which is JSON. -/
def Arrival.response (a : Arrival) (bytes : List UInt8) : Http.Response :=
  Http.passed a.effects ⟨Http.OK, [("content-type", "application/json")], ⟨bytes, false⟩⟩

/-- The status that the server puts on the wire for that of a response: informational ones it does
not send as they are, all others it does. -/
structure Server where
  send : UInt16 → UInt16
  whole : ∀ status, 200 ≤ status → send status = status

/-- Where URLs lead: to which endpoint of the inbox, and under which path. -/
structure Routing where
  hook : String → Option String
  path : String → String

/-- The sender and the inbox, the configurations that were served, the last of them now, the
requests in flight, those that the inbox has recorded, the handlers that have recorded one and are
to emit its event, those that have answered, and the statuses that the server has sent. -/
structure Loop where
  sender : Outbound.System
  inbox : Inbound.Inbox
  history : List Resolved
  flying : List Flight
  recorded : List Arrival
  handling : List Arrival
  answered : List Arrival
  events : List WebhookIn
  replied : List (Outbound.Post × UInt16)

namespace Loop

def new (now : DateTime) (config : Resolved) : Loop :=
  ⟨.new now, ∅, [config], [], [], [], [], [], []⟩

section Steps

variable (hmac : String → List UInt8 → List UInt8) (toVec : Json.Value → List UInt8)
  (readers : Inbound.Readers) (routing : Routing) (server : Server) (mine : String → Prop)

/-- A status that the sender reads from an inbox of its process is one that the server sent for the
request. -/
def Honest (s : Loop) : Outbound.Op → Prop
  | .answer (.ok status) => ∀ d due, s.sender.tick = .posted d due →
    (routing.hook d.endpoint.url).isSome = true →
      (⟨d.id, d.attempt, d.endpoint.url, d.body⟩, status) ∈ s.replied
  | _ => True

/-- `mine` are the endpoints that only the sender posts to, and that nobody clears. -/
inductive Step : Loop → Loop → Prop
  /-- The sender takes a step that posts nothing. -/
  | turn (s : Loop) (op : Outbound.Op) : s.sender.Assumed op → s.Honest routing op →
      (s.sender.step op).posts = s.sender.posts → Step s { s with sender := s.sender.step op }
  | post (s : Loop) (d due) (at_ : DateTime) (others : List (String × List UInt8)) :
      s.sender.tick = .attempting (d :: due) → ¬d.next.attempt ≤ d.endpoint.failFirst →
      Unsigned others → Step s { s with
        sender := s.sender.step .attempt
        flying := s.flying ++ [⟨⟨d.id, d.next.attempt, d.endpoint.url, d.body⟩,
          request hmac toVec d.next at_ others, none⟩] }
  | lose (s : Loop) (k : Nat) : Step s { s with flying := s.flying.eraseIdx k }
  /-- The rules are changed. -/
  | control (s : Loop) (config : Resolved) : Step s { s with history := s.history ++ [config] }
  /-- The layer decides what to do to the `k`-th request. -/
  | resolve (s : Loop) (k : Nat) (f : Flight) (config fuel specs roll effects) :
      s.flying[k]? = some f → f.effects = none → s.history.getLast? = some config →
      config.faultsFor fuel (routing.path f.post.url) = some specs →
      Effects.resolve specs roll = some effects →
      Step s { s with flying := s.flying.set k { f with effects := some effects } }
  /-- The layer answers the `k`-th request itself. -/
  | short (s : Loop) (k : Nat) (f : Flight) (effects response) : s.flying[k]? = some f →
      f.effects = some effects → Http.short effects = some response → Step s { s with
        flying := s.flying.eraseIdx k
        replied := s.replied ++ [(f.post, server.send response.status.code)] }
  /-- The `k`-th request reaches its handler, which records it. -/
  | record (s : Loop) (k : Nat) (f : Flight) (effects endpoint) : s.flying[k]? = some f →
      f.effects = some effects → Http.short effects = none →
      routing.hook f.post.url = some endpoint → Step s
        (let (capture, inbox) :=
          s.inbox.record readers endpoint f.request.headers f.request.body s.sender.now
        { s with
          inbox
          flying := s.flying.eraseIdx k
          recorded := s.recorded ++ [⟨f.post, endpoint, capture, effects⟩]
          handling := s.handling ++ [⟨f.post, endpoint, capture, effects⟩] })
  /-- The `k`-th handler emits its event and answers. -/
  | answer (s : Loop) (k : Nat) (a : Arrival) (bytes : List UInt8) : s.handling[k]? = some a →
      Step s { s with
        handling := s.handling.eraseIdx k
        answered := s.answered ++ [a]
        events := s.events ++ [a.event]
        replied := s.replied ++ [(a.post, server.send (a.response bytes).status.code)] }
  /-- Somebody else posts to the inbox or clears it. -/
  | call (s : Loop) (call : Inbound.Call) : (∀ endpoint, mine endpoint → ¬call.Concerns endpoint) →
      Step s { s with inbox := call.apply readers s.inbox }

end Steps

end Loop

/-! ### What the inbox reads of a request -/

theorem lookup_headers {headers : List (String × List UInt8)} {name : String} {value : List UInt8}
    (found : ∃ entry ∈ headers, lowercase entry.1 = name)
    (only : ∀ entry ∈ headers, lowercase entry.1 = name → entry.2 = value)
    (readers : Inbound.Readers) (raw : List UInt8) (now : DateTime) :
    (Inbound.capture readers headers raw now).headers.lookup name =
      some (Inbound.headerText value) := by
  simp only [Inbound.capture]
  induction headers using List.reverseRecOn with
  | nil => simp at found
  | append_singleton headers entry ih =>
    rw [List.foldl_append, List.foldl_cons, List.foldl_nil]
    by_cases same : lowercase entry.1 = name
    · have last := only entry (List.mem_append_right _ List.mem_cons_self) same
      rw [← same, ← last]
      exact Finmap.lookup_insert _
    · refine (Finmap.lookup_insert_of_ne _ (Ne.symm same)).trans (ih ?_ fun e mem => ?_)
      · obtain ⟨e, mem, here⟩ := found
        rcases List.mem_append.mp mem with mem | mem
        · exact ⟨e, mem, here⟩
        · exact absurd (List.mem_singleton.mp mem ▸ here) same
      · exact only e (List.mem_append_left _ mem)

theorem lookup_headers_none {headers : List (String × List UInt8)} {name : String}
    (absent : ∀ entry ∈ headers, lowercase entry.1 ≠ name) (readers : Inbound.Readers)
    (raw : List UInt8) (now : DateTime) :
    (Inbound.capture readers headers raw now).headers.lookup name = none := by
  simp only [Inbound.capture]
  induction headers using List.reverseRecOn with
  | nil => exact Finmap.lookup_empty name
  | append_singleton headers entry ih =>
    rw [List.foldl_append, List.foldl_cons, List.foldl_nil]
    have other := absent entry (List.mem_append_right _ List.mem_cons_self)
    refine (Finmap.lookup_insert_of_ne _ other.symm).trans (ih fun e mem => ?_)
    exact absent e (List.mem_append_left _ mem)

/-- Printable characters of ASCII come back from a header. -/
theorem headerText_asBytes {cs : List Char} (h : ∀ c ∈ cs, 32 ≤ c.toNat ∧ c.toNat < 127) :
    Inbound.headerText (asBytes cs) = String.ofList cs := by
  have spells : HeaderValue.Spells (asBytes cs) (String.ofList cs) :=
    ⟨by rw [String.toList_ofList], fun c mem => .inr (h c (by rwa [String.toList_ofList] at mem))⟩
  rw [Inbound.headerText, HeaderValue.toStr_eq_some.mpr spells, Option.getD_some]

/-! ### The signature -/

theorem hexEncode_printable (bytes : List UInt8) :
    ∀ c ∈ hexEncode bytes, 32 ≤ c.toNat ∧ c.toNat < 127 := by
  have digit : ∀ n < 16, 32 ≤ (Nat.digitChar n).toNat ∧ (Nat.digitChar n).toNat < 127 := by decide
  intro c mem
  obtain ⟨b, -, here⟩ := List.mem_flatMap.mp mem
  have bound := b.toNat_lt
  simp only [hexByte, List.mem_cons, List.not_mem_nil, or_false] at here
  rcases here with rfl | rfl
  · exact digit _ (by omega)
  · exact digit _ (by omega)

theorem displayInt_printable (n : Int) : ∀ c ∈ displayInt n, 32 ≤ c.toNat ∧ c.toNat < 127 := by
  intro c mem
  rcases isDecimal_displayInt n c mem with rfl | rfl | digit
  · decide
  · decide
  · simp only [Char.isDigit, Bool.and_eq_true, decide_eq_true_eq, ge_iff_le, UInt32.le_iff_toNat_le]
      at digit
    have low : 48 ≤ c.val.toNat := digit.1
    have high : c.val.toNat ≤ 57 := digit.2
    rw [Char.toNat]
    omega

section Signatures

variable (hmac : String → List UInt8 → List UInt8) (secret : String) (body : List UInt8)
  (at_ : DateTime)

theorem header_eq_none (scheme : SigningScheme) :
    Sign.header hmac scheme secret body at_ = none ↔ signatureHeader scheme = none := by
  cases scheme <;> simp [Sign.header, signatureHeader]

/-- A signature is under the name of its scheme, is text, and verifies. -/
theorem header_verifies {scheme : SigningScheme} {name : String} {value : List Char}
    (signed : Sign.header hmac scheme secret body at_ = some (name, value)) :
    signatureHeader scheme = some name ∧ (∀ c ∈ value, 32 ≤ c.toNat ∧ c.toNat < 127) ∧
      Sign.verify hmac scheme secret body value = true := by
  cases scheme with
  | none => contradiction
  | stripe =>
    obtain ⟨rfl, rfl⟩ := Prod.mk.inj (Option.some.inj signed)
    refine ⟨rfl, ?_, ?_⟩
    · simp only [Sign.stripeValue, Sign.hexHmac, List.forall_mem_append]
      exact ⟨⟨⟨by simp, displayInt_printable _⟩, by simp⟩, hexEncode_printable _⟩
    · rw [Sign.verify, Sign.hexHmac, Sign.parseStripe_stripeValue
        (fun c mem => isDecimal_displayInt _ c mem) (Sign.hexEncode_plain _),
        parseI64_of_parseInt (parseInt_displayInt _), if_pos (Sign.inI64_timestamp at_)]
      simp [Sign.constantTimeEq, hexDecode_hexEncode]
  | github =>
    obtain ⟨rfl, rfl⟩ := Prod.mk.inj (Option.some.inj signed)
    refine ⟨rfl, ?_, ?_⟩
    · simp only [Sign.hexHmac, List.forall_mem_append]
      exact ⟨by simp [Sign.githubPrefix], hexEncode_printable _⟩
    · rw [Sign.verify, stripPrefix_append, Sign.hexHmac]
      simp [Sign.constantTimeEq, hexDecode_hexEncode]

end Signatures

end Servr.Hooks
