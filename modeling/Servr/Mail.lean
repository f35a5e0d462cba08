import Servr.Plain
import Servr.Text

/-! The mail client of `mail/src`: the allowlist of relay recipients, the one place that sends, and
the inbox that is read back from Mailpit.  The crate lettre and the HTTP client are parameters. -/

namespace Servr

namespace Mail

inductive MailError
  | build (text : String)
  | smtp (text : String)
  | api (text : String)
  | status (status : UInt16) (path : String)
  | recipientNotAllowed (to_ allowed : String)
  deriving DecidableEq

/-! ### The allowlist -/

inductive Entry
  /-- Any address at exactly this domain. -/
  | domain (domain : List Char)
  /-- This address and no other. -/
  | address (address : List Char)
  /-- Everything. -/
  | any
  deriving DecidableEq

/-- Recipients that a relay send is permitted to reach. -/
structure Allowlist where
  entries : List Entry
  deriving DecidableEq

namespace Allowlist

def readEntry (e : List Char) : Entry :=
  let lower := asciiLowercase e
  if lower = ['*'] then .any
  else
    match stripPrefix ['@'] lower with
    | some domain => .domain domain
    | none => .address lower

/-- The entries of a comma-separated text, without the white space around them. -/
def texts (raw : List Char) : List (List Char) := (raw.splitOn ',').map trim

def parse (raw : List Char) : Allowlist := ⟨((texts raw).filter (· ≠ [])).map readEntry⟩

def isEmpty (list : Allowlist) : Bool := list.entries.isEmpty

def isUnrestricted (list : Allowlist) : Bool := list.entries.contains .any

/-- Whether one entry permits a lowercase address with its domain. -/
def allows (address domain : List Char) : Entry → Bool
  | .any => true
  | .domain allowed => domain == allowed
  | .address allowed => address == allowed

/-- Whether an address may be sent to. -/
def permits (list : Allowlist) (address : List Char) : Bool :=
  let address := asciiLowercase (trim address)
  match rsplitOnce '@' address with
  | some (_, domain) => list.entries.any (allows address domain)
  | none => false

def displayEntry : Entry → String
  | .any => "*"
  | .domain d => "@" ++ String.ofList d
  | .address a => String.ofList a

/-- `Display`. -/
def display (list : Allowlist) : String :=
  if list.entries = [] then "(none — every relay send is refused)"
  else String.intercalate ", " (list.entries.map displayEntry)

end Allowlist

/-! ### Sending -/

/-- An authenticated SMTP relay. -/
structure Relay where
  host : String
  port : UInt16
  user : String
  password : String
  from_ : String

structure MailConfig where
  smtp : String
  api : String
  /-- When set, mail is relayed for real instead of dropped into Mailpit. -/
  relay : Option Relay
  /-- Recipients that a relay send may reach. -/
  allowed : Allowlist

def MailConfig.isRelay (config : MailConfig) : Bool := config.relay.isSome

structure OutgoingMail where
  to_ : String
  subject : String
  body : String
  from_ : Option String

structure SentMail where
  messageId : String
  to_ : String
  subject : String
  run : RunId
  deriving DecidableEq

def RUN_HEADER_NAME : String := "X-Testbed-Run"

def DEFAULT_FROM : String := "testbed@localhost"

/-- What a message is built of. -/
structure Parts (Mailbox : Type) where
  from_ : Mailbox
  to_ : Mailbox
  subject : String
  messageId : String
  header : String × String
  body : String

/-- The crate lettre: mailboxes read from a text, messages built from their parts, and the transport
that takes a message. -/
structure Lettre where
  Mailbox : Type
  Message : Type
  parse : String → Except String Mailbox
  build : Parts Mailbox → Except String Message
  transport : Message → Except String Unit

/-- Addresses are their texts, and messages are their parts. -/
def plainLettre : Lettre where
  Mailbox := String
  Message := Parts String
  parse address := .ok address
  build parts := .ok parts
  transport _ := .ok ()

/-- Envelope sender when the caller names none. -/
structure Sender where
  defaultFrom : String

/-- `Sender::new`, less the connection. -/
def Sender.new (config : MailConfig) : Sender :=
  match config.relay with
  | some relay => ⟨relay.from_⟩
  | none => ⟨DEFAULT_FROM⟩

section Sending

variable (lettre : Lettre)

/-- The message that a send builds, with the identifier `uuid` drawn for it. -/
def Sender.message (sender : Sender) (uuid : String) (run : RunId) (mail : OutgoingMail) :
    Except MailError (String × lettre.Message) := do
  let messageId := uuid ++ "@testbed"
  let address := mail.from_.getD sender.defaultFrom
  let from_ ← (lettre.parse address).mapError fun e =>
    .build s!"from address {debugStr address}: {e}"
  let to_ ← (lettre.parse mail.to_).mapError fun e =>
    .build s!"to address {debugStr mail.to_}: {e}"
  let built ← (lettre.build {
    from_, to_, subject := mail.subject, messageId
    header := (RUN_HEADER_NAME, run.headerValue)
    body := mail.body }).mapError .build
  return (messageId, built)

/-- `EventKind::MailSent`. -/
structure MailSent where
  to_ : String
  subject : String
  messageId : String
  deriving DecidableEq

/-- What a send does: the message that it hands to the transport, the event that it emits, and what
it returns. -/
structure Sending where
  transmitted : Option lettre.Message
  event : Option MailSent
  result : Except MailError SentMail

/-- A send that ends before the transport. -/
def Sending.failed (e : MailError) : Sending lettre := ⟨none, none, .error e⟩

structure Mailer where
  sender : Sender
  config : MailConfig

/-- `Mailer::new`, less what connects to the outside. -/
def Mailer.new (config : MailConfig) : Mailer := ⟨Sender.new config, config⟩

/-- Sends a mail tagged with a run, then records it. -/
def Mailer.send (mailer : Mailer) (uuid : String) (run : RunId) (mail : OutgoingMail) :
    Sending lettre :=
  if mailer.config.isRelay ∧ mailer.config.allowed.permits mail.to_.toList = false then
    .failed lettre (.recipientNotAllowed mail.to_ mailer.config.allowed.display)
  else
    match mailer.sender.message lettre uuid run mail with
    | .error e => .failed lettre e
    | .ok (messageId, message) =>
      match lettre.transport message with
      | .error e => ⟨some message, none, .error (.smtp e)⟩
      | .ok _ =>
        ⟨some message, some ⟨mail.to_, mail.subject, messageId⟩,
          .ok ⟨messageId, mail.to_, mail.subject, run⟩⟩

end Sending

/-! ### Reading back -/

/-- How many messages a run-filtered read will look at before giving up. -/
def DEFAULT_LIMIT : Nat := 200

/-- One message of Mailpit's listing. -/
structure Summary where
  id : String
  messageId : String
  from_ : Option String
  to_ : Option (List String)
  subject : String
  snippet : String
  created : String
  deriving DecidableEq

/-- One message, as the testbed reports it. -/
structure Message where
  id : String
  messageId : String
  from_ : String
  to_ : List String
  subject : String
  snippet : String
  created : String
  run : Option String
  deriving DecidableEq

/-- `Message::from`: a bare listing does not know the run. -/
def Message.of (s : Summary) : Message where
  id := s.id
  messageId := s.messageId
  from_ := s.from_.getD ""
  to_ := s.to_.getD []
  subject := s.subject
  snippet := s.snippet
  created := s.created
  run := none

/-- `{byte:02X}`. -/
def upperHex (b : UInt8) : List Char := (hexByte b).map Char.toUpper

/-- Percent-encodes a search query. -/
def urlencode (raw : String) : String :=
  String.ofList ((asBytes raw.toList).flatMap fun byte =>
    let c := Char.ofNat byte.toNat
    if c.isAlphanum ∨ c = '-' ∨ c = '_' ∨ c = '.' ∨ c = '~' then [c]
    else if c = ' ' then ['+']
    else '%' :: upperHex byte)

/-- What Mailpit's REST API answers at a path: the messages of a listing, and the headers of a
message as the entries of a map. -/
structure Rest where
  listing : String → Except MailError (List Summary)
  headers : String → Except MailError (List (String × List String))

namespace Inbox

variable (rest : Rest)

def messagesPath (limit : Nat) : String := "/api/v1/messages?limit=" ++ toString limit

def headersPath (id : String) : String := "/api/v1/message/" ++ id ++ "/headers"

/-- Every message that Mailpit holds, newest first, whatever run sent it. -/
def all (query : Option String) (limit : Nat) : Except MailError (List Message) := do
  let path := match query with
    | some q =>
      if q ≠ "" then s!"/api/v1/search?limit={limit}&query={urlencode q}" else messagesPath limit
    | none => messagesPath limit
  return (← rest.listing path).map Message.of

/-- The first value of the run header among the headers of a message. -/
def runTag (headers : List (String × List String)) : Option String :=
  ((headers.find? fun (name, _) =>
    eqIgnoreAsciiCase name.toList RUN_HEADER_NAME.toList).bind fun (_, values) => values.head?).map
    fun v => String.ofList (trim v.toList)

/-- The run header on one message, if it carries one. -/
def runHeader (id : String) : Except MailError (Option String) :=
  (rest.headers (headersPath id)).map runTag

/-- The loop of `for_run`. -/
def collect (wanted : String) : List Message → Except MailError (List Message)
  | [] => .ok []
  | message :: messages => do
    let tag ← runHeader rest message.id
    let out ← collect wanted messages
    return if tag = some wanted then { message with run := tag } :: out else out

/-- The messages belonging to a run. -/
def forRun (run : RunId) (query : Option String) (limit : Nat) : Except MailError (List Message) :=
  do collect rest run.headerValue (← all rest query limit)

end Inbox

end Mail

end Servr
