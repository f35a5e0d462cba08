import Servr.Lib.Words
import Servr.Serde
import Servr.Text
import Servr.Time

/-! The chat completions of `stream/src/chat.rs`, streamed and not, and the chunks of
`stream/src/chunks.rs`: how a text is split, and when a chunk is due. -/

namespace Servr.Stream

open Json

/-! ### Chunks -/

/-- `text.split_whitespace()`. -/
def splitWhitespace (text : List Char) : List (List Char) := Words.words isWhitespace text

/-- Splits a text into the pieces that a token-by-token stream emits. -/
def tokenize (text : String) : List String :=
  (splitWhitespace text.toList).mapIdx fun i word =>
    if i = 0 then String.ofList word else " " ++ String.ofList word

/-- The due time of a chunk, counting from `start`, or `none` for the panic of a sum out of range.
The product wraps, as in a release build. -/
def dueAt (start : DateTime) (seq : UInt32) (delayMs : UInt64) : Option DateTime :=
  start.addMillis (asI64 (delayMs * seq.toUInt64).toNat)

/-! ### Requests -/

structure ChatMessage where
  role : String
  content : String

structure ChatRequest where
  model : Option String
  messages : List ChatMessage
  stream : Bool
  /-- Virtual milliseconds between chunks. -/
  delayMs : UInt64
  /-- Fail the stream after this many chunks. -/
  failAt : Option UInt32

namespace ChatRequest

/-- The last user message, or the last message of any role when none is from a user. -/
def replyText (r : ChatRequest) : String :=
  (((r.messages.reverse.find? fun m => m.role == "user").or r.messages.getLast?).map
    ChatMessage.content).getD ""

def modelName (r : ChatRequest) : String := r.model.getD "testbed-echo"

end ChatRequest

/-! ### Completions -/

/-- The text of one SSE `data:` line: a JSON object, or the sentinel at the end of a stream. -/
inductive Payload
  | json (v : Value)
  | done

def chunk (id model : String) (created : Int) (delta : Value) (finishReason : Option String) :
    Payload :=
  .json (.obj [
    ("choices", .arr [.obj [
      ("delta", delta),
      ("finish_reason", optionValue .str finishReason),
      ("index", .num (.int 0))]]),
    ("created", .num (.int created)),
    ("id", .str s!"chatcmpl-{id}"),
    ("model", .str model),
    ("object", .str "chat.completion.chunk")])

/-- The payloads of one streamed completion, in order. -/
def pieces (id model : String) (created : Int) (text : String) : List Payload :=
  [chunk id model created (.obj [("role", .str "assistant")]) none] ++
  (tokenize text).map (fun token => chunk id model created (.obj [("content", .str token)]) none) ++
  [chunk id model created (.obj []) (some "stop"), .done]

def completion (id model : String) (created : Int) (text : String) : Value :=
  let length : Int := byteLen text.toList
  .obj [
    ("choices", .arr [.obj [
      ("finish_reason", .str "stop"),
      ("index", .num (.int 0)),
      ("message", .obj [("content", .str text), ("role", .str "assistant")])]]),
    ("created", .num (.int created)),
    ("id", .str s!"chatcmpl-{id}"),
    ("model", .str model),
    ("object", .str "chat.completion"),
    ("usage", .obj [
      ("completion_tokens", .num (.int length)),
      ("prompt_tokens", .num (.int length)),
      ("total_tokens", .num (.int (length * 2)))])]

/-- One item of a streamed body: a chunk, the injected failure, or the panic of a due time out of
range, after both of which the body ends. -/
inductive Item
  | chunk (payload : Payload)
  | injected (seq : UInt32)
  | panic

/-- The body that `completions` unfolds from the `index`-th piece on, each piece once the clock has
reached its due time. -/
def unfold (start : DateTime) (failAt : Option UInt32) (delayMs : UInt64) :
    Nat → List Payload → List Item
  | _, [] => []
  | index, piece :: pieces =>
    let seq := UInt32.ofNat index
    if failAt.any (· ≤ seq) then [.injected seq]
    else
      match dueAt start seq delayMs with
      | none => [.panic]
      | some _ => .chunk piece :: unfold start failAt delayMs (index + 1) pieces

inductive Response
  | json (v : Value)
  | sse (items : List Item)

/-- `completions` on a body that was read as a request, with the identifier of the stream, and with
the virtual times that it reads for `created` and for the start of the stream. -/
def completions (id : String) (created : Int) (start : DateTime) (r : ChatRequest) : Response :=
  let text := r.replyText
  let model := r.modelName
  if r.stream then .sse (unfold start r.failAt r.delayMs 0 (pieces id model created text))
  else .json (completion id model created text)

/-! ### What a client reads -/

/-- `v[name]`. -/
def member (name : String) : Value → Option Value
  | .obj fields => field name fields
  | _ => none

/-- `v[i]`. -/
def element (i : Nat) : Value → Option Value
  | .arr elems => elems[i]?
  | _ => none

def asStr : Value → Option String
  | .str s => some s
  | _ => none

/-- `choices[0].delta.content` of a chunk that was sent. -/
def deltaContent : Item → Option String
  | .chunk (.json v) => do
    asStr (← member "content" (← member "delta" (← element 0 (← member "choices" v))))
  | .chunk .done | .injected _ | .panic => none

/-- The delta contents of a streamed response, one after another. -/
def streamedText : Response → Option String
  | .sse items => some (String.join (items.filterMap deltaContent))
  | .json _ => none

/-- `choices[0].message.content` of a response that is not streamed. -/
def messageContent : Response → Option String
  | .json v => do
    asStr (← member "content" (← member "message" (← element 0 (← member "choices" v))))
  | .sse _ => none

end Servr.Stream
