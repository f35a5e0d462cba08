import Servr.Config
import Servr.Text
import Servr.Time

/-! The webhook signatures of `hooks/src/sign.rs`.  HMAC-SHA256, which maps a secret and a message
to a digest, is a parameter. -/

namespace Servr.Sign

def STRIPE_HEADER : String := "stripe-signature"
def GITHUB_HEADER : String := "x-hub-signature-256"

/-- The secret of an endpoint that has none of its own. -/
def DEFAULT_SECRET : String := "testbed-webhook-secret"

/-- `at.timestamp()`: whole seconds since the epoch, rounded down. -/
def timestamp (t : DateTime) : Int := t.nanos / 1000000000

/-- Stripe signs `<t>.<body>`, not the body alone. -/
def stripePayload (t : Int) (body : List UInt8) : List UInt8 :=
  asBytes (displayInt t ++ ['.']) ++ body

/-- One part of the loop of `parse_stripe`, over the `t` and the `v1` found so far. -/
def readPart (found : Option Int × Option (List Char)) (part : List Char) :
    Option Int × Option (List Char) :=
  match splitOnce '=' (trim part) with
  | some (name, raw) =>
    if name = ['t'] then (parseI64 raw, found.2)
    else if name = ['v', '1'] then (found.1, some raw)
    else found
  | none => found

def parseStripe (value : List Char) : Option (Int × List Char) := do
  let (t, v1) := (value.splitOn ',').foldl readPart (none, none)
  return (← t, ← v1)

section Digests

variable (hmac : String → List UInt8 → List UInt8)

def hexHmac (secret : String) (message : List UInt8) : List Char := hexEncode (hmac secret message)

/-- Whether a text is the digest in hexadecimal digits. -/
def constantTimeEq (secret : String) (message : List UInt8) (expectedHex : List Char) : Bool :=
  match hexDecode expectedHex with
  | some expected => hmac secret message == expected
  | none => false

/-- The value of the header `STRIPE_HEADER` with `t` written as `raw`. -/
def stripeValue (raw digest : List Char) : List Char :=
  ['t', '='] ++ raw ++ [',', 'v', '1', '='] ++ digest

def githubPrefix : List Char := ['s', 'h', 'a', '2', '5', '6', '=']

/-- The header that a signed delivery carries. -/
def header (scheme : SigningScheme) (secret : String) (body : List UInt8) (at_ : DateTime) :
    Option (String × List Char) :=
  match scheme with
  | .none => none
  | .stripe =>
    let t := timestamp at_
    some (STRIPE_HEADER, stripeValue (displayInt t) (hexHmac hmac secret (stripePayload t body)))
  | .github => some (GITHUB_HEADER, githubPrefix ++ hexHmac hmac secret body)

/-- Whether `value` is a signature that this secret would have produced for `body`. -/
def verify (scheme : SigningScheme) (secret : String) (body : List UInt8) (value : List Char) :
    Bool :=
  match scheme with
  | .none => false
  | .stripe =>
    match parseStripe value with
    | some (t, mac) => constantTimeEq hmac secret (stripePayload t body) mac
    | none => false
  | .github =>
    match stripPrefix githubPrefix value with
    | some mac => constantTimeEq hmac secret body mac
    | none => false

end Digests

end Servr.Sign
