import Servr.Config
import Servr.Lib.Loop
import Servr.Text

/-! The fault rules of `core/src/fault.rs`, and what the layer of `http/src/fault.rs` makes of the
rules that match a request.  What is computed with rolls takes its arithmetic as a parameter, which
is that of doubles in the code. -/

namespace Servr

open Ieee (Double F64)

/-! ### Matching a route -/

def star : UInt8 := 0x2a

/-- `bytes[i]`, which panics out of range. -/
def index (bytes : List UInt8) (i : Nat) : Except (Fault Empty) UInt8 :=
  match bytes[i]? with
  | some b => .ok b
  | none => .error .panic

/-- The variables of the first loop of `glob_match`. -/
structure GlobScan where
  p : Nat
  t : Nat
  star : Option Nat
  /-- Where to resume if the current star turns out to have consumed too little. -/
  resume : Nat
  deriving DecidableEq, Repr

/-- The test `p < pattern.len() && pattern[p] == b`. -/
def patternIs (pattern : List UInt8) (p : Nat) (b : UInt8) : Except (Fault Empty) Bool :=
  if p < pattern.length then return (← index pattern p) == b else return false

/-- The first loop of `glob_match`: its body, with the return of `false` as the result `none`, and
`p` as the result when the loop is over. -/
def scanStep (pattern text : List UInt8) (s : GlobScan) :
    Except (Fault Empty) (GlobScan ⊕ Option Nat) := do
  if s.t < text.length then
    if ← patternIs pattern s.p star then
      return .inl { s with star := some s.p, resume := s.t, p := s.p + 1 }
    else if ← patternIs pattern s.p (← index text s.t) then
      return .inl { s with p := s.p + 1, t := s.t + 1 }
    else
      match s.star with
      | some at_ =>
        -- Backtrack: let the star swallow one more character.
        return .inl { s with p := at_ + 1, resume := s.resume + 1, t := s.resume + 1 }
      | none => return .inr none
  else return .inr (some s.p)

/-- The second loop of `glob_match`, over the stars at the end of the pattern. -/
def trailStep (pattern : List UInt8) (p : Nat) : Except (Fault Empty) (Nat ⊕ Bool) := do
  if ← patternIs pattern p star then return .inl (p + 1) else return .inr (p == pattern.length)

/-- `glob_match` on the bytes of its arguments, each loop for at most `fuel` steps. -/
def globMatch (fuel : Nat) (pattern text : List UInt8) : Option (Except (Fault Empty) Bool) :=
  match Loop.run (scanStep pattern text) fuel ⟨0, 0, none, 0⟩ with
  | some (.ok (some p)) => Loop.run (trailStep pattern) fuel p
  | some (.ok none) => some (.ok false)
  | some (.error e) => some (.error e)
  | none => none

/-- Whether a rule applies to `path`. -/
def FaultSpec.matches (fuel : Nat) (spec : FaultSpec) (path : String) :
    Option (Except (Fault Empty) Bool) :=
  globMatch fuel (asBytes spec.route.toList) (asBytes path.toList)

/-! ### What a rule does -/

/-- What `resolve` and `delay_ms` compute with a roll of type `ν`: whether it is at least a rate,
and the jitter `(roll * j) as u64`. -/
structure Arithmetic (ν : Type) where
  ge : ν → Double → Bool
  jitter : ν → Option UInt64 → Nat

/-- The arithmetic of the code. -/
def Arithmetic.double : Arithmetic Double where
  ge := Double.ge
  jitter roll jitterMs :=
    let jitter : Double := match jitterMs with
      | some j => roll.mul (.finite (.ofRat j.toNat))
      | none => .finite (.ofRat 0)
    jitter.saturatingNat (2 ^ 64 - 1)

variable {ν : Type}

/-- Total delay to inject, jitter included, for a `roll` in `0.0..1.0`.  The sum wraps, as in a
release build. -/
def FaultSpec.delayMsIn (a : Arithmetic ν) (spec : FaultSpec) (roll : ν) : Option UInt64 :=
  spec.latencyMs.map fun base => base + UInt64.ofNat (a.jitter roll spec.jitterMs)

def FaultSpec.delayMs (spec : FaultSpec) (roll : Double) : Option UInt64 :=
  spec.delayMsIn .double roll

/-- Short names of the effects that a rule carries. -/
def FaultSpec.effects (spec : FaultSpec) : List String :=
  (if spec.latencyMs.isSome then ["latency"] else []) ++
  (if spec.status.isSome then ["status"] else []) ++
  (if spec.truncateBodyAt.isSome then ["truncate"] else []) ++
  (if spec.dropConnection then ["drop"] else [])

/-! ### The rules that fire on a request -/

/-- `StatusCode::from_u16` takes the numbers from 100 to 999. -/
def ValidStatus (s : UInt16) : Prop := 100 ≤ s.toNat ∧ s.toNat < 1000

instance (s : UInt16) : Decidable (ValidStatus s) := inferInstanceAs (Decidable (_ ∧ _))

structure StatusCode where
  code : UInt16
  valid : ValidStatus code
  deriving DecidableEq

def StatusCode.fromU16 (s : UInt16) : Option StatusCode :=
  if h : ValidStatus s then some ⟨s, h⟩ else none

/-- `a + b` of two durations in milliseconds, which panics past `Duration::MAX`. -/
def addDuration (a b : Nat) : Option Nat := if (a + b) / 1000 < 2 ^ 64 then some (a + b) else none

/-- What `delay_ms` of one more rule makes of the delay so far, the panic being `none`. -/
def addDelay (delay : Option Nat) : Option UInt64 → Option (Option Nat)
  | some ms => (addDuration (delay.getD 0) ms.toNat).map some
  | none => some delay

/-- What the matching rules add up to for one request. -/
structure Effects where
  /-- The milliseconds of a `Duration`. -/
  delay : Option Nat
  status : Option StatusCode
  truncateAt : Option UInt64
  dropConnection : Bool
  /-- Names for the event and the span, in the order the rules fired. -/
  names : List String
  deriving DecidableEq

namespace Effects

/-- `Effects::default()`. -/
def default : Effects := ⟨none, none, none, false, []⟩

/-- The body of the loop of `resolve` for a rule that fires, `roll` being the second one it draws.
Later rules win on scalar fields; `none` is the panic of a sum of delays. -/
def addIn (a : Arithmetic ν) (effects : Effects) (spec : FaultSpec) (roll : ν) : Option Effects :=
  (addDelay effects.delay (spec.delayMsIn a roll)).map fun delay =>
    { delay
      status := (spec.status.bind StatusCode.fromU16).or effects.status
      truncateAt := spec.truncateBodyAt.or effects.truncateAt
      dropConnection := effects.dropConnection || spec.dropConnection
      names := effects.names ++ spec.effects }

def add (effects : Effects) (spec : FaultSpec) (roll : Double) : Option Effects :=
  effects.addIn .double spec roll

/-- The loop of `resolve`, where `roll i` is the value of the `i`-th roll drawn. -/
def resolveFromIn (a : Arithmetic ν) (roll : Nat → ν) :
    List FaultSpec → Nat → Effects → Option Effects
  | [], _, effects => some effects
  | spec :: specs, i, effects =>
    if a.ge (roll i) spec.rate then resolveFromIn a roll specs (i + 1) effects
    else do resolveFromIn a roll specs (i + 2) (← effects.addIn a spec (roll (i + 1)))

def resolveFrom (roll : Nat → Double) (specs : List FaultSpec) (i : Nat) (effects : Effects) :
    Option Effects :=
  resolveFromIn .double roll specs i effects

/-- Resolves the rules matching a path that actually fire this time. -/
def resolveIn (a : Arithmetic ν) (specs : List FaultSpec) (roll : Nat → ν) : Option Effects :=
  resolveFromIn a roll specs 0 default

def resolve (specs : List FaultSpec) (roll : Nat → Double) : Option Effects :=
  resolveIn .double specs roll

theorem resolveFrom_cons (roll : Nat → Double) (spec : FaultSpec) (specs : List FaultSpec)
    (i : Nat) (effects : Effects) : resolveFrom roll (spec :: specs) i effects =
      if (roll i).ge spec.rate then resolveFrom roll specs (i + 1) effects
      else (effects.add spec (roll (i + 1))).bind (resolveFrom roll specs (i + 2)) := rfl

def fired (effects : Effects) : Bool := !effects.names.isEmpty

end Effects

end Servr
