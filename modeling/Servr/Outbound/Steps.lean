import Servr.Outbound.Ladder

/-! The steps of the sender: the clock moves on, calls of `enqueue` push deliveries and the pass of
`tick` attempts them and writes them back, in any order. -/

namespace Servr.Outbound

namespace System

def attemptsOf (s : System) (id : Uuid) : List Attempt := s.attempts.filter fun a => a.delivery = id

def postsOf (s : System) (id : Uuid) : List Post := s.posts.filter fun p => p.delivery = id

def answersOf (s : System) (id : Uuid) : List Answer := s.answers.filter fun a => a.delivery = id

def eventsOf (s : System) (id : Uuid) : List Emitted := s.events.filter fun e => e.delivery = id

/-- The ids that calls of `enqueue` have drawn. -/
def ids (s : System) : List Uuid := (s.calls ++ s.queue).map (·.id)

/-- An id that is drawn is a new one, and the ladder of the endpoint is in range. -/
def Assumed (s : System) : Op → Prop
  | .enqueue id endpoint body trace =>
    id ∉ s.ids ∧ (Delivery.new id endpoint body s.now trace).InRange
  | _ => True

instance (s : System) : ∀ op, Decidable (s.Assumed op)
  | .enqueue .. => inferInstanceAs (Decidable (_ ∧ _))
  | .clock _ | .push _ | .tick | .collect | .attempt | .answer _ | .emit | .replace =>
    .isTrue trivial

/-- What a step does. -/
inductive Does (s : System) : Op → System → Prop
  | clock (t : DateTime) : Does s (.clock t) { s with now := max s.now t }
  | enqueue (id endpoint body trace) : Does s (.enqueue id endpoint body trace)
      { s with calls := s.calls ++ [.new id endpoint body s.now trace] }
  | push {k d} : s.calls[k]? = some d → Does s (.push k) { s with
      calls := s.calls.eraseIdx k
      queue := s.queue ++ [d]
      pushed := s.pushed ++ [d] }
  | tick : s.tick = .idle → Does s .tick { s with tick := .begun s.now }
  | collect {now} : s.tick = .begun now → Does s .collect { s with
      tick := .attempting (s.queue.filter fun d => !d.done && d.dueAt ≤ now) }
  | finish : s.tick = .attempting [] → Does s .attempt { s with tick := .idle }
  | fail {d due} : s.tick = .attempting (d :: due) → d.next.attempt ≤ d.endpoint.failFirst →
      Does s .attempt { s with
        attempts := s.attempts ++ [⟨d.id, d.next.attempt, s.now⟩]
        tick := .delivered d.next
          (.error (.failFirst d.next.attempt d.endpoint.failFirst)) due }
  | post {d due} : s.tick = .attempting (d :: due) → ¬d.next.attempt ≤ d.endpoint.failFirst →
      Does s .attempt { s with
        attempts := s.attempts ++ [⟨d.id, d.next.attempt, s.now⟩]
        posts := s.posts ++ [⟨d.id, d.next.attempt, d.endpoint.url, d.body⟩]
        tick := .posted d.next due }
  | answer {c due} (result : Except String UInt16) : s.tick = .posted c due →
      Does s (.answer result) { s with
        answers := s.answers ++ [⟨c.id, c.attempt, result⟩]
        tick := .delivered c (result.mapError .http) due }
  | panic {c outcome due} : s.tick = .delivered c outcome due → c.settle outcome = none →
      Does s .emit { s with tick := .panicked }
  | emit {c outcome due d event} : s.tick = .delivered c outcome due →
      c.settle outcome = some (d, event) → Does s .emit { s with
        events := s.events ++ [⟨d.id, s.now, event⟩]
        tick := .told d due }
  | replace {c due} : s.tick = .told c due → Does s .replace { s with
      queue := Outbound.replace s.queue c
      tick := .attempting due }

theorem step_cases (s : System) (op : Op) : s.step op = s ∨ Does s op (s.step op) := by
  cases op with
  | clock t => exact .inr (.clock t)
  | enqueue id endpoint body trace => exact .inr (.enqueue id endpoint body trace)
  | push k =>
    simp only [step]
    split
    · exact .inl rfl
    · exact .inr (.push ‹_›)
  | tick =>
    simp only [step]
    split
    · exact .inr (.tick ‹_›)
    · exact .inl rfl
  | collect =>
    simp only [step]
    split
    · exact .inr (.collect ‹_›)
    · exact .inl rfl
  | attempt =>
    simp only [step]
    split
    · exact .inr (.finish ‹_›)
    · split
      · exact .inr (.fail ‹_› ‹_›)
      · exact .inr (.post ‹_› ‹_›)
    · exact .inl rfl
  | answer result =>
    simp only [step]
    split
    · exact .inr (.answer result ‹_›)
    · exact .inl rfl
  | emit =>
    simp only [step]
    split
    · split
      · exact .inr (.panic ‹_› ‹_›)
      · exact .inr (.emit ‹_› ‹_›)
    · exact .inl rfl
  | replace =>
    simp only [step]
    split
    · exact .inr (.replace ‹_›)
    · exact .inl rfl

end System

end Servr.Outbound
