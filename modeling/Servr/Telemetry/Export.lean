import Servr.Lib.Machine
import Servr.State.Reference
import Servr.Telemetry.Propagation

/-! What leaves the process and what joins it while the configuration changes: the exports of
`telemetry/src/chaos.rs`, the scrapes of `telemetry/src/lib.rs`, and the headers of requests.  Each
batch gets whole to the exporter behind the shim, or follows one fault that was in force; and as
long as the fault in force is quiet, all telemetry is honest. -/

namespace Servr.Telemetry

open Ieee (Double)

abbrev OTelSdkResult (ε : Type) := Except ε Unit

/-- Where an export stands. -/
inductive Export (ε : Type)
  | waiting
  /-- It stalls, with the fault that it read. -/
  | stalling (fault : TelemetryFault)
  | done (result : OTelSdkResult ε)

/-- The control plane with the exports, told from each other by `ι`. -/
structure Shim (ι ε ν ρ : Type) where
  plane : State
  /-- The faults that have been in force. -/
  history : List TelemetryFault
  exports : ι → Export ε
  /-- What the exporter behind the shim has been given. -/
  received : List (ι × List (SpanData ν ρ))
  /-- Each scrape, as it was rendered and as it was served. -/
  scrapes : List (List Char × List Char)
  /-- The headers of each request, as they came and as the propagator got them. -/
  inbounds : List (HeaderMap × HeaderMap)

namespace Shim

variable {ι ε ν ρ : Type} (platform : Platform)
  (batch : ι → List (SpanData ν ρ))

/-- `FromState::current`. -/
def current (s : Shim ι ε ν ρ) : TelemetryFault := s.plane.resolved.telemetry

/-- A control plane from its boot on, before any export. -/
structure Fresh (s : Shim ι ε ν ρ) : Prop where
  layered : s.plane.Layered
  history : s.history = [s.current]
  exports : ∀ i, s.exports i = .waiting
  received : s.received = []
  scrapes : s.scrapes = []
  inbounds : s.inbounds = []

/-- A fault that was in force, and that a roll fires. -/
def Fired (history : List TelemetryFault) (fault : TelemetryFault) : Prop :=
  fault ∈ history ∧ ∃ roll, fires fault roll = true

/-- What becomes of the batch of an export, by where the export stands. -/
inductive Fate (history : List TelemetryFault) (received : List (ι × List (SpanData ν ρ))) (i : ι) :
    Export ε → Prop
  | waiting : (∀ out, (i, out) ∉ received) → Fate history received i .waiting
  | stalling {fault} : Fired history fault → (∀ out, (i, out) ∉ received) →
      Fate history received i (.stalling fault)
  | whole (result) : (i, batch i) ∈ received → Fate history received i (.done result)
  | corrupted {fault out} (result) : Fired history fault → ¬fault.dropExport →
      (i, out) ∈ received → List.Forall₂ (Damaged platform fault) (batch i) out →
      Fate history received i (.done result)
  /-- Telemetry that vanishes without anything noticing. -/
  | dropped {fault} : Fired history fault → fault.dropExport → (∀ out, (i, out) ∉ received) →
      Fate history received i (.done (.ok ()))

/-- The propagator gets the headers as they came, or with another trace. -/
def Joined (history : List TelemetryFault) (headers : HeaderMap × HeaderMap) : Prop :=
  headers.2 = headers.1 ∨ (∃ fault ∈ history, fault.corruptInboundTraceparent) ∧
    ∃ drawn, Severed headers.1 headers.2 drawn

structure Inv (s : Shim ι ε ν ρ) : Prop where
  layered : s.plane.Layered
  current : s.current ∈ s.history
  distinct : (s.received.map Prod.fst).Nodup
  fates : ∀ i, Fate platform batch s.history s.received i (s.exports i)
  inbounds : ∀ headers ∈ s.inbounds, Joined s.history headers

variable {platform : Platform} {batch : ι → List (SpanData ν ρ)} {s t : Shim ι ε ν ρ}
  {history history' : List TelemetryFault} {received received' : List (ι × List (SpanData ν ρ))}
  {i : ι} {e : Export ε}

/-- What is known of an export stays known while others are done. -/
theorem Fate.mono (h : Fate platform batch history received i e) (more : history ⊆ history')
    (same : ∀ out, (i, out) ∈ received' ↔ (i, out) ∈ received) :
    Fate platform batch history' received' i e := by
  have none (absent : ∀ out, (i, out) ∉ received) (out) : (i, out) ∉ received' :=
    fun mem => absent out ((same out).mp mem)
  cases h with
  | waiting absent => exact .waiting (none absent)
  | stalling fired absent => exact .stalling ⟨more fired.1, fired.2⟩ (none absent)
  | whole result mem => exact .whole result ((same _).mpr mem)
  | corrupted result fired keeps mem damaged =>
    exact .corrupted result ⟨more fired.1, fired.2⟩ keeps ((same _).mpr mem) damaged
  | dropped fired drops absent => exact .dropped ⟨more fired.1, fired.2⟩ drops (none absent)

/-- An export that is not done has given nothing to the exporter behind it. -/
theorem Fate.absent (h : Fate platform batch history received i e)
    (running : ∀ result, e ≠ .done result) : ∀ out, (i, out) ∉ received := by
  cases h with
  | waiting absent | stalling _ absent => exact absent
  | whole | corrupted | dropped => exact absurd rfl (running _)

theorem Joined.mono {headers : HeaderMap × HeaderMap} (h : Joined history headers)
    (more : history ⊆ history') : Joined history' headers :=
  h.imp_right fun ⟨⟨fault, mem, on⟩, severed⟩ => ⟨⟨fault, more mem, on⟩, severed⟩

theorem joined_inbound {fault : TelemetryFault} (mem : fault ∈ history) (headers : HeaderMap)
    (roll : Double) (drawn : TraceId) :
    Joined history (headers, inbound headers fault roll drawn) := by
  unfold inbound
  split
  · exact .inl rfl
  · rename_i on
    split
    · exact .inl rfl
    · have set : fault.corruptInboundTraceparent = true := by
        simp only [Bool.or_eq_true, not_or] at on
        simpa using on.1
      refine (mangle_cases headers drawn).imp_right fun severed => ?_
      exact ⟨⟨fault, mem, set⟩, drawn, severed⟩

theorem Fresh.inv (h : Fresh s) : Inv platform batch s where
  layered := h.layered
  current := h.history ▸ List.mem_singleton_self _
  distinct := by rw [h.received]; exact List.nodup_nil
  fates i := by
    rw [h.exports, h.received]
    exact .waiting fun _ => List.not_mem_nil
  inbounds := by simp [h.inbounds]

variable [DecidableEq ι]

/-- One step.  An export reads the fault and rolls, stalls if the roll wins, and then drops the
batch or corrupts it; the exporter behind it answers what it likes. -/
inductive Step (platform : Platform) (batch : ι → List (SpanData ν ρ)) :
    Shim ι ε ν ρ → Shim ι ε ν ρ → Prop
  | control (s : Shim ι ε ν ρ) (op : State.Op) : Step platform batch s { s with
      plane := s.plane.apply op
      history := s.history ++ [(s.plane.apply op).resolved.telemetry] }
  | pass {s : Shim ι ε ν ρ} {i : ι} {roll : Double} (result : OTelSdkResult ε) :
      s.exports i = .waiting → fires s.current roll = false →
      Step platform batch s { s with
        received := s.received ++ [(i, batch i)]
        exports := Function.update s.exports i (.done result) }
  | stall {s : Shim ι ε ν ρ} {i : ι} {roll : Double} :
      s.exports i = .waiting → fires s.current roll = true →
      Step platform batch s { s with
        exports := Function.update s.exports i (.stalling s.current) }
  | drop {s : Shim ι ε ν ρ} {i : ι} {fault : TelemetryFault} :
      s.exports i = .stalling fault → fault.dropExport →
      Step platform batch s { s with exports := Function.update s.exports i (.done (.ok ())) }
  | corrupt {s : Shim ι ε ν ρ} {i : ι} {fault : TelemetryFault} {draws left : List SpanId}
      {out : List (SpanData ν ρ)} (result : OTelSdkResult ε) :
      s.exports i = .stalling fault → ¬fault.dropExport →
      corruptBatch platform fault (batch i) draws = some (out, left) →
      Step platform batch s { s with
        received := s.received ++ [(i, out)]
        exports := Function.update s.exports i (.done result) }
  | scrape (s : Shim ι ε ν ρ) (rendered : List Char) (roll : Double) (nonce : UInt64) :
      Step platform batch s { s with
        scrapes := s.scrapes ++ [(rendered, corruptMetrics rendered s.current roll nonce)] }
  | arrive (s : Shim ι ε ν ρ) (headers : HeaderMap) (roll : Double) (drawn : TraceId) :
      Step platform batch s { s with
        inbounds := s.inbounds ++ [(headers, inbound headers s.current roll drawn)] }

/-- A step of one export, which gives `given` to the exporter behind it. -/
theorem Inv.advance (h : Inv platform batch s) {given : List (ι × List (SpanData ν ρ))}
    (running : ∀ result, s.exports i ≠ .done result)
    (plane : t.plane = s.plane) (past : t.history = s.history)
    (received : t.received = s.received ++ given)
    (own : given = [] ∨ ∃ out, given = [(i, out)])
    (exports : t.exports = Function.update s.exports i e) (inbounds : t.inbounds = s.inbounds)
    (fate : (∀ out, (i, out) ∉ s.received) →
      Fate platform batch t.history t.received i e) : Inv platform batch t := by
  have absent := (h.fates i).absent running
  refine ⟨plane ▸ h.layered, ?_, ?_, fun j => ?_, ?_⟩
  · rw [Shim.current, plane, past]
    exact h.current
  · rw [received]
    obtain rfl | ⟨out, rfl⟩ := own
    · simpa using h.distinct
    · rw [List.map_append, List.map_singleton]
      refine h.distinct.append (List.nodup_singleton i) ?_
      rw [List.disjoint_singleton]
      intro mem
      obtain ⟨⟨_, out'⟩, held, rfl⟩ := List.mem_map.mp mem
      exact absent out' held
  · by_cases other : j = i
    · subst other
      rw [exports, Function.update_self]
      exact fate absent
    · rw [exports, Function.update_of_ne other]
      refine (h.fates j).mono (past ▸ List.Subset.refl _) fun out => ?_
      rw [received, List.mem_append, or_iff_left]
      obtain rfl | ⟨out', rfl⟩ := own
      · exact List.not_mem_nil
      · simp [other]
  · rw [inbounds, past]
    exact h.inbounds

theorem Inv.step (h : Inv platform batch s) (step : Step platform batch s t) :
    Inv platform batch t := by
  cases step with
  | control op =>
    have more : s.history ⊆ s.history ++ [(s.plane.apply op).resolved.telemetry] :=
      List.subset_append_left _ _
    exact {
      layered := h.layered.apply op
      current := List.mem_append_right _ (List.mem_singleton_self _)
      distinct := h.distinct
      fates := fun i => (h.fates i).mono more fun _ => Iff.rfl
      inbounds := fun headers mem => (h.inbounds headers mem).mono more }
  | pass result waiting _ =>
    refine h.advance (by simp [waiting]) rfl rfl rfl (.inr ⟨_, rfl⟩) rfl rfl fun _ => ?_
    exact .whole result (List.mem_append_right _ (List.mem_singleton_self _))
  | @stall i roll waiting fired =>
    have running : ∀ result, s.exports i ≠ .done result := by simp [waiting]
    refine h.advance running rfl rfl (List.append_nil _).symm (.inl rfl) rfl rfl fun absent => ?_
    exact .stalling ⟨h.current, roll, fired⟩ absent
  | @drop i fault stalling drops =>
    have fate := h.fates i
    rw [stalling] at fate
    cases fate with
    | stalling fired =>
      have running : ∀ result, s.exports i ≠ .done result := by simp [stalling]
      refine h.advance running rfl rfl (List.append_nil _).symm (.inl rfl) rfl rfl fun absent => ?_
      exact .dropped fired drops absent
  | @corrupt i fault draws left out result stalling keeps corrupted =>
    have fate := h.fates i
    rw [stalling] at fate
    cases fate with
    | stalling fired =>
      refine h.advance (by simp [stalling]) rfl rfl rfl (.inr ⟨_, rfl⟩) rfl rfl fun _ => ?_
      exact .corrupted result fired keeps (List.mem_append_right _ (List.mem_singleton_self _))
        (corruptBatch_damaged corrupted)
  | scrape => exact { h with }
  | arrive headers roll drawn =>
    refine { h with inbounds := List.forall_mem_append.mpr ⟨h.inbounds, ?_⟩ }
    rw [List.forall_mem_singleton]
    exact joined_inbound h.current headers roll drawn

theorem Inv.reachable (h : Machine.Reachable Fresh (Step platform batch) s) :
    Inv platform batch s :=
  h.invariant (fun _ fresh => fresh.inv) fun _ _ _ inv step => inv.step step

/-- In every run no batch gets to the exporter behind the shim twice; each one that does is whole,
or follows one fault that was in force, span by span in their order; one that is lost was dropped
by such a fault and reported as a success; a request keeps the trace that it says it belongs to, or
gets another well formed one; and an export that stalls goes on once the ids that it draws are
enough. -/
theorem exports_fated (h : Machine.Reachable Fresh (Step platform batch) s) :
    (s.received.map Prod.fst).Nodup ∧
    (∀ i, Fate platform batch s.history s.received i (s.exports i)) ∧
    (∀ headers ∈ s.inbounds, Joined s.history headers) ∧
    ∀ i fault draws, s.exports i = .stalling fault →
      (fault.orphanSpans → (batch i).length ≤ (taken draws).length) →
      ∀ result, ∃ t, Step platform batch s t ∧
        (t.exports i = .done (.ok ()) ∨ t.exports i = .done result) := by
  have inv := Inv.reachable h
  refine ⟨inv.distinct, inv.fates, inv.inbounds, fun i fault draws stalling enough result => ?_⟩
  by_cases drops : fault.dropExport
  · exact ⟨_, .drop stalling drops, .inl (Function.update_self ..)⟩
  · obtain ⟨⟨out, left⟩, corrupted⟩ :=
      Option.isSome_iff_exists.mp ((corruptBatch_isSome_iff (batch i) draws).mpr enough)
    exact ⟨_, .corrupt result stalling drops corrupted, .inr (Function.update_self ..)⟩

/-- The times of a platform that counts seconds in 64 bits. -/
def unix : Platform := ⟨-2 ^ 63 * 10 ^ 9, 2 ^ 63 * 10 ^ 9 - 1, by decide⟩

/-- Spans without a parent, an hour ahead. -/
def lying : TelemetryFault :=
  { TelemetryFault.default with
    rate := .finite (.ofRat 1)
    orphanSpans := true
    clockSkewMs := some 3600000 }

def requestSpan : SpanData Unit Unit where
  traceId := .fill 16 1
  spanId := .fill 8 2
  parentSpanId := .fill 8 3
  startTime := 0
  endTime := 1000
  attributes := []
  rest := ()

def orphanedSpan : SpanData Unit Unit :=
  { requestSpan with
    parentSpanId := .fill 8 9
    startTime := 3600000000000
    endTime := 3600000001000 }

def requestBatch : Unit → List (SpanData Unit Unit) := fun _ => [requestSpan]

/-- The shim over a control plane that boots without faults. -/
def booted : Shim Unit Unit Unit Unit where
  plane := State.plain (Clock.new DateTime.unixEpoch)
  history := [.default]
  exports := fun _ => .waiting
  received := []
  scrapes := []
  inbounds := []

theorem booted_fresh : booted.Fresh := ⟨rfl, rfl, fun _ => rfl, rfl, rfl, rfl⟩

theorem orphaned_reachable : ∃ s : Shim Unit Unit Unit Unit,
    Machine.Reachable Fresh (Step unix requestBatch) s ∧ s.exports () = .done (.ok ()) ∧
      s.received = [((), [orphanedSpan])] := by
  have start : Machine.Reachable Fresh (Step unix requestBatch) booted := .start booted_fresh
  have set := start.next (.control booted (.setTelemetryFaults lying))
  have stalled := set.next (@Step.stall _ _ _ _ _ _ _ _ () (.finite (.ofRat 0)) rfl
    (by decide +kernel))
  have corrupted := stalled.next (@Step.corrupt _ _ _ _ _ _ _ _ () lying
    [INVALID, .fill 8 9] [] [orphanedSpan] (.ok ()) rfl (by decide) (by decide +kernel))
  exact ⟨_, corrupted, rfl, rfl⟩

theorem exports_fated_orphaned : ∃ s : Shim Unit Unit Unit Unit,
    s.received = [((), [orphanedSpan])] ∧
      Fate unix requestBatch s.history s.received () (s.exports ()) := by
  obtain ⟨s, reached, -, received⟩ := orphaned_reachable
  exact ⟨s, received, (exports_fated reached).2.1 ()⟩

/-! ### While the fault is quiet -/

/-- A step that does not set the fault. -/
inductive Calm (platform : Platform) (batch : ι → List (SpanData ν ρ)) :
    Shim ι ε ν ρ → Shim ι ε ν ρ → Prop
  | control {s : Shim ι ε ν ρ} {op : State.Op} : ¬op.Sets s.plane .telemetry →
      Calm platform batch s { s with
        plane := s.plane.apply op
        history := s.history ++ [(s.plane.apply op).resolved.telemetry] }
  | other {s t : Shim ι ε ν ρ} : Step platform batch s t → t.plane = s.plane →
      Calm platform batch s t

theorem Calm.step (h : Calm platform batch s t) : Step platform batch s t := by
  cases h with
  | control => exact .control s _
  | other step => exact step

/-- What a log has gained has been left as it was. -/
def LeftAlone {α : Type} (before after : List (α × α)) : Prop :=
  ∃ gained, after = before ++ gained ∧ ∀ pair ∈ gained, pair.2 = pair.1

theorem LeftAlone.refl {α : Type} (log : List (α × α)) : LeftAlone log log :=
  ⟨[], (List.append_nil _).symm, by simp⟩

theorem LeftAlone.concat {α : Type} {before after : List (α × α)} (h : LeftAlone before after)
    {x y : α} (same : y = x) : LeftAlone before (after ++ [(x, y)]) := by
  obtain ⟨gained, rfl, alone⟩ := h
  refine ⟨gained ++ [(x, y)], List.append_assoc .., List.forall_mem_append.mpr ⟨alone, ?_⟩⟩
  rw [List.forall_mem_singleton]
  exact same

/-- What has been done since `s` is honest. -/
structure Honest (batch : ι → List (SpanData ν ρ)) (s t : Shim ι ε ν ρ) : Prop where
  layered : t.plane.Layered
  quiet : Quiet t.current
  exports : ∀ i, s.exports i = .waiting → t.exports i = .waiting ∨
    (∃ result, t.exports i = .done result) ∧ (i, batch i) ∈ t.received
  scrapes : LeftAlone s.scrapes t.scrapes
  inbounds : LeftAlone s.inbounds t.inbounds

omit [DecidableEq ι] in
theorem honest_self (layered : s.plane.Layered) (quiet : Quiet s.current) : Honest batch s s where
  layered := layered
  quiet := quiet
  exports _ waiting := .inl waiting
  scrapes := .refl _
  inbounds := .refl _

/-- One more export since `s`: if it was waiting there, it is done with the batch. -/
theorem Honest.advance {u : Shim ι ε ν ρ} (h : Honest batch s t)
    {given : List (ι × List (SpanData ν ρ))} (plane : u.plane = t.plane)
    (received : u.received = t.received ++ given)
    (exports : u.exports = Function.update t.exports i e)
    (scrapes : u.scrapes = t.scrapes) (inbounds : u.inbounds = t.inbounds)
    (own : s.exports i = .waiting → (∃ result, e = .done result) ∧ (i, batch i) ∈ given) :
    Honest batch s u where
  layered := plane ▸ h.layered
  quiet := by
    rw [Shim.current, plane]
    exact h.quiet
  exports j waiting := by
    rw [exports, received]
    by_cases same : j = i
    · subst same
      obtain ⟨⟨result, rfl⟩, mem⟩ := own waiting
      exact .inr ⟨⟨result, Function.update_self ..⟩, List.mem_append_right _ mem⟩
    · rw [Function.update_of_ne same]
      exact (h.exports j waiting).imp_right fun ⟨done, mem⟩ =>
        ⟨done, List.mem_append_left _ mem⟩
  scrapes := scrapes ▸ h.scrapes
  inbounds := inbounds ▸ h.inbounds

omit [DecidableEq ι] in
/-- An export that stalls was not waiting. -/
theorem Honest.not_waiting (h : Honest batch s t) {fault : TelemetryFault}
    (stalling : t.exports i = .stalling fault) : s.exports i ≠ .waiting := by
  intro waiting
  obtain still | ⟨⟨result, done⟩, -⟩ := h.exports i waiting
  · rw [stalling] at still
    contradiction
  · rw [stalling] at done
    contradiction

theorem Honest.calm {u : Shim ι ε ν ρ} (h : Honest batch s t) (calm : Calm platform batch t u) :
    Honest batch s u := by
  cases calm with
  | @control op unset =>
    have still : (t.plane.apply op).resolved.telemetry = t.current := h.layered.frame unset
    exact { h with
      layered := h.layered.apply op
      quiet := show Quiet (t.plane.apply op).resolved.telemetry from still ▸ h.quiet }
  | other step same =>
    cases step with
    | control op =>
      have still : (t.plane.apply op).resolved.telemetry = t.current := by
        rw [show t.plane.apply op = t.plane from same]
        rfl
      exact { h with
        layered := h.layered.apply op
        quiet := show Quiet (t.plane.apply op).resolved.telemetry from still ▸ h.quiet }
    | pass result =>
      exact h.advance rfl rfl rfl rfl rfl fun _ => ⟨⟨result, rfl⟩, List.mem_singleton_self _⟩
    | @stall i roll _ fired =>
      rw [h.quiet.fires] at fired
      contradiction
    | drop stalling =>
      exact h.advance rfl (List.append_nil _).symm rfl rfl rfl fun waiting =>
        absurd waiting (h.not_waiting stalling)
    | corrupt result stalling =>
      exact h.advance rfl rfl rfl rfl rfl fun waiting => absurd waiting (h.not_waiting stalling)
    | scrape rendered roll nonce =>
      exact { h with scrapes := h.scrapes.concat (h.quiet.corruptMetrics rendered roll nonce) }
    | arrive headers roll drawn =>
      exact { h with inbounds := h.inbounds.concat (h.quiet.inbound headers roll drawn) }

/-- The one entry of its name. -/
theorem alone_of_nodup {κ β : Type} {l : List (κ × β)} {i : κ} {b : β}
    (distinct : (l.map Prod.fst).Nodup) (mem : (i, b) ∈ l) :
    ∃ before after, l = before ++ (i, b) :: after ∧ ∀ entry ∈ before ++ after, entry.1 ≠ i := by
  obtain ⟨before, after, rfl⟩ := List.append_of_mem mem
  refine ⟨before, after, rfl, fun entry other same => ?_⟩
  rw [(List.perm_middle.map Prod.fst).nodup_iff, List.map_cons, List.nodup_cons] at distinct
  exact distinct.1 (List.mem_map.mpr ⟨entry, other, same⟩)

/-- From every reachable state whose fault is quiet, such as after the fault is cleared, and as long
as no operation sets another: every export that was still to come is passed on whole and once, and
every scrape and every request are left as they are. -/
theorem honest_while_quiet (h : Machine.Reachable Fresh (Step platform batch) s)
    (quiet : Quiet s.current) (run : Relation.ReflTransGen (Calm platform batch) s t) :
    (∀ i, s.exports i = .waiting →
      (∀ fault, t.exports i ≠ .stalling fault) ∧
      ∀ result, t.exports i = .done result → ∃ before after,
        t.received = before ++ (i, batch i) :: after ∧ ∀ entry ∈ before ++ after, entry.1 ≠ i) ∧
    LeftAlone s.scrapes t.scrapes ∧ LeftAlone s.inbounds t.inbounds := by
  have honest : Honest batch s t := by
    induction run with
    | refl => exact honest_self (Inv.reachable h).layered quiet
    | tail _ calm ih => exact ih.calm calm
  have reached : Machine.Reachable Fresh (Step platform batch) t :=
    h.trans (Relation.ReflTransGen.mono (fun _ _ => Calm.step) _ _ run)
  refine ⟨fun i waiting => ⟨fun fault stalling => honest.not_waiting stalling waiting, ?_⟩,
    honest.scrapes, honest.inbounds⟩
  intro result done
  obtain still | ⟨-, mem⟩ := honest.exports i waiting
  · rw [done] at still
    contradiction
  · exact alone_of_nodup (Inv.reachable reached).distinct mem

/-- The shim after a fault is set and cleared. -/
def cleared : Shim Unit Unit Unit Unit :=
  { booted with
    plane := (booted.plane.setTelemetryFaults lying).clearTelemetryFaults
    history := [.default, lying, .default] }

theorem cleared_reachable : Machine.Reachable Fresh (Step unix requestBatch) cleared :=
  (Machine.Reachable.next (.start booted_fresh) (.control booted (.setTelemetryFaults lying))).next
    (.control _ .clearTelemetryFaults)

theorem honest_while_quiet_cleared : ∃ t, Step unix requestBatch cleared t ∧
    t.exports () = .done (.ok ()) ∧ ∃ before after,
      t.received = before ++ ((), [requestSpan]) :: after ∧
        ∀ entry ∈ before ++ after, entry.1 ≠ () := by
  have passed := @Step.pass _ _ _ _ _ unix requestBatch cleared () (.finite (.ofRat 0)) (.ok ()) rfl
    (quiet_default.fires _)
  have whole := (honest_while_quiet cleared_reachable quiet_default
    (.tail .refl (.other passed rfl))).1 () rfl
  exact ⟨_, passed, rfl, whole.2 (.ok ()) rfl⟩

end Shim

end Servr.Telemetry
