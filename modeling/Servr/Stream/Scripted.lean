import Servr.Lib.Unfold
import Servr.Stream.Agreement
import Servr.Stream.Pacing

/-! The streams that `stream/src/scripted.rs` and `stream/src/chat.rs` unfold, polled against the
clock, and the script that both follow: its chunks with their events, a failure if one is injected,
and the end. -/

namespace Servr.Stream

open Json

/-- `EventKind::StreamChunk`, at the reading of the clock with which it is emitted. -/
structure StreamChunk where
  stream : String
  seq : UInt32
  at_ : DateTime

/-- The readings of the clock that have been taken, and the events on the bus. -/
structure World where
  readings : Nat
  events : List StreamChunk

/-- `emit_chunk`, where `clock i` is the `i`-th reading of the clock. -/
def emitChunk (clock : Nat → DateTime) (id : String) (seq : UInt32) (w : World) : World where
  readings := w.readings + 1
  events := w.events ++ [⟨id, seq, clock w.readings⟩]

/-- Waits until a chunk is due and emits its event; `none` is a due time that panics, or a wait that
is not over after `fuel` readings. -/
def release (fuel : Nat) (clock : Nat → DateTime) (id : String) (start : DateTime)
    (delayMs : UInt64) (seq : UInt32) (w : World) : Option World := do
  let due ← dueAt start seq delayMs
  match ← waitUntil fuel clock due w.readings with
  | .ok last => return emitChunk clock id seq { w with readings := last + 1 }

/-- The query of a scripted stream. -/
structure Params where
  chunks : UInt32
  delayMs : UInt64
  /-- Emit this many chunks, then error the body. -/
  failAt : Option UInt32
  body : String

def Params.default : Params := ⟨3, 0, none, "chunk"⟩

def scriptedData (id body : String) (seq : UInt32) : Payload :=
  .json (.obj [("body", .str body), ("seq", u32Value seq), ("stream", .str id)])

/-- The closure that the scripted `stream` unfolds. -/
def scriptedNext (clock : Nat → DateTime) (id : String) (start : DateTime) (p : Params)
    (fuel : Nat) : Unfold.Closure UInt32 World Item := fun seq w =>
  if p.chunks ≤ seq then some (none, w)
  else if p.failAt.any (· ≤ seq) then some (some (.injected seq, p.chunks), w)
  else
    (release fuel clock id start p.delayMs seq w).map fun w =>
      (some (.chunk (scriptedData id p.body seq), seq + 1), w)

/-- The closure that the streaming branch of `completions` unfolds. -/
def chatNext (clock : Nat → DateTime) (id : String) (start : DateTime) (failAt : Option UInt32)
    (delayMs : UInt64) (pieces : List Payload) (fuel : Nat) : Unfold.Closure Nat World Item :=
  fun index w =>
    if h : index < pieces.length then
      let seq := UInt32.ofNat index
      if failAt.any (· ≤ seq) then some (some (.injected seq, pieces.length), w)
      else
        (release fuel clock id start delayMs seq w).map fun w =>
          (some (.chunk (pieces[index]), index + 1), w)
    else some (none, w)

/-! ### The script -/

/-- What a stream is to emit: `count` chunks, cut short by a failure at `failAt`. -/
structure Script where
  count : Nat
  failAt : Option UInt32
  payload : Nat → Payload

namespace Script

/-- The number of chunks that come before the failure or the end. -/
def emitted (s : Script) : Nat := s.failAt.elim s.count fun at_ => min at_.toNat s.count

/-- What the `i`-th poll returns. -/
def item (s : Script) (i : Nat) : Option Item :=
  if i < s.emitted then some (.chunk (s.payload i))
  else if i = s.emitted ∧ s.emitted < s.count then some (.injected (.ofNat s.emitted))
  else none

variable {s : Script} {i : Nat}

theorem emitted_le (s : Script) : s.emitted ≤ s.count := by
  unfold emitted
  cases s.failAt with
  | none => exact le_rfl
  | some at_ => exact Nat.min_le_right _ _

theorem any_failAt_before (before : i < s.emitted) : s.failAt.any (· ≤ .ofNat i) = false := by
  unfold emitted at before
  cases failAt : s.failAt with
  | none => rfl
  | some at_ =>
    rw [failAt, Option.elim_some] at before
    have bound := at_.toNat_lt
    have number : (UInt32.ofNat i).toNat = i :=
      UInt32.toNat_ofNat_of_lt' (show i < 2 ^ 32 by omega)
    refine decide_eq_false fun reached => ?_
    rw [UInt32.le_iff_toNat_le, number] at reached
    omega

theorem any_failAt_emitted (cut : s.emitted < s.count) :
    s.failAt.any (· ≤ .ofNat s.emitted) = true := by
  unfold emitted at *
  cases failAt : s.failAt with
  | none =>
    rw [failAt, Option.elim_none] at cut
    omega
  | some at_ =>
    rw [failAt, Option.elim_some] at cut
    have first : min at_.toNat s.count = at_.toNat := by omega
    rw [Option.elim_some, first, UInt32.ofNat_toNat]
    exact decide_eq_true (UInt32.le_refl at_)

theorem item_past (past : s.emitted < i) : s.item i = none := by
  rw [item, if_neg (by omega), if_neg (by omega)]

end Script

/-- A closure follows a script from state to state: it releases each chunk, and then fails or is at
the end. -/
structure Follows {σ : Type} (next : Nat → Unfold.Closure σ World Item) (state : Nat → σ)
    (s : Script) (releases : Nat → UInt32 → World → Option World) : Prop where
  chunk : ∀ i < s.emitted, ∀ fuel w, next fuel (state i) w =
    (releases fuel (.ofNat i) w).map fun w => (some (.chunk (s.payload i), state (i + 1)), w)
  fails : s.emitted < s.count → ∀ fuel w, next fuel (state s.emitted) w =
    some (some (.injected (.ofNat s.emitted), state s.count), w)
  ends : ∀ fuel w, next fuel (state s.count) w = some (none, w)

section Routes

variable {clock : Nat → DateTime} {id : String} {start : DateTime}

def scripted (id : String) (p : Params) : Script :=
  ⟨p.chunks.toNat, p.failAt, fun i => scriptedData id p.body (.ofNat i)⟩

def chat (failAt : Option UInt32) (pieces : List Payload) : Script :=
  ⟨pieces.length, failAt, fun i => pieces[i]?.getD .done⟩

theorem scripted_follows (p : Params) :
    Follows (scriptedNext clock id start p) UInt32.ofNat (scripted id p)
      fun fuel => release fuel clock id start p.delayMs := by
  have bound := p.chunks.toNat_lt
  have number {i : Nat} (inside : i ≤ p.chunks.toNat) : (UInt32.ofNat i).toNat = i :=
    UInt32.toNat_ofNat_of_lt' (show i < 2 ^ 32 by omega)
  have more {i : Nat} (inside : i < p.chunks.toNat) : ¬p.chunks ≤ UInt32.ofNat i := by
    rw [UInt32.le_iff_toNat_le, number inside.le]
    omega
  have total : UInt32.ofNat (scripted id p).count = p.chunks := UInt32.ofNat_toNat
  refine ⟨fun i before fuel w => ?_, fun cut fuel w => ?_, fun fuel w => ?_⟩
  · have inside : i < p.chunks.toNat := before.trans_le (scripted id p).emitted_le
    have test : p.failAt.any (· ≤ .ofNat i) = false := Script.any_failAt_before before
    have next : UInt32.ofNat i + 1 = UInt32.ofNat (i + 1) := (UInt32.ofNat_add i 1).symm
    rw [scriptedNext, if_neg (more inside), if_neg (Bool.eq_false_iff.mp test), next]
    rfl
  · have test : p.failAt.any (· ≤ .ofNat (scripted id p).emitted) = true :=
      Script.any_failAt_emitted cut
    rw [scriptedNext, if_neg (more cut), if_pos test, total]
  · rw [scriptedNext, total, if_pos (UInt32.le_refl _)]

theorem chat_follows (failAt : Option UInt32) (delayMs : UInt64) (pieces : List Payload) :
    Follows (chatNext clock id start failAt delayMs pieces) (fun index => index)
      (chat failAt pieces) fun fuel => release fuel clock id start delayMs := by
  refine ⟨fun index before fuel w => ?_, fun cut fuel w => ?_, fun fuel w => ?_⟩
  · have inside : index < pieces.length := before.trans_le (chat failAt pieces).emitted_le
    have test : failAt.any (· ≤ .ofNat index) = false :=
      Script.any_failAt_before (s := chat failAt pieces) before
    have piece : (chat failAt pieces).payload index = pieces[index] := by
      simp [chat, inside]
    rw [chatNext, dif_pos inside, piece]
    exact if_neg (Bool.eq_false_iff.mp test)
  · have inside : (chat failAt pieces).emitted < pieces.length := cut
    have test : failAt.any (· ≤ .ofNat (chat failAt pieces).emitted) = true :=
      Script.any_failAt_emitted (s := chat failAt pieces) cut
    rw [chatNext, dif_pos inside]
    exact if_pos test
  · exact dif_neg (Nat.lt_irrefl _)

end Routes

/-! ### What the polls return -/

/-- However many readings of the clock have been taken, one to come has reached the due time of each
chunk. -/
def Passes (clock : Nat → DateTime) (start : DateTime) (delayMs : UInt64) (count : Nat) : Prop :=
  ∀ i < count, ∃ due, dueAt start (.ofNat i) delayMs = some due ∧ ∀ n, ∃ m, n ≤ m ∧ due ≤ clock m

/-- The streams and the numbers of the chunks that the bus has events for. -/
def World.sent (w : World) : List (String × UInt32) := w.events.map fun e => (e.stream, e.seq)

/-- The events of the first `n` chunks of a stream. -/
def numbered (id : String) (n : Nat) : List (String × UInt32) :=
  (List.range n).map fun i => (id, .ofNat i)

theorem numbered_succ (id : String) (n : Nat) :
    numbered id (n + 1) = numbered id n ++ [(id, .ofNat n)] := by
  rw [numbered, List.range_succ, List.map_append]
  rfl

variable {clock : Nat → DateTime} {id : String} {start : DateTime} {delayMs : UInt64}

theorem waitStep_returns {due : DateTime} {i m : Nat} (le : i ≤ m) (past : due ≤ clock m) :
    ∃ last, Loop.Returns (waitStep clock due) i last := by
  obtain ⟨k, rfl⟩ := Nat.exists_eq_add_of_le le
  clear le
  induction k generalizing i with
  | zero =>
    rw [Nat.add_zero] at past
    exact ⟨i, .here (by rw [waitStep, if_pos past])⟩
  | succ k ih =>
    by_cases here : due ≤ clock i
    · exact ⟨i, .here (by rw [waitStep, if_pos here])⟩
    · obtain ⟨last, rest⟩ := ih (i := i + 1) (by rwa [Nat.add_right_comm, Nat.add_assoc])
      exact ⟨last, .there (by rw [waitStep, if_neg here]) rest⟩

/-- A chunk whose due time the clock passes is released, with its event. -/
theorem release_returns (id : String) {seq : UInt32} {due : DateTime}
    (sum : dueAt start seq delayMs = some due)
    (passes : ∀ n, ∃ m, n ≤ m ∧ due ≤ clock m) (w : World) :
    ∃ w' enough, (∀ fuel, enough ≤ fuel → release fuel clock id start delayMs seq w = some w') ∧
      w'.sent = w.sent ++ [(id, seq)] := by
  obtain ⟨m, le, past⟩ := passes w.readings
  obtain ⟨last, enough, returns⟩ := waitStep_returns le past
  refine ⟨emitChunk clock id seq { w with readings := last + 1 }, enough, fun fuel le => ?_, ?_⟩
  · have waited : waitUntil fuel clock due w.readings = some (.ok last) := returns fuel le
    simp only [release, sum, waited, Option.bind_eq_bind, Option.bind_some]
    rfl
  · simp [World.sent, emitChunk]

/-- Where a stream stands after `i` polls: at its next chunk, or past the last one, where it has
ended or is about to. -/
structure Stands {σ : Type} (state : Nat → σ) (s : Script) (id : String)
    (before : List (String × UInt32)) (i : Nat) (at_ : Option σ) (w : World) : Prop where
  sent : w.sent = before ++ numbered id (min i s.emitted)
  running : i ≤ s.emitted → at_ = some (state i)
  over_ : s.emitted < i → at_ = none ∨ at_ = some (state s.count)

/-- Every poll returns, given enough readings of the clock: the items are those of the script, and
with each of its chunks there is one event on the bus and no other. -/
def Emits {σ : Type} (next : Nat → Unfold.Closure σ World Item) (first : σ) (s : Script)
    (id : String) : Prop :=
  ∀ (w : World) (n : Nat), ∃ at_ w' enough,
    (∀ fuel, enough ≤ fuel →
      Unfold.polls (next fuel) n (some first) w = some ((List.range n).map s.item, at_, w')) ∧
    w'.sent = w.sent ++ numbered id (min n s.emitted)

theorem Follows.poll {σ : Type} {next : Nat → Unfold.Closure σ World Item} {state : Nat → σ}
    {s : Script} (follows : Follows next state s fun fuel => release fuel clock id start delayMs)
    (passes : Passes clock start delayMs s.emitted) {before : List (String × UInt32)} {i : Nat}
    {at_ : Option σ} {w : World} (stands : Stands state s id before i at_ w) :
    ∃ at' w' enough,
      (∀ fuel, enough ≤ fuel → Unfold.poll (next fuel) at_ w = some (s.item i, at', w')) ∧
      Stands state s id before (i + 1) at' w' := by
  rcases Nat.lt_trichotomy i s.emitted with emits | rfl | over_
  · obtain ⟨due, sum, passes⟩ := passes i emits
    obtain ⟨w', enough, releases, sent⟩ := release_returns id sum passes w
    refine ⟨some (state (i + 1)), w', enough, fun fuel le => ?_, ?_, fun _ => rfl, fun _ => ?_⟩
    · rw [stands.running emits.le, Unfold.poll, follows.chunk i emits, releases fuel le,
        Script.item, if_pos emits]
      rfl
    · rw [sent, stands.sent, Nat.min_eq_left emits.le, Nat.min_eq_left emits, numbered_succ,
        List.append_assoc]
    · omega
  · have sent : w.sent = before ++ numbered id (min (s.emitted + 1) s.emitted) := by
      rw [stands.sent, Nat.min_self, Nat.min_eq_right (Nat.le_succ _)]
    by_cases cut : s.emitted < s.count
    · refine ⟨some (state s.count), w, 0, fun fuel _ => ?_, sent, fun _ => ?_, fun _ => .inr rfl⟩
      · rw [stands.running le_rfl, Unfold.poll, follows.fails cut, Script.item,
          if_neg (Nat.lt_irrefl _), if_pos ⟨rfl, cut⟩]
        rfl
      · omega
    · have last : s.emitted = s.count := by
        have le := s.emitted_le
        omega
      refine ⟨none, w, 0, fun fuel _ => ?_, sent, fun _ => ?_, fun _ => .inl rfl⟩
      · rw [stands.running le_rfl, Unfold.poll, Script.item, if_neg (Nat.lt_irrefl _),
          if_neg fun h => cut h.2, last, follows.ends]
        rfl
      · omega
  · refine ⟨none, w, 0, fun fuel _ => ?_, ?_, fun _ => ?_, fun _ => .inl rfl⟩
    · rw [Script.item_past over_]
      rcases stands.over_ over_ with rfl | rfl
      · rfl
      · rw [Unfold.poll, follows.ends]
        rfl
    · rw [stands.sent, Nat.min_eq_right over_.le, Nat.min_eq_right (by omega)]
    · omega

theorem Follows.emits {σ : Type} {next : Nat → Unfold.Closure σ World Item} {state : Nat → σ}
    {s : Script} (follows : Follows next state s fun fuel => release fuel clock id start delayMs)
    (passes : Passes clock start delayMs s.emitted) : Emits next (state 0) s id := by
  intro w n
  have first : Stands state s id w.sent 0 (some (state 0)) w :=
    ⟨by simp [numbered], fun _ => rfl, fun h => absurd h (Nat.not_lt_zero _)⟩
  obtain ⟨at_, w', enough, items, stands⟩ := Unfold.polls_of_invariant
    (I := Stands state s id w.sent) first (fun _ _ _ stands => follows.poll passes stands) n
  exact ⟨at_, w', enough, items, stands.sent⟩

/-- The body of a completion, from a piece on, is what its script has from there on. -/
theorem unfold_drop_eq {failAt : Option UInt32} {ps : List Payload}
    (due : ∀ i < (chat failAt ps).emitted, Due start delayMs i) (m : Nat) {index : Nat}
    (inside : index + m = ps.length) (before : index ≤ (chat failAt ps).emitted) :
    unfold start failAt delayMs index (ps.drop index) =
      (List.range' index (m + 1)).filterMap (chat failAt ps).item := by
  have le := (chat failAt ps).emitted_le
  have count : (chat failAt ps).count = ps.length := rfl
  induction m generalizing index with
  | zero =>
    have none : (chat failAt ps).item index = none := by
      rw [Script.item, if_neg (by omega), if_neg (by omega)]
    rw [List.drop_eq_nil_of_le (by omega), unfold, List.range'_one, List.filterMap_cons, none]
    rfl
  | succ m ih =>
    have short : index < ps.length := by omega
    rw [List.drop_eq_getElem_cons short, unfold, List.range'_succ, List.filterMap_cons]
    rcases Nat.lt_or_eq_of_le before with emits | rfl
    · have test : failAt.any (· ≤ .ofNat index) = false :=
        Script.any_failAt_before (s := chat failAt ps) emits
      have here : (chat failAt ps).item index = some (.chunk ps[index]) := by
        rw [Script.item, if_pos emits]
        simp [chat, short]
      obtain ⟨at_, sum⟩ := Option.isSome_iff_exists.mp (due index emits)
      simp only [test, Bool.false_eq_true, if_false, sum, here]
      rw [ih (by omega) emits]
    · have cut : (chat failAt ps).emitted < (chat failAt ps).count := short
      have test : failAt.any (· ≤ .ofNat (chat failAt ps).emitted) = true :=
        Script.any_failAt_emitted (s := chat failAt ps) cut
      have rest : (List.range' ((chat failAt ps).emitted + 1) (m + 1)).filterMap
          (chat failAt ps).item = [] := by
        refine List.filterMap_eq_nil_iff.mpr fun i mem => Script.item_past ?_
        have low := (List.mem_range'_1.mp mem).1
        omega
      have here : (chat failAt ps).item (chat failAt ps).emitted =
          some (.injected (.ofNat (chat failAt ps).emitted)) := by
        rw [Script.item, if_neg (Nat.lt_irrefl _), if_pos ⟨rfl, cut⟩]
      simp only [test, if_true, here, rest]

/-- The body of a completion is what polls of its closure give. -/
theorem unfold_eq {failAt : Option UInt32} {ps : List Payload}
    (due : ∀ i < (chat failAt ps).emitted, Due start delayMs i) :
    unfold start failAt delayMs 0 ps =
      (List.range (ps.length + 1)).filterMap (chat failAt ps).item := by
  rw [List.range_eq_range']
  exact unfold_drop_eq due ps.length (Nat.zero_add _) (Nat.zero_le _)

/-- A clock that is read three times before it is moved on by three seconds. -/
def lateClock (n : Nat) : DateTime :=
  if n < 3 then DateTime.unixEpoch else ⟨3000000000, by decide, by decide⟩

theorem passes_lateClock {delayMs : UInt64} {count : Nat}
    (soon : ∀ i < count, (dueAt DateTime.unixEpoch (.ofNat i) delayMs).any
      (fun due => due.nanos ≤ 3000000000) = true) :
    Passes lateClock DateTime.unixEpoch delayMs count := by
  intro i lt
  obtain ⟨due, at_, le⟩ := (Option.any_eq_true _ _).mp (soon i lt)
  refine ⟨due, at_, fun n => ⟨n + 3, by omega, ?_⟩⟩
  rw [lateClock, if_neg (by omega)]
  exact of_decide_eq_true le

end Servr.Stream
