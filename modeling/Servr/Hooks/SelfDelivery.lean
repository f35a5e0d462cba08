import Servr.Hooks
import Servr.Inbound
import Servr.Lib.Machine

/-! What the sender delivers to the inbox of its own process, past the fault layer: each attempt
that posts is captured at most once, as it was signed, and a status that the sender reports is that
of a capture or of rules that kept the request from the inbox. -/

namespace Servr.Outbound

/-- What a request is about. -/
def Post.key (p : Post) : Uuid × UInt32 := (p.delivery, p.number)

theorem nodup_pairs {α β γ : Type} [DecidableEq β] (f : α → β) (g : α → γ) {l : List α}
    (h : ∀ b, ((l.filter fun a => f a = b).map g).Nodup) : (l.map fun a => (f a, g a)).Nodup := by
  induction l with
  | nil => exact List.nodup_nil
  | cons a l ih =>
    refine List.nodup_cons.mpr ⟨fun mem => ?_, ih fun b => ?_⟩
    · obtain ⟨b, inRest, same⟩ := List.mem_map.mp mem
      obtain ⟨sameF, sameG⟩ := Prod.mk.inj same
      have group := h (f a)
      rw [List.filter_cons_of_pos (by simp), List.map_cons, List.nodup_cons] at group
      have inGroup : b ∈ l.filter fun a' => f a' = f a :=
        List.mem_filter.mpr ⟨inRest, decide_eq_true sameF⟩
      exact group.1 (List.mem_map.mpr ⟨b, inGroup, sameG⟩)
    · exact (h b).sublist (((List.sublist_cons_self a l).filter _).map g)

theorem Delivery.dueNanos_asEnqueued (d : Delivery) (n : Nat) :
    d.asEnqueued.dueNanos n = d.dueNanos n := rfl

namespace System

variable {s : System} {d : Delivery}

/-- No attempt is posted twice. -/
theorem Inv.posts_nodup (h : s.Inv) : (s.posts.map Post.key).Nodup := by
  refine nodup_pairs Post.delivery Post.number fun id => ?_
  show ((s.postsOf id).map Post.number).Nodup
  by_cases queued : id ∈ s.queue.map (·.id)
  · obtain ⟨d, mem, rfl⟩ := List.mem_map.mp queued
    have ladder := h.laddered mem
    have numbers : ((s.postsOf d.id).map (·.number.toNat)).Nodup := by
      rw [ladder.reached, ladder.numbers]
      exact List.Nodup.filter _ List.nodup_range'
    rw [← Function.comp_def UInt32.toNat Post.number, ← List.map_map] at numbers
    exact numbers.of_map
  · rw [(h.unlogged id queued).2.1]
    exact List.nodup_nil

/-- What goes to the receiver is the body of the delivery. -/
theorem Inv.sent (h : s.Inv) (mem : d ∈ s.queue) {p : Post} (posted : p ∈ s.posts)
    (about : p.delivery = d.id) : p.url = d.endpoint.url ∧ p.body = d.body := by
  have begun := (h.entries d mem).begun.sent p (List.mem_filter.mpr ⟨posted, by simpa using about⟩)
  rcases h.copies mem with ⟨copy, same, -⟩ | ⟨-, -, counted, -⟩
  · obtain ⟨_, _, _, _, _, copied⟩ := copy
    rwa [same, copied] at begun
  · rwa [counted] at begun

theorem Inv.pushed_unique (h : s.Inv) {c : Delivery} (hc : c ∈ s.pushed) (hd : d ∈ s.pushed)
    (same : c.id = d.id) : c = d := by
  rw [← h.order] at hc hd
  obtain ⟨p, inQueue, rfl⟩ := List.mem_map.mp hc
  obtain ⟨q, inQueue', rfl⟩ := List.mem_map.mp hd
  rw [h.unique inQueue inQueue' same]

theorem step_posts {due : List Delivery} (at_ : s.tick = .attempting (d :: due))
    (reaches : ¬d.next.attempt ≤ d.endpoint.failFirst) : s.step .attempt = { s with
      attempts := s.attempts ++ [⟨d.id, d.next.attempt, s.now⟩]
      posts := s.posts ++ [⟨d.id, d.next.attempt, d.endpoint.url, d.body⟩]
      tick := .posted d.next due } := by
  have reaches : ¬d.attempt + 1 ≤ d.endpoint.failFirst := reaches
  simp [step, at_, reaches, Delivery.next]

/-- A step forgets nothing. -/
structure Grows (s t : System) : Prop where
  now : s.now ≤ t.now
  pushed : s.pushed ⊆ t.pushed
  posts : s.posts ⊆ t.posts

theorem Does.grows {op : Op} {t : System} (does : Does s op t) : s.Grows t := by
  cases does with
  | clock t => exact ⟨le_max_left _ _, List.Subset.refl _, List.Subset.refl _⟩
  | push found => exact ⟨le_refl _, List.subset_append_left _ _, List.Subset.refl _⟩
  | post at_ reaches => exact ⟨le_refl _, List.Subset.refl _, List.subset_append_left _ _⟩
  | _ => exact ⟨le_refl _, List.Subset.refl _, List.Subset.refl _⟩

theorem step_grows (s : System) (op : Op) : s.Grows (s.step op) := by
  rcases s.step_cases op with same | does
  · rw [same]
    exact ⟨le_refl _, List.Subset.refl _, List.Subset.refl _⟩
  · exact does.grows

end System

theorem settle_event {c d : Delivery} {outcome : Except SendError UInt16} {event : WebhookOut}
    (h : c.settle outcome = some (d, event)) :
    d.id = c.id ∧ event.attempt = c.attempt ∧ event.status = outcome.toOption := by
  simp only [Delivery.settle] at h
  split at h
  · cases h
    exact ⟨rfl, rfl, rfl⟩
  · split at h
    · contradiction
    · cases h
      exact ⟨rfl, rfl, rfl⟩

end Servr.Outbound

namespace Servr.Inbound

theorem Call.log_of_not_concerns {readers : Readers} {call : Call} {endpoint : String}
    {log : List Capture} (h : ¬call.Concerns endpoint) : call.log readers endpoint log = log := by
  cases call with
  | record name => exact if_neg h
  | clear which =>
    cases which with
    | none => exact absurd trivial h
    | some name => exact if_neg h

end Servr.Inbound

namespace Servr.Hooks

open Outbound (Delivery Post)

/-- A request is an attempt of a delivery, past `fail_first` and not past the last, that goes out
when it is due. -/
structure AttemptOf (d : Delivery) (post : Post) (at_ : DateTime) : Prop where
  delivery : post.delivery = d.id
  url : post.url = d.endpoint.url
  reached : d.endpoint.failFirst < post.number
  bounded : post.number.toNat ≤ d.backoff.length + 1
  onTime : d.dueNanos (post.number.toNat - 1) ≤ at_.nanos

theorem AttemptOf.mono {d : Delivery} {post : Post} {at_ later : DateTime}
    (h : AttemptOf d post at_) (le : at_ ≤ later) : AttemptOf d post later :=
  ⟨h.delivery, h.url, h.reached, h.bounded, h.onTime.trans le⟩

section Captures

variable (hmac : String → List UInt8 → List UInt8) (toVec : Json.Value → List UInt8)
  (readers : Inbound.Readers)

/-- A capture shows the body of a delivery, and its signature and no other. -/
structure Shows (d : Delivery) (capture : Inbound.Capture) : Prop where
  body : capture.body = Inbound.parseBody readers (toVec d.body)
  digest : capture.bodySha256 = Inbound.bodySha256 readers (toVec d.body)
  signed : ∀ name, signatureHeader d.endpoint.sign = some name →
    ∃ value, capture.headers.lookup name = some value ∧
      Sign.verify hmac d.endpoint.sign (secretOf d.endpoint) (toVec d.body) value.toList = true
  unsigned : ∀ name ∈ [Sign.STRIPE_HEADER, Sign.GITHUB_HEADER],
    signatureHeader d.endpoint.sign ≠ some name → capture.headers.lookup name = none

theorem signatureHeader_mem {scheme : SigningScheme} {name : String}
    (h : signatureHeader scheme = some name) :
    name ∈ [Sign.STRIPE_HEADER, Sign.GITHUB_HEADER] ∧ lowercase name = name := by
  cases scheme with
  | none => contradiction
  | stripe | github =>
    obtain rfl := Option.some.inj h
    decide +kernel

variable {others : List (String × List UInt8)}

theorem Unsigned.ne (h : Unsigned others) {name : String}
    (one : name ∈ [Sign.STRIPE_HEADER, Sign.GITHUB_HEADER]) {entry : String × List UInt8}
    (mem : entry ∈ others) : lowercase entry.1 ≠ name := by
  rcases List.mem_pair.mp one with rfl | rfl
  · exact (h entry mem).1
  · exact (h entry mem).2

/-- What the inbox captures of a request that the sender makes. -/
theorem shows_capture (d : Delivery) (at_ now : DateTime) (h : Unsigned others) :
    Shows hmac toVec readers d (Inbound.capture readers (request hmac toVec d at_ others).headers
      (request hmac toVec d at_ others).body now) := by
  have contentType : ∀ name ∈ [Sign.STRIPE_HEADER, Sign.GITHUB_HEADER],
      lowercase "content-type" ≠ name := by decide +kernel
  refine ⟨rfl, rfl, fun name scheme => ?_, fun name one other => ?_⟩
  · obtain ⟨one, lower⟩ := signatureHeader_mem scheme
    cases signed : Sign.header hmac d.endpoint.sign (secretOf d.endpoint) (toVec d.body) at_ with
    | none =>
      rw [header_eq_none, scheme] at signed
      contradiction
    | some header =>
      obtain ⟨name', value⟩ := header
      obtain ⟨same, printable, verifies⟩ := header_verifies _ _ _ _ signed
      obtain rfl := Option.some.inj (scheme.symm.trans same)
      refine ⟨String.ofList value, ?_, by rwa [String.toList_ofList]⟩
      rw [← headerText_asBytes printable]
      refine lookup_headers ⟨(name, asBytes value), ?_, lower⟩ (fun entry mem here => ?_) _ _ _
      · simp [request, signed]
      · simp only [request, signed, Option.map_some, Option.toList_some, List.cons_append,
          List.nil_append, List.mem_cons] at mem
        rcases mem with rfl | rfl | mem
        · exact absurd here (contentType name one)
        · rfl
        · exact absurd here (h.ne one mem)
  · refine lookup_headers_none (fun entry mem => ?_) _ _ _
    cases signed : Sign.header hmac d.endpoint.sign (secretOf d.endpoint) (toVec d.body) at_ with
    | none =>
      simp only [request, signed, Option.map_none, Option.toList_none,
        List.cons_append, List.nil_append, List.mem_cons] at mem
      rcases mem with rfl | mem
      · exact contentType name one
      · exact h.ne one mem
    | some header =>
      obtain ⟨name', value⟩ := header
      obtain ⟨same, -, -⟩ := header_verifies _ _ _ _ signed
      simp only [request, signed, Option.map_some, Option.toList_some, List.cons_append,
        List.nil_append, List.mem_cons] at mem
      rcases mem with rfl | rfl | mem
      · exact contentType name one
      · rw [(signatureHeader_mem same).2]
        exact fun this => other (this ▸ same)
      · exact h.ne one mem

/-! ### The loop -/

variable (routing : Routing) (server : Server) (mine : String → Prop)

/-- A recorded request is one that the sender made of a delivery. -/
structure Genuine (d : Delivery) (a : Arrival) : Prop where
  attempt : AttemptOf d a.post a.capture.at_
  hook : routing.hook d.endpoint.url = some a.endpoint
  shows : Shows hmac toVec readers d a.capture

/-- Rules that a configuration had for a path, and the effects of those that fired. -/
def Fires (history : List Resolved) (path : String) (effects : Effects)
    (fired : List FaultSpec) : Prop :=
  ∃ config ∈ history, ∃ fuel specs roll, config.faultsFor fuel path = some specs ∧
    Effects.resolve specs roll = some effects ∧ fired = firing roll specs 0

/-- Rules of the path answered, no handler ran, and this is the status that was sent. -/
def Overridden (history : List Resolved) (path : String) (status : UInt16) : Prop :=
  ∃ effects fired response, Fires history path effects fired ∧
    Http.Served fired none response ∧ server.send response.status.code = status

variable {server}

theorem Fires.mono {history : List Resolved} {path : String} {effects : Effects}
    {fired : List FaultSpec} (h : Fires history path effects fired) (later : List Resolved) :
    Fires (history ++ later) path effects fired := by
  obtain ⟨config, mem, rest⟩ := h
  exact ⟨config, List.mem_append_left _ mem, rest⟩

theorem Overridden.mono {history : List Resolved} {path : String} {status : UInt16}
    (h : Overridden server history path status) (later : List Resolved) :
    Overridden server (history ++ later) path status := by
  obtain ⟨effects, fired, response, fires, served⟩ := h
  exact ⟨effects, fired, response, fires.mono later, served⟩

/-- The layer keeps the status of a handler whose body can be read. -/
theorem Arrival.response_status (a : Arrival) (bytes : List UInt8) :
    (a.response bytes).status = Http.OK := by
  unfold Arrival.response Http.passed
  split <;> rfl

variable (server)

namespace Loop

/-- Where a status for a request comes from: the handler that recorded the request, or rules. -/
def Accounted (s : Loop) (p : Post) (status : UInt16) : Prop :=
  ∀ endpoint, routing.hook p.url = some endpoint →
    (∃ a ∈ s.answered, a.post = p ∧ a.endpoint = endpoint ∧ status = 200) ∨
      Overridden server s.history (routing.path p.url) status

/-- An attempt that was posted and, if it went to an inbox, got its status there. -/
def Reported (s : Loop) (key : Uuid × UInt32) (status : UInt16) : Prop :=
  ∃ p ∈ s.sender.posts, p.key = key ∧ s.Accounted routing server p status

/-- What the pass knows of the attempt that it holds. -/
def Knows (s : Loop) : Outbound.Tick → Prop
  | .posted d _ => ⟨d.id, d.attempt, d.endpoint.url, d.body⟩ ∈ s.sender.posts
  | .delivered d (.ok status) _ => s.Reported routing server (d.id, d.attempt) status
  | _ => True

/-- The requests that are in flight or recorded. -/
def sent (s : Loop) : List Post := s.recorded.map (·.post) ++ s.flying.map (·.post)

theorem sent_append (s : Loop) (sender : Outbound.System) (f : Flight) :
    sent { s with sender, flying := s.flying ++ [f] } = s.sent ++ [f.post] := by
  rw [sent, List.map_append, ← List.append_assoc]
  rfl

structure Inv (s : Loop) : Prop where
  sender : s.sender.Inv
  once : (s.sent.map Post.key).Nodup
  posted : s.sent ⊆ s.sender.posts
  flying : ∀ f ∈ s.flying, (∃ d ∈ s.sender.pushed, AttemptOf d f.post s.sender.now ∧
    ∃ at_ others, Unsigned others ∧ f.request = request hmac toVec d at_ others) ∧
    ∀ effects, f.effects = some effects →
      ∃ fired, Fires s.history (routing.path f.post.url) effects fired
  genuine : ∀ a ∈ s.recorded, ∃ d ∈ s.sender.pushed, Genuine hmac toVec readers routing d a
  handled : s.recorded.Perm (s.handling ++ s.answered)
  events : s.events = s.answered.map Arrival.event
  inbox : ∀ endpoint, mine endpoint → Inbound.Keeps s.inbox endpoint
    ((s.recorded.filter fun a => a.endpoint = endpoint).map (·.capture))
  replied : ∀ r ∈ s.replied, s.Accounted routing server r.1 r.2
  knows : s.Knows routing server s.sender.tick
  reported : ∀ e ∈ s.sender.events, ∀ status, e.event.status = some status →
    s.Reported routing server (e.delivery, e.event.attempt) status

variable {hmac toVec readers routing server mine} {s t : Loop}

theorem Accounted.mono {p : Post} {status : UInt16} (h : s.Accounted routing server p status)
    (answered : s.answered ⊆ t.answered) {later : List Resolved}
    (history : t.history = s.history ++ later) : t.Accounted routing server p status := by
  intro endpoint reaches
  rcases h endpoint reaches with ⟨a, inAnswered, here⟩ | overridden
  · exact .inl ⟨a, answered inAnswered, here⟩
  · exact .inr (history ▸ overridden.mono later)

theorem Reported.mono {key : Uuid × UInt32} {status : UInt16}
    (h : s.Reported routing server key status) (posts : s.sender.posts ⊆ t.sender.posts)
    (answered : s.answered ⊆ t.answered) {later : List Resolved}
    (history : t.history = s.history ++ later) : t.Reported routing server key status := by
  obtain ⟨p, mem, about, accounted⟩ := h
  exact ⟨p, posts mem, about, accounted.mono answered history⟩

theorem Knows.mono {tick : Outbound.Tick} (h : s.Knows routing server tick)
    (posts : s.sender.posts ⊆ t.sender.posts) (answered : s.answered ⊆ t.answered)
    {later : List Resolved} (history : t.history = s.history ++ later) :
    t.Knows routing server tick := by
  cases tick with
  | posted d due => exact posts h
  | delivered d outcome due =>
    cases outcome with
    | ok status => exact Reported.mono h posts answered history
    | error e => trivial
  | _ => trivial

theorem inv_new (now : DateTime) (config : Resolved) :
    (new now config).Inv hmac toVec readers routing server mine where
  sender := Outbound.System.inv_new now
  once := List.nodup_nil
  posted := List.nil_subset _
  flying _ mem := absurd mem List.not_mem_nil
  genuine _ mem := absurd mem List.not_mem_nil
  handled := List.Perm.nil
  events := rfl
  inbox endpoint _ := Finmap.lookup_empty endpoint
  replied _ mem := absurd mem List.not_mem_nil
  knows := trivial
  reported _ mem := absurd mem List.not_mem_nil

/-- A step of the sender that posts nothing. -/
theorem Inv.turn (h : s.Inv hmac toVec readers routing server mine) {op : Outbound.Op}
    (assumed : s.sender.Assumed op) (honest : s.Honest routing op)
    (quiet : (s.sender.step op).posts = s.sender.posts) :
    Inv hmac toVec readers routing server mine { s with sender := s.sender.step op } := by
  have grows := s.sender.step_grows op
  have knows : s.Knows routing server (s.sender.step op).tick ∧
      ∀ e ∈ (s.sender.step op).events, ∀ status, e.event.status = some status →
        s.Reported routing server (e.delivery, e.event.attempt) status := by
    rcases s.sender.step_cases op with same | does
    · rw [same]
      exact ⟨h.knows, h.reported⟩
    · have before := h.knows
      generalize s.sender.step op = t at does quiet ⊢
      cases does with
      | clock | enqueue | push => exact ⟨before, h.reported⟩
      | tick | collect | finish | panic | replace => exact ⟨trivial, h.reported⟩
      | fail => exact ⟨trivial, h.reported⟩
      | post => simp at quiet
      | @answer c due result at_ =>
        rw [at_] at before
        cases result with
        | error e => exact ⟨trivial, h.reported⟩
        | ok status =>
          refine ⟨⟨_, before, rfl, fun endpoint reaches => ?_⟩, h.reported⟩
          have replied := honest c due at_ (reaches ▸ rfl)
          exact h.replied _ replied endpoint reaches
      | @emit c outcome due d event at_ settles =>
        rw [at_] at before
        obtain ⟨id, number, status⟩ := Outbound.settle_event settles
        refine ⟨trivial, fun e mem code announced => ?_⟩
        rcases List.mem_append.mp mem with old | new
        · exact h.reported e old code announced
        · obtain rfl := List.mem_singleton.mp new
          rw [status] at announced
          cases outcome with
          | error e => contradiction
          | ok status' =>
            obtain rfl := Option.some.inj announced
            show s.Reported routing server (d.id, event.attempt) status'
            rw [id, number]
            exact before
  refine ⟨h.sender.step op assumed, h.once, fun p mem => grows.posts (h.posted mem),
    fun f mem => ⟨?_, (h.flying f mem).2⟩, fun a mem => ?_, h.handled, h.events, h.inbox, h.replied,
    knows.1.mono grows.posts (List.Subset.refl _) (List.append_nil _).symm,
    fun e mem status announced => (knows.2 e mem status announced).mono grows.posts
      (List.Subset.refl _) (List.append_nil _).symm⟩
  · obtain ⟨d, pushed, attempt, made⟩ := (h.flying f mem).1
    exact ⟨d, grows.pushed pushed, attempt.mono grows.now, made⟩
  · obtain ⟨d, pushed, genuine⟩ := h.genuine a mem
    exact ⟨d, grows.pushed pushed, genuine⟩

/-- The request of an attempt goes out. -/
theorem Inv.post (h : s.Inv hmac toVec readers routing server mine) {d : Delivery}
    {due : List Delivery} (at_ : DateTime) (tick : s.sender.tick = .attempting (d :: due))
    (reaches : ¬d.next.attempt ≤ d.endpoint.failFirst) (unsigned : Unsigned others) :
    Inv hmac toVec readers routing server mine { s with
      sender := s.sender.step .attempt
      flying := s.flying ++ [⟨⟨d.id, d.next.attempt, d.endpoint.url, d.body⟩,
        request hmac toVec d.next at_ others, none⟩] } := by
  have sender := h.sender.step .attempt trivial
  have waiting : Outbound.Waiting s.sender.queue s.sender.now (d :: due) := by
    have before := h.sender.tick
    rwa [tick] at before
  have inQueue := (waiting.ready d List.mem_cons_self).1
  have pushed : d.asEnqueued ∈ s.sender.pushed := by
    rw [← h.sender.order]
    exact List.mem_map_of_mem inQueue
  have step := Outbound.System.step_posts tick reaches
  have counted : ⟨d.id, d.next.attempt, s.sender.now⟩ ∈
      (s.sender.step .attempt).attemptsOf d.id := by
    rw [Outbound.System.attemptsOf, step]
    exact List.mem_filter.mpr ⟨List.mem_append_right _ List.mem_cons_self, by simp⟩
  have ladder : (s.sender.step .attempt).Laddered d := sender.laddered (by rwa [step])
  have attempt : AttemptOf d.asEnqueued ⟨d.id, d.next.attempt, d.endpoint.url, d.body⟩
      s.sender.now := by
    have number : d.next.attempt.toNat ∈ List.range' 1 _ :=
      ladder.numbers ▸ List.mem_map_of_mem counted
    rw [List.mem_range'_1] at number
    have bounded := ladder.bounded
    have onTime := ladder.onTime _ counted
    refine ⟨rfl, rfl, UInt32.not_le.mp reaches, ?_, ?_⟩
    · show d.next.attempt.toNat ≤ d.backoff.length + 1
      omega
    · rwa [d.dueNanos_asEnqueued]
  have fresh := sender.posts_nodup
  rw [step] at sender fresh ⊢
  rw [List.map_append, List.nodup_append'] at fresh
  refine ⟨sender, ?_, ?_, fun f mem => ?_, h.genuine, h.handled, h.events, h.inbox, h.replied,
    List.mem_append_right _ List.mem_cons_self, fun e mem status announced =>
      (h.reported e mem status announced).mono (List.subset_append_left _ _) (List.Subset.refl _)
        (List.append_nil _).symm⟩
  · rw [sent_append, List.map_append, List.nodup_append']
    exact ⟨h.once, List.nodup_singleton _, fun key old new =>
      fresh.2.2 (List.map_subset _ h.posted old) new⟩
  · rw [sent_append]
    exact List.append_subset.mpr ⟨fun p mem => List.mem_append_left _ (h.posted mem),
      List.subset_append_right _ _⟩
  · rcases List.mem_append.mp mem with old | new
    · exact h.flying f old
    · obtain rfl := List.mem_singleton.mp new
      exact ⟨⟨d.asEnqueued, pushed, attempt, at_, others, unsigned, rfl⟩,
        fun _ no => absurd no.symm (Option.some_ne_none _)⟩

/-- What is in flight is recorded or leaves. -/
theorem Inv.land (h : s.Inv hmac toVec readers routing server mine) (k : Nat) :
    ((s.recorded.map (·.post) ++ (s.flying.eraseIdx k).map (·.post)).map Post.key).Nodup ∧
      s.recorded.map (·.post) ++ (s.flying.eraseIdx k).map (·.post) ⊆ s.sender.posts := by
  have fewer : (s.recorded.map (·.post) ++ (s.flying.eraseIdx k).map (·.post)).Sublist s.sent :=
    (((List.eraseIdx_sublist s.flying k).map _).append_left _)
  exact ⟨h.once.sublist (fewer.map _), fun p mem => h.posted (fewer.subset mem)⟩

theorem Inv.lose (h : s.Inv hmac toVec readers routing server mine) (k : Nat) :
    Inv hmac toVec readers routing server mine { s with flying := s.flying.eraseIdx k } :=
  ⟨h.sender, (h.land k).1, (h.land k).2, fun f mem => h.flying f (List.mem_of_mem_eraseIdx mem),
    h.genuine, h.handled, h.events, h.inbox, h.replied, h.knows, h.reported⟩

/-- Other rules are served. -/
theorem Inv.control (h : s.Inv hmac toVec readers routing server mine) (config : Resolved) :
    Inv hmac toVec readers routing server mine { s with history := s.history ++ [config] } := by
  refine ⟨h.sender, h.once, h.posted, fun f mem => ⟨(h.flying f mem).1, fun effects some_ => ?_⟩,
    h.genuine, h.handled, h.events, h.inbox,
    fun r mem => (h.replied r mem).mono (List.Subset.refl _) rfl,
    h.knows.mono (List.Subset.refl _) (List.Subset.refl _) rfl,
    fun e mem status announced =>
      (h.reported e mem status announced).mono (List.Subset.refl _) (List.Subset.refl _) rfl⟩
  obtain ⟨fired, fires⟩ := (h.flying f mem).2 effects some_
  exact ⟨fired, fires.mono [config]⟩

/-- The layer reads the rules for a request. -/
theorem Inv.resolve (h : s.Inv hmac toVec readers routing server mine) {k : Nat} {f : Flight}
    {effects : Effects} {fired : List FaultSpec} (found : s.flying[k]? = some f)
    (fires : Fires s.history (routing.path f.post.url) effects fired) :
    Inv hmac toVec readers routing server mine
      { s with flying := s.flying.set k { f with effects := some effects } } := by
  obtain ⟨lt, rfl⟩ := List.getElem?_eq_some_iff.mp found
  have posts : (s.flying.set k { s.flying[k] with effects := some effects }).map (·.post) =
      s.flying.map (·.post) := by
    rw [List.map_set]
    show (s.flying.map (·.post)).set k s.flying[k].post = _
    rw [← List.map_set, List.set_getElem_self]
  refine ⟨h.sender, ?_, ?_, fun g mem => ?_, h.genuine, h.handled, h.events, h.inbox, h.replied,
    h.knows, h.reported⟩
  · rw [Loop.sent, posts]
    exact h.once
  · rw [Loop.sent, posts]
    exact h.posted
  · rcases List.mem_or_eq_of_mem_set mem with old | rfl
    · exact h.flying g old
    · refine ⟨(h.flying _ (List.getElem_mem lt)).1, fun e same => ?_⟩
      obtain rfl := Option.some.inj same
      exact ⟨fired, fires⟩

/-- The layer answers instead of the handler. -/
theorem Inv.short (h : s.Inv hmac toVec readers routing server mine) {k : Nat} {f : Flight}
    {effects : Effects} {response : Http.Response} (found : s.flying[k]? = some f)
    (resolved : f.effects = some effects) (answers : Http.short effects = some response) :
    Inv hmac toVec readers routing server mine { s with
      flying := s.flying.eraseIdx k
      replied := s.replied ++ [(f.post, server.send response.status.code)] } := by
  have lost := h.lose k
  refine ⟨lost.sender, lost.once, lost.posted, lost.flying, lost.genuine, lost.handled,
    lost.events, lost.inbox, fun r mem => ?_, lost.knows, lost.reported⟩
  rcases List.mem_append.mp mem with old | new
  · exact h.replied r old
  · obtain rfl := List.mem_singleton.mp new
    obtain ⟨fired, config, served, fuel, specs, roll, matched, resolves, rfl⟩ :=
      (h.flying f (List.mem_of_getElem? found)).2 effects resolved
    exact fun endpoint _ => .inr ⟨effects, _, response,
      ⟨config, served, fuel, specs, roll, matched, resolves, rfl⟩,
      (Http.latest_resolve resolves).served_short answers, rfl⟩

theorem sent_record {k : Nat} {f : Flight} (found : s.flying[k]? = some f) :
    (s.recorded.map (·.post) ++ [f.post] ++ (s.flying.eraseIdx k).map (·.post)).Perm s.sent := by
  obtain ⟨lt, rfl⟩ := List.getElem?_eq_some_iff.mp found
  rw [List.append_assoc]
  exact ((List.getElem_cons_eraseIdx_perm lt).map (·.post)).append_left _

/-- A request reaches its inbox. -/
theorem Inv.record (h : s.Inv hmac toVec readers routing server mine) {k : Nat} {f : Flight}
    {effects : Effects} {endpoint : String} (found : s.flying[k]? = some f)
    (reaches : routing.hook f.post.url = some endpoint) {capture : Inbound.Capture}
    {inbox : Inbound.Inbox}
    (made : s.inbox.record readers endpoint f.request.headers f.request.body s.sender.now =
      (capture, inbox)) : Inv hmac toVec readers routing server mine { s with
        inbox
        flying := s.flying.eraseIdx k
        recorded := s.recorded ++ [⟨f.post, endpoint, capture, effects⟩]
        handling := s.handling ++ [⟨f.post, endpoint, capture, effects⟩] } := by
  have captured : Inbound.capture readers f.request.headers f.request.body s.sender.now = capture :=
    congrArg Prod.fst made
  have perm := sent_record found
  have sent : (s.recorded ++ [Arrival.mk f.post endpoint capture effects]).map Arrival.post =
      s.recorded.map Arrival.post ++ [f.post] := List.map_append
  refine ⟨h.sender, ?_, ?_, fun g mem => h.flying g (List.mem_of_mem_eraseIdx mem),
    fun a mem => ?_, ?_, h.events, fun name own => ?_, h.replied, h.knows, h.reported⟩
  · rw [Loop.sent, sent]
    exact (perm.map Post.key).nodup_iff.mpr h.once
  · rw [Loop.sent, sent]
    exact fun p mem => h.posted (perm.subset mem)
  · rcases List.mem_append.mp mem with old | new
    · exact h.genuine a old
    · obtain rfl := List.mem_singleton.mp new
      obtain ⟨d, pushed, attempt, at_, others, unsigned, whole⟩ :=
        (h.flying f (List.mem_of_getElem? found)).1
      subst captured
      rw [whole]
      refine ⟨d, pushed, attempt, ?_, shows_capture hmac toVec readers d at_ _ unsigned⟩
      rw [← attempt.url]
      exact reaches
  · refine (h.handled.append_right _).trans ?_
    rw [List.append_assoc, List.append_assoc]
    exact List.perm_append_comm.append_left _
  · have keeps := h.inbox name own
    have inboxed : (s.inbox.record readers endpoint f.request.headers f.request.body
        s.sender.now).2 = inbox := congrArg Prod.snd made
    rw [List.filter_append, List.map_append]
    by_cases same : endpoint = name
    · subst same
      rw [List.filter_cons_of_pos (by simp), ← inboxed]
      exact captured ▸ keeps.record f.request.headers f.request.body s.sender.now
    · rw [List.filter_cons_of_neg (by simpa using same), List.filter_nil, List.map_nil,
        List.append_nil, Inbound.Keeps, ← inboxed, ← keeps]
      exact Finmap.lookup_insert_of_ne _ (Ne.symm same)

/-- A handler emits its event and answers. -/
theorem Inv.answer (h : s.Inv hmac toVec readers routing server mine) {k : Nat} {a : Arrival}
    (found : s.handling[k]? = some a) (bytes : List UInt8) :
    Inv hmac toVec readers routing server mine { s with
      handling := s.handling.eraseIdx k
      answered := s.answered ++ [a]
      events := s.events ++ [a.event]
      replied := s.replied ++ [(a.post, server.send (a.response bytes).status.code)] } := by
  obtain ⟨lt, rfl⟩ := List.getElem?_eq_some_iff.mp found
  have more := List.subset_append_left s.answered [s.handling[k]]
  have kept := (List.append_nil s.history).symm
  refine ⟨h.sender, h.once, h.posted, h.flying, h.genuine, h.handled.trans ?_, ?_, h.inbox,
    fun r mem => ?_, h.knows.mono (List.Subset.refl _) more kept,
    fun e mem status announced =>
      (h.reported e mem status announced).mono (List.Subset.refl _) more kept⟩
  · refine ((List.getElem_cons_eraseIdx_perm lt).symm.append_right _).trans ?_
    rw [← List.append_assoc]
    exact (List.perm_append_singleton _ _).symm
  · rw [h.events, List.map_append, List.map_singleton]
  · rcases List.mem_append.mp mem with old | new
    · exact (h.replied r old).mono more kept
    · obtain rfl := List.mem_singleton.mp new
      intro endpoint reaches
      obtain ⟨d, -, genuine⟩ := h.genuine s.handling[k]
        (h.handled.symm.subset (List.mem_append_left _ (List.getElem_mem lt)))
      have hook := genuine.hook
      rw [← genuine.attempt.url] at hook
      have ok : server.send (s.handling[k].response bytes).status.code = 200 := by
        rw [Arrival.response_status]
        exact server.whole 200 (by decide)
      exact .inl ⟨s.handling[k], List.mem_append_right _ List.mem_cons_self, rfl,
        Option.some.inj (hook.symm.trans reaches), ok⟩

/-- Somebody else uses the inbox. -/
theorem Inv.call (h : s.Inv hmac toVec readers routing server mine) {call : Inbound.Call}
    (foreign : ∀ endpoint, mine endpoint → ¬call.Concerns endpoint) :
    Inv hmac toVec readers routing server mine { s with inbox := call.apply readers s.inbox } :=
  ⟨h.sender, h.once, h.posted, h.flying, h.genuine, h.handled, h.events, fun endpoint own => by
    have keeps : Inbound.Keeps _ endpoint (call.log readers endpoint _) :=
      (h.inbox endpoint own).apply call
    rwa [call.log_of_not_concerns (foreign endpoint own)] at keeps, h.replied, h.knows, h.reported⟩

theorem Inv.step (h : s.Inv hmac toVec readers routing server mine)
    (step : Step hmac toVec readers routing server mine s t) :
    t.Inv hmac toVec readers routing server mine := by
  cases step with
  | turn op assumed honest quiet => exact h.turn assumed honest quiet
  | post d due at_ others tick reaches unsigned => exact h.post at_ tick reaches unsigned
  | lose k => exact h.lose k
  | control config => exact h.control config
  | resolve k f config fuel specs roll effects found _ last matched resolves =>
    exact h.resolve found ⟨config, List.mem_of_getLast? last, fuel, specs, roll, matched, resolves,
      rfl⟩
  | short k f effects response found resolved answers => exact h.short found resolved answers
  | record k f effects endpoint found _ _ reaches => exact h.record found reaches rfl
  | answer k a bytes found => exact h.answer found bytes
  | call call foreign => exact h.call foreign

theorem inv_of_reachable {now : DateTime} {config : Resolved}
    (reached : Machine.Reachable (· = new now config)
      (Step hmac toVec readers routing server mine) s) :
    s.Inv hmac toVec readers routing server mine :=
  reached.invariant (fun _ start => start ▸ inv_new now config) fun _ _ _ inv step => inv.step step

end Loop

end Captures

/-! ### A delivery of `null` -/

def pingEndpoint : WebhookEndpoint :=
  ⟨"ping", "http://localhost:8080/hooks/in/ping", .github, none, [1000], 0⟩

def nullBytes : List UInt8 := [0x6e, 0x75, 0x6c, 0x6c]

def nullDigest : List UInt8 :=
  [0x74, 0x23, 0x4e, 0x98, 0xaf, 0xe7, 0x49, 0x8f, 0xb5, 0xda, 0xf1, 0xf3, 0x6a, 0xc2, 0xd7, 0x8a,
    0xcc, 0x33, 0x94, 0x64, 0xf9, 0x50, 0x70, 0x3b, 0x8c, 0x01, 0x98, 0x92, 0xf9, 0x82, 0xb9, 0x0b]

/-- Its digest under the secret of an endpoint without one. -/
def nullHmac : List UInt8 :=
  [0xac, 0x12, 0xe0, 0x9b, 0xaf, 0x57, 0xb5, 0x9d, 0xf7, 0x94, 0xdb, 0xf2, 0x58, 0xc4, 0xb8, 0xad,
    0x60, 0x8b, 0xb8, 0x3f, 0xdb, 0x06, 0xfa, 0xf4, 0x09, 0xb9, 0x4f, 0x1c, 0x21, 0xe1, 0x73, 0x42]

def nullReaders : Inbound.Readers where
  fromSlice raw := if raw = nullBytes then some .null else none
  fromUtf8Lossy _ := "null"
  sha256 _ := nullDigest

def pingRouting : Routing where
  hook url := if url = pingEndpoint.url then some "ping" else none
  path _ := "/hooks/in/ping"

/-- A server that answers 500 where it would have to send an informational status. -/
def refusing : Server where
  send status := if status < 200 then 500 else status
  whole _ final := if_neg (UInt16.not_lt.mpr final)

/-- No rules. -/
def calm : Resolved := ⟨[], .default, []⟩

/-- The sender is about to attempt its one delivery. -/
def pinging : Loop := { Loop.new DateTime.unixEpoch calm with
  sender := [.enqueue (.fill 16 0) pingEndpoint .null none, .push 0, .tick, .collect].foldl
    Outbound.System.step (.new DateTime.unixEpoch) }

def ping : Delivery := .new (.fill 16 0) pingEndpoint .null DateTime.unixEpoch none

section Ping

abbrev PingStep : Loop → Loop → Prop :=
  Loop.Step (fun _ _ => nullHmac) (fun _ => nullBytes) nullReaders pingRouting refusing
    fun _ => True

theorem reachable_pinging :
    Machine.Reachable (· = Loop.new DateTime.unixEpoch calm) PingStep pinging := by
  refine .next (.next (.next (.next (.start rfl)
    (.turn _ (.enqueue (.fill 16 0) pingEndpoint .null none) ?_ trivial rfl))
    (.turn _ (.push 0) trivial trivial rfl)) (.turn _ .tick trivial trivial rfl))
    (.turn _ .collect trivial trivial rfl)
  exact ⟨by decide, by decide +kernel⟩

end Ping

end Servr.Hooks
