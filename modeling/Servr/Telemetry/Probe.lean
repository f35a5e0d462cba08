import Servr.Text

/-! The probe of the collector in `telemetry/src/lib.rs`: which address it makes of an endpoint. -/

namespace Servr.Telemetry

def http : List Char := "http://".toList
def https : List Char := "https://".toList

/-- The address that `collector_reachable` resolves. -/
def probed (endpoint : List Char) : List Char :=
  let secure := (stripPrefix https endpoint).isSome
  let authority :=
    (trimStartMatches https (trimStartMatches http endpoint)).rdropWhile (· = '/')
  if (parseU16 (authority.rtakeWhile (· ≠ ':'))).isSome then authority
  else if secure then authority ++ ":443".toList
  else authority ++ ":80".toList

/-- `collector_reachable`, over what `to_socket_addrs` and `connect_timeout` do. -/
def collectorReachable {α : Type} (toSocketAddrs : List Char → Option (List α))
    (connects : α → Bool) (endpoint : List Char) : Bool :=
  match toSocketAddrs (probed endpoint) with
  | none => false
  | some addrs => addrs.any connects

/-! ### Endpoints -/

inductive Scheme
  | http
  | https
  deriving DecidableEq

namespace Scheme

def text : Scheme → List Char
  | http => Telemetry.http
  | https => Telemetry.https

def defaultPort : Scheme → List Char
  | http => "80".toList
  | https => "443".toList

end Scheme

inductive Host
  | name (text : List Char)
  /-- What stands between the brackets. -/
  | ipv6 (text : List Char)
  deriving DecidableEq

namespace Host

def text : Host → List Char
  | name text => text
  | ipv6 text => '[' :: text ++ [']']

/-- A name is not empty and has no `:`, and no host has a `/`. -/
def WellFormed : Host → Prop
  | name text => text ≠ [] ∧ ':' ∉ text ∧ '/' ∉ text
  | ipv6 text => '/' ∉ text

instance : DecidablePred WellFormed
  | name _ => inferInstanceAs (Decidable (_ ∧ _))
  | ipv6 _ => inferInstanceAs (Decidable (_ ∉ _))

end Host

/-- A scheme, a host, a port and a path that is empty or starts with a `/`. -/
structure Endpoint where
  scheme : Scheme
  host : Host
  port : Option (List Char)
  path : List Char
  host_wellFormed : host.WellFormed
  port_digits : ∀ p ∈ port, ∃ n < 2 ^ 16, parseDigits p = some n
  path_slash : ∀ c ∈ path.head?, c = '/'

namespace Endpoint

def authority (e : Endpoint) : List Char :=
  e.host.text ++ e.port.elim [] (':' :: ·)

def text (e : Endpoint) : List Char := e.scheme.text ++ (e.authority ++ e.path)

/-- The host with the port, which depends on the scheme if the endpoint has none. -/
def address (e : Endpoint) : List Char :=
  e.host.text ++ ':' :: e.port.getD e.scheme.defaultPort

/-- The probe resolves the address of the endpoint, and finds no collector only if none of what the
address stands for accepts a connection. -/
structure Probed (e : Endpoint) : Prop where
  address : probed e.text = e.address
  disabled : ∀ (α : Type) (toSocketAddrs : List Char → Option (List α)) (connects : α → Bool),
    collectorReachable toSocketAddrs connects e.text = false →
      ∀ addrs, toSocketAddrs e.address = some addrs → ∀ a ∈ addrs, connects a = false

end Endpoint

/-! ### What trimming leaves -/

theorem isDigit_of_parseDigits {cs : List Char} {n : Nat} (h : parseDigits cs = some n) :
    cs ≠ [] ∧ ∀ c ∈ cs, c.isDigit := by
  unfold parseDigits at h
  split at h
  · rename_i digits
    exact ⟨digits.1, List.all_eq_true.mp digits.2⟩
  · contradiction

theorem parseU16_of_parseDigits {cs : List Char} {n : Nat} (h : parseDigits cs = some n)
    (small : n < 2 ^ 16) : parseU16 cs = some (.ofNat n) := by
  have digits := (isDigit_of_parseDigits h).2
  unfold parseU16
  split
  · exact absurd (digits '+' List.mem_cons_self) (by decide)
  · rw [h, Option.bind_some, if_pos small]

namespace Host

variable {h : Host}

theorem slash_notMem (wf : h.WellFormed) : '/' ∉ h.text := by
  cases h with
  | name text => exact wf.2.2
  | ipv6 text =>
    have free : '/' ∉ text := wf
    simp [Host.text, free]

/-- What is after the last `:` of a host is a port only if the host is a name and a number. -/
theorem parseU16_rtakeWhile (wf : h.WellFormed) :
    parseU16 (h.text.rtakeWhile (· ≠ ':')) = parseU16 h.text := by
  cases h with
  | name text =>
    have whole : text.rtakeWhile (· ≠ ':') = text := by
      rw [List.rtakeWhile_eq_self_iff]
      intro c mem
      have other : c ≠ ':' := fun same => wf.2.1 (same ▸ mem)
      simpa using other
    rw [Host.text, whole]
  | ipv6 text =>
    have bracket {cs : List Char} (mem : ']' ∈ cs) : parseU16 cs = none := by
      cases parsed : parseU16 cs with
      | none => rfl
      | some n => exact absurd (isDecimal_of_parseU16 parsed _ mem) (by decide)
    have last : ']' ∈ (Host.ipv6 text).text.rtakeWhile (· ≠ ':') := by
      rw [Host.text, List.rtakeWhile_concat_pos _ _ _ (by decide)]
      exact List.mem_append_right _ List.mem_cons_self
    rw [bracket last, bracket (by simp [Host.text])]

end Host

namespace Endpoint

variable (e : Endpoint)

theorem port_free {p : List Char} (h : e.port = some p) : p ≠ [] ∧ ':' ∉ p ∧ '/' ∉ p := by
  obtain ⟨n, -, parsed⟩ := e.port_digits p h
  obtain ⟨nonempty, digits⟩ := isDigit_of_parseDigits parsed
  exact ⟨nonempty, fun mem => absurd (digits _ mem) (by decide),
    fun mem => absurd (digits _ mem) (by decide)⟩

theorem slash_notMem_authority : '/' ∉ e.authority := by
  have host := Host.slash_notMem e.host_wellFormed
  unfold authority
  cases port : e.port with
  | none => simpa using host
  | some p => simp [host, (e.port_free port).2.2]

theorem slash_notMem_address : '/' ∉ e.address := by
  have host := Host.slash_notMem e.host_wellFormed
  have default : '/' ∉ e.scheme.defaultPort := by cases e.scheme <;> decide
  unfold address
  cases port : e.port with
  | none => simp [host, default]
  | some p => simp [host, (e.port_free port).2.2]

theorem path_cases : e.path = [] ∨ ∃ rest, e.path = '/' :: rest := by
  have slash := e.path_slash
  cases path : e.path with
  | nil => exact .inl rfl
  | cons c rest =>
    rw [path] at slash
    exact .inr ⟨rest, by rw [slash c rfl]⟩

/-- What follows the scheme does not start with a scheme. -/
theorem stripPrefix_authority {word : List Char} (free : ':' ∉ word ∧ '/' ∉ word ∧ '[' ∉ word) :
    stripPrefix (word ++ "://".toList) (e.authority ++ e.path) = none := by
  cases found : stripPrefix (word ++ "://".toList) (e.authority ++ e.path) with
  | none => rfl
  | some rest =>
    exfalso
    have same := eq_append_of_stripPrefix found
    let separates := fun c : Char => decide (c ≠ ':' ∧ c ≠ '/')
    have inWord : ∀ c ∈ word, separates c := by
      intro c mem
      exact decide_eq_true ⟨fun h => free.1 (h ▸ mem), fun h => free.2.1 (h ▸ mem)⟩
    have after := congrArg (List.dropWhile separates) same
    rw [List.append_assoc, List.dropWhile_append_of_pos inWord] at after
    have wf := e.host_wellFormed
    cases host : e.host with
    | name text =>
      rw [host] at wf
      have inName : ∀ c ∈ text, separates c := by
        intro c mem
        exact decide_eq_true ⟨fun h => wf.2.1 (h ▸ mem), fun h => wf.2.2 (h ▸ mem)⟩
      rw [authority, host, Host.text, List.append_assoc,
        List.dropWhile_append_of_pos inName] at after
      cases port : e.port with
      | none =>
        rw [port] at after
        obtain path | ⟨rest', path⟩ := e.path_cases
        · rw [path] at after
          simp [separates] at after
        · rw [path] at after
          simp [separates] at after
      | some p =>
        rw [port] at after
        obtain ⟨nonempty, -, slash⟩ := e.port_free port
        obtain ⟨d, ds, rfl⟩ := List.exists_cons_of_ne_nil nonempty
        have first : d = '/' := by
          have heads := congrArg (fun cs => (cs.drop 1).head?) after
          simpa [separates] using heads
        exact slash (first ▸ List.mem_cons_self)
    | ipv6 text =>
      rw [authority, host, Host.text] at same
      cases word with
      | nil => simp at same
      | cons w ws =>
        have first : '[' = w := (List.cons.inj same).1
        exact free.2.2 (first ▸ List.mem_cons_self)

theorem trim_scheme :
    trimStartMatches https (trimStartMatches http e.text) = e.authority ++ e.path := by
  have noHttp : stripPrefix http (e.authority ++ e.path) = none :=
    e.stripPrefix_authority (show ':' ∉ "http".toList ∧ _ by decide)
  have noHttps : stripPrefix https (e.authority ++ e.path) = none :=
    e.stripPrefix_authority (show ':' ∉ "https".toList ∧ _ by decide)
  unfold text
  cases e.scheme with
  | http =>
    rw [Scheme.text, trimStartMatches_once (by decide) noHttp, trimStartMatches_of_none noHttps]
  | https =>
    have other : stripPrefix http (https ++ (e.authority ++ e.path)) = none := rfl
    rw [Scheme.text, trimStartMatches_of_none other, trimStartMatches_once (by decide) noHttps]

theorem secure_iff : (stripPrefix https e.text).isSome = decide (e.scheme = .https) := by
  unfold text
  cases e.scheme with
  | http => rfl
  | https => rw [Scheme.text, stripPrefix_append, Option.isSome_some, decide_eq_true rfl]

theorem dropWhile_base {base : List Char} (free : '/' ∉ base) (rest : List Char) :
    (base ++ rest).dropWhile (· ≠ '/') = rest.dropWhile (· ≠ '/') := by
  refine List.dropWhile_append_of_pos fun c mem => decide_eq_true ?_
  exact fun same => free (same ▸ mem)

theorem dropWhile_slash {rest : List Char} (slash : ∀ c ∈ rest.head?, c = '/') :
    rest.dropWhile (· ≠ '/') = rest := by
  cases rest with
  | nil => rfl
  | cons c cs => exact List.dropWhile_cons_of_neg (by simpa using slash c rfl)

theorem trim_slashes (h : ∀ c ∈ e.path, c = '/') :
    (e.authority ++ e.path).rdropWhile (· = '/') = e.authority := by
  have slashes : ∀ c ∈ e.path.reverse, decide (c = '/') := by simpa using h
  have kept : e.authority.rdropWhile (· = '/') = e.authority := by
    rw [List.rdropWhile_eq_self_iff]
    intro nonempty
    have last : e.authority.getLast nonempty ≠ '/' := fun same =>
      e.slash_notMem_authority (same ▸ List.getLast_mem nonempty)
    simpa using last
  rw [List.rdropWhile, List.reverse_append, List.dropWhile_append_of_pos slashes]
  exact kept

/-- Of any other path a slash stays. -/
theorem slash_mem_trimmed (h : ¬∀ c ∈ e.path, c = '/') :
    '/' ∈ (e.authority ++ e.path).rdropWhile (· = '/') := by
  by_contra free
  let trimmed := (e.authority ++ e.path).rdropWhile (· = '/')
  let slashes := (e.authority ++ e.path).rtakeWhile (· = '/')
  have all : ∀ c ∈ slashes, c = '/' := by
    intro c mem
    simpa using List.mem_rtakeWhile_imp mem
  have same : trimmed ++ slashes = e.authority ++ e.path := List.rdropWhile_append_rtakeWhile
  have after := congrArg (List.dropWhile (· ≠ '/')) same
  rw [dropWhile_base free, dropWhile_base e.slash_notMem_authority, dropWhile_slash e.path_slash,
    dropWhile_slash fun c mem => all c (List.mem_of_mem_head? mem)] at after
  exact h (after ▸ all)

theorem rtakeWhile_port {p : List Char} (free : ':' ∉ p) (host : List Char) :
    (host ++ ':' :: p).rtakeWhile (· ≠ ':') = p := by
  have inPort : ∀ c ∈ p.reverse, decide (c ≠ ':') := by
    intro c mem
    refine decide_eq_true fun same => free ?_
    exact same ▸ List.mem_reverse.mp mem
  rw [List.rtakeWhile, List.reverse_append, List.reverse_cons, List.append_assoc,
    List.takeWhile_append_of_pos inPort]
  simp

theorem probed_of_slashes (h : ∀ c ∈ e.path, c = '/') :
    probed e.text =
      if e.port = none ∧ (parseU16 e.host.text).isSome then e.host.text else e.address := by
  unfold probed
  rw [e.trim_scheme, e.trim_slashes h, e.secure_iff]
  cases port : e.port with
  | none =>
    have authority : e.authority = e.host.text := by
      rw [Endpoint.authority, port]
      exact List.append_nil _
    simp only [authority, Host.parseU16_rtakeWhile e.host_wellFormed, true_and]
    cases parseU16 e.host.text with
    | some n => rfl
    | none =>
      unfold address
      rw [port]
      cases e.scheme <;> rfl
  | some p =>
    obtain ⟨n, small, digits⟩ := e.port_digits p port
    have authority : e.authority = e.host.text ++ ':' :: p := by
      rw [Endpoint.authority, port]
      rfl
    have address : e.address = e.host.text ++ ':' :: p := by
      rw [Endpoint.address, port]
      rfl
    simp only [authority, address, rtakeWhile_port (e.port_free port).2.1,
      parseU16_of_parseDigits digits small]
    rfl

theorem probed_eq_iff : probed e.text = e.address ↔
    (∀ c ∈ e.path, c = '/') ∧ (e.port = none → parseU16 e.host.text = none) := by
  by_cases slashes : ∀ c ∈ e.path, c = '/'
  · rw [e.probed_of_slashes slashes, and_iff_right slashes]
    split
    · rename_i number
      refine iff_of_false (fun same => ?_) fun h => ?_
      · have lengths := congrArg List.length same
        rw [address, List.length_append, List.length_cons] at lengths
        omega
      · rw [h number.1] at number
        exact absurd number.2 (by simp)
    · rename_i other
      refine iff_of_true rfl fun none_ => ?_
      exact Option.not_isSome_iff_eq_none.mp (not_and.mp other none_)
  · refine iff_of_false (fun same => ?_) fun h => slashes h.1
    have slash := e.slash_mem_trimmed slashes
    rw [← e.trim_scheme] at slash
    apply e.slash_notMem_address
    rw [← same]
    simp only [probed]
    split
    · exact slash
    · split <;> exact List.mem_append_left _ slash

/-- An endpoint is probed at its address exactly if its path is slashes, and its host is no number
that could be a port unless it has one. -/
theorem probed_iff : e.Probed ↔
    (∀ c ∈ e.path, c = '/') ∧ (e.port = none → parseU16 e.host.text = none) := by
  rw [← e.probed_eq_iff]
  refine ⟨Probed.address, fun same => ⟨same, ?_⟩⟩
  intro α toSocketAddrs connects unreachable addrs found
  rw [collectorReachable, same, found] at unreachable
  exact fun a mem => by simpa using List.any_eq_false.mp unreachable a mem

def traces : Endpoint where
  scheme := .http
  host := .name "localhost".toList
  port := some "4317".toList
  path := "/v1/traces".toList
  host_wellFormed := by decide +kernel
  port_digits := by
    rintro p ⟨⟩
    exact ⟨4317, by decide, by decide +kernel⟩
  path_slash := by
    rintro c ⟨⟩
    rfl

/-- The path stays, and hides the port. -/
theorem traces_probed_elsewhere :
    ¬(∀ e : Endpoint, e.Probed) ∧
      probed "http://localhost:4317/v1/traces".toList = "localhost:4317/v1/traces:80".toList ∧
      probed "https://80".toList = "80".toList := by
  have text : traces.text = "http://localhost:4317/v1/traces".toList := by decide +kernel
  have elsewhere : probed "http://localhost:4317/v1/traces".toList =
      "localhost:4317/v1/traces:80".toList := by
    decide +kernel
  refine ⟨fun all => ?_, elsewhere, by decide +kernel⟩
  have address := (all traces).address
  rw [text, elsewhere] at address
  exact absurd address (by decide +kernel)

end Endpoint

end Servr.Telemetry
