import Servr.Mail.Inbox

/-! Reads that a query narrows: a server that reads the path of a search as
`application/x-www-form-urlencoded` finds the query as it was given, whatever it contains. -/

namespace Servr.Mail

/-- The bytes that an escaped text stands for. -/
def unescape : List Char → Option (List UInt8)
  | [] => some []
  | '+' :: cs => (unescape cs).map (32 :: ·)
  | '%' :: a :: b :: cs => do
    let high ← hexValue a
    let low ← hexValue b
    return UInt8.ofNat (16 * high + low) :: (← unescape cs)
  | '%' :: _ => none
  | c :: cs => (unescape cs).map (String.utf8EncodeChar c ++ ·)

/-- One field of a query string. -/
def readField (part : List Char) : Option (List UInt8 × List UInt8) := do
  let (name, value) := (splitOnce '=' part).getD (part, [])
  return (← unescape name, ← unescape value)

def readFields (cs : List Char) : Option (List (List UInt8 × List UInt8)) :=
  (cs.splitOn '&').mapM readField

/-- The limit and the query that the fields of a query string give. -/
def searchFields (fields : List (List UInt8 × List UInt8)) : Option (Nat × List UInt8) := do
  let limit ← fields.lookup (asBytes "limit".toList)
  let text ← fields.lookup (asBytes "query".toList)
  let limit ← parseDigits (limit.map fun b => Char.ofNat b.toNat)
  return (limit, text)

/-- The limit and the query of the path of a search, as a server reads them. -/
def readSearch (path : List Char) : Option (Nat × List UInt8) :=
  match splitOnce '?' (path.takeWhile (· ≠ '#')) with
  | none => none
  | some (route, query) =>
    if route = "/api/v1/search".toList then (readFields query).bind searchFields else none

/-! ### What `urlencode` writes -/

/-- The text of one byte. -/
def encodeByte (byte : UInt8) : List Char :=
  let c := Char.ofNat byte.toNat
  if c.isAlphanum ∨ c = '-' ∨ c = '_' ∨ c = '.' ∨ c = '~' then [c]
  else if c = ' ' then ['+']
  else '%' :: upperHex byte

theorem toList_urlencode (raw : String) :
    (urlencode raw).toList = (asBytes raw.toList).flatMap encodeByte :=
  String.toList_ofList

theorem unescape_plain {c : Char} (plus : c ≠ '+') (percent : c ≠ '%') (ascii : IsAscii c)
    (cs : List Char) : unescape (c :: cs) = (unescape cs).map (UInt8.ofNat c.toNat :: ·) := by
  rw [unescape]
  · rw [utf8EncodeChar_ascii ascii]
    rfl
  · exact plus
  · exact fun _ _ _ same _ => percent same
  · exact percent

theorem unescape_encodeByte (b : UInt8) (cs : List Char) :
    unescape (encodeByte b ++ cs) = (unescape cs).map (b :: ·) := by
  have bound := b.toNat_lt
  have plain : ∀ n < 256, let c := Char.ofNat n
      (c.isAlphanum ∨ c = '-' ∨ c = '_' ∨ c = '.' ∨ c = '~') →
        c ≠ '+' ∧ c ≠ '%' ∧ IsAscii c ∧ c.toNat = n := by decide +kernel
  have digit : ∀ n < 16, hexValue (Nat.digitChar n).toUpper = some n := by decide
  unfold encodeByte
  dsimp only
  split
  · rename_i unreserved
    obtain ⟨plus, percent, ascii, number⟩ := plain b.toNat bound unreserved
    rw [List.singleton_append, unescape_plain plus percent ascii, number, UInt8.ofNat_toNat]
  · split
    · rename_i space
      have number : ∀ n < 256, Char.ofNat n = ' ' → n = 32 := by decide +kernel
      have same : b = 32 := UInt8.toNat_inj.mp (number b.toNat bound space)
      rw [List.singleton_append, unescape, same]
    · have high := digit (b.toNat / 16) (by omega)
      have low := digit (b.toNat % 16) (by omega)
      have byte : 16 * (b.toNat / 16) + b.toNat % 16 = b.toNat := by omega
      simp only [upperHex, hexByte, List.map_cons, List.map_nil, List.cons_append,
        List.nil_append, unescape, high, low, Option.bind_eq_bind, Option.bind_some, byte,
        UInt8.ofNat_toNat]
      cases unescape cs <;> rfl

/-- A text comes back byte by byte. -/
theorem unescape_urlencode (raw : String) :
    unescape (urlencode raw).toList = some (asBytes raw.toList) := by
  rw [toList_urlencode]
  induction asBytes raw.toList with
  | nil => rfl
  | cons b bytes ih => rw [List.flatMap_cons, unescape_encodeByte, ih, Option.map_some]

/-- No separator of a query string is left in it. -/
theorem separator_not_mem {sep : Char} (one : sep ∈ ['&', '=', '?', '#']) (raw : String) :
    sep ∉ (urlencode raw).toList := by
  have each : ∀ n < 256, '&' ∉ encodeByte (.ofNat n) ∧ '=' ∉ encodeByte (.ofNat n) ∧
      '?' ∉ encodeByte (.ofNat n) ∧ '#' ∉ encodeByte (.ofNat n) := by decide +kernel
  rw [toList_urlencode, List.mem_flatMap]
  rintro ⟨b, -, mem⟩
  have absent := each b.toNat b.toNat_lt
  rw [UInt8.ofNat_toNat] at absent
  simp only [List.mem_cons, List.not_mem_nil, or_false] at one
  rcases one with rfl | rfl | rfl | rfl
  · exact absent.1 mem
  · exact absent.2.1 mem
  · exact absent.2.2.1 mem
  · exact absent.2.2.2 mem

/-! ### The path of a search -/

theorem unescape_ascii {cs : List Char}
    (plain : ∀ c ∈ cs, c ≠ '+' ∧ c ≠ '%' ∧ IsAscii c) : unescape cs = some (asBytes cs) := by
  induction cs with
  | nil => rfl
  | cons c cs ih =>
    obtain ⟨⟨plus, percent, ascii⟩, rest⟩ := List.forall_mem_cons.mp plain
    rw [unescape_plain plus percent ascii, ih rest]
    simp [asBytes, utf8EncodeChar_ascii ascii]

theorem digit_plain {c : Char} (digit : c.isDigit) :
    (c ≠ '+' ∧ c ≠ '%' ∧ IsAscii c) ∧ c ∉ ['&', '=', '?', '#'] := by
  have bounds := Char.isDigit_iff_toNat.mp digit
  have other {d : Char} (no : d.isDigit = false) : c ≠ d := by
    rintro rfl
    exact absurd digit (by simp [no])
  refine ⟨⟨other (by decide), other (by decide), ?_⟩, ?_⟩
  · exact Nat.lt_of_le_of_lt bounds.2 (by decide)
  · simp [other]

theorem toDigits_plain (n : Nat) : ∀ c ∈ Nat.toDigits 10 n,
    (c ≠ '+' ∧ c ≠ '%' ∧ IsAscii c) ∧ c ∉ ['&', '=', '?', '#'] := fun _ mem =>
  digit_plain (Nat.isDigit_of_mem_toDigits (by decide) (by decide) mem)

/-- The path that `all` asks for. -/
def Inbox.searchPath (limit : Nat) (q : String) : String :=
  s!"/api/v1/search?limit={limit}&query={urlencode q}"

theorem toList_searchPath (limit : Nat) (q : String) : (Inbox.searchPath limit q).toList =
    "/api/v1/search".toList ++ '?' :: ("limit".toList ++ '=' :: Nat.toDigits 10 limit ++
      '&' :: ("query".toList ++ '=' :: (urlencode q).toList)) := by
  have digits : (toString limit).toList = Nat.toDigits 10 limit := Nat.toList_repr
  unfold Inbox.searchPath
  simp only [String.toList_append, digits, List.append_assoc]
  rfl

theorem readField_append {name value : List Char} {readName readValue : List UInt8}
    (separator : '=' ∉ name) (first : unescape name = some readName)
    (second : unescape value = some readValue) :
    readField (name ++ '=' :: value) = some (readName, readValue) := by
  rw [readField, splitOnce_append _ separator]
  simp [first, second]

theorem readFields_append {part part' : List Char} {field field' : List UInt8 × List UInt8}
    (here : '&' ∉ part) (there : '&' ∉ part') (first : readField part = some field)
    (second : readField part' = some field') :
    readFields (part ++ '&' :: part') = some [field, field'] := by
  rw [readFields, List.splitOn_append_cons_self_of_not_mem here, List.splitOn_eq_singleton there]
  simp [List.mapM_cons, first, second]

/-- A server that reads the path of a search finds the limit, and the bytes of the query. -/
theorem readSearch_searchPath (limit : Nat) (q : String) :
    readSearch (Inbox.searchPath limit q).toList = some (limit, asBytes q.toList) := by
  have digits := toDigits_plain limit
  have free {sep : Char} (one : sep ∈ ['&', '=', '?', '#']) : sep ∉ Nat.toDigits 10 limit :=
    fun mem => (digits sep mem).2 one
  have fields : readFields ("limit".toList ++ '=' :: Nat.toDigits 10 limit ++
      '&' :: ("query".toList ++ '=' :: (urlencode q).toList)) =
        some [(asBytes "limit".toList, asBytes (Nat.toDigits 10 limit)),
          (asBytes "query".toList, asBytes q.toList)] :=
    readFields_append (by simp [free]) (by simp [separator_not_mem])
      (readField_append (by decide) (unescape_ascii (by simp [IsAscii]))
        (unescape_ascii fun c mem => (digits c mem).1))
      (readField_append (by decide) (unescape_ascii (by simp [IsAscii])) (unescape_urlencode q))
  have whole : (Inbox.searchPath limit q).toList.takeWhile (· ≠ '#') =
      (Inbox.searchPath limit q).toList := by
    rw [List.takeWhile_eq_self_iff, toList_searchPath]
    intro c mem
    have here : '#' ∉ (urlencode q).toList := separator_not_mem (by decide) q
    have there : '#' ∉ Nat.toDigits 10 limit := free (by decide)
    rw [decide_eq_true_iff]
    rintro rfl
    simp [here, there] at mem
  have number : parseDigits ((asBytes (Nat.toDigits 10 limit)).map fun b => Char.ofNat b.toNat) =
      some limit := by
    rw [map_asBytes fun c mem => (digits c mem).1.2.2, parseDigits_toDigits]
  have read : searchFields [(asBytes "limit".toList, asBytes (Nat.toDigits 10 limit)),
      (asBytes "query".toList, asBytes q.toList)] = some (limit, asBytes q.toList) := by
    have other : (asBytes "query".toList == asBytes "limit".toList) = false := by decide +kernel
    unfold searchFields
    rw [List.lookup_cons_self, List.lookup_cons, other, Option.bind_eq_bind, Option.bind_some]
    dsimp only
    rw [List.lookup_cons_self, Option.bind_eq_bind, Option.bind_some, number]
    rfl
  rw [readSearch, whole, toList_searchPath, splitOnce_append _ (by decide)]
  dsimp only
  rw [if_pos rfl, fields, Option.bind_some, read]

/-! ### Reads that a query narrows -/

/-- Mailpit also answers a search with the newest messages that `accepts` finds for its query. -/
structure Searches (accepts : List UInt8 → Stored → Bool) (rest : Rest) (box : List Stored) : Prop
    extends Holds rest box where
  search : ∀ path limit text, readSearch path.toList = some (limit, text) →
    rest.listing path = .ok (((box.filter (accepts text)).take limit).map Stored.summary)

namespace Inbox

/-- Whether a read with a query is about a message. -/
def shown (accepts : List UInt8 → Stored → Bool) : Option String → Stored → Bool
  | none, _ => true
  | some q, m => q = "" || accepts (asBytes q.toList) m

variable {accepts : List UInt8 → Stored → Bool} {rest : Rest} {box : List Stored}

theorem all_none (limit : Nat) :
    all rest none limit = (rest.listing (messagesPath limit)).map (·.map Message.of) := rfl

theorem all_empty (limit : Nat) : all rest (some "") limit = all rest none limit := rfl

theorem all_some {q : String} (given : q ≠ "") (limit : Nat) :
    all rest (some q) limit = (rest.listing (searchPath limit q)).map (·.map Message.of) := by
  simp only [all, if_pos given]
  rfl

/-- A listing has the newest messages that its query is about. -/
theorem all_shown (searches : Searches accepts rest box) (query : Option String) (limit : Nat) :
    all rest query limit = .ok (((box.filter (shown accepts query)).take limit).map fun m =>
      Message.of m.summary) := by
  have unnarrowed : all rest none limit =
      .ok ((box.take limit).map fun m => Message.of m.summary) := by
    rw [all_none, searches.listing, Except.map, List.map_map]
    rfl
  have every {query : Option String} (about : ∀ m, shown accepts query m = true) :
      box.filter (shown accepts query) = box :=
    List.filter_eq_self.mpr fun m _ => about m
  cases query with
  | none => rw [unnarrowed, every fun _ => rfl]
  | some q =>
    by_cases empty : q = ""
    · rw [empty, all_empty, unnarrowed, every fun _ => rfl]
    · have narrowed : shown accepts (some q) = accepts (asBytes q.toList) := by
        funext m
        rw [shown, decide_eq_false empty, Bool.false_or]
      rw [all_some empty, searches.search _ _ _ (readSearch_searchPath limit q), narrowed,
        Except.map, List.map_map]
      rfl

/-- A read returns the messages of the run among the newest ones that its query is about. -/
theorem forRun_shown (searches : Searches accepts rest box) (run : RunId) (query : Option String)
    (limit : Nat) : forRun rest run query limit =
      .ok ((((box.filter (shown accepts query)).take limit).filter (Stored.taggedWith run)).map
        (Stored.reported run)) := by
  rw [forRun, all_shown searches]
  exact collect_eq fun m mem =>
    searches.headers m (List.mem_of_mem_filter (List.mem_of_mem_take mem))

end Inbox

/-- A Mailpit that holds `box` and searches it. -/
def searchingMailpit (accepts : List UInt8 → Stored → Bool) (box : List Stored) : Rest where
  listing path :=
    match readSearch path.toList with
    | some (limit, text) => .ok (((box.filter (accepts text)).take limit).map Stored.summary)
    | none => (mailpit box).listing path
  headers := (mailpit box).headers

theorem searchingMailpit_searches (accepts : List UInt8 → Stored → Bool) {box : List Stored}
    (distinct : (box.map fun m => m.summary.id).Nodup) :
    Searches accepts (searchingMailpit accepts box) box where
  listing limit := by
    have other : readSearch (Inbox.messagesPath limit).toList = none := by
      have parts (digits : List Char) : "/api/v1/messages?limit=".toList ++ digits =
          "/api/v1/messages".toList ++ '?' :: ("limit=".toList ++ digits) := rfl
      rw [toList_messagesPath, readSearch, List.takeWhile_append_of_pos (by simp), parts,
        splitOnce_append _ (by decide)]
      exact if_neg (by decide)
    simp only [searchingMailpit, other]
    exact (mailpit_holds distinct).listing limit
  headers := (mailpit_holds distinct).headers
  search path limit text read := by
    simp only [searchingMailpit, read]

end Servr.Mail
