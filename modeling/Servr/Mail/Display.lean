import Servr.Lib.Results
import Servr.Mail.Allow

/-! The allowlist as the log and a refusal show it, read as an allowlist again. -/

namespace Servr

/-! ### Trimmed texts -/

theorem isWhitespace_toLower (c : Char) : isWhitespace c.toLower = isWhitespace c := by
  unfold Char.toLower
  split
  · rename_i upper
    have low : 65 ≤ c.val.toNat := upper.1
    have high : c.val.toNat ≤ 90 := upper.2
    have shift : ('a'.val - 'A'.val).toNat = 32 := by decide
    have letter : isWhitespace c = false := by
      refine isWhitespace_ascii ?_
      show 32 < c.val.toNat ∧ c.val.toNat < 128
      omega
    rw [letter]
    refine isWhitespace_ascii ?_
    simp only [Char.toNat, UInt32.toNat_add, shift]
    omega
  · rfl

theorem trimStart_asciiLowercase (cs : List Char) :
    trimStart (asciiLowercase cs) = asciiLowercase (trimStart cs) := by
  rw [trimStart, asciiLowercase, List.dropWhile_map, Function.comp_def]
  simp only [isWhitespace_toLower]
  rfl

theorem trim_asciiLowercase (cs : List Char) :
    trim (asciiLowercase cs) = asciiLowercase (trim cs) := by
  have turned : (asciiLowercase (trimStart cs)).reverse =
      asciiLowercase (trimStart cs).reverse := List.map_reverse.symm
  rw [trim, trimStart_asciiLowercase, trimEnd, List.rdropWhile, turned]
  show (trimStart _).reverse = _
  rw [trimStart_asciiLowercase]
  exact List.map_reverse.symm

theorem trim_trim (cs : List Char) : trim (trim cs) = trim cs := by
  have first : trimStart (trim cs) = trim cs := by
    cases h : trim cs with
    | nil => rfl
    | cons c rest =>
      refine List.dropWhile_cons_of_neg ?_
      obtain ⟨more, whole⟩ : trim cs <+: trimStart cs := List.rdropWhile_prefix _ _
      rw [h, List.cons_append] at whole
      have head := List.head?_dropWhile_not isWhitespace cs
      rw [show cs.dropWhile isWhitespace = _ from whole.symm] at head
      simpa using head
  rw [trim, first]
  exact List.rdropWhile_idempotent _ _

theorem trim_cons_blank (cs : List Char) : trim (' ' :: cs) = trim cs := rfl

theorem toLower_toLower (c : Char) : c.toLower.toLower = c.toLower := by
  by_cases upper : c.val ≥ 'A'.val ∧ c.val ≤ 'Z'.val
  · have low : 65 ≤ c.val.toNat := upper.1
    have shift : ('a'.val - 'A'.val).toNat = 32 := by decide
    have number : c.toLower.val.toNat = (c.val.toNat + 32) % 2 ^ 32 := by
      unfold Char.toLower
      rw [dif_pos upper, UInt32.toNat_add, shift]
    have other : ¬(c.toLower.val ≥ 'A'.val ∧ c.toLower.val ≤ 'Z'.val) := by
      intro both
      have high : c.toLower.val.toNat ≤ 90 := both.2
      have high' : c.val.toNat ≤ 90 := upper.2
      omega
    exact dif_neg other
  · have same : c.toLower = c := dif_neg upper
    rw [same, same]

theorem asciiLowercase_idem (cs : List Char) :
    asciiLowercase (asciiLowercase cs) = asciiLowercase cs := by
  rw [asciiLowercase, asciiLowercase, List.map_map]
  exact List.map_congr_left fun c _ => toLower_toLower c

/-- A separator is in none of the parts that it splits. -/
theorem separator_splitOn (sep : Char) (cs : List Char) :
    ∀ part ∈ cs.splitOn sep, sep ∉ part := by
  induction cs with
  | nil => simp
  | cons c cs ih =>
    rw [List.splitOn_cons_eq_if_modifyHead]
    split
    · exact List.forall_mem_cons.mpr ⟨List.not_mem_nil, ih⟩
    · rename_i other
      cases parts : cs.splitOn sep with
      | nil => simp
      | cons part parts' =>
        rw [parts, List.forall_mem_cons] at ih
        rw [List.modifyHead_cons, List.forall_mem_cons]
        refine ⟨?_, ih.2⟩
        rw [List.mem_cons, not_or]
        exact ⟨fun same => other (by simp [same]), ih.1⟩

/-- Texts joined by a comma and a blank are those, with blanks, joined by a comma. -/
theorem intercalate_comma (text : List Char) (texts : List (List Char)) :
    [',', ' '].intercalate (text :: texts) = [','].intercalate (text :: texts.map (' ' :: ·)) := by
  induction texts generalizing text with
  | nil => rw [List.map_nil, List.intercalate_singleton, List.intercalate_singleton]
  | cons next texts ih =>
    rw [List.intercalate_cons_cons, ih next, List.map_cons, List.intercalate_cons_cons]
    cases texts <;> simp [List.intercalate_cons_cons]

namespace Mail.Allowlist

/-- Texts without white space around them and without commas are read back from the joined text. -/
theorem texts_intercalate {ts : List (List Char)} (some_ : ts ≠ [])
    (trimmed : ∀ t ∈ ts, trim t = t) (free : ∀ t ∈ ts, ',' ∉ t) :
    texts ([',', ' '].intercalate ts) = ts := by
  obtain ⟨t, ts, rfl⟩ := List.exists_cons_of_ne_nil some_
  rw [List.forall_mem_cons] at trimmed free
  rw [texts, intercalate_comma, List.splitOn_intercalate]
  · rw [List.map_cons, List.map_map, trimmed.1]
    congr 1
    refine (List.map_congr_left fun t mem => ?_).trans (List.map_id ts)
    rw [Function.comp_apply, trim_cons_blank, trimmed.2 t mem, id]
  · refine List.forall_mem_cons.mpr ⟨free.1, fun part mem => ?_⟩
    obtain ⟨t, inTs, rfl⟩ := List.mem_map.mp mem
    simpa using free.2 t inTs
  · exact List.cons_ne_nil _ _

/-! ### Entries -/

theorem displayEntry_readEntry (e : List Char) :
    (displayEntry (readEntry e)).toList = asciiLowercase e := by
  unfold readEntry
  dsimp only
  split
  · rename_i star
    rw [star]
    rfl
  · split
    · rename_i domain found
      rw [displayEntry, String.toList_append, eq_append_of_stripPrefix found,
        String.toList_ofList (l := domain)]
      rfl
    · rw [displayEntry, String.toList_ofList]

theorem readEntry_asciiLowercase (e : List Char) : readEntry (asciiLowercase e) = readEntry e := by
  unfold readEntry
  rw [asciiLowercase_idem]

/-- The lowercase texts of the entries of a list. -/
def shownTexts (raw : List Char) : List (List Char) :=
  ((texts raw).filter (· ≠ [])).map asciiLowercase

theorem mem_shownTexts {raw t : List Char} (mem : t ∈ shownTexts raw) :
    t ≠ [] ∧ trim t = t ∧ ',' ∉ t := by
  obtain ⟨e, inFilter, rfl⟩ := List.mem_map.mp mem
  obtain ⟨inTexts, nonempty⟩ := List.mem_filter.mp inFilter
  obtain ⟨part, inParts, rfl⟩ := List.mem_map.mp inTexts
  have free : ',' ∉ trim part := fun mem =>
    separator_splitOn ',' raw part inParts
      ((List.dropWhile_sublist _).subset ((List.rdropWhile_prefix _ _).subset mem))
  refine ⟨?_, ?_, ?_⟩
  · simpa [asciiLowercase] using nonempty
  · rw [trim_asciiLowercase, trim_trim]
  · rwa [mem_asciiLowercase (by decide) (by decide)]

theorem display_parse {raw : List Char} (some_ : (parse raw).entries ≠ []) :
    (parse raw).display.toList = [',', ' '].intercalate (shownTexts raw) := by
  rw [display, if_neg some_, String.toList_intercalate, parse, List.map_map, List.map_map]
  congr 1
  exact List.map_congr_left fun e _ => displayEntry_readEntry e

/-- A list that is not empty reads back from its display. -/
theorem parse_display {raw : List Char} (some_ : (parse raw).entries ≠ []) :
    parse (parse raw).display.toList = parse raw := by
  have shown : shownTexts raw ≠ [] := by
    simpa [shownTexts, parse] using some_
  have nonempty : (shownTexts raw).filter (· ≠ []) = shownTexts raw :=
    List.filter_eq_self.mpr fun t mem => decide_eq_true (mem_shownTexts mem).1
  rw [display_parse some_, parse, texts_intercalate shown
    (fun t mem => (mem_shownTexts mem).2.1) fun t mem => (mem_shownTexts mem).2.2, nonempty,
    shownTexts, List.map_map, parse]
  congr 1
  exact List.map_congr_left fun e _ => readEntry_asciiLowercase e

/-- What an empty list shows is no address. -/
theorem permits_display_empty (address : List Char) :
    (parse (display ⟨[]⟩).toList).permits address = false := by
  have shown : texts (display ⟨[]⟩).toList = [(display ⟨[]⟩).toList] := by
    rw [texts, List.splitOn_eq_singleton (by decide +kernel), List.map_singleton]
    decide +kernel
  by_contra permitted
  have noStar : ∀ e ∈ texts (display ⟨[]⟩).toList, e ≠ ['*'] := by
    rw [shown, List.forall_mem_singleton]
    decide +kernel
  obtain ⟨_, -, e, mem, d, ⟨before, whole, -⟩, -⟩ :=
    permits_domain noStar (Bool.eq_true_of_not_eq_false permitted)
  rw [shown, List.mem_singleton] at mem
  have at_ : '@' ∈ (display ⟨[]⟩).toList := by
    rw [← mem, whole]
    exact List.mem_append_right _ List.mem_cons_self
  exact absurd at_ (by decide +kernel)

/-- What a list shows permits what it permits. -/
theorem permits_display (raw address : List Char) :
    (parse (parse raw).display.toList).permits address = (parse raw).permits address := by
  by_cases empty : (parse raw).entries = []
  · have none_ : parse raw = ⟨[]⟩ := congrArg Allowlist.mk empty
    rw [none_, permits_display_empty, permits_empty]
  · rw [parse_display empty]

end Mail.Allowlist

/-! ### Refusals -/

namespace Mail

theorem message_error {lettre : Lettre} {sender : Sender} {uuid : String} {run : RunId}
    {mail : OutgoingMail} {e : MailError} (h : sender.message lettre uuid run mail = .error e) :
    ∃ text, e = .build text := by
  simp only [Sender.message, Results.bind_eq_error, Results.mapError_eq_error] at h
  rcases h with ⟨_, -, rfl⟩ | ⟨_, -, ⟨_, -, rfl⟩ | ⟨_, -, ⟨_, -, rfl⟩ | ⟨_, -, done⟩⟩⟩
  · exact ⟨_, rfl⟩
  · exact ⟨_, rfl⟩
  · exact ⟨_, rfl⟩
  · contradiction

/-- A refusal of a relay with the list `raw` shows a list that permits exactly what `raw` permits,
and is `raw` if that names anyone; the recipient is not on it. -/
theorem refusals_show_list {mailer : Mailer} {raw : List Char}
    (allowed : mailer.config.allowed = Allowlist.parse raw) {lettre : Lettre} {uuid : String}
    {run : RunId} {mail : OutgoingMail} {to_ shown : String}
    (refused :
      (mailer.send lettre uuid run mail).result = .error (.recipientNotAllowed to_ shown)) :
    to_ = mail.to_ ∧ (Allowlist.parse shown.toList).permits to_.toList = false ∧
    (∀ address, (Allowlist.parse shown.toList).permits address =
      (Allowlist.parse raw).permits address) ∧
    ((Allowlist.parse raw).entries ≠ [] → Allowlist.parse shown.toList = Allowlist.parse raw) := by
  unfold Mailer.send at refused
  split at refused
  · rename_i relay
    obtain ⟨rfl, rfl⟩ := MailError.recipientNotAllowed.inj (Except.error.inj refused)
    rw [allowed] at relay ⊢
    refine ⟨rfl, ?_, fun address => Allowlist.permits_display raw address,
      Allowlist.parse_display⟩
    rw [Allowlist.permits_display]
    exact relay.2
  · split at refused
    · rename_i e built
      obtain ⟨text, rfl⟩ := message_error built
      exact nomatch Except.error.inj refused
    · split at refused
      · exact nomatch Except.error.inj refused
      · contradiction

def sampleMailer : Mailer := relaying "@Example.com"

theorem refusals_show_list_sample :
    (Allowlist.parse sampleMailer.config.allowed.display.toList).permits "a@b.test".toList = false ∧
      Allowlist.parse sampleMailer.config.allowed.display.toList = sampleMailer.config.allowed := by
  let lettre : Lettre := ⟨String, String, .ok, fun _ => .ok "", fun _ => .ok ()⟩
  have refused : (sampleMailer.send lettre "1" ⟨.fill 16 1⟩ ⟨"a@b.test", "", "", none⟩).result =
      .error (.recipientNotAllowed "a@b.test" sampleMailer.config.allowed.display) := by
    rw [Mailer.send, if_pos (by decide +kernel)]
    rfl
  obtain ⟨-, no, -, same⟩ := refusals_show_list rfl refused
  exact ⟨no, same (by decide +kernel)⟩

end Mail

end Servr
