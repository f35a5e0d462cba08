import Servr.Mail

/-! The allowlist of relay recipients: which domains a list lets through, that a blank list lets
nothing through, and that a longer list lets no less through. -/

namespace Servr.Mail

/-- The text after the last separator. -/
def AfterLast (sep : Char) (cs after : List Char) : Prop :=
  ∃ before, cs = before ++ sep :: after ∧ sep ∉ after

/-! ### Case -/

/-- A character that is no letter is the lowercase of itself alone. -/
theorem toLower_eq_iff {c d : Char} (h : d.toNat < 97) (h' : d.toNat < 65 ∨ 90 < d.toNat) :
    c.toLower = d ↔ c = d := by
  unfold Char.toLower
  split
  · rename_i upper
    have low : 65 ≤ c.val.toNat := upper.1
    have high : c.val.toNat ≤ 90 := upper.2
    have shift : ('a'.val - 'A'.val).toNat = 32 := by decide
    constructor
    · rintro rfl
      simp only [Char.toNat, UInt32.toNat_add, shift] at h
      omega
    · rintro rfl
      simp only [Char.toNat] at h'
      omega
  · exact Iff.rfl

theorem mem_asciiLowercase {c : Char} (h : c.toNat < 97) (h' : c.toNat < 65 ∨ 90 < c.toNat)
    {cs : List Char} : c ∈ asciiLowercase cs ↔ c ∈ cs := by
  simp [asciiLowercase, toLower_eq_iff h h']

/-- What is after the last `@` of a text in lowercase is in lowercase what is after the last `@` of
the text. -/
theorem AfterLast.of_lowercase {cs before after : List Char}
    (whole : asciiLowercase cs = before ++ '@' :: after) (free : '@' ∉ after) :
    ∃ d, AfterLast '@' cs d ∧ asciiLowercase d = after := by
  obtain ⟨first, rest, rfl, rfl, tail⟩ := List.map_eq_append_iff.mp whole
  obtain ⟨c, d, rfl, at_, rfl⟩ := List.map_eq_cons_iff.mp tail
  have same : c = '@' := (toLower_eq_iff (by decide) (by decide)).mp at_
  subst same
  have notMem : '@' ∉ d := fun mem => free ((mem_asciiLowercase (by decide) (by decide)).mpr mem)
  exact ⟨d, ⟨first, rfl, notMem⟩, rfl⟩

/-! ### Entries -/

namespace Allowlist

theorem readEntry_ne_any {e : List Char} (h : e ≠ ['*']) : readEntry e ≠ .any := by
  have star : asciiLowercase e ≠ ['*'] := by
    intro lower
    obtain ⟨c, cs, rfl, hc, hcs⟩ := List.map_eq_cons_iff.mp lower
    rw [List.map_eq_nil_iff.mp hcs, (toLower_eq_iff (by decide) (by decide)).mp hc] at h
    exact h rfl
  rw [readEntry, if_neg star]
  split <;> simp

/-- An entry, other than the star, that permits an address ends in the domain of the address. -/
theorem readEntry_allows {e address before domain : List Char} (h : e ≠ ['*'])
    (whole : address = before ++ '@' :: domain) (allowed : allows address domain (readEntry e)) :
    ∃ first, asciiLowercase e = first ++ '@' :: domain := by
  have notAny := readEntry_ne_any h
  unfold readEntry at allowed notAny
  dsimp only at allowed notAny
  split at allowed
  · simp_all
  · split at allowed
    · rename_i d found
      have same : domain = d := by simpa [allows] using allowed
      refine ⟨[], ?_⟩
      rw [eq_append_of_stripPrefix found, same, List.nil_append, List.singleton_append]
    · have same : address = asciiLowercase e := by simpa [allows] using allowed
      exact ⟨before, by rw [← same, whole]⟩

theorem mem_entries {raw : List Char} {entry : Entry} (mem : entry ∈ (parse raw).entries) :
    ∃ e ∈ texts raw, e ≠ [] ∧ readEntry e = entry := by
  obtain ⟨e, inTexts, rfl⟩ := List.mem_map.mp mem
  simp only [ne_eq, decide_not, List.mem_filter, Bool.not_eq_eq_eq_not, Bool.not_true,
    decide_eq_false_iff_not] at inTexts
  exact ⟨e, inTexts.1, inTexts.2, rfl⟩

/-- A list without a star permits only addresses whose domain is that of an entry. -/
theorem permits_domain {raw address : List Char} (noStar : ∀ e ∈ texts raw, e ≠ ['*'])
    (h : (parse raw).permits address = true) :
    ∃ d, AfterLast '@' (trim address) d ∧
      ∃ e ∈ texts raw, ∃ d', AfterLast '@' e d' ∧ eqIgnoreAsciiCase d d' = true := by
  unfold permits at h
  dsimp only at h
  split at h
  · rename_i before domain found
    obtain ⟨whole, free⟩ := rsplitOnce_eq_some found
    obtain ⟨entry, mem, allowed⟩ := List.any_eq_true.mp h
    obtain ⟨e, inTexts, -, rfl⟩ := mem_entries mem
    obtain ⟨first, lower⟩ := readEntry_allows (noStar e inTexts) whole allowed
    obtain ⟨d, hd, lowerD⟩ := AfterLast.of_lowercase whole free
    obtain ⟨d', hd', lowerD'⟩ := AfterLast.of_lowercase lower free
    exact ⟨d, hd, e, inTexts, d', hd', by rw [eqIgnoreAsciiCase, lowerD, lowerD', beq_self_eq_true]⟩
  · contradiction

/-! ### Blank and longer lists -/

theorem splitOn_blank {raw : List Char} (h : ∀ c ∈ raw, isWhitespace c = true ∨ c = ',') :
    ∀ part ∈ raw.splitOn ',', ∀ c ∈ part, isWhitespace c = true := by
  induction raw with
  | nil => simp
  | cons c cs ih =>
    rw [List.forall_mem_cons] at h
    rw [List.splitOn_cons_eq_if_modifyHead]
    split
    · exact List.forall_mem_cons.mpr ⟨by simp, ih h.2⟩
    · rename_i other
      have blank := h.1.resolve_right (by simpa using other)
      cases parts : cs.splitOn ',' with
      | nil => simp
      | cons part parts' =>
        rw [parts, List.forall_mem_cons] at ih
        rw [List.modifyHead_cons, List.forall_mem_cons, List.forall_mem_cons]
        exact ⟨⟨blank, (ih h.2).1⟩, (ih h.2).2⟩

theorem trim_blank {cs : List Char} (h : ∀ c ∈ cs, isWhitespace c = true) : trim cs = [] := by
  rw [trim, trimStart, List.dropWhile_eq_nil_iff.mpr h]
  rfl

theorem parse_blank {raw : List Char} (h : ∀ c ∈ raw, isWhitespace c = true ∨ c = ',') :
    parse raw = ⟨[]⟩ := by
  have empty : (texts raw).filter (· ≠ []) = [] := by
    rw [List.filter_eq_nil_iff]
    intro e mem
    obtain ⟨part, inParts, rfl⟩ := List.mem_map.mp mem
    simp [trim_blank (splitOn_blank h part inParts)]
  rw [parse, empty, List.map_nil]

theorem permits_empty (address : List Char) : (⟨[]⟩ : Allowlist).permits address = false := by
  unfold permits
  dsimp only
  split <;> rfl

theorem parse_append (raw more : List Char) :
    (parse (raw ++ ',' :: more)).entries = (parse raw).entries ++ (parse more).entries := by
  simp [parse, texts, List.splitOn_append_cons_self]

theorem permits_append {raw address : List Char} (more : List Char)
    (h : (parse raw).permits address = true) :
    (parse (raw ++ ',' :: more)).permits address = true := by
  unfold permits at h ⊢
  dsimp only at h ⊢
  split at h
  · rw [parse_append, List.any_append, h, Bool.true_or]
  · contradiction

end Allowlist

/-! ### The relay -/

/-- In relay mode, what reaches the transport is permitted. -/
theorem permits_of_transmitted {lettre : Lettre} {mailer : Mailer} {uuid : String} {run : RunId}
    {mail : OutgoingMail} (relay : mailer.config.isRelay = true)
    (h : (mailer.send lettre uuid run mail).transmitted ≠ none) :
    mailer.config.allowed.permits mail.to_.toList = true := by
  by_contra refused
  rw [Mailer.send, if_pos ⟨relay, by simpa using refused⟩] at h
  exact h rfl

/-- In relay mode with the list `raw`: without a star among the entries, a mail reaches the
transport only if the domain of its recipient is the domain of an entry; with a blank list none
does; and more entries refuse no recipient that was permitted. -/
theorem relay_allowlisted {mailer : Mailer} {raw : List Char}
    (relay : mailer.config.isRelay = true) (allowed : mailer.config.allowed = Allowlist.parse raw) :
    (∀ lettre uuid run mail, (∀ e ∈ Allowlist.texts raw, e ≠ ['*']) →
      (mailer.send lettre uuid run mail).transmitted ≠ none →
      ∃ d, AfterLast '@' (trim mail.to_.toList) d ∧
        ∃ e ∈ Allowlist.texts raw, ∃ d', AfterLast '@' e d' ∧ eqIgnoreAsciiCase d d' = true) ∧
    (∀ lettre uuid run mail, (∀ c ∈ raw, isWhitespace c = true ∨ c = ',') →
      (mailer.send lettre uuid run mail).transmitted = none) ∧
    ∀ more address, (Allowlist.parse raw).permits address = true →
      (Allowlist.parse (raw ++ ',' :: more)).permits address = true := by
  refine ⟨fun lettre uuid run mail noStar sent => ?_, fun lettre uuid run mail blank => ?_,
    fun more address => Allowlist.permits_append more⟩
  · exact Allowlist.permits_domain noStar (allowed ▸ permits_of_transmitted relay sent)
  · by_contra sent
    have permitted := permits_of_transmitted relay sent
    rw [allowed, Allowlist.parse_blank blank, Allowlist.permits_empty] at permitted
    contradiction

/-- A relay with a list. -/
def relaying (raw : String) : Mailer :=
  Mailer.new ⟨"localhost:1025", "http://localhost:8025",
    some ⟨"smtp.example.test", 587, "user", "pass", "testbed@example.com"⟩,
    Allowlist.parse raw.toList⟩

/-- A mail to one of the domain of an entry goes out, and its domain is an entry's, in another case;
none goes out under a list of blanks; and the recipient stays permitted under a longer list. -/
theorem relay_allowlisted_sample :
    let mail : OutgoingMail := ⟨"A@example.COM ", "hello", "a letter", none⟩
    ((relaying "bob@b.test, @Example.com").send plainLettre "1" ⟨.fill 16 1⟩ mail).transmitted ≠
      none ∧
    (∃ d, AfterLast '@' (trim mail.to_.toList) d ∧
      ∃ e ∈ Allowlist.texts "bob@b.test, @Example.com".toList, ∃ d', AfterLast '@' e d' ∧
        eqIgnoreAsciiCase d d' = true) ∧
    ((relaying " , ").send plainLettre "1" ⟨.fill 16 1⟩ mail).transmitted = none ∧
    (Allowlist.parse ("bob@b.test, @Example.com".toList ++ ',' :: "@b.test".toList)).permits
      "A@example.COM ".toList = true := by
  intro mail
  have permitted : (Allowlist.parse "bob@b.test, @Example.com".toList).permits
      "A@example.COM ".toList = true := by decide +kernel
  have sent : ((relaying "bob@b.test, @Example.com").send plainLettre "1" ⟨.fill 16 1⟩
      mail).transmitted ≠ none := by
    rw [Mailer.send, if_neg fun refused => Bool.false_ne_true (refused.2.symm.trans permitted)]
    exact Option.some_ne_none _
  have blanks : ∀ c ∈ " , ".toList, isWhitespace c = true ∨ c = ',' := by
    have each : (" , ".toList.all fun c => isWhitespace c || c == ',') = true := by decide +kernel
    exact fun c mem => by simpa using List.all_eq_true.mp each c mem
  obtain ⟨matches_, -, longer⟩ := @relay_allowlisted (relaying "bob@b.test, @Example.com") _ rfl rfl
  obtain ⟨-, blank, -⟩ := @relay_allowlisted (relaying " , ") _ rfl rfl
  exact ⟨sent, matches_ plainLettre "1" ⟨.fill 16 1⟩ mail (by decide +kernel) sent,
    blank plainLettre "1" ⟨.fill 16 1⟩ mail blanks, longer _ _ permitted⟩

end Servr.Mail
