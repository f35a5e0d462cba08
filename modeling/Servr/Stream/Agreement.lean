import Servr.Stream

/-! The streamed and the plain completion of one request: the concatenated deltas against the
content of the message. -/

namespace Servr.Stream

open Json Words

variable {start : DateTime} {delayMs : UInt64} {id model : String} {created : Int}

/-! ### Tokens -/

theorem tokens_cons (w : List Char) (ws : List (List Char)) :
    ((w :: ws).mapIdx fun i word => if i = 0 then String.ofList word
      else " " ++ String.ofList word) =
      String.ofList w :: ws.map fun word => " " ++ String.ofList word := by
  rw [List.mapIdx_cons, if_pos rfl, List.cons.injEq]
  refine ⟨rfl, List.ext_getElem? fun i => ?_⟩
  simp [List.getElem?_mapIdx]

/-- The characters of the first `n` tokens are the first `n` words joined by spaces. -/
theorem toList_join_take_tokenize (text : String) (n : Nat) :
    (String.join ((tokenize text).take n)).toList =
      Words.join ' ' ((splitWhitespace text.toList).take n) := by
  rw [tokenize, String.toList_join]
  cases splitWhitespace text.toList with
  | nil => simp [Words.join]
  | cons w ws =>
    rw [tokens_cons]
    cases n with
    | zero => simp [Words.join]
    | succ n =>
      rw [List.take_succ_cons, List.take_succ_cons, List.flatMap_cons, Words.join_cons,
        String.toList_ofList, ← List.map_take, List.flatMap_map]
      simp

theorem length_tokenize (text : String) :
    (tokenize text).length = (splitWhitespace text.toList).length := by
  rw [tokenize, List.length_mapIdx]

/-- The first `n` tokens of a text are the text exactly if they are all of them and the text is
single-spaced. -/
theorem join_take_tokenize_iff (text : String) (n : Nat) :
    String.join ((tokenize text).take n) = text ↔
      (splitWhitespace text.toList).length ≤ n ∧ SingleSpaced isWhitespace ' ' text.toList := by
  rw [← String.toList_inj, toList_join_take_tokenize, ← join_words_iff (by decide)]
  constructor
  · intro same
    -- the words of the first words are these, so they are all the words
    have each : ∀ w ∈ (splitWhitespace text.toList).take n, IsWord isWhitespace w :=
      fun w mem => isWord_of_mem_words (List.mem_of_mem_take mem)
    have taken := words_join (show isWhitespace ' ' = true by decide) each
    rw [same] at taken
    have lengths := congrArg List.length taken
    rw [List.length_take, ← splitWhitespace] at lengths
    have all : (splitWhitespace text.toList).length ≤ n := by omega
    rw [List.take_of_length_le all] at same
    exact ⟨all, same⟩
  · rintro ⟨all, same⟩
    rw [List.take_of_length_le all]
    exact same

/-! ### The body -/

/-- The chunk numbered `seq` is due at a date. -/
def Due (start : DateTime) (delayMs : UInt64) (seq : Nat) : Prop :=
  (dueAt start (UInt32.ofNat seq) delayMs).isSome

/-- Without `fail_at`, the body has the pieces up to the first that is not due at a date. -/
theorem unfold_spec (start : DateTime) (delayMs : UInt64) (index : Nat) (ps : List Payload) :
    ∃ m ≤ ps.length, (unfold start none delayMs index ps).filterMap deltaContent =
        (ps.take m).filterMap (fun p => deltaContent (.chunk p)) ∧
      (∀ j < m, Due start delayMs (index + j)) ∧
      (m < ps.length → ¬Due start delayMs (index + m)) := by
  induction ps generalizing index with
  | nil => exact ⟨0, Nat.le_refl _, rfl, by simp, by simp⟩
  | cons p ps ih =>
    cases due : dueAt start (UInt32.ofNat index) delayMs with
    | none =>
      refine ⟨0, Nat.zero_le _, ?_, by simp, fun _ => by simp [Due, due]⟩
      simp [unfold, due, deltaContent]
    | some t =>
      obtain ⟨m, le, contents, before, after⟩ := ih (index + 1)
      refine ⟨m + 1, Nat.succ_le_succ le, ?_, ?_, fun more => ?_⟩
      · simp only [unfold, due, Option.any_none, Bool.false_eq_true, if_false, List.take_succ_cons,
          List.filterMap_cons, contents]
      · intro j lt
        cases j with
        | zero => simp [Due, due]
        | succ j =>
          have := before j (by omega)
          rwa [Nat.add_right_comm, Nat.add_assoc] at this
      · have := after (Nat.lt_of_succ_lt_succ more)
        rwa [Nat.add_right_comm, Nat.add_assoc] at this

theorem content_of_token (token : String) :
    deltaContent (.chunk (chunk id model created (.obj [("content", .str token)]) none)) =
      some token := by
  simp [deltaContent, chunk, member, element, field, asStr]

theorem content_of_other (fields : List (String × Value)) (finish : Option String)
    (h : field "content" fields = none) :
    deltaContent (.chunk (chunk id model created (.obj fields) finish)) = none := by
  simp [deltaContent, chunk, member, element, field, h]

/-- The contents of the first pieces are the tokens among them. -/
theorem contents_take_pieces (text : String) (m : Nat) :
    ((pieces id model created text).take m).filterMap (fun p => deltaContent (.chunk p)) =
      (tokenize text).take (m - 1) := by
  cases m with
  | zero => rfl
  | succ m =>
    have role : deltaContent (.chunk (chunk id model created
        (.obj [("role", .str "assistant")]) none)) = none :=
      content_of_other _ _ (by decide)
    have finish : deltaContent (.chunk (chunk id model created (.obj []) (some "stop"))) = none :=
      content_of_other _ _ rfl
    have ending (k : Nat) :
        ([chunk id model created (.obj []) (some "stop"), .done].take k).filterMap
          (fun p => deltaContent (.chunk p)) = [] := by
      rw [List.filterMap_eq_nil_iff]
      intro p mem
      have inEnding := List.mem_of_mem_take mem
      simp only [List.mem_cons, List.not_mem_nil, or_false] at inEnding
      rcases inEnding with rfl | rfl
      · exact finish
      · rfl
    rw [pieces, List.singleton_append, List.cons_append, List.take_succ_cons, List.filterMap_cons,
      role, List.take_append, List.filterMap_append, ending, List.append_nil, ← List.map_take,
      List.filterMap_map, Nat.add_sub_cancel]
    simp only [Function.comp_def, content_of_token, List.filterMap_some]

theorem due_zero : Due start delayMs 0 := by
  have nanos :
      start.addMillis (asI64 (delayMs * (UInt32.ofNat 0).toUInt64).toNat) = some start := by
    rw [DateTime.addMillis_eq_some]
    simp [asI64]
  rw [Due, dueAt, nanos]
  rfl

/-- Streamed and plain completion of a request without `fail_at` agree exactly if the reply has no
white space but single spaces between two other characters, and every chunk with a token is due at a
date. -/
theorem agree_iff (id : String) (created : Int) (start : DateTime) (r : ChatRequest)
    (noFault : r.failAt = none) :
    (streamedText (completions id created start { r with stream := true }) =
        messageContent (completions id created start { r with stream := false }) ∧
      messageContent (completions id created start { r with stream := false }) =
        some r.replyText) ↔
      SingleSpaced isWhitespace ' ' r.replyText.toList ∧
        ∀ seq ≤ (splitWhitespace r.replyText.toList).length, Due start r.delayMs seq := by
  have plain : messageContent (completions id created start { r with stream := false }) =
      some r.replyText := by
    simp [messageContent, completions, completion, member, element, field, asStr,
      ChatRequest.replyText]
  obtain ⟨m, le, contents, before, after⟩ := unfold_spec start r.delayMs 0
    (pieces id r.modelName created r.replyText)
  have streamed : streamedText (completions id created start { r with stream := true }) =
      some (String.join ((tokenize r.replyText).take (m - 1))) := by
    have body : completions id created start { r with stream := true } =
        .sse (unfold start none r.delayMs 0 (pieces id r.modelName created r.replyText)) := by
      simp [completions, noFault, ChatRequest.replyText, ChatRequest.modelName]
    rw [body, streamedText, contents, contents_take_pieces]
  have pieces_length : (pieces id r.modelName created r.replyText).length =
      (splitWhitespace r.replyText.toList).length + 3 := by
    simp [pieces, length_tokenize]
  simp only [Nat.zero_add] at before after
  rw [plain, streamed, and_iff_left rfl, Option.some_inj, join_take_tokenize_iff, and_comm]
  refine and_congr_right fun _ => ?_
  -- the body has `m` pieces, the first of which has the role
  constructor
  · intro all seq few
    have positive : 0 < m := by
      by_contra none
      have zero : m = 0 := by omega
      exact after (by omega) (zero ▸ due_zero)
    exact before seq (by omega)
  · intro due
    by_contra few
    exact after (by omega) (due m (by omega))

/-- A request with one user message. -/
def sampleRequest (content : String) (delayMs : UInt64) : ChatRequest :=
  ⟨none, [⟨"user", content⟩], false, delayMs, none⟩

theorem agree_iff_sample :
    SingleSpaced isWhitespace ' ' "hi there".toList ∧
      (∀ seq ≤ (splitWhitespace "hi there".toList).length, Due DateTime.unixEpoch 250 seq) := by
  have agree := agree_iff "0" 0 DateTime.unixEpoch (sampleRequest "hi there" 250) rfl
  exact agree.mp (by decide +kernel)

/-- Two spaces between two words come back as one. -/
theorem two_spaces_lost :
    streamedText (completions "0" 0 DateTime.unixEpoch
        { sampleRequest "hi  there" 0 with stream := true }) = some "hi there" ∧
      messageContent (completions "0" 0 DateTime.unixEpoch
        { sampleRequest "hi  there" 0 with stream := false }) = some "hi  there" := by
  decide +kernel

end Servr.Stream
