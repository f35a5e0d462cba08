import Servr.Queue.Claim

/-! What one `claim_due` of a `RedisStore` does to a whole batch: when it hands out every job that
is due, when it keeps the job that was put, and when its failure leaves every job as it was. -/

namespace Servr.RedisStore

open Ieee Json

variable {Text : Type} {w : Wire Text}

/-- The ids that the script selects at `now`. -/
def dueIds (s : Redis Text) (now : DateTime) : List String := s.due.rangeByScore (score now)

theorem nodup_dueIds (s : Redis Text) (now : DateTime) : (dueIds s now).Nodup :=
  SortedSet.nodup_rangeByScore ..

theorem mem_dueIds {s : Redis Text} {now : DateTime} {id : String} :
    id ∈ dueIds s now ↔ ∃ b, s.due.score id = some b ∧ b ≤ score now :=
  SortedSet.mem_rangeByScore

theorem dueIds_mono {s : Redis Text} {now now' : DateTime} (h : now ≤ now') {id : String}
    (mem : id ∈ dueIds s now) : id ∈ dueIds s now' := by
  obtain ⟨b, hb, le⟩ := mem_dueIds.mp mem
  exact mem_dueIds.mpr ⟨b, hb, le.trans (score_mono h)⟩

/-- What the script takes for due: it compares whole milliseconds, and so selects a job all through
the millisecond in which it becomes due. -/
def Selected (now : DateTime) (j : Job) : Prop :=
  j.state = .scheduled ∧ j.dueAt.timestampMillis ≤ now.timestampMillis

theorem Selected.of_due {now : DateTime} {j : Job} (due : j.Due now) : Selected now j :=
  ⟨due.1, DateTime.timestampMillis_mono due.2⟩

theorem mem_dueIds_put {s : Redis Text} {j : Job} {now : DateTime} (due : Selected now j) :
    key w j.id ∈ dueIds (put w s j) now := by
  refine mem_dueIds.mpr ⟨score j.dueAt, ?_, score_le_iff.mpr due.2⟩
  rw [score_put, if_pos rfl, if_pos due.1]

theorem lookup_put_self (s : Redis Text) (j : Job) :
    (put w s j).jobs.lookup (key w j.id) = some (w.encode j) := by
  rw [lookup_put, if_pos rfl]

/-- The batch is no longer than `unpack` returns. -/
def Fits (w : Wire Text) (s : Redis Text) (now : DateTime) : Prop :=
  (dueIds s now).length ≤ w.maxUnpack

/-- A claim can return a job for every record that is due. -/
def AllClaimable (w : Wire Text) (s : Redis Text) (now : DateTime) : Prop :=
  ∀ id ∈ dueIds s now, ∀ raw, s.jobs.lookup id = some raw → (claimedJob w raw).isSome

/-- The jobs that a claim hands out, in the order of their scores. -/
def handedOut (w : Wire Text) (s : Redis Text) (now : DateTime) : List Job :=
  (dueIds s now).filterMap fun id => (s.jobs.lookup id).bind (claimedJob w)

/-- What a successful claim leaves: a claimed record for every id that was due, and none of these
ids in the due set. -/
structure Claimed (w : Wire Text) (s : Redis Text) (now : DateTime) (s' : Redis Text) : Prop where
  lookup : ∀ id, s'.jobs.lookup id =
    if id ∈ dueIds s now then (s.jobs.lookup id).bind (rewrite w) else s.jobs.lookup id
  score : ∀ id, s'.due.score id = if id ∈ dueIds s now then none else s.due.score id

theorem mem_handedOut {s : Redis Text} {now : DateTime} {j : Job} :
    j ∈ handedOut w s now ↔
      ∃ id ∈ dueIds s now, ∃ raw, s.jobs.lookup id = some raw ∧ claimedJob w raw = some j := by
  simp only [handedOut, List.mem_filterMap, Option.bind_eq_some_iff]

theorem claimedJob_eq_some {raw : Text} {j : Job} :
    claimedJob w raw = some j ↔
      ∃ encoded, rewrite w raw = some encoded ∧ w.decode encoded = .ok j := by
  simp only [claimedJob, Option.bind_eq_some_iff, Results.toOption_eq_some]

theorem mapM_decode {ids : List String} {jobs : AList fun _ : String => Text}
    (fine : ∀ id ∈ ids, ∀ raw, jobs.lookup id = some raw → (claimedJob w raw).isSome) :
    (ids.filterMap fun id => (jobs.lookup id).bind (rewrite w)).mapM w.decode =
      .ok (ids.filterMap fun id => (jobs.lookup id).bind (claimedJob w)) := by
  induction ids with
  | nil => rfl
  | cons id ids ih =>
    have rest := ih fun id' mem => fine id' (List.mem_cons_of_mem _ mem)
    cases found : jobs.lookup id with
    | none => simpa [found] using rest
    | some raw =>
      obtain ⟨j, hj⟩ := Option.isSome_iff_exists.mp (fine id List.mem_cons_self raw found)
      obtain ⟨encoded, hencoded, hdecode⟩ := claimedJob_eq_some.mp hj
      simp only [List.filterMap_cons, found, Option.bind_some, hencoded, hj, List.mapM_cons,
        hdecode, rest]
      rfl

theorem claimDue_eq_ok {s : Redis Text} {now : DateTime} (fits : Fits w s now)
    (fine : AllClaimable w s now) :
    ∃ s', claimDue w s now = (.ok (handedOut w s now), s') ∧ Claimed w s now s' := by
  by_cases empty : dueIds s now = []
  · refine ⟨s, ?_, ⟨fun id => by simp [empty], fun id => by simp [empty]⟩⟩
    have due : s.due.rangeByScore (score now) = [] := empty
    simp only [claimDue, claimScript, due, if_true, handedOut, empty]
    rfl
  · have rewritable (id : String) (mem : id ∈ dueIds s now) (raw : Text)
        (found : s.jobs.lookup id = some raw) : (rewrite w raw).isSome := by
      obtain ⟨j, hj⟩ := Option.isSome_iff_exists.mp (fine id mem raw found)
      obtain ⟨encoded, hencoded, -⟩ := claimedJob_eq_some.mp hj
      simp [hencoded]
    obtain ⟨claimed, after⟩ := claimEach_spec (nodup_dueIds s now) s.jobs rewritable
    refine ⟨⟨(claimEach w (dueIds s now) s.jobs).2, s.due.zrem (dueIds s now)⟩, ?_,
      ⟨after, fun id => SortedSet.score_zrem _ _ id⟩⟩
    have due : s.due.rangeByScore (score now) = dueIds s now := rfl
    simp only [claimDue, claimScript, due, empty, if_false, not_lt.mpr fits, claimed]
    rw [mapM_decode fine, handedOut]

theorem of_claimDue_eq_ok {s s' : Redis Text} {now : DateTime} {jobs : List Job}
    (h : claimDue w s now = (.ok jobs, s')) : Fits w s now ∧ AllClaimable w s now := by
  by_cases empty : dueIds s now = []
  · exact ⟨by simp [Fits, empty], fun id mem => by simp [empty] at mem⟩
  have due : s.due.rangeByScore (score now) = dueIds s now := rfl
  have fits : Fits w s now := by
    by_contra tooLong
    simp only [claimDue, claimScript, due, empty, if_false, not_le.mp tooLong, if_true] at h
    cases h
  simp only [claimDue, claimScript, due, empty, if_false, not_lt.mpr fits] at h
  have rewritable (id : String) (mem : id ∈ dueIds s now) (raw : Text)
      (found : s.jobs.lookup id = some raw) : (rewrite w raw).isSome := by
    by_contra bad
    have bad : rewrite w raw = none := Option.not_isSome_iff_eq_none.mp bad
    rw [claimEach_fails (nodup_dueIds s now) mem found bad] at h
    cases h
  rw [(claimEach_spec (nodup_dueIds s now) s.jobs rewritable).1] at h
  refine ⟨fits, fun id mem raw found => ?_⟩
  obtain ⟨encoded, hencoded⟩ := Option.isSome_iff_exists.mp (rewritable id mem raw found)
  have returned :
      encoded ∈ (dueIds s now).filterMap fun id => (s.jobs.lookup id).bind (rewrite w) :=
    List.mem_filterMap.mpr ⟨id, mem, by simp [found, hencoded]⟩
  obtain ⟨j, -, hj⟩ :=
    Results.exists_of_mem_left (Results.mapM_eq_ok.mp (Prod.mk.inj h).1) returned
  exact Option.isSome_iff_exists.mpr ⟨j, claimedJob_eq_some.mpr ⟨encoded, hencoded, hj⟩⟩

theorem claimDue_ok_spec {s s' : Redis Text} {now : DateTime} {jobs : List Job}
    (h : claimDue w s now = (.ok jobs, s')) :
    jobs = handedOut w s now ∧ Claimed w s now s' := by
  obtain ⟨fits, fine⟩ := of_claimDue_eq_ok h
  obtain ⟨s'', same, claimed⟩ := claimDue_eq_ok fits fine
  rw [h] at same
  cases same
  exact ⟨rfl, claimed⟩

/-! ### Progress -/

/-- The claim succeeds, hands out the job of every record whose id has a score of at most the score
of `now`, and leaves none of these ids in the due set. -/
def Progress (w : Wire Text) (s : Redis Text) (now : DateTime) : Prop :=
  ∃ jobs s', claimDue w s now = (.ok jobs, s') ∧
    ∀ id b, s.due.score id = some b → b ≤ score now →
      s'.due.score id = none ∧
      ∀ raw, s.jobs.lookup id = some raw → ∃ j ∈ jobs, claimedJob w raw = some j

/-- A claim makes progress exactly if the batch is no longer than `unpack` returns and every record
that is due can be claimed. -/
theorem progress_iff (w : Wire Text) (s : Redis Text) (now : DateTime) :
    Progress w s now ↔ Fits w s now ∧ AllClaimable w s now := by
  constructor
  · rintro ⟨jobs, s', h, -⟩
    exact of_claimDue_eq_ok h
  · rintro ⟨fits, fine⟩
    obtain ⟨s', h, claimed⟩ := claimDue_eq_ok fits fine
    refine ⟨_, s', h, fun id b hb le => ?_⟩
    have due : id ∈ dueIds s now := mem_dueIds.mpr ⟨b, hb, le⟩
    refine ⟨by rw [claimed.score, if_pos due], fun raw found => ?_⟩
    obtain ⟨j, hj⟩ := Option.isSome_iff_exists.mp (fine id due raw found)
    exact ⟨j, mem_handedOut.mpr ⟨id, due, raw, found, hj⟩, hj⟩

def putAll (w : Wire Text) (jobs : List Job) (s : Redis Text) : Redis Text := jobs.foldl (put w) s

theorem score_putAll_of_notMem {jobs : List Job} {s : Redis Text} {id : String}
    (h : id ∉ jobs.map fun j => key w j.id) : (putAll w jobs s).due.score id = s.due.score id := by
  induction jobs generalizing s with
  | nil => rfl
  | cons j jobs ih =>
    obtain ⟨ne, notMem⟩ := not_or.mp fun h' => h (List.mem_cons.mpr h')
    exact (ih notMem).trans ((score_put s j id).trans (if_neg ne))

theorem score_putAll {jobs : List Job} {s : Redis Text}
    (nodup : (jobs.map fun j => key w j.id).Nodup) {j : Job} (mem : j ∈ jobs)
    (scheduled : j.state = .scheduled) :
    (putAll w jobs s).due.score (key w j.id) = some (score j.dueAt) := by
  induction jobs generalizing s with
  | nil => exact absurd mem List.not_mem_nil
  | cons j' jobs ih =>
    obtain ⟨new, nodup⟩ := List.nodup_cons.mp nodup
    rcases List.mem_cons.mp mem with rfl | mem
    · refine (score_putAll_of_notMem new).trans ((score_put s j _).trans ?_)
      rw [if_pos rfl, if_pos scheduled]
    · exact ih nodup mem

theorem dueIds_putAll {jobs : List Job} {now : DateTime}
    (nodup : (jobs.map fun j => key w j.id).Nodup)
    (due : ∀ j ∈ jobs, Selected now j) :
    (dueIds (putAll w jobs Redis.empty) now).Perm (jobs.map fun j => key w j.id) := by
  refine (List.perm_ext_iff_of_nodup (nodup_dueIds _ now) nodup).mpr fun id => ?_
  rw [mem_dueIds]
  constructor
  · rintro ⟨b, hb, -⟩
    by_contra notMem
    rw [score_putAll_of_notMem notMem] at hb
    exact absurd hb (by simp [Redis.empty, SortedSet.score_empty])
  · intro mem
    obtain ⟨j, inJobs, rfl⟩ := List.mem_map.mp mem
    exact ⟨_, score_putAll nodup inJobs (due j inJobs).1, score_le_iff.mpr (due j inJobs).2⟩

def numbered (n : Nat) : Uuid :=
  ⟨List.replicate 14 0 ++ [UInt8.ofNat (n / 256), UInt8.ofNat n], rfl⟩

theorem numbered_inj {m n : Nat} (hm : m < 65536) (hn : n < 65536)
    (h : numbered m = numbered n) : m = n := by
  have bytes := congrArg HexId.bytes h
  simp only [numbered, List.append_cancel_left_eq, List.cons.injEq, and_true] at bytes
  have high := congrArg UInt8.toNat bytes.1
  have low := congrArg UInt8.toNat bytes.2
  simp only [UInt8.toNat_ofNat'] at high low
  omega

/-- A `noop` job of number `n`, due at the epoch. -/
def noop (n : Nat) : Job := Job.new ⟨numbered n⟩ ⟨numbered 0⟩ "noop" DateTime.unixEpoch

/-- With 8001 jobs due a claim makes no progress. -/
theorem backlog_stalls : ¬∀ (s : Redis Value) (now : DateTime), Progress Plain.wire s now := by
  intro progress
  have nodup : (((List.range 8001).map noop).map fun j => key Plain.wire j.id).Nodup := by
    rw [List.map_map]
    refine List.nodup_range.map_on fun m hm n hn same => ?_
    have ids := key_injective Plain.wire_lawful same
    exact numbered_inj (by have := List.mem_range.mp hm; omega)
      (by have := List.mem_range.mp hn; omega) (congrArg JobId.uuid ids)
  have due : ∀ j ∈ (List.range 8001).map noop, Selected DateTime.unixEpoch j := by
    intro j mem
    obtain ⟨n, -, rfl⟩ := List.mem_map.mp mem
    exact ⟨rfl, le_refl _⟩
  obtain ⟨jobs, s', h, -⟩ :=
    progress (putAll Plain.wire ((List.range 8001).map noop) Redis.empty) DateTime.unixEpoch
  have fits := (of_claimDue_eq_ok h).1
  rw [Fits, (dueIds_putAll nodup due).length_eq] at fits
  simp [Plain.wire] at fits

/-! ### Failures -/

def Waiting (w : Wire Text) (raw : Text) : Prop := ∃ j, w.decode raw = .ok j ∧ j.state = .scheduled

/-- When the claim returns `Err`, every scheduled job that was due is still scheduled in the hash
and still in the due set, and a later claim that succeeds hands it out. -/
def AllOrNothing (w : Wire Text) (s : Redis Text) (now : DateTime) : Prop :=
  ∀ e s', claimDue w s now = (.error (.err e), s') →
    ∀ id b raw, s.due.score id = some b → b ≤ score now →
      s.jobs.lookup id = some raw → Waiting w raw →
        (∃ raw', s'.jobs.lookup id = some raw' ∧ Waiting w raw') ∧ s'.due.score id = some b ∧
        ∀ now' jobs s'', now ≤ now' → claimDue w s' now' = (.ok jobs, s'') →
          ∃ j ∈ jobs, claimedJob w raw = some j

/-- Every text reads as a job up to the first, if there is one, on which reading panics. -/
def NoError (w : Wire Text) : List Text → Prop
  | [] => True
  | encoded :: rest =>
    match w.decode encoded with
    | .ok _ => NoError w rest
    | .error .panic => True
    | .error (.err _) => False

/-- The records that are due raise no error: the script can rewrite each, and the results read. -/
structure Undisturbed (w : Wire Text) (s : Redis Text) (now : DateTime) : Prop where
  rewritable : ∀ id ∈ dueIds s now, ∀ raw, s.jobs.lookup id = some raw → (rewrite w raw).isSome
  readable : NoError w ((dueIds s now).filterMap fun id => (s.jobs.lookup id).bind (rewrite w))

theorem mapM_decode_eq_err {texts : List Text} :
    (∃ e, texts.mapM w.decode = .error (.err e)) ↔ ¬NoError w texts := by
  induction texts with
  | nil => simp [NoError, pure, Except.pure]
  | cons encoded rest ih =>
    rw [List.mapM_cons, NoError]
    cases here : w.decode encoded with
    | ok j =>
      rw [← ih]
      cases rest.mapM w.decode <;> simp [bind, Except.bind, pure, Except.pure]
    | error f => cases f <;> simp [bind, Except.bind]

/-- A batch that is too long fails before the script has written anything. -/
theorem claimDue_of_not_fits {s : Redis Text} {now : DateTime} (tooLong : ¬Fits w s now) :
    claimDue w s now = (.error (.err (.backend w.scriptError)), s) := by
  have due : s.due.rangeByScore (score now) = dueIds s now := rfl
  have nonempty : dueIds s now ≠ [] := fun empty => tooLong (by simp [Fits, empty])
  simp only [claimDue, claimScript, due, nonempty, if_false, not_le.mp tooLong, if_true]

/-- A claim that begins leaves what the loop of the script has written by its end or its error. -/
theorem left_of_fits {s s' : Redis Text} {now : DateTime} {r : StoreResult (List Job)}
    (fits : Fits w s now) (nonempty : dueIds s now ≠ []) (h : claimDue w s now = (r, s')) :
    s' = ⟨(claimEach w (dueIds s now) s.jobs).2, s.due.zrem (dueIds s now)⟩ := by
  have due : s.due.rangeByScore (score now) = dueIds s now := rfl
  simp only [claimDue, claimScript, due, nonempty, not_lt.mpr fits, if_false] at h
  split at h <;> rename_i script <;> cases h <;> exact (congrArg Prod.snd script).symm

theorem score_of_fits {s s' : Redis Text} {now : DateTime} {r : StoreResult (List Job)}
    (fits : Fits w s now) (h : claimDue w s now = (r, s')) {id : String}
    (mem : id ∈ dueIds s now) : s'.due.score id = none := by
  rw [left_of_fits fits (List.ne_nil_of_mem mem) h, SortedSet.score_zrem, if_pos mem]

theorem claimDue_of_notMem {s : Redis Text} {now : DateTime} {id : String}
    (h : id ∉ dueIds s now) :
    (claimDue w s now).2.jobs.lookup id = s.jobs.lookup id ∧
      (claimDue w s now).2.due.score id = s.due.score id := by
  have due : s.due.rangeByScore (score now) = dueIds s now := rfl
  by_cases empty : dueIds s now = []
  · simp only [claimDue, claimScript, due, empty, if_true, and_self]
  by_cases tooLong : w.maxUnpack < (dueIds s now).length
  · simp only [claimDue, claimScript, due, empty, tooLong, if_true, if_false, and_self]
  · rw [left_of_fits (not_lt.mp tooLong) empty (Prod.mk.eta (p := claimDue w s now)).symm]
    exact ⟨lookup_claimEach_of_notMem h, by rw [SortedSet.score_zrem, if_neg h]⟩

theorem claimDue_err_iff {s : Redis Text} {now : DateTime} (fits : Fits w s now) :
    (∃ e s', claimDue w s now = (.error (.err e), s')) ↔ ¬Undisturbed w s now := by
  have due : s.due.rangeByScore (score now) = dueIds s now := rfl
  by_cases empty : dueIds s now = []
  · have fine : Undisturbed w s now :=
      ⟨fun id mem => by simp [empty] at mem, by simp [empty, NoError]⟩
    simp only [claimDue, claimScript, due, empty, if_true, fine, not_true, iff_false]
    rintro ⟨e, s', h⟩
    cases h
  simp only [claimDue, claimScript, due, empty, if_false, not_lt.mpr fits]
  by_cases rewritable : ∀ id ∈ dueIds s now, ∀ raw, s.jobs.lookup id = some raw →
      (rewrite w raw).isSome
  · have disturbed : ¬Undisturbed w s now ↔
        ¬NoError w ((dueIds s now).filterMap fun id => (s.jobs.lookup id).bind (rewrite w)) :=
      not_congr ⟨fun h => h.readable, fun h => ⟨rewritable, h⟩⟩
    rw [disturbed, ← mapM_decode_eq_err, (claimEach_spec (nodup_dueIds s now) s.jobs rewritable).1]
    simp
  · have disturbed : ¬Undisturbed w s now := fun h => rewritable h.rewritable
    push Not at rewritable
    obtain ⟨id, mem, raw, found, bad⟩ := rewritable
    have bad : rewrite w raw = none := by simpa using bad
    rw [claimEach_fails (nodup_dueIds s now) mem found bad]
    simp [disturbed]

/-- A claim is all or nothing exactly if the batch is too long for the script to begin, or holds no
scheduled job, or raises no error. -/
theorem allOrNothing_iff (w : Wire Text) (s : Redis Text) (now : DateTime) :
    AllOrNothing w s now ↔
      ¬Fits w s now ∨
      (∀ id ∈ dueIds s now, ∀ raw, s.jobs.lookup id = some raw → ¬Waiting w raw) ∨
      Undisturbed w s now := by
  by_cases fits : Fits w s now
  · constructor
    · intro all
      refine .inr (or_iff_not_imp_right.mpr fun disturbed id mem raw found waiting => ?_)
      obtain ⟨e, s', h⟩ := (claimDue_err_iff fits).mpr disturbed
      obtain ⟨b, hb, le⟩ := mem_dueIds.mp mem
      have kept := (all e s' h id b raw hb le found waiting).2.1
      rw [score_of_fits fits h mem] at kept
      contradiction
    · rintro (tooLong | none | fine) e s' h id b raw hb le found waiting
      · exact absurd fits tooLong
      · exact absurd waiting (none id (mem_dueIds.mpr ⟨b, hb, le⟩) raw found)
      · exact absurd fine ((claimDue_err_iff fits).mp ⟨e, s', h⟩)
  · refine iff_of_true (fun e s' h id b raw hb le found waiting => ?_) (.inl fits)
    rw [claimDue_of_not_fits fits] at h
    cases h
    refine ⟨⟨raw, found, waiting⟩, hb, fun now' jobs s'' later h => ?_⟩
    obtain ⟨rfl, -⟩ := claimDue_ok_spec h
    have due : id ∈ dueIds s now' := dueIds_mono later (mem_dueIds.mpr ⟨b, hb, le⟩)
    obtain ⟨j, hj⟩ := Option.isSome_iff_exists.mp ((of_claimDue_eq_ok h).2 id due raw found)
    exact ⟨j, mem_handedOut.mpr ⟨id, due, raw, found, hj⟩, hj⟩

def noDelays : Job := (noop 0).withBackoff []

theorem dueIds_put_empty {j : Job} {now : DateTime} (due : Selected now j) :
    dueIds (put w Redis.empty j) now = [key w j.id] := by
  have alone : (dueIds (putAll w [j] Redis.empty) now).Perm [key w j.id] :=
    dueIds_putAll (List.nodup_singleton _) (by simpa using due)
  exact List.perm_singleton.mp alone

theorem noDelays_due : noDelays.Due DateTime.unixEpoch := ⟨rfl, le_refl _⟩

/-- The claim of a job without delays fails when it has taken the job out of the due set and written
a record that does not read. -/
theorem claimDue_noDelays : ∃ e e' s',
    claimDue Plain.wire (put Plain.wire Redis.empty noDelays) DateTime.unixEpoch =
      (.error (.err e), s') ∧
    s'.due.score (key Plain.wire noDelays.id) = none ∧
    get Plain.wire s' noDelays.id = .error (.err (.corrupt e')) := by
  have ids := dueIds_put_empty (w := Plain.wire) (.of_due noDelays_due)
  have lawful := Plain.wire_lawful
  obtain ⟨encoded, hencoded, bad⟩ := decode_noDelays lawful (j := noDelays) (by decide) rfl
    (by simp [noDelays, noop, Job.withBackoff, Job.new, Value.depth])
  have fits : Fits Plain.wire (put Plain.wire Redis.empty noDelays) DateTime.unixEpoch := by
    rw [Fits, ids]
    show 1 ≤ 8000
    norm_num
  have disturbed : ¬Undisturbed Plain.wire (put Plain.wire Redis.empty noDelays)
      DateTime.unixEpoch := by
    rintro ⟨-, readable⟩
    rw [ids, List.filterMap_cons, lookup_put_self, Option.bind_some, hencoded] at readable
    simp [NoError, bad] at readable
  obtain ⟨e, s', h⟩ := (claimDue_err_iff fits).mpr disturbed
  have mem := mem_dueIds_put (w := Plain.wire) (s := Redis.empty) (.of_due noDelays_due)
  have rewritable : ∀ id ∈ dueIds (put Plain.wire Redis.empty noDelays) DateTime.unixEpoch, ∀ raw,
      (put Plain.wire Redis.empty noDelays).jobs.lookup id = some raw →
        (rewrite Plain.wire raw).isSome := by
    intro id here raw found
    rw [ids, List.mem_singleton] at here
    rw [here, lookup_put_self] at found
    cases found
    simp [hencoded]
  have written := (claimEach_spec (nodup_dueIds _ _) _ rewritable).2 (key Plain.wire noDelays.id)
  rw [if_pos mem, lookup_put_self, Option.bind_some, hencoded] at written
  refine ⟨e, Plain.wire.complaint encoded, s', h, score_of_fits fits h mem, ?_⟩
  rw [get, left_of_fits fits (List.ne_nil_of_mem mem) h, written]
  exact bad

/-- The claim of a job without delays fails and loses the job. -/
theorem noDelays_lost : ¬∀ (s : Redis Value) (now : DateTime), AllOrNothing Plain.wire s now := by
  intro all
  obtain ⟨e, -, s', h, lost, -⟩ := claimDue_noDelays
  have waiting : Waiting Plain.wire (Plain.wire.encode noDelays) :=
    ⟨_, decode_encode Plain.wire_lawful
      (by simp [noDelays, noop, Job.withBackoff, Job.new, Value.depth]), rfl⟩
  have mem := mem_dueIds_put (w := Plain.wire) (s := Redis.empty) (.of_due noDelays_due)
  obtain ⟨b, hb, le⟩ := mem_dueIds.mp mem
  have kept := (all _ _ e s' h _ b _ hb le (lookup_put_self _ _) waiting).2.1
  rw [lost] at kept
  contradiction

/-! ### The job that was put -/

/-- The batch at `now` fits, every other record that is due can be claimed, and every record that is
not due reads as a job. -/
structure RestSound (w : Wire Text) (s : Redis Text) (now : DateTime) (id : String) : Prop where
  fits : Fits w s now
  claimable : ∀ id' ∈ dueIds s now, id' ≠ id → ∀ raw, s.jobs.lookup id' = some raw →
    (claimedJob w raw).isSome
  readable : ∀ id' ∉ dueIds s now, ∀ raw, s.jobs.lookup id' = some raw → ∃ j, w.decode raw = .ok j

/-- The claim returns the job, running and with one more attempt and the same otherwise, and so do
`get` and `list` after it. -/
def Keeps (w : Wire Text) (s : Redis Text) (now : DateTime) (j : Job) : Prop :=
  ∃ jobs s' all j', claimDue w s now = (.ok jobs, s') ∧ list w s' = .ok all ∧
    j' = { j with state := .running, attempt := j'.attempt } ∧
    j'.attempt.toNat = j.attempt.toNat + 1 ∧
    j' ∈ jobs ∧ get w s' j.id = .ok j' ∧ j' ∈ all

theorem of_keeps (lawful : w.Lawful) {s : Redis Text} {now : DateTime} {j : Job}
    (due : Selected now j) (keeps : Keeps w (put w s j) now j) :
    Claimable j ∧ j.payload.Survives w.readDecimal := by
  obtain ⟨jobs, s', all, j', h, -, same, -, -, stored, -⟩ := keeps
  obtain ⟨-, claimed⟩ := claimDue_ok_spec h
  have found := claimed.lookup (key w j.id)
  rw [if_pos (mem_dueIds_put due), lookup_put_self, Option.bind_some] at found
  obtain ⟨claimable, after⟩ : Claimable j ∧ j' = afterTrip w j := by
    rw [← claimedJob_encode lawful, claimedJob_eq_some]
    unfold get at stored
    rw [found] at stored
    split at stored
    · exact ⟨_, ‹_›, stored⟩
    · contradiction
  refine ⟨claimable, (afterTrip_eq_claimed (w := w)).mp ?_⟩
  have payload : j.payload.trip w.readDecimal = j.payload := by
    rw [same] at after
    exact (congrArg Job.payload after).symm
  rw [afterTrip, payload]
  rfl

/-- A claim keeps a job that was put and is selected exactly if there is an attempt left to count,
the list of delays is not empty and holds none of 15 digits or more, and the payload nests no deeper
than 126 and survives its trip through Lua. -/
theorem keeps_iff (lawful : w.Lawful) (s : Redis Text) (now : DateTime) (j : Job)
    (due : Selected now j) (rest : RestSound w (put w s j) now (key w j.id)) :
    Keeps w (put w s j) now j ↔ Claimable j ∧ j.payload.Survives w.readDecimal := by
  refine ⟨of_keeps lawful due, fun ⟨claimable, survives⟩ => ?_⟩
  have claimedJob : claimedJob w (w.encode j) = some j.claimed := by
    rw [claimedJob_encode lawful]
    exact ⟨claimable, (afterTrip_eq_claimed.mpr survives).symm⟩
  have fine : AllClaimable w (put w s j) now := by
    intro id mem raw found
    by_cases same : id = key w j.id
    · rw [same, lookup_put_self] at found
      cases found
      simp [claimedJob]
    · exact rest.claimable id mem same raw found
  obtain ⟨s', h, claimed⟩ := claimDue_eq_ok rest.fits fine
  obtain ⟨encoded, hencoded, decoded⟩ := claimedJob_eq_some.mp claimedJob
  have mem := mem_dueIds_put (w := w) (s := s) due
  have found : s'.jobs.lookup (key w j.id) = some encoded := by
    rw [claimed.lookup, if_pos mem, lookup_put_self, Option.bind_some, hencoded]
  have readable : ∀ raw ∈ s'.jobs.entries.map Sigma.snd, ∃ j, w.decode raw = .ok j := by
    intro raw inValues
    obtain ⟨id, lookup⟩ := AList.mem_values.mp inValues
    rw [claimed.lookup] at lookup
    split at lookup
    · obtain ⟨raw', found', rewritten⟩ := Option.bind_eq_some_iff.mp lookup
      obtain ⟨j', hj'⟩ := Option.isSome_iff_exists.mp (fine id ‹_› raw' found')
      obtain ⟨encoded', hencoded', decoded'⟩ := claimedJob_eq_some.mp hj'
      rw [rewritten] at hencoded'
      cases hencoded'
      exact ⟨j', decoded'⟩
    · exact rest.readable id ‹_› raw lookup
  obtain ⟨all, each⟩ := Results.exists_forall₂ readable
  refine ⟨_, s', all, j.claimed, h, Results.mapM_eq_ok.mpr each, rfl,
    Job.toNat_claimed_attempt claimable.attempt, ?_, ?_, ?_⟩
  · exact mem_handedOut.mpr ⟨_, mem, _, lookup_put_self s j, claimedJob⟩
  · rw [get, found]
    exact decoded
  · obtain ⟨j', inAll, decoded'⟩ :=
      Results.exists_of_mem_left each (AList.mem_values.mpr ⟨_, found⟩)
    rw [decoded] at decoded'
    cases decoded'
    exact inAll

/-- A job put into an empty queue has nothing beside it that could go wrong. -/
theorem restSound_put_empty {j : Job} {now : DateTime} (due : Selected now j)
    (unpacks : 1 ≤ w.maxUnpack) :
    RestSound w (put w Redis.empty j) now (key w j.id) := by
  have ids := dueIds_put_empty (w := w) due
  refine ⟨by rwa [Fits, ids], fun id mem ne => ?_, fun id notMem raw found => ?_⟩
  · rw [ids, List.mem_singleton] at mem
    exact absurd mem ne
  · rw [ids, List.mem_singleton] at notMem
    rw [lookup_put, if_neg notMem] at found
    simp [Redis.empty] at found

/-- A job with a payload, which is due half a millisecond after the epoch. -/
def letter : Job where
  __ := noop 0
  payload := .obj [("to", .str "alice"), ("parts", .arr [.num (.int (-7)), .obj [], .null])]
  dueAt := ⟨500000, by decide, by decide⟩

/-- A claim at the epoch keeps the whole tree. -/
theorem keeps_iff_letter : ¬letter.Due DateTime.unixEpoch ∧
    Keeps Plain.wire (put Plain.wire Redis.empty letter) DateTime.unixEpoch letter :=
  have selected : Selected DateTime.unixEpoch letter := ⟨rfl, by decide⟩
  have unpacks : 1 ≤ 8000 := by norm_num
  have claimable : Claimable letter :=
    ⟨by decide, by decide, by simp [letter, noop, Job.new],
      by simp [letter, Value.depth, Value.depthFields, Value.depthElems]⟩
  have survives : letter.payload.Survives Plain.wire.readDecimal := by
    simp [letter, Value.Survives, Value.SurviveFields, Value.SurviveElems, Num.Survives]
  ⟨by decide, (keeps_iff Plain.wire_lawful _ _ _ selected
    (restSound_put_empty selected unpacks)).mpr ⟨claimable, survives⟩⟩

theorem noDelays_not_kept : ¬∀ (s : Redis Value) (now : DateTime) (j : Job), j.Due now →
    RestSound Plain.wire (put Plain.wire s j) now (key Plain.wire j.id) →
      Keeps Plain.wire (put Plain.wire s j) now j := by
  intro keeps
  have unpacks : 1 ≤ 8000 := by norm_num
  have kept := keeps Redis.empty DateTime.unixEpoch noDelays noDelays_due
    (restSound_put_empty (.of_due noDelays_due) unpacks)
  exact (of_keeps Plain.wire_lawful (.of_due noDelays_due) kept).1.nonempty rfl

end Servr.RedisStore
