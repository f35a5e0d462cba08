import Mathlib.Data.List.AList
import Mathlib.Data.List.Sort

/-! Sorted sets: members with one score each, added, removed and selected by a bound on the score in
the order of the scores, members of equal score in their own order. -/

theorem AList.lookup_insert_if {α β : Type} [DecidableEq α] (m : AList fun _ : α => β) (a a' : α)
    (b : β) : (m.insert a b).lookup a' = if a' = a then some b else m.lookup a' := by
  split
  · rename_i same
    rw [same]
    exact AList.lookup_insert m
  · exact AList.lookup_insert_ne ‹_›

theorem AList.mem_values {α β : Type} [DecidableEq α] {m : AList fun _ : α => β} {b : β} :
    b ∈ m.entries.map Sigma.snd ↔ ∃ a, m.lookup a = some b := by
  constructor
  · intro mem
    obtain ⟨⟨a, b⟩, entry, rfl⟩ := List.mem_map.mp mem
    exact ⟨a, AList.mem_lookup_iff.mpr entry⟩
  · rintro ⟨a, found⟩
    exact List.mem_map.mpr ⟨_, AList.mem_lookup_iff.mp found, rfl⟩

/-- A sorted set: each member with its score. -/
abbrev SortedSet (α β : Type) := AList fun _ : α => β

namespace SortedSet

variable {α β : Type}

section Members

variable [DecidableEq α]

def score (s : SortedSet α β) (a : α) : Option β := AList.lookup a s

def zadd (s : SortedSet α β) (a : α) (b : β) : SortedSet α β := AList.insert a b s

def zrem (s : SortedSet α β) (members : List α) : SortedSet α β :=
  members.foldl (fun s a => AList.erase a s) s

theorem score_empty (a : α) : score (∅ : SortedSet α β) a = none := AList.lookup_empty a

theorem score_zadd (s : SortedSet α β) (a a' : α) (b : β) :
    (s.zadd a b).score a' = if a' = a then some b else s.score a' :=
  AList.lookup_insert_if s a a' b

theorem score_erase (s : SortedSet α β) (a a' : α) :
    score (AList.erase a s) a' = if a' = a then none else s.score a' := by
  split
  · rename_i same
    rw [same]
    exact AList.lookup_erase a s
  · exact AList.lookup_erase_ne ‹_›

theorem score_zrem (s : SortedSet α β) (members : List α) (a : α) :
    (s.zrem members).score a = if a ∈ members then none else s.score a := by
  induction members generalizing s with
  | nil => simp [zrem]
  | cons m rest ih =>
    have step : s.zrem (m :: rest) = zrem (AList.erase m s) rest := rfl
    rw [step, ih, score_erase]
    by_cases same : a = m <;> simp [same]

end Members

section Range

variable [LinearOrder α] [LinearOrder β]

/-- `x` stands before `y`, or where `y` does. -/
def Before (x y : (_ : α) × β) : Prop := x.2 < y.2 ∨ x.2 = y.2 ∧ x.1 ≤ y.1

instance : DecidableRel (Before (α := α) (β := β)) :=
  fun _ _ => inferInstanceAs (Decidable (_ ∨ _))

/-- The members of a score of at most `max`. -/
def rangeByScore (s : SortedSet α β) (max : β) : List α :=
  ((s.entries.filter fun x => x.2 ≤ max).insertionSort Before).map Sigma.fst

theorem mem_rangeByScore {s : SortedSet α β} {max : β} {a : α} :
    a ∈ s.rangeByScore max ↔ ∃ b, s.score a = some b ∧ b ≤ max := by
  have entry (b : β) : s.score a = some b ↔ (⟨a, b⟩ : (_ : α) × β) ∈ s.entries :=
    AList.mem_lookup_iff
  simp only [rangeByScore, List.mem_map, List.mem_insertionSort, List.mem_filter,
    decide_eq_true_eq, entry]
  constructor
  · rintro ⟨⟨a', b⟩, ⟨mem, le⟩, rfl⟩
    exact ⟨b, mem, le⟩
  · rintro ⟨b, mem, le⟩
    exact ⟨⟨a, b⟩, ⟨mem, le⟩, rfl⟩

theorem nodup_rangeByScore (s : SortedSet α β) (max : β) : (s.rangeByScore max).Nodup := by
  have keys : (s.entries.map Sigma.fst).Nodup := s.keys_nodup
  have sorted :=
    (List.perm_insertionSort Before (s.entries.filter fun x => x.2 ≤ max)).map Sigma.fst
  exact sorted.nodup_iff.mpr (keys.sublist (List.filter_sublist.map _))

end Range

end SortedSet
