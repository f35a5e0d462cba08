import Mathlib.Logic.Basic

/-! Settings of a program that boots with a value for each and may then be given others: the value
in force, whether it was given since the boot, and what the difference between the two layers
amounts to. -/

namespace Layers

variable {α : Type*}

/-- A setting.  One that was not given since the boot has the value of the boot. -/
structure Setting (α : Type*) where
  boot : α
  current : α
  given : Bool
  booted : given = false → current = boot

namespace Setting

/-- A setting at the boot. -/
def ofBoot (boot : α) : Setting α := ⟨boot, boot, false, fun _ => rfl⟩

def give (s : Setting α) (v : α) : Setting α := ⟨s.boot, v, true, nofun⟩

def drop (s : Setting α) : Setting α := ofBoot s.boot

/-- Gives a value or drops the one given. -/
def assign (s : Setting α) : Option α → Setting α
  | none => s.drop
  | some v => s.give v

/-- The upper layer: the value that was given since the boot. -/
def upper (s : Setting α) : Option α := if s.given then some s.current else none

@[simp] theorem boot_assign (s : Setting α) (o : Option α) : (s.assign o).boot = s.boot := by
  cases o <;> rfl

@[simp] theorem upper_assign (s : Setting α) (o : Option α) : (s.assign o).upper = o := by
  cases o <;> rfl

@[simp] theorem current_assign (s : Setting α) (o : Option α) :
    (s.assign o).current = o.getD s.boot := by
  cases o <;> rfl

/-- Giving a setting the upper layer that it has changes nothing. -/
theorem assign_upper (s : Setting α) : s.assign s.upper = s := by
  obtain ⟨boot, current, given, booted⟩ := s
  cases given with
  | true => rfl
  | false =>
    obtain rfl := booted rfl
    rfl

/-- The value in force is the upper layer over that of the boot. -/
theorem current_eq (s : Setting α) : s.current = s.upper.getD s.boot := by
  unfold upper
  cases given : s.given
  · simpa using s.booted given
  · simp

end Setting

end Layers
