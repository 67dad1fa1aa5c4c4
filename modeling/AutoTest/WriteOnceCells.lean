import Mathlib.Data.List.Basic

/-!
# Cells that keep the first value that is not the default

A write to such a cell has an effect only while the cell holds the default. After any sequence
of writes it holds the first value that differs from the default.
-/

namespace WriteOnceCells

variable {α : Type*} [DecidableEq α]

/-- Write `v` to a cell that holds `c` and counts as empty while it holds `d`. -/
def writeOnce (d c v : α) : α := if c = d then v else c

/-- The first of the values that differs from `d`, or `d` when there is none. -/
def firstOther (d : α) (vs : List α) : α := (vs.find? (· ≠ d)).getD d

theorem firstOther_cons (d v : α) (vs : List α) :
    firstOther d (v :: vs) = if v = d then firstOther d vs else v := by
  by_cases h : v = d <;> simp [firstOther, h]

/-- One more value is one more write to the cell. -/
@[simp] theorem firstOther_snoc (d v : α) (vs : List α) :
    firstOther d (vs ++ [v]) = writeOnce d (firstOther d vs) v := by
  induction vs with
  | nil =>
    by_cases h : v = d <;> simp [firstOther, writeOnce, h]
  | cons u us ih =>
    by_cases h : u = d
    · simpa [firstOther_cons, h] using ih
    · simp [firstOther_cons, writeOnce, h]

end WriteOnceCells
