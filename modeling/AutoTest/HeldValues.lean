import Mathlib.Data.List.Basic

/-!
# Buffers that keep their content when a write fails

A buffer is written again and again, and read after each write. A write that fails leaves what
an earlier one put there, so the reader cannot tell the two apart. What is ever read is what
some write delivered, and besides that the first content when the first write fails.
-/

namespace HeldValues

variable {α : Type*}

/-- What is read after each of the writes. A failed write is `none`. -/
def reads : α → List (Option α) → List α
  | _, [] => []
  | held, w :: ws => w.getD held :: reads (w.getD held) ws

/-- Every value read was delivered by a write, unless it is the first content. -/
theorem mem_reads {held v : α} {ws : List (Option α)} :
    v ∈ reads held ws ↔ some v ∈ ws ∨ ws.head? = some none ∧ v = held := by
  induction ws generalizing held with
  | nil => simp [reads]
  | cons w ws ih =>
    cases w with
    | none =>
      simp only [reads, Option.getD_none, List.mem_cons, ih, List.head?_cons, reduceCtorEq,
        false_or, true_and]
      tauto
    | some u =>
      simp only [reads, Option.getD_some, List.mem_cons, ih, List.head?_cons, Option.some.injEq,
        reduceCtorEq, false_and, or_false]
      tauto

/-- When no write fails, exactly the written values are read. -/
@[simp] theorem reads_map_some (held : α) (vs : List α) : reads held (vs.map some) = vs := by
  induction vs generalizing held with
  | nil => rfl
  | cons v vs ih => simp [reads, ih]

end HeldValues
