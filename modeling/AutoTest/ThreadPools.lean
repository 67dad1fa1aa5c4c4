import Mathlib.Data.List.Perm.Basic

/-!
# Pools of threads

The threads of a pool are kept in a list. A step of a thread leaves it at its next point, or
removes it from the pool when there is none. The order of the threads never matters, so a step
is described up to a permutation.
-/

namespace ThreadPools

variable {α : Type*}

/-- The pool after a step of the thread at `k`. -/
def setThread (ts : List α) (k : ℕ) : Option α → List α
  | some t => ts.set k t
  | none => ts.eraseIdx k

/-- One thread is replaced by what it has become, the others stay. -/
theorem setThread_perm {ts : List α} {k : ℕ} {t : α} (h : ts[k]? = some t) (next : Option α) :
    ∃ rest, ts.Perm (t :: rest) ∧ (setThread ts k next).Perm (next.toList ++ rest) := by
  obtain ⟨hlt, rfl⟩ := List.getElem?_eq_some_iff.mp h
  refine ⟨ts.eraseIdx k, (List.getElem_cons_eraseIdx_perm hlt).symm, ?_⟩
  cases next with
  | none => exact List.Perm.refl _
  | some t => exact List.set_perm_cons_eraseIdx hlt t

theorem mem_setThread {ts : List α} {k : ℕ} {t u : α} (h : ts[k]? = some t) {next : Option α}
    (hu : u ∈ setThread ts k next) : u ∈ ts ∨ next = some u := by
  obtain ⟨rest, hts, hnext⟩ := setThread_perm h next
  rcases List.mem_append.mp (hnext.mem_iff.mp hu) with hu | hu
  · exact .inr (Option.mem_toList.mp hu)
  · exact .inl (hts.mem_iff.mpr (List.mem_cons_of_mem t hu))

/-- How a count over the pool changes in a step. -/
theorem countP_setThread (p : α → Bool) {ts : List α} {k : ℕ} {t : α} (h : ts[k]? = some t)
    (next : Option α) :
    (setThread ts k next).countP p + (if p t then 1 else 0) =
      ts.countP p + next.toList.countP p := by
  obtain ⟨rest, hts, hnext⟩ := setThread_perm h next
  rw [hnext.countP_eq, hts.countP_eq, List.countP_append, List.countP_cons]
  omega

theorem length_setThread {ts : List α} {k : ℕ} {t : α} (h : ts[k]? = some t)
    (next : Option α) : (setThread ts k next).length + 1 = ts.length + next.toList.length := by
  obtain ⟨rest, hts, hnext⟩ := setThread_perm h next
  rw [hnext.length_eq, hts.length_eq, List.length_append, List.length_cons]
  omega

/-- How a count over what the threads hold changes in a step. -/
theorem count_flatMap_setThread {β : Type*} [DecidableEq β] (f : α → List β) {ts : List α} {k : ℕ}
    {t : α} (h : ts[k]? = some t) (next : Option α) (r : β) :
    ((setThread ts k next).flatMap f).count r + (f t).count r =
      (ts.flatMap f).count r + (next.toList.flatMap f).count r := by
  obtain ⟨rest, hts, hnext⟩ := setThread_perm h next
  rw [(hts.flatMap_right f).count_eq, (hnext.flatMap_right f).count_eq]
  simp only [List.flatMap_append, List.flatMap_cons, List.count_append]
  omega

end ThreadPools
