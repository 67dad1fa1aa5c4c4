import AutoTest.OutputMachines
import Mathlib.Logic.Function.Basic

/-!
# Machines that share a part of their state

A family of copies of one machine runs over one shared store. A step of a copy reads and writes
the store, the other copies see what it left there. An invariant of each copy that depends on
its own state and the store holds in all runs when its own steps keep it and the changes that
the others are guaranteed to stay within do not disturb it.
-/

namespace SharedMachines

open OutputMachines

variable {κ σ τ α β : Type*}

/-- Access to the shared part of the state of a machine. -/
structure Access (σ τ : Type*) where
  get : σ → τ
  put : τ → σ → σ
  get_put : ∀ t s, get (put t s) = t
  put_put : ∀ t t' s, put t (put t' s) = put t s
  put_get : ∀ s, put (get s) s = s

/-- The store and the states of the copies. What a copy holds in place of the store is stale. -/
structure Family (κ σ τ : Type*) where
  shared : τ
  component : κ → σ

/-- The state of a copy with the store as it is now. -/
def Family.view (acc : Access σ τ) (p : Family κ σ τ) (k : κ) : σ :=
  acc.put p.shared (p.component k)

variable [DecidableEq κ]

/-- The machine of the family: an action is an action of one of the copies. -/
def family (acc : Access σ τ) (m : Machine σ α β) : Machine (Family κ σ τ) (κ × α) β where
  step p a := (m.step (p.view acc a.1) a.2).map fun r =>
    (⟨acc.get r.1, Function.update p.component a.1 r.1⟩, r.2)

variable {acc : Access σ τ} {m : Machine σ α β}

/-- What a step of the family is for the copy that takes it and for the others. -/
theorem family_step {p q : Family κ σ τ} {k : κ} {a : α} {out : List β}
    (h : (family acc m).step p (k, a) = some (q, out)) :
    m.step (p.view acc k) a = some (q.view acc k, out) ∧
      ∀ j, j ≠ k → q.view acc j = acc.put (acc.get (q.view acc k)) (p.view acc j) := by
  obtain ⟨⟨s, out'⟩, hs, he⟩ := Option.map_eq_some_iff.mp h
  cases he
  have hself : Family.view acc ⟨acc.get s, Function.update p.component k s⟩ k = s := by
    simp only [Family.view, Function.update_self]
    exact acc.put_get s
  refine ⟨by rw [hself]; exact hs, ?_⟩
  intro j hj
  rw [hself]
  simp only [Family.view, Function.update_of_ne hj]
  exact (acc.put_put _ _ _).symm

/-- A copy keeps its invariant when its own steps keep it and stay within its guarantee `R`,
and the steps within the guarantees of the other copies keep it too. -/
theorem rely_guarantee {I : κ → List (Transition (Family κ σ τ) (κ × α) β) → σ → Prop}
    {G : List (Transition (Family κ σ τ) (κ × α) β) → Transition (Family κ σ τ) (κ × α) β → Prop}
    {R : κ → τ → τ → Prop} {tr : List (Transition (Family κ σ τ) (κ × α) β)}
    {q p : Family κ σ τ} {k : κ} {a : α} {out : List β}
    (hstep : (family acc m).step q (k, a) = some (p, out))
    (hI : ∀ j, I j tr (q.view acc j)) (hG : G tr ⟨q, (k, a), out, p⟩)
    (own : I k tr (q.view acc k) → G tr ⟨q, (k, a), out, p⟩ →
      m.step (q.view acc k) a = some (p.view acc k, out) →
      I k (tr ++ [⟨q, (k, a), out, p⟩]) (p.view acc k) ∧
        R k (acc.get (q.view acc k)) (acc.get (p.view acc k)))
    (others : ∀ j t, j ≠ k → I j tr (q.view acc j) → R k (acc.get (q.view acc j)) t →
      I j (tr ++ [⟨q, (k, a), out, p⟩]) (acc.put t (q.view acc j))) :
    ∀ j, I j (tr ++ [⟨q, (k, a), out, p⟩]) (p.view acc j) := by
  obtain ⟨hown, hothers⟩ := family_step hstep
  obtain ⟨hk, hR⟩ := own (hI k) hG hown
  intro j
  by_cases hj : j = k
  · subst hj
    exact hk
  · rw [hothers j hj]
    refine others j _ hj (hI j) ?_
    have hshared : acc.get (q.view acc j) = acc.get (q.view acc k) := by
      simp only [Family.view, acc.get_put]
    rw [hshared]
    exact hR

end SharedMachines
