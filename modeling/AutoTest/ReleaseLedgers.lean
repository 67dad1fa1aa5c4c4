import Mathlib.Data.List.Basic
import Mathlib.Data.Nat.Notation

/-!
# Ledgers of the resources that a log creates and releases

Some events of a log create a resource, some release one. The ledger of a log says that what
was created is live or was released once. It is kept by every block of events that creates
new resources only and changes what is live by what it creates and releases; at the end of a
log, everything was released exactly once when nothing is live.
-/

namespace ReleaseLedgers

variable {β ρ : Type*} [DecidableEq ρ]

/-- What an event creates and what it releases. -/
structure Effects (β ρ : Type*) where
  created : β → Option ρ
  released : β → Option ρ

namespace Effects

variable (e : Effects β ρ)

def createdIn (log : List β) (r : ρ) : ℕ := (log.filterMap e.created).count r

def releasedIn (log : List β) (r : ρ) : ℕ := (log.filterMap e.released).count r

/-- Whatever the log creates it releases exactly once. -/
def ReleasedOnce (log : List β) : Prop := ∀ r ∈ log.filterMap e.created, e.releasedIn log r = 1

instance (log : List β) : Decidable (e.ReleasedOnce log) :=
  inferInstanceAs (Decidable (∀ _ ∈ _, _))

@[simp] theorem createdIn_nil (r : ρ) : e.createdIn [] r = 0 := rfl

@[simp] theorem releasedIn_nil (r : ρ) : e.releasedIn [] r = 0 := rfl

@[simp] theorem createdIn_append (log out : List β) (r : ρ) :
    e.createdIn (log ++ out) r = e.createdIn log r + e.createdIn out r := by
  simp [createdIn]

@[simp] theorem releasedIn_append (log out : List β) (r : ρ) :
    e.releasedIn (log ++ out) r = e.releasedIn log r + e.releasedIn out r := by
  simp [releasedIn]

@[simp] theorem createdIn_singleton (c : β) (r : ρ) :
    e.createdIn [c] r = (e.created c).toList.count r := by
  cases h : e.created c <;> simp [createdIn, h]

@[simp] theorem releasedIn_singleton (c : β) (r : ρ) :
    e.releasedIn [c] r = (e.released c).toList.count r := by
  cases h : e.released c <;> simp [releasedIn, h]

/-- The log has created `live` and what it has released, each once. -/
structure Ledger (live : ρ → ℕ) (log : List β) : Prop where
  createdOnce : ∀ r, e.createdIn log r ≤ 1
  balance : ∀ r, e.createdIn log r = e.releasedIn log r + live r

variable {e}

theorem Ledger.nil : e.Ledger (fun _ => 0) [] where
  createdOnce r := by simp
  balance r := by simp

theorem Ledger.append {live live' : ρ → ℕ} {log out : List β} (h : e.Ledger live log)
    (honce : ∀ r, e.createdIn log r + e.createdIn out r ≤ 1)
    (hlive : ∀ r, live' r + e.releasedIn out r = live r + e.createdIn out r) :
    e.Ledger live' (log ++ out) where
  createdOnce r := by
    rw [createdIn_append]
    exact honce r
  balance r := by
    have hbalance := h.balance r
    have hchange := hlive r
    rw [createdIn_append, releasedIn_append]
    omega

/-- Nothing is live exactly when all that was created was released, each exactly once. -/
theorem Ledger.releasedOnce_iff {live : ρ → ℕ} {log : List β} (h : e.Ledger live log) :
    e.ReleasedOnce log ↔ ∀ r, live r = 0 := by
  constructor
  · intro honce r
    have hbalance := h.balance r
    have hcreated := h.createdOnce r
    by_cases hr : r ∈ log.filterMap e.created
    · have hreleased := honce r hr
      omega
    · have hnone : e.createdIn log r = 0 := List.count_eq_zero.mpr hr
      omega
  · intro hlive r hr
    have hpos : 0 < e.createdIn log r := List.count_pos_iff.mpr hr
    have hbalance := h.balance r
    have hcreated := h.createdOnce r
    have hzero := hlive r
    omega

end Effects
end ReleaseLedgers
