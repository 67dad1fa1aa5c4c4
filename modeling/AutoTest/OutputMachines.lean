import Mathlib.Data.List.Basic
import Mathlib.Data.Nat.Notation
import Mathlib.Order.Basic

/-!
# Machines with outputs and conditions on the steps of their runs

A machine answers an action in a state with a new state and a list of outputs, or refuses
it. A run is kept as the list of its transitions, so that a property of a step may look at
the whole history before it. The rules below turn what one step preserves into what every
run preserves, and a per-step equivalence of a property and a condition into the same
equivalence for whole runs.
-/

namespace OutputMachines

variable {σ α β : Type*}

/-- A deterministic machine; all choices of its environment are part of the action. -/
structure Machine (σ α β : Type*) where
  step : σ → α → Option (σ × List β)

/-- One step of a run, with all it read and produced. -/
structure Transition (σ α β : Type*) where
  source : σ
  action : α
  outputs : List β
  target : σ

/-- `P` holds of every step of the run, given the steps before it. -/
def Every (P : List (Transition σ α β) → Transition σ α β → Prop)
    (tr : List (Transition σ α β)) : Prop :=
  ∀ pre x post, tr = pre ++ x :: post → P pre x

@[simp] theorem every_nil (P : List (Transition σ α β) → Transition σ α β → Prop) :
    Every P [] := by
  intro pre x post h
  simp at h

@[simp] theorem every_snoc (P : List (Transition σ α β) → Transition σ α β → Prop)
    (tr : List (Transition σ α β)) (x : Transition σ α β) :
    Every P (tr ++ [x]) ↔ Every P tr ∧ P tr x := by
  constructor
  · intro h
    refine ⟨fun pre y post he => h pre y (post ++ [x]) (by simp [he]), h tr x [] rfl⟩
  · rintro ⟨htr, hx⟩ pre y post he
    rcases List.eq_nil_or_concat post with rfl | ⟨post, z, rfl⟩
    · obtain ⟨rfl, hy⟩ := List.append_inj' he rfl
      cases hy
      exact hx
    · have he' : tr ++ [x] = (pre ++ y :: post) ++ [z] := by simpa using he
      exact htr pre y post (List.append_inj' he' rfl).1

instance (P : List (Transition σ α β) → Transition σ α β → Prop) [∀ pre x, Decidable (P pre x)]
    (tr : List (Transition σ α β)) : Decidable (Every P tr) :=
  decidable_of_iff (∀ i : Fin tr.length, P (tr.take i) tr[i]) <| by
    constructor
    · rintro h pre x post rfl
      simpa using h ⟨pre.length, by simp⟩
    · intro h i
      exact h _ _ (tr.drop (i + 1)) (by simp)

theorem Every.mono {P Q : List (Transition σ α β) → Transition σ α β → Prop}
    {tr : List (Transition σ α β)} (h : Every P tr) (hPQ : ∀ pre x, P pre x → Q pre x) :
    Every Q tr :=
  fun pre x post he => hPQ pre x (h pre x post he)

theorem Every.congr {P Q : List (Transition σ α β) → Transition σ α β → Prop}
    {tr : List (Transition σ α β)} (h : Every (fun pre x => P pre x ↔ Q pre x) tr) :
    Every P tr ↔ Every Q tr := by
  constructor
  · intro hP pre x post he
    exact (h pre x post he).mp (hP pre x post he)
  · intro hQ pre x post he
    exact (h pre x post he).mpr (hQ pre x post he)

namespace Machine

variable (m : Machine σ α β)

/-- The runs from `s`: the transitions taken, in order, and the state they end in. -/
inductive Trace (s : σ) : List (Transition σ α β) → σ → Prop
  | nil : Trace s [] s
  | snoc {tr t a out u} (h : Trace s tr t) (hs : m.step t a = some (u, out)) :
      Trace s (tr ++ [⟨t, a, out, u⟩]) u

/-- Execute a list of actions; `none` when one of them is refused. -/
def run : σ → List α → Option (List (Transition σ α β) × σ)
  | s, [] => some ([], s)
  | s, a :: as => match m.step s a with
    | none => none
    | some (u, out) => (run u as).map fun r => (⟨s, a, out, u⟩ :: r.1, r.2)

variable {m}

theorem Trace.cons {s u t : σ} {a : α} {out : List β} {tr : List (Transition σ α β)}
    (hs : m.step s a = some (u, out)) (h : m.Trace u tr t) :
    m.Trace s (⟨s, a, out, u⟩ :: tr) t := by
  induction h with
  | nil => exact .snoc .nil hs
  | snoc _ hs' ih => exact .snoc ih hs'

theorem Trace.append {s t u : σ} {tr tr' : List (Transition σ α β)}
    (h : m.Trace s tr t) (h' : m.Trace t tr' u) : m.Trace s (tr ++ tr') u := by
  induction h' with
  | nil => simpa using h
  | snoc _ hs ih => simpa using Trace.snoc ih hs

theorem Trace.eq_of_nil {s t : σ} (h : m.Trace s [] t) : t = s := by
  generalize hnil : ([] : List (Transition σ α β)) = tr at h
  cases h with
  | nil => rfl
  | snoc => simp at hnil

theorem run_trace {s t : σ} {as : List α} {tr : List (Transition σ α β)}
    (h : m.run s as = some (tr, t)) : m.Trace s tr t := by
  induction as generalizing s tr with
  | nil =>
    cases h
    exact .nil
  | cons a as ih =>
    simp only [run] at h
    split at h
    · cases h
    · rename_i u out hs
      obtain ⟨⟨tr', t'⟩, hr, he⟩ := Option.map_eq_some_iff.mp h
      cases he
      exact .cons hs (ih hr)

/-- A list of actions whose run fails a property of every step. -/
theorem run_not_every {P : List (Transition σ α β) → Transition σ α β → Prop}
    [∀ pre x, Decidable (P pre x)] {s : σ} {as : List α}
    (h : (m.run s as).map (fun r => decide (Every P r.1)) = some false) :
    ∃ tr t, m.run s as = some (tr, t) ∧ ¬ Every P tr := by
  obtain ⟨⟨tr, t⟩, hr, hd⟩ := Option.map_eq_some_iff.mp h
  exact ⟨tr, t, hr, of_decide_eq_false hd⟩

/-- A list of actions whose run and its end have a property. -/
theorem run_satisfies {P : List (Transition σ α β) → σ → Prop} [∀ tr t, Decidable (P tr t)] {s : σ}
    {as : List α} (h : (m.run s as).map (fun r => decide (P r.1 r.2)) = some true) :
    ∃ tr t, m.run s as = some (tr, t) ∧ P tr t := by
  obtain ⟨⟨tr, t⟩, hr, hd⟩ := Option.map_eq_some_iff.mp h
  exact ⟨tr, t, hr, of_decide_eq_true hd⟩

/-- Progress rule: when every state that misses the goal has a step that lowers a measure, some
run reaches the goal. -/
theorem reaches {I Q : σ → Prop} (f : σ → ℕ)
    (hstep : ∀ s, I s → Q s ∨ ∃ a t out, m.step s a = some (t, out) ∧ I t ∧ f t < f s)
    {s : σ} (hs : I s) : ∃ tr t, m.Trace s tr t ∧ I t ∧ Q t := by
  induction hn : f s using Nat.strongRecOn generalizing s with
  | ind n ih =>
    rcases hstep s hs with hQ | ⟨a, u, out, hu, hI, hlt⟩
    · exact ⟨[], s, .nil, hs, hQ⟩
    · obtain ⟨tr, t, ht, hIt, hQt⟩ := ih (f u) (hn ▸ hlt) hI rfl
      exact ⟨_, t, .cons hu ht, hIt, hQt⟩

/-- A run splits at each of its steps into the run before it and the step itself. -/
theorem Trace.split {s t : σ} {pre post : List (Transition σ α β)} {x : Transition σ α β}
    (h : m.Trace s (pre ++ x :: post) t) :
    m.Trace s pre x.source ∧ m.step x.source x.action = some (x.target, x.outputs) ∧
      m.Trace x.target post t := by
  generalize he : pre ++ x :: post = tr at h
  induction h generalizing post with
  | nil => simp at he
  | @snoc tr t a out u h hs ih =>
    rcases List.eq_nil_or_concat post with rfl | ⟨post, z, rfl⟩
    · obtain ⟨rfl, hx⟩ := List.append_inj' he rfl
      cases hx
      exact ⟨h, hs, .nil⟩
    · have he' : (pre ++ x :: post) ++ [z] = tr ++ [⟨t, a, out, u⟩] := by simpa using he
      obtain ⟨htr, hz⟩ := List.append_inj' he' rfl
      cases hz
      obtain ⟨hpre, hx, hpost⟩ := ih htr
      exact ⟨hpre, hx, by simpa using Trace.snoc hpost hs⟩

/-- Invariant rule: what holds of the empty run and is kept by each step holds of all runs. -/
theorem Trace.invariant {I : List (Transition σ α β) → σ → Prop} {s t : σ}
    {tr : List (Transition σ α β)} (h : m.Trace s tr t) (h0 : I [] s)
    (hstep : ∀ tr t a out u, I tr t → m.step t a = some (u, out) →
      I (tr ++ [⟨t, a, out, u⟩]) u) : I tr t := by
  induction h with
  | nil => exact h0
  | snoc _ hs ih => exact hstep _ _ _ _ _ ih hs

/-- Invariant rule for the runs all of whose steps meet a condition. -/
theorem Trace.guarded_invariant {I : List (Transition σ α β) → σ → Prop}
    {G : List (Transition σ α β) → Transition σ α β → Prop} {s t : σ}
    {tr : List (Transition σ α β)} (h : m.Trace s tr t) (hG : Every G tr) (h0 : I [] s)
    (hstep : ∀ tr t a out u, I tr t → G tr ⟨t, a, out, u⟩ → m.step t a = some (u, out) →
      I (tr ++ [⟨t, a, out, u⟩]) u) : I tr t := by
  induction h with
  | nil => exact h0
  | snoc _ hs ih =>
    obtain ⟨htr, hx⟩ := (every_snoc _ _ _).mp hG
    exact hstep _ _ _ _ _ (ih htr) hx hs

/-- A property of single steps that follows from an invariant of guarded runs. -/
theorem Trace.every_of_guarded {I : List (Transition σ α β) → σ → Prop}
    {G P : List (Transition σ α β) → Transition σ α β → Prop} {s t : σ}
    {tr : List (Transition σ α β)} (h : m.Trace s tr t) (hG : Every G tr) (h0 : I [] s)
    (hstep : ∀ tr t a out u, I tr t → G tr ⟨t, a, out, u⟩ → m.step t a = some (u, out) →
      I (tr ++ [⟨t, a, out, u⟩]) u)
    (hP : ∀ tr t a out u, I tr t → G tr ⟨t, a, out, u⟩ → m.step t a = some (u, out) →
      P tr ⟨t, a, out, u⟩) : Every P tr := by
  induction h with
  | nil => exact every_nil P
  | snoc htr hs ih =>
    obtain ⟨hG, hx⟩ := (every_snoc _ _ _).mp hG
    exact (every_snoc _ _ _).mpr
      ⟨ih hG, hP _ _ _ _ _ (htr.guarded_invariant hG h0 hstep) hx hs⟩

/-- Under an invariant that all runs keep, a property and a condition that agree on each
step agree on each run. -/
theorem Trace.every_iff {I : List (Transition σ α β) → σ → Prop}
    {G P : List (Transition σ α β) → Transition σ α β → Prop} {s t : σ}
    {tr : List (Transition σ α β)} (h : m.Trace s tr t) (h0 : I [] s)
    (hstep : ∀ tr t a out u, I tr t → m.step t a = some (u, out) →
      I (tr ++ [⟨t, a, out, u⟩]) u)
    (hP : ∀ tr t a out u, I tr t → m.step t a = some (u, out) →
      (P tr ⟨t, a, out, u⟩ ↔ G tr ⟨t, a, out, u⟩)) : Every P tr ↔ Every G tr := by
  induction h with
  | nil => simp
  | snoc htr hs ih =>
    simp only [every_snoc]
    exact and_congr ih (hP _ _ _ _ _ (htr.invariant h0 hstep) hs)

/-- The same when only the steps that meet the condition keep the invariant: the first step
that misses the condition is then the first that misses the property. -/
theorem Trace.every_iff_of_guarded {I : List (Transition σ α β) → σ → Prop}
    {G P : List (Transition σ α β) → Transition σ α β → Prop} {s t : σ}
    {tr : List (Transition σ α β)} (h : m.Trace s tr t) (h0 : I [] s)
    (hstep : ∀ tr t a out u, I tr t → G tr ⟨t, a, out, u⟩ → m.step t a = some (u, out) →
      I (tr ++ [⟨t, a, out, u⟩]) u)
    (hP : ∀ tr t a out u, I tr t → m.step t a = some (u, out) →
      (P tr ⟨t, a, out, u⟩ ↔ G tr ⟨t, a, out, u⟩)) : Every P tr ↔ Every G tr := by
  induction h with
  | nil => simp
  | snoc htr hs ih =>
    simp only [every_snoc]
    constructor
    · rintro ⟨hPtr, hPx⟩
      have hG := ih.mp hPtr
      exact ⟨hG, (hP _ _ _ _ _ (htr.guarded_invariant hG h0 hstep) hs).mp hPx⟩
    · rintro ⟨hG, hGx⟩
      exact ⟨ih.mpr hG, (hP _ _ _ _ _ (htr.guarded_invariant hG h0 hstep) hs).mpr hGx⟩

/-- A quantity that no step lowers. -/
theorem Trace.monotone {γ : Type*} [Preorder γ] {f : σ → γ} {s t : σ}
    {tr : List (Transition σ α β)} (h : m.Trace s tr t)
    (hle : Every (fun _ x => f x.source ≤ f x.target) tr) : f s ≤ f t := by
  induction h with
  | nil => exact le_rfl
  | snoc _ _ ih =>
    obtain ⟨htr, hx⟩ := (every_snoc _ _ _).mp hle
    exact (ih htr).trans hx

/-- It ends where it began exactly when no step raises it: what is lost is never regained. -/
theorem Trace.constant_iff {γ : Type*} [PartialOrder γ] {f : σ → γ} {s t : σ}
    {tr : List (Transition σ α β)} (h : m.Trace s tr t)
    (hle : Every (fun _ x => f x.source ≤ f x.target) tr) :
    f t = f s ↔ Every (fun _ x => f x.target = f x.source) tr := by
  induction h with
  | nil => simp
  | snoc h _ ih =>
    obtain ⟨htr, hx⟩ := (every_snoc _ _ _).mp hle
    have hmono := h.monotone htr
    rw [every_snoc, ← ih htr]
    constructor
    · intro he
      have hback := le_antisymm (hx.trans_eq he) hmono
      exact ⟨hback, he.trans hback.symm⟩
    · rintro ⟨hprev, hlast⟩
      exact hlast.trans hprev

end Machine
end OutputMachines
