import Mathlib.Data.List.Induction
import Mathlib.Algebra.GroupWithZero.Nat
import Mathlib.Algebra.Order.Group.Nat
import Mathlib.Algebra.Order.BigOperators.Group.List

/-!
# Streams sent by writes that may be cut short

A message is written once, and the stream accepts a first part of it. What the stream has
accepted stays a prefix of what was offered as long as nothing is accepted after a message that
was cut. For messages of suitable contents it does not stay one any longer.
-/

namespace TruncatedStreams

variable {α : Type*}

/-- One message and how many of its elements were accepted. -/
structure Write (α : Type*) where
  data : List α
  accepted : ℕ
  accepted_le : accepted ≤ data.length

/-- The whole message was accepted. -/
def Write.Complete (w : Write α) : Prop := w.accepted = w.data.length

def stream (ws : List (Write α)) : List α := ws.flatMap fun w => w.data.take w.accepted

def offered (ws : List (Write α)) : List α := ws.flatMap Write.data

/-- Nothing is accepted after a message that was cut. -/
def Unbroken (ws : List (Write α)) : Prop :=
  ∀ pre w post, ws = pre ++ w :: post → 0 < w.accepted → ∀ v ∈ pre, v.Complete

@[simp] theorem stream_append (ws ws' : List (Write α)) :
    stream (ws ++ ws') = stream ws ++ stream ws' := by
  simp [stream]

@[simp] theorem offered_append (ws ws' : List (Write α)) :
    offered (ws ++ ws') = offered ws ++ offered ws' := by
  simp [offered]

@[simp] theorem stream_singleton (w : Write α) : stream [w] = w.data.take w.accepted := by
  simp [stream]

@[simp] theorem offered_singleton (w : Write α) : offered [w] = w.data := by
  simp [offered]

@[simp] theorem unbroken_nil : Unbroken ([] : List (Write α)) := by
  intro pre w post h
  simp at h

theorem unbroken_snoc {ws : List (Write α)} {w : Write α} :
    Unbroken (ws ++ [w]) ↔ Unbroken ws ∧ (0 < w.accepted → ∀ v ∈ ws, v.Complete) := by
  constructor
  · intro h
    refine ⟨?_, h ws w [] rfl⟩
    rintro pre v post rfl
    exact h pre v (post ++ [w]) (by simp)
  · rintro ⟨hws, hw⟩ pre v post he
    rcases List.eq_nil_or_concat post with rfl | ⟨post, z, rfl⟩
    · obtain ⟨rfl, hv⟩ := List.append_inj' he rfl
      cases hv
      exact hw
    · have he' : ws ++ [w] = (pre ++ v :: post) ++ [z] := by simpa using he
      exact hws pre v post (List.append_inj' he' rfl).1

theorem stream_eq_offered {ws : List (Write α)} (h : ∀ w ∈ ws, w.Complete) :
    stream ws = offered ws := by
  induction ws with
  | nil => rfl
  | cons w ws ih =>
    have hw : w.data.take w.accepted = w.data := by
      rw [h w List.mem_cons_self, List.take_length]
    have hws := ih fun v hv => h v (List.mem_cons_of_mem w hv)
    simp only [stream, offered, List.flatMap_cons] at hws ⊢
    rw [hw, hws]

/-- An unbroken stream is a prefix of what was offered. -/
theorem stream_prefix {ws : List (Write α)} (h : Unbroken ws) : stream ws <+: offered ws := by
  induction ws using List.reverseRecOn with
  | nil => exact List.prefix_rfl
  | append_singleton ws w ih =>
    obtain ⟨hws, hw⟩ := unbroken_snoc.mp h
    rw [stream_append, offered_append, stream_singleton, offered_singleton]
    rcases Nat.eq_zero_or_pos w.accepted with hzero | hpos
    · rw [hzero, List.take_zero, List.append_nil]
      exact (ih hws).trans (List.prefix_append _ _)
    · rw [stream_eq_offered (hw hpos), List.prefix_append_right_inj]
      exact List.take_prefix _ _

theorem stream_of_constant {a : α} {ws : List (Write α)}
    (h : ∀ w ∈ ws, w.data = List.replicate w.data.length a) :
    stream ws = List.replicate (ws.map Write.accepted).sum a := by
  induction ws with
  | nil => rfl
  | cons w ws ih =>
    have hw := h w List.mem_cons_self
    have hws := ih fun v hv => h v (List.mem_cons_of_mem w hv)
    simp only [stream, List.flatMap_cons, List.map_cons, List.sum_cons] at hws ⊢
    rw [hws, hw, List.take_replicate, Nat.min_eq_left w.accepted_le, List.replicate_append_replicate]

theorem offered_of_constant {a : α} {ws : List (Write α)}
    (h : ∀ w ∈ ws, w.data = List.replicate w.data.length a) :
    offered ws = List.replicate (ws.map fun w => w.data.length).sum a := by
  induction ws with
  | nil => rfl
  | cons w ws ih =>
    have hw := h w List.mem_cons_self
    have hws := ih fun v hv => h v (List.mem_cons_of_mem w hv)
    simp only [offered, List.flatMap_cons, List.map_cons, List.sum_cons] at hws ⊢
    rw [hws, ← List.replicate_append_replicate, ← hw]

/-- A cut message lets the accepted part fall behind for good. -/
theorem accepted_lt_of_cut {ws : List (Write α)} {v : Write α} (hv : v ∈ ws)
    (hcut : ¬ v.Complete) :
    (ws.map Write.accepted).sum < (ws.map fun w => w.data.length).sum := by
  refine List.sum_lt_sum _ _ (fun w _ => w.accepted_le) ⟨v, hv, ?_⟩
  exact lt_of_le_of_ne v.accepted_le hcut

/-- When a message is cut, all messages up to then repeat one element, and something of the
next message, which starts with another element, is accepted, the stream is no prefix. -/
theorem not_prefix_of_cut {a b : α} (hab : a ≠ b) {ws : List (Write α)} {v w : Write α}
    (hconst : ∀ u ∈ ws, u.data = List.replicate u.data.length a) (hv : v ∈ ws)
    (hcut : ¬ v.Complete) (hw : w.data.head? = some b) (hpos : 0 < w.accepted) :
    ¬ stream (ws ++ [w]) <+: offered (ws ++ [w]) := by
  rintro ⟨rest, hrest⟩
  have hlt := accepted_lt_of_cut hv hcut
  rw [stream_append, offered_append, stream_singleton, offered_singleton,
    stream_of_constant hconst, offered_of_constant hconst] at hrest
  have hget := congrArg (fun l => l[(ws.map Write.accepted).sum]?) hrest
  have hfirst : (w.data.take w.accepted)[0]? = some b := by
    rw [List.getElem?_take_of_lt hpos, ← List.head?_eq_getElem?]
    exact hw
  have hlen : 0 < (w.data.take w.accepted).length := by
    rw [List.length_take]
    have hle := w.accepted_le
    omega
  simp only [List.append_assoc] at hget
  rw [List.getElem?_append_right (by simp), List.length_replicate, Nat.sub_self,
    List.getElem?_append_left hlen, hfirst,
    List.getElem?_append_left (by simpa using hlt), List.getElem?_replicate_of_lt hlt] at hget
  exact hab (Option.some.inj hget).symm

end TruncatedStreams
