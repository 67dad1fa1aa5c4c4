import Mathlib.Data.Nat.Notation
import Mathlib.Tactic.Common

/-!
# Blocks of bytes

A block of memory that is written piece by piece. A byte that was not written yet has no value.
A store outside of the block fails; inside, it leaves the rest of the block as it was.
-/

namespace ByteBlocks

/-- The bytes of a block, `none` where nothing was written. -/
abbrev Block := List (Option UInt8)

/-- A new block, with nothing written. -/
def fresh (n : ℕ) : Block := List.replicate n none

/-- The block with `data` written at an offset. -/
def store (b : Block) (off : ℕ) (data : List UInt8) : Option Block :=
  if off + data.length ≤ b.length then
    some (b.take off ++ (data.map some ++ b.drop (off + data.length)))
  else none

/-- The `n` bytes at an offset, when all of them were written. -/
def load (b : Block) (off n : ℕ) : Option (List UInt8) :=
  if off + n ≤ b.length then ((b.drop off).take n).mapM id else none

/-- The bytes `data` are in the block at an offset. -/
def HasAt (b : Block) (off : ℕ) (data : List UInt8) : Prop :=
  ∀ i v, data[i]? = some v → b[off + i]? = some (some v)

@[simp] theorem length_fresh (n : ℕ) : (fresh n).length = n := List.length_replicate

variable {b b' : Block} {off off' : ℕ} {data data' : List UInt8}

section Stores

theorem store_isSome (h : off + data.length ≤ b.length) : ∃ b', store b off data = some b' :=
  ⟨_, if_pos h⟩

theorem store_eq_some (h : store b off data = some b') :
    off + data.length ≤ b.length ∧
      b' = b.take off ++ (data.map some ++ b.drop (off + data.length)) := by
  unfold store at h
  split at h
  · exact ⟨‹_›, (Option.some.inj h).symm⟩
  · cases h

theorem length_store (h : store b off data = some b') : b'.length = b.length := by
  obtain ⟨hle, rfl⟩ := store_eq_some h
  simp
  omega

theorem getElem?_store_inside (h : store b off data = some b') {i : ℕ} (hi : i < data.length) :
    b'[off + i]? = data[i]?.map some := by
  obtain ⟨hle, rfl⟩ := store_eq_some h
  have htake : (b.take off).length = off := by simp; omega
  rw [List.getElem?_append_right (by omega), htake, Nat.add_sub_cancel_left,
    List.getElem?_append_left (by simpa using hi), List.getElem?_map]

theorem getElem?_store_outside (h : store b off data = some b') {i : ℕ}
    (hi : i < off ∨ off + data.length ≤ i) : b'[i]? = b[i]? := by
  obtain ⟨hle, rfl⟩ := store_eq_some h
  have htake : (b.take off).length = off := by simp; omega
  rcases hi with hi | hi
  · rw [List.getElem?_append_left (by omega), List.getElem?_take_of_lt hi]
  · rw [List.getElem?_append_right (by omega), htake,
      List.getElem?_append_right (by simp; omega), List.getElem?_drop]
    congr 1
    simp
    omega

end Stores

section Contents

theorem HasAt.nil : HasAt b off [] := by simp [HasAt]

theorem HasAt.le_length (h : HasAt b off data) (hne : data ≠ []) :
    off + data.length ≤ b.length := by
  have hpos := List.length_pos_iff.mpr hne
  have hlast := h (data.length - 1) _ (List.getElem?_eq_getElem (by omega))
  obtain ⟨hlt, -⟩ := List.getElem?_eq_some_iff.mp hlast
  omega

/-- What was stored is there. -/
theorem HasAt.of_store (h : store b off data = some b') : HasAt b' off data := by
  intro i v hv
  obtain ⟨hi, -⟩ := List.getElem?_eq_some_iff.mp hv
  rw [getElem?_store_inside h hi, hv]
  rfl

theorem hasAt_append :
    HasAt b off (data ++ data') ↔ HasAt b off data ∧ HasAt b (off + data.length) data' := by
  constructor
  · intro h
    refine ⟨fun i v hv => h i v ?_, fun i v hv => ?_⟩
    · obtain ⟨hi, -⟩ := List.getElem?_eq_some_iff.mp hv
      rwa [List.getElem?_append_left hi]
    · have happ := h (data.length + i) v (by
        rwa [List.getElem?_append_right (Nat.le_add_right _ _), Nat.add_sub_cancel_left])
      rwa [Nat.add_assoc]
  · rintro ⟨hleft, hright⟩ i v hv
    by_cases hi : i < data.length
    · rw [List.getElem?_append_left hi] at hv
      exact hleft i v hv
    · rw [List.getElem?_append_right (by omega)] at hv
      have hat := hright _ _ hv
      rwa [Nat.add_assoc, Nat.add_sub_of_le (by omega)] at hat

/-- What is in the block is what a load gives. -/
theorem HasAt.load (h : HasAt b off data) (hle : off + data.length ≤ b.length) :
    load b off data.length = some data := by
  have hbytes : (b.drop off).take data.length = data.map some := by
    apply List.ext_getElem?
    intro i
    by_cases hi : i < data.length
    · have hv := List.getElem?_eq_getElem hi
      rw [List.getElem?_take_of_lt hi, List.getElem?_drop, h i _ hv, List.getElem?_map, hv]
      rfl
    · rw [List.getElem?_eq_none (by simp; omega), List.getElem?_eq_none (by simpa using hi)]
  rw [ByteBlocks.load, if_pos hle, hbytes, List.mapM_map]
  exact (List.mapM_pure (f := id)).trans (congrArg some (List.map_id _))

end Contents

section Changes

variable {c : Block} {lo hi lo' hi' : ℕ}

/-- `b'` differs from `b` from `lo` to below `hi` at most. -/
structure ChangedIn (b b' : Block) (lo hi : ℕ) : Prop where
  length : b'.length = b.length
  outside : ∀ i, i < lo ∨ hi ≤ i → b'[i]? = b[i]?

theorem ChangedIn.refl (b : Block) (lo hi : ℕ) : ChangedIn b b lo hi := ⟨rfl, fun _ _ => rfl⟩

theorem ChangedIn.of_store (h : ByteBlocks.store b off data = some b') :
    ChangedIn b b' off (off + data.length) :=
  ⟨length_store h, fun _ hi => getElem?_store_outside h hi⟩

theorem ChangedIn.mono (h : ChangedIn b b' lo hi) (hlo : lo' ≤ lo) (hhi : hi ≤ hi') :
    ChangedIn b b' lo' hi' :=
  ⟨h.length, fun i hout => h.outside i (by omega)⟩

theorem ChangedIn.trans (h : ChangedIn b b' lo hi) (h' : ChangedIn b' c lo hi) :
    ChangedIn b c lo hi :=
  ⟨h'.length.trans h.length, fun i hout => (h'.outside i hout).trans (h.outside i hout)⟩

theorem HasAt.changed (hat : HasAt b off data) (h : ChangedIn b b' lo hi)
    (hapart : off + data.length ≤ lo ∨ hi ≤ off) : HasAt b' off data := by
  intro i v hv
  obtain ⟨hi, -⟩ := List.getElem?_eq_some_iff.mp hv
  rw [h.outside (off + i) (by omega)]
  exact hat i v hv

/-- Nothing was written from `lo` to below `hi`. -/
def Unwritten (b : Block) (lo hi : ℕ) : Prop := ∀ i, lo ≤ i → i < hi → b[i]? = some none

theorem unwritten_fresh (n : ℕ) : Unwritten (fresh n) 0 n := by
  intro i _ hi
  exact List.getElem?_replicate_of_lt hi

theorem Unwritten.mono (h : Unwritten b lo hi) (hlo : lo ≤ lo') (hhi : hi' ≤ hi) :
    Unwritten b lo' hi' :=
  fun i hi hi' => h i (by omega) (by omega)

theorem Unwritten.changed (hun : Unwritten b lo' hi') (h : ChangedIn b b' lo hi)
    (hapart : hi' ≤ lo ∨ hi ≤ lo') : Unwritten b' lo' hi' := by
  intro i hi hi'
  rw [h.outside i (by omega)]
  exact hun i hi hi'

end Changes

end ByteBlocks
