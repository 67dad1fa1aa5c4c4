import AutoTest.InterfaceLists
import AutoTest.ReleaseLedgers

/-!
# What a run of `getifaddrs` holds

The blocks that were allocated and not freed, and the socket that was opened and not closed. A
block is named by the number of the `malloc` that made it, so no two have one name.
-/

namespace AutoTest.Netlink

open RecordWalks ByteBlocks ReleaseLedgers

inductive Held
  | block (n : ℕ)
  | socket (s : ℤ)
  deriving DecidableEq

/-- What the calls create and release. -/
def effects : Effects Call Held where
  created
    | .malloc _ ret => ret.map .block
    | .socket ret => if 0 ≤ ret then some (.socket ret) else none
    | .free _ | .sendto _ _ | .close _ => none
  released
    | .free ptr => ptr.map .block
    | .close s => some (.socket s)
    | .malloc _ _ | .socket _ | .sendto _ _ => none

/-- What was created so far is held, or was released once, and no later block is there yet. -/
structure Books (live : List Held) (r : Run) : Prop where
  ledger : effects.Ledger (fun x => live.count x) r.calls
  numbered : ∀ b, r.mallocs ≤ b → effects.createdIn r.calls (.block b) = 0

/-- A list item could not be allocated. -/
def Refused (r : Run) : Prop := .malloc sizeofNetlinkList none ∈ r.calls

section Steps

variable {live live' base : List Held} {r r' : Run} {libc : Libc} {size : ℕ} {ret : Option ℕ}

theorem Books.perm (h : Books live r) (hperm : live.Perm live') : Books live' r := by
  refine ⟨?_, h.numbered⟩
  have heq : (fun x => live'.count x) = fun x => live.count x :=
    funext fun x => (hperm.count_eq x).symm
  rw [heq]
  exact h.ledger

theorem Books.receive (h : Books live r) (receptions : List Reception) :
    Books live { r with receptions } :=
  ⟨h.ledger, h.numbered⟩

/-- The ledger after one more call. -/
theorem Books.call (h : Books live r) (c : Call)
    (hnew : ∀ x ∈ effects.created c, effects.createdIn r.calls x = 0)
    (hlive : ∀ x, live'.count x + (effects.released c).toList.count x =
      live.count x + (effects.created c).toList.count x) :
    effects.Ledger (fun x => live'.count x) (r.calls ++ [c]) := by
  refine h.ledger.append (fun x => ?_) fun x => ?_
  · have honce := h.ledger.createdOnce x
    rw [Effects.createdIn_singleton]
    cases hc : effects.created c with
    | none => simpa using honce
    | some y =>
      by_cases hx : y = x
      · have hzero := hnew y hc
        rw [hx] at hzero
        simp [hx, hzero]
      · simpa [hx] using honce
  · rw [Effects.createdIn_singleton, Effects.releasedIn_singleton]
    exact hlive x

/-- A call that is not a `malloc`. -/
theorem Books.log (h : Books live r) (c : Call)
    (hblock : ∀ b, effects.created c ≠ some (.block b))
    (hnew : ∀ x ∈ effects.created c, effects.createdIn r.calls x = 0)
    (hlive : ∀ x, live'.count x + (effects.released c).toList.count x =
      live.count x + (effects.created c).toList.count x) : Books live' (r.log [c]) := by
  refine ⟨h.call c hnew hlive, fun b hb => ?_⟩
  change effects.createdIn (r.calls ++ [c]) _ = 0
  rw [Effects.createdIn_append, h.numbered b hb, Effects.createdIn_singleton]
  cases hc : effects.created c with
  | none => rfl
  | some y =>
    have hne : y ≠ .block b := fun heq => hblock b (hc.trans (congrArg some heq))
    simp [hne]

theorem Books.malloc (h : Books live r) (hm : malloc libc size r = (ret, r')) :
    Books (ret.toList.map .block ++ live) r' := by
  obtain ⟨rfl, hret⟩ := malloc_eq hm
  cases ret with
  | none =>
    refine ⟨h.call _ (by simp [effects]) (by simp [effects]), fun b hb => ?_⟩
    have hlt : r.mallocs < b := hb
    rw [Effects.createdIn_append, h.numbered b hlt.le]
    simp [effects]
  | some block =>
    obtain rfl := hret block rfl
    refine ⟨h.call _ (fun x hx => ?_) (fun x => ?_), fun b hb => ?_⟩
    · obtain rfl : Held.block r.mallocs = x := by simpa [effects] using hx
      exact h.numbered _ le_rfl
    · simp [effects, List.count_cons]
    · have hlt : r.mallocs < b := hb
      rw [Effects.createdIn_append, h.numbered b hlt.le]
      simp [effects, hlt.ne]

theorem Books.free {ptr : Option ℕ} (h : Books (ptr.toList.map .block ++ live) r) :
    Books live (r.log [.free ptr]) := by
  refine h.log _ (by simp [effects]) (by simp [effects]) fun x => ?_
  cases ptr with
  | none => simp [effects]
  | some block => simp [effects, List.count_cons]

theorem Books.socket (h : Books live r) {s : ℤ} (hs : 0 ≤ s)
    (hnew : effects.createdIn r.calls (.socket s) = 0) :
    Books (.socket s :: live) (r.log [.socket s]) := by
  refine h.log _ (by simp [effects, hs]) (by simpa [effects, hs] using hnew) fun x => ?_
  simp [effects, hs, List.count_cons]

theorem Books.sendto (h : Books live r) (s : ℤ) (data : List UInt8) :
    Books live (r.log [.sendto s data]) :=
  h.log _ (by simp [effects]) (by simp [effects]) (by simp [effects])

theorem Books.close {s : ℤ} (h : Books (.socket s :: live) r) :
    Books live (r.log [.close s]) :=
  h.log _ (by simp [effects]) (by simp [effects]) (by simp [effects, List.count_cons])

theorem Run.log_nil (r : Run) : r.log [] = r := by
  simp [Run.log]

theorem Run.log_append (r : Run) (calls calls' : List Call) :
    r.log (calls ++ calls') = (r.log calls).log calls' := by
  simp [Run.log]

/-- The blocks of list items, each with the response in it. -/
def itemBlocks (items : List Item) : List Held :=
  items.flatMap fun item => [.block item.data.block, .block item.block]

theorem Books.freeResultList {items : List Item} (h : Books (itemBlocks items ++ live) r) :
    Books live (r.log (freeResultList items)) := by
  induction items generalizing r with
  | nil =>
    rw [Netlink.freeResultList, Run.log_nil]
    exact h
  | cons item rest ih =>
    have hdata : Books (.block item.block :: (itemBlocks rest ++ live))
        (r.log [.free (some item.data.block)]) :=
      Books.free (by simpa [itemBlocks] using h)
    have hitem : Books (itemBlocks rest ++ live)
        ((r.log [.free (some item.data.block)]).log [.free (some item.block)]) :=
      Books.free (by simpa using hdata)
    have hrest := ih hitem
    rwa [← Run.log_append, ← Run.log_append] at hrest

def entryBlocks (list : List Ifaddrs) : List Held := list.map fun e => .block e.block

theorem Books.freeifaddrs {list : List Ifaddrs} (h : Books (entryBlocks list ++ live) r) :
    Books live (r.log (freeifaddrs list)) := by
  induction list generalizing r with
  | nil =>
    rw [Netlink.freeifaddrs, Run.log_nil]
    exact h
  | cons e rest ih =>
    have hentry : Books (entryBlocks rest ++ live) (r.log [.free (some e.block)]) :=
      Books.free (by simpa [entryBlocks] using h)
    have hrest := ih hentry
    rwa [← Run.log_append] at hrest

end Steps

section Entries

variable {base : List Held}

/-- Interpreting messages allocates entries and nothing else. -/
theorem keptByMalloc_books (libc : Libc) (base : List Held) (rs : List Reception) :
    KeptByMalloc libc fun list r =>
      Books (entryBlocks list ++ base) r ∧ ¬ Refused r ∧ r.receptions = rs where
  failed := by
    rintro list r size r' ⟨hbooks, hrefused, hrs⟩ hsize hm
    refine ⟨hbooks.malloc hm, ?_, by rw [(malloc_eq hm).1, hrs]⟩
    obtain ⟨rfl, -⟩ := malloc_eq hm
    have hne : sizeofNetlinkList ≠ size := by
      unfold sizeofIfaddrs at hsize
      unfold sizeofNetlinkList
      omega
    simpa [Refused, hne] using hrefused
  added := by
    rintro list r size r' e ⟨hbooks, hrefused, hrs⟩ - hm
    refine ⟨(hbooks.malloc hm).perm ?_, ?_, by rw [(malloc_eq hm).1, hrs]⟩
    · simp only [Option.toList_some, List.map_cons, List.map_nil, entryBlocks, List.map_append,
        List.append_assoc, List.singleton_append]
      exact List.perm_middle.symm
    · obtain ⟨rfl, -⟩ := malloc_eq hm
      simpa [Refused] using hrefused

end Entries

end AutoTest.Netlink
