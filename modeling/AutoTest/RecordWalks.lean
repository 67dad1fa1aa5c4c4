import Mathlib.Data.List.Basic
import Mathlib.Algebra.GroupWithZero.Nat
import Mathlib.Algebra.Order.Group.Nat

/-!
# Walks over length-prefixed records

A record starts with a header, and the header with the length of the record; the next record
starts at the next multiple of a unit. A walk goes from record to record by a pointer and an
unsigned counter of the bytes that are left. When the counter starts at a multiple of the unit
the walk keeps inside the bytes that it counts, whatever they are; from any other size there are
bytes that make the counter wrap around, and the walk leaves them.
-/

namespace RecordWalks

section Numbers

variable {u n m : ℕ}

/-- `n` rounded up to a multiple of `u`. -/
def roundUp (u n : ℕ) : ℕ := (n + u - 1) / u * u

theorem dvd_roundUp : u ∣ roundUp u n := ⟨_, Nat.mul_comm _ _⟩

theorem le_roundUp (hu : 0 < u) : n ≤ roundUp u n := by
  have hmod := Nat.div_add_mod (n + u - 1) u
  have hlt := Nat.mod_lt (n + u - 1) hu
  rw [Nat.mul_comm] at hmod
  unfold roundUp
  omega

theorem roundUp_le (hu : 0 < u) (h : n ≤ m) (hdvd : u ∣ m) : roundUp u n ≤ m := by
  obtain ⟨k, rfl⟩ := hdvd
  have hdiv : (n + u - 1) / u ≤ k := by
    rw [← Nat.lt_succ_iff, Nat.div_lt_iff_lt_mul hu, Nat.succ_mul, Nat.mul_comm k u]
    omega
  rw [Nat.mul_comm u k]
  exact Nat.mul_le_mul_right u hdiv

theorem roundUp_of_dvd (hu : 0 < u) (hdvd : u ∣ n) : roundUp u n = n :=
  Nat.le_antisymm (roundUp_le hu (Nat.le_refl n) hdvd) (le_roundUp hu)

theorem roundUp_lt (hu : 0 < u) : roundUp u n < n + u := by
  have hmul := Nat.div_mul_le_self (n + u - 1) u
  unfold roundUp
  omega

/-- The number that the bytes make, the first of them the lowest. -/
def leNat : List UInt8 → ℕ
  | [] => 0
  | b :: bs => b.toNat + 256 * leNat bs

/-- The `k` lowest bytes of a number, the lowest first. -/
def leBytes : ℕ → ℕ → List UInt8
  | 0, _ => []
  | k + 1, n => .ofNat n :: leBytes k (n / 256)

@[simp] theorem length_leBytes (k n : ℕ) : (leBytes k n).length = k := by
  induction k generalizing n with
  | zero => rfl
  | succ k ih => simp [leBytes, ih]

@[simp] theorem leNat_leBytes (k n : ℕ) : leNat (leBytes k n) = n % 256 ^ k := by
  induction k generalizing n with
  | zero => simp [leNat, leBytes, Nat.mod_one]
  | succ k ih =>
    rw [leBytes, leNat, ih, Nat.pow_succ', Nat.mod_mul, UInt8.toNat_ofNat']

/-- Bytes are those of the number that they make. -/
theorem leBytes_leNat (bytes : List UInt8) : leBytes bytes.length (leNat bytes) = bytes := by
  induction bytes with
  | nil => rfl
  | cons b bs ih =>
    have hb := b.toNat_lt
    have hlow : UInt8.ofNat (b.toNat + 256 * leNat bs) = b := by
      rw [← UInt8.toNat_inj, UInt8.toNat_ofNat']
      omega
    have hhigh : (b.toNat + 256 * leNat bs) / 256 = leNat bs := by omega
    rw [List.length_cons, leNat, leBytes, hlow, hhigh, ih]

theorem leNat_lt (bytes : List UInt8) : leNat bytes < 256 ^ bytes.length := by
  induction bytes with
  | nil => simp [leNat]
  | cons b bs ih =>
    have hb := b.toNat_lt
    rw [leNat, List.length_cons, Nat.pow_succ]
    omega

end Numbers

/-- The format of the records and of the counter: the bytes of a header, the bytes of the length
at its start, the unit that records are padded to and the modulus of the counter. -/
structure Format where
  header : ℕ
  width : ℕ
  unit : ℕ
  modulus : ℕ
  widthPos : 0 < width
  widthLe : width ≤ header
  unitPos : 0 < unit

/-- A place in a walk: the bytes from the pointer on, and the counter. -/
structure Cursor where
  bytes : List UInt8
  left : ℕ
  deriving DecidableEq

/-- What the body of a loop does: it goes on, leaves the loop, or returns. -/
inductive LoopStep (σ ρ : Type*)
  | next (s : σ)
  | leave (s : σ)
  | exit (r : ρ)

/-- A loop over a list whose body may fail. When the body neither leaves nor returns, the end of
the list decides. -/
def run {ε σ ρ α : Type*} (body : σ → α → Except ε (LoopStep σ ρ)) (atEnd : Except ε Unit) :
    List α → σ → Except ε (σ ⊕ ρ)
  | [], s => atEnd.map fun _ => .inl s
  | a :: as, s => (body s a).bind fun
    | .next s' => run body atEnd as s'
    | .leave s' => .ok (.inl s')
    | .exit r => .ok (.inr r)

section Loops

variable {ε σ ρ α : Type*} {as : List α} {s : σ}

/-- An invariant of what was done so far and of the state carries a loop to its end. -/
theorem foldlM_rule {body : σ → α → Except ε σ} (I : List α → σ → Prop)
    (hstep : ∀ done a rest s, as = done ++ a :: rest → I done s →
      ∃ s', body s a = .ok s' ∧ I (done ++ [a]) s') (h : I [] s) :
    ∃ s', as.foldlM body s = .ok s' ∧ I as s' := by
  have hall : ∀ todo done s, as = done ++ todo → I done s →
      ∃ s', todo.foldlM body s = .ok s' ∧ I as s' := by
    intro todo
    induction todo with
    | nil =>
      intro done s has hI
      rw [List.append_nil] at has
      exact ⟨s, rfl, has ▸ hI⟩
    | cons a rest ih =>
      intro done s has hI
      obtain ⟨s', hbody, hI'⟩ := hstep done a rest s has hI
      obtain ⟨t, hrest, hend⟩ := ih (done ++ [a]) s' (by simp [has]) hI'
      refine ⟨t, ?_, hend⟩
      rw [List.foldlM_cons, hbody]
      exact hrest
  exact hall as [] s rfl h

/-- A loop over a list that may return. -/
def runAll (body : σ → α → Except ε (σ ⊕ ρ)) : List α → σ → Except ε (σ ⊕ ρ)
  | [], s => .ok (.inl s)
  | a :: as, s => (body s a).bind fun
    | .inl s' => runAll body as s'
    | .inr r => .ok (.inr r)

theorem runAll_append {body : σ → α → Except ε (σ ⊕ ρ)} (as bs : List α) (s : σ) :
    runAll body (as ++ bs) s = (runAll body as s).bind fun
      | .inl s' => runAll body bs s'
      | .inr r => .ok (.inr r) := by
  induction as generalizing s with
  | nil => rfl
  | cons a as ih =>
    rw [List.cons_append, runAll, runAll]
    cases hbody : body s a with
    | error e => rfl
    | ok step =>
      cases step with
      | inl s' => exact ih s'
      | inr r => rfl

/-- The rule for a loop that may return, with `K`. -/
theorem runAll_rule (body : σ → α → Except ε (σ ⊕ ρ)) (as : List α) (I : List α → σ → Prop)
    (K : List α → ρ → Prop)
    (hstep : ∀ done a rest s, as = done ++ a :: rest → I done s →
      (∃ s', body s a = .ok (.inl s') ∧ I (done ++ [a]) s') ∨
        ∃ r, body s a = .ok (.inr r) ∧ K done r) (h : I [] s) :
    (∃ s', runAll body as s = .ok (.inl s') ∧ I as s') ∨
      ∃ r done, runAll body as s = .ok (.inr r) ∧ done <+: as ∧ K done r := by
  have hall : ∀ todo done s, as = done ++ todo → I done s →
      (∃ s', runAll body todo s = .ok (.inl s') ∧ I as s') ∨
        ∃ r done, runAll body todo s = .ok (.inr r) ∧ done <+: as ∧ K done r := by
    intro todo
    induction todo with
    | nil =>
      intro done s has hI
      rw [List.append_nil] at has
      exact .inl ⟨s, rfl, has ▸ hI⟩
    | cons a rest ih =>
      intro done s has hI
      rcases hstep done a rest s has hI with ⟨s', hbody, hI'⟩ | ⟨r, hbody, hK⟩
      · rw [runAll, hbody]
        exact ih (done ++ [a]) s' (by simp [has]) hI'
      · rw [runAll, hbody]
        exact .inr ⟨r, done, rfl, ⟨a :: rest, has.symm⟩, hK⟩
  exact hall as [] s rfl h

/-- A step that goes on or returns. -/
def LoopStep.ofSum : σ ⊕ ρ → LoopStep σ ρ
  | .inl s => .next s
  | .inr r => .exit r

/-- A loop that passes over what is not `p`, is left at what is `q`, and otherwise does something
with what is `t` only. -/
theorem run_select {body : σ → α → Except ε (LoopStep σ ρ)} {body' : σ → α → Except ε (σ ⊕ ρ)}
    (p q t : α → Bool) (hskip : ∀ a ∈ as, ∀ s, p a = false → body s a = .ok (.next s))
    (hleave : ∀ a ∈ as, ∀ s, p a → q a → body s a = .ok (.leave s))
    (hother : ∀ a ∈ as, ∀ s, p a → q a = false → t a = false → body s a = .ok (.next s))
    (hbody : ∀ a ∈ as, ∀ s, p a → q a = false → t a → body s a = (body' s a).map .ofSum) (s : σ) :
    run body (.ok ()) as s = runAll body' (((as.filter p).takeWhile fun a => !q a).filter t) s := by
  induction as generalizing s with
  | nil => rfl
  | cons a as ih =>
    have hrest := ih (fun b hb => hskip b (List.mem_cons_of_mem a hb))
      (fun b hb => hleave b (List.mem_cons_of_mem a hb))
      (fun b hb => hother b (List.mem_cons_of_mem a hb))
      (fun b hb => hbody b (List.mem_cons_of_mem a hb))
    have hmem := List.mem_cons_self (a := a) (l := as)
    rw [run]
    cases hp : p a with
    | false =>
      rw [hskip a hmem s hp, List.filter_cons_of_neg (by simp [hp])]
      exact hrest s
    | true =>
      rw [List.filter_cons_of_pos (by simp [hp])]
      cases hq : q a with
      | true =>
        rw [hleave a hmem s hp hq, List.takeWhile_cons_of_neg (by simp [hq])]
        rfl
      | false =>
        rw [List.takeWhile_cons_of_pos (by simp [hq])]
        cases ht : t a with
        | false =>
          rw [hother a hmem s hp hq ht, List.filter_cons_of_neg (by simp [ht])]
          exact hrest s
        | true =>
          rw [hbody a hmem s hp hq ht, List.filter_cons_of_pos (by simp [ht]), runAll]
          cases hb : body' s a with
          | error e => rfl
          | ok step =>
            cases step with
            | inl s' => exact hrest s'
            | inr r => rfl

end Loops

namespace Format

variable (F : Format)

/-- The length that the header of a record says. -/
def length (c : Cursor) : ℕ := leNat (c.bytes.take F.width)

/-- The bytes of the record. -/
def record (c : Cursor) : List UInt8 := c.bytes.take (F.length c)

/-- Whether there is a record: the counter has room for a header, and the length that the header
says is that of a header at least and has room. No length is read behind the end of the bytes. -/
def ok (c : Cursor) : Option Bool :=
  if c.left < F.header then some false
  else if c.bytes.length < F.width then none
  else some (F.header ≤ F.length c ∧ F.length c ≤ c.left)

/-- The place of the next record. The counter is unsigned. -/
def next (c : Cursor) : Cursor where
  bytes := c.bytes.drop (roundUp F.unit (F.length c))
  left := (c.left + F.modulus - roundUp F.unit (F.length c)) % F.modulus

/-- The places of the records, and whether the walk then reads outside of the bytes. -/
def steps : ℕ → Cursor → List Cursor × Bool
  | 0, _ => ([], true)
  | fuel + 1, c => match F.ok c with
    | none => ([], true)
    | some false => ([], false)
    | some true => ((c :: (steps fuel (F.next c)).1), (steps fuel (F.next c)).2)

def walk (c : Cursor) : List Cursor × Bool := F.steps (c.bytes.length + 1) c

/-- The loop over the records from a place on. Its header does not depend on what the body does,
but when the body leaves or returns the rest of the records is not looked at. -/
def each {ε σ ρ : Type*} (fault : ε) (body : σ → Cursor → Except ε (LoopStep σ ρ)) (c : Cursor)
    (s : σ) : Except ε (σ ⊕ ρ) :=
  run body (if (F.walk c).2 then .error fault else .ok ()) (F.walk c).1 s

/-- The loop with a body that goes on after each record. -/
def fold {ε σ : Type*} (fault : ε) (body : σ → Cursor → Except ε σ) (c : Cursor) (s : σ) :
    Except ε σ :=
  ((F.walk c).1.foldlM body s).bind fun s => if (F.walk c).2 then .error fault else .ok s

variable {F}

section Steps

variable {c : Cursor} {fuel : ℕ}

/-- What holds where there is a record. -/
theorem ok_eq_true (h : F.ok c = some true) :
    F.width ≤ c.bytes.length ∧ F.header ≤ F.length c ∧ F.length c ≤ c.left := by
  by_cases hleft : c.left < F.header
  · simp [ok, hleft] at h
  · by_cases hbytes : c.bytes.length < F.width
    · simp [ok, hleft, hbytes] at h
    · simp only [ok, if_neg hleft, if_neg hbytes, Option.some.injEq, decide_eq_true_eq] at h
      exact ⟨Nat.not_lt.mp hbytes, h⟩

/-- Each record takes at least a byte, so the walk needs no more steps than there are bytes. -/
theorem length_next_lt (h : F.ok c = some true) :
    (F.next c).bytes.length < c.bytes.length := by
  obtain ⟨hwidth, hheader, -⟩ := ok_eq_true h
  have hup := le_roundUp (n := F.length c) F.unitPos
  have hpos := F.widthPos
  have hle := F.widthLe
  rw [next, List.length_drop]
  omega

theorem steps_fuel (h : c.bytes.length < fuel) : F.steps fuel c = F.walk c := by
  have hall : ∀ fuel fuel' (c : Cursor), c.bytes.length < fuel → c.bytes.length < fuel' →
      F.steps fuel c = F.steps fuel' c := by
    intro fuel
    induction fuel with
    | zero => intro fuel' c h; omega
    | succ fuel ih =>
      intro fuel' c h h'
      obtain ⟨k, rfl⟩ := Nat.exists_eq_succ_of_ne_zero (show fuel' ≠ 0 by omega)
      rw [steps, steps]
      cases hok : F.ok c with
      | none => rfl
      | some b =>
        cases b with
        | false => rfl
        | true =>
          have hlt := length_next_lt hok
          simp only
          rw [ih k (F.next c) (by omega) (by omega)]
  rw [walk]
  exact hall _ _ c h (Nat.lt_succ_self _)

theorem walk_of_none (h : F.ok c = none) : F.walk c = ([], true) := by
  rw [walk, steps, h]

theorem walk_of_false (h : F.ok c = some false) : F.walk c = ([], false) := by
  rw [walk, steps, h]

theorem walk_of_true (h : F.ok c = some true) :
    F.walk c = (c :: (F.walk (F.next c)).1, (F.walk (F.next c)).2) := by
  rw [walk, steps, h]
  simp only
  rw [steps_fuel (length_next_lt h)]

end Steps

section Aligned

variable {c c' : Cursor}

/-- The counter is a multiple of the unit and counts bytes that are there. -/
structure Aligned (F : Format) (c : Cursor) : Prop where
  dvd : F.unit ∣ c.left
  leftLe : c.left ≤ c.bytes.length
  leftLt : c.left < F.modulus

/-- The record at `c'` is inside of the bytes that `c` counts: both places end with the same
bytes, and the record starts behind the first and ends before the end. -/
structure Inside (F : Format) (c c' : Cursor) : Prop where
  aligned : F.Aligned c'
  headerLe : F.header ≤ F.length c'
  lengthLe : F.length c' ≤ c'.left
  leftLe : c'.left ≤ c.left
  behind : c'.bytes.drop c'.left = c.bytes.drop c.left

theorem Aligned.left_next (h : F.Aligned c) (hok : F.ok c = some true) :
    (F.next c).left = c.left - roundUp F.unit (F.length c) ∧
      roundUp F.unit (F.length c) ≤ c.left := by
  have hup := roundUp_le F.unitPos (ok_eq_true hok).2.2 h.dvd
  have hlt := h.leftLt
  refine ⟨?_, hup⟩
  rw [Format.next, Nat.sub_add_comm hup, Nat.add_mod_right, Nat.mod_eq_of_lt (by omega)]

theorem Aligned.next (h : F.Aligned c) (hok : F.ok c = some true) :
    F.Aligned (F.next c) ∧ (F.next c).left ≤ c.left ∧
      (F.next c).bytes.drop (F.next c).left = c.bytes.drop c.left := by
  obtain ⟨hleft, hup⟩ := h.left_next hok
  obtain ⟨hdvd, hbytes, hlt⟩ := h
  refine ⟨⟨?_, ?_, by omega⟩, by omega, ?_⟩
  · rw [hleft]
    exact Nat.dvd_sub hdvd dvd_roundUp
  · rw [hleft, Format.next, List.length_drop]
    omega
  · rw [hleft, Format.next, List.drop_drop, Nat.add_sub_of_le hup]

/-- From a multiple of the unit on, a walk keeps inside of the bytes that are counted. -/
theorem walk_inside (h : F.Aligned c) :
    (F.walk c).2 = false ∧ ∀ c' ∈ (F.walk c).1, F.Inside c c' := by
  induction hn : c.bytes.length using Nat.strongRecOn generalizing c with
  | ind n ih =>
    cases hok : F.ok c with
    | none =>
      have hleft := h.leftLe
      have hwidth := F.widthLe
      unfold ok at hok
      split at hok
      · cases hok
      · split at hok
        · omega
        · cases hok
    | some b =>
      cases b with
      | false => simp [walk_of_false hok]
      | true =>
        obtain ⟨hnext, hle, hbehind⟩ := h.next hok
        obtain ⟨hend, hinside⟩ := ih _ (hn ▸ length_next_lt hok) hnext rfl
        obtain ⟨-, hheader, hlength⟩ := ok_eq_true hok
        rw [walk_of_true hok]
        refine ⟨hend, fun c' hc' => ?_⟩
        rcases List.mem_cons.mp hc' with rfl | hc'
        · exact ⟨h, hheader, hlength, Nat.le_refl _, rfl⟩
        · have hin := hinside c' hc'
          exact ⟨hin.aligned, hin.headerLe, hin.lengthLe, Nat.le_trans hin.leftLe hle,
            hin.behind.trans hbehind⟩

/-- Each record takes a unit at least, so the counter bounds their number. -/
theorem length_walk_le (h : F.Aligned c) : (F.walk c).1.length * F.unit ≤ c.left := by
  induction hn : c.bytes.length using Nat.strongRecOn generalizing c with
  | ind n ih =>
    cases hok : F.ok c with
    | none => simp [walk_of_none hok]
    | some b =>
      cases b with
      | false => simp [walk_of_false hok]
      | true =>
        obtain ⟨hnext, -, -⟩ := h.next hok
        obtain ⟨hleft, hup⟩ := h.left_next hok
        have hrest := ih _ (hn ▸ length_next_lt hok) hnext rfl
        have hunit : F.unit ≤ roundUp F.unit (F.length c) := by
          obtain ⟨-, hheader, -⟩ := ok_eq_true hok
          have hpos := F.widthPos
          have hwidth := F.widthLe
          have hle := le_roundUp (n := F.length c) F.unitPos
          exact Nat.le_of_dvd (by omega) dvd_roundUp
        rw [walk_of_true hok, List.length_cons, Nat.succ_mul]
        omega

/-- The rule for a loop over the records of an aligned place. -/
theorem fold_rule {ε σ : Type*} {fault : ε} {body : σ → Cursor → Except ε σ} {s : σ}
    (I : List Cursor → σ → Prop) (hc : F.Aligned c)
    (hstep : ∀ done a rest s, (F.walk c).1 = done ++ a :: rest → F.Inside c a → I done s →
      ∃ s', body s a = .ok s' ∧ I (done ++ [a]) s') (h : I [] s) :
    ∃ s', F.fold fault body c s = .ok s' ∧ I (F.walk c).1 s' := by
  obtain ⟨hend, hinside⟩ := walk_inside hc
  obtain ⟨s', hfold, hI⟩ := foldlM_rule I (fun done a rest s hwalk =>
    hstep done a rest s hwalk (hinside a (by simp [hwalk]))) h
  refine ⟨s', ?_, hI⟩
  rw [fold, hfold, hend]
  rfl

/-- A record of all bytes whose number is no multiple of the unit: the counter wraps around. -/
theorem walk_overrun {n : ℕ} (hheader : F.header ≤ n) (hdvd : ¬ F.unit ∣ n)
    (hlt : n < 256 ^ F.width) (hmod : n + F.header + F.unit ≤ F.modulus) :
    F.walk ⟨leBytes F.width n ++ List.replicate (n - F.width) 0, n⟩ =
      ([⟨leBytes F.width n ++ List.replicate (n - F.width) 0, n⟩], true) := by
  have hwidth := F.widthLe
  have hpos := F.widthPos
  generalize hc : Cursor.mk (leBytes F.width n ++ List.replicate (n - F.width) 0) n = c
  have hbytes : c.bytes.length = n := by
    rw [← hc]
    simp
    omega
  have hlength : F.length c = n := by
    rw [← hc, Format.length, List.take_left' (length_leBytes _ _), leNat_leBytes,
      Nat.mod_eq_of_lt hlt]
  have hleft : c.left = n := by rw [← hc]
  have hok : F.ok c = some true := by
    unfold ok
    rw [if_neg (by omega), if_neg (by omega), hlength, hleft]
    simp [hheader]
  have hle := le_roundUp (n := n) F.unitPos
  have hup := roundUp_lt (n := n) F.unitPos
  have hne : roundUp F.unit n ≠ n := fun heq => hdvd (heq ▸ dvd_roundUp)
  have hnext : F.ok (F.next c) = none := by
    have hbytes' : (F.next c).bytes.length = 0 := by
      rw [Format.next, List.length_drop, hlength]
      omega
    have hleft' : (F.next c).left = n + F.modulus - roundUp F.unit n := by
      rw [Format.next, hlength, hleft]
      exact Nat.mod_eq_of_lt (by omega)
    unfold ok
    rw [if_neg (by omega), if_pos (by omega)]
  rw [walk_of_true hok, walk_of_none hnext]

end Aligned

section Packed

/-- A record whose header says its length. -/
structure WellFormed (F : Format) (r : List UInt8) : Prop where
  headerLe : F.header ≤ r.length
  lengthEq : leNat (r.take F.width) = r.length

/-- Records one behind the other, each padded to the unit. -/
def pack (F : Format) (records : List (List UInt8)) : List UInt8 :=
  records.flatMap fun r => r ++ List.replicate (roundUp F.unit r.length - r.length) 0

theorem pack_cons (r : List UInt8) (rs : List (List UInt8)) :
    F.pack (r :: rs) =
      r ++ (List.replicate (roundUp F.unit r.length - r.length) 0 ++ F.pack rs) := by
  rw [pack, List.flatMap_cons, List.append_assoc]
  rfl

theorem length_pack_cons (r : List UInt8) (rs : List (List UInt8)) :
    (F.pack (r :: rs)).length = roundUp F.unit r.length + (F.pack rs).length := by
  have hle := le_roundUp (n := r.length) F.unitPos
  rw [pack_cons, List.length_append, List.length_append, List.length_replicate]
  omega

theorem dvd_length_pack (records : List (List UInt8)) : F.unit ∣ (F.pack records).length := by
  induction records with
  | nil => simp [pack]
  | cons r rs ih =>
    rw [length_pack_cons]
    exact Nat.dvd_add dvd_roundUp ih

/-- What the header of a record in front says, whatever follows. -/
theorem length_of_front {r rest : List UInt8} {left : ℕ} (h : F.WellFormed r) :
    F.length ⟨r ++ rest, left⟩ = r.length := by
  rw [length, List.take_append_of_le_length (Nat.le_trans F.widthLe h.headerLe), h.lengthEq]

/-- The walk over packed records finds these records, whatever follows them. -/
theorem walk_pack {records : List (List UInt8)} (h : ∀ r ∈ records, F.WellFormed r)
    (rest : List UInt8) (hlt : (F.pack records).length < F.modulus) :
    (F.walk ⟨F.pack records ++ rest, (F.pack records).length⟩).2 = false ∧
      (F.walk ⟨F.pack records ++ rest, (F.pack records).length⟩).1.map F.record = records := by
  induction records with
  | nil =>
    have hpos := F.widthPos
    have hwidth := F.widthLe
    have hok : F.ok ⟨F.pack [] ++ rest, (F.pack []).length⟩ = some false :=
      if_pos (Nat.lt_of_lt_of_le hpos hwidth)
    simp [walk_of_false hok]
  | cons r rs ih =>
    have hr := h r (List.mem_cons_self ..)
    have hwidth := F.widthLe
    have hheader := hr.headerLe
    have hle := le_roundUp (n := r.length) F.unitPos
    rw [length_pack_cons] at hlt ⊢
    rw [pack_cons, List.append_assoc]
    generalize hrest : List.replicate (roundUp F.unit r.length - r.length) (0 : UInt8) ++
      F.pack rs ++ rest = behind
    generalize hc : Cursor.mk (r ++ behind) (roundUp F.unit r.length + (F.pack rs).length) = c
    have hlength : F.length c = r.length := by
      rw [← hc, length_of_front hr]
    have hok : F.ok c = some true := by
      have hleft : c.left = roundUp F.unit r.length + (F.pack rs).length := by rw [← hc]
      have hbytes : c.bytes.length = r.length + behind.length := by simp [← hc]
      unfold ok
      rw [if_neg (by omega), if_neg (by omega), hlength]
      simp
      omega
    have hnext : F.next c = ⟨F.pack rs ++ rest, (F.pack rs).length⟩ := by
      have hdrop : (r ++ behind).drop (roundUp F.unit r.length) = F.pack rs ++ rest := by
        rw [← hrest, List.append_assoc, ← List.append_assoc r]
        exact List.drop_left' (by simp; omega)
      rw [next, hlength, ← hc]
      simp only [hdrop, Cursor.mk.injEq, true_and]
      rw [Nat.sub_add_comm (by omega), Nat.add_sub_cancel_left, Nat.add_mod_right,
        Nat.mod_eq_of_lt (by omega)]
    have hrecord : F.record c = r := by
      rw [record, hlength, ← hc]
      exact List.take_left' rfl
    obtain ⟨hend, hrecords⟩ := ih (fun r' hr' => h r' (List.mem_cons_of_mem _ hr')) (by omega)
    rw [walk_of_true hok, hnext]
    exact ⟨hend, by rw [List.map_cons, hrecord, hrecords]⟩

end Packed

end Format
end RecordWalks
