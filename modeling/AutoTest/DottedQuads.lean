import Mathlib.Data.List.Basic
import Mathlib.Data.Nat.Notation
import Mathlib.Tactic.IntervalCases

/-!
# IPv4 addresses and their texts

The dotted-decimal text of an address, and the numbers-and-dots notation in which an address may
be written: one to four numbers, each decimal, octal or hexadecimal as in C, the last of them
filling all bytes that are left. Reading the dotted-decimal text of an address gives it back.
-/

namespace DottedQuads

/-- The four bytes of an address, in the order in which they are written and sent. -/
structure Quad where
  a : UInt8
  b : UInt8
  c : UInt8
  d : UInt8
  deriving DecidableEq

/-- The block 127.0.0.0/8. -/
def Quad.Loopback (q : Quad) : Prop := q.a = 127

instance (q : Quad) : Decidable q.Loopback := inferInstanceAs (Decidable (_ = _))

/-- The four bytes as a 32-bit word of a little-endian machine. -/
def Quad.word (q : Quad) : UInt32 :=
  .ofNat (q.a.toNat + 2 ^ 8 * q.b.toNat + 2 ^ 16 * q.c.toNat + 2 ^ 24 * q.d.toNat)

section Texts

/-- Numbers in decimal, separated by dots. -/
def dotted (ns : List ℕ) : List Char := ['.'].intercalate (ns.map (Nat.toDigits 10))

/-- The dotted-decimal text of an address. -/
def Quad.text (q : Quad) : List Char :=
  dotted [q.a.toNat, q.b.toNat, q.c.toNat, q.d.toNat]

theorem dot_notMem_toDigits (n : ℕ) : '.' ∉ Nat.toDigits 10 n := by
  intro h
  have hdigit := Nat.isDigit_of_mem_toDigits (by decide) (by decide) h
  exact absurd hdigit (by decide)

theorem toDigits_injective {m n : ℕ} (h : Nat.toDigits 10 m = Nat.toDigits 10 n) : m = n := by
  have hvalue := congrArg (fun digits => Nat.ofDigitChars 10 digits 0) h
  simpa using hvalue

theorem splitOn_dotted {ns : List ℕ} (h : ns ≠ []) :
    (dotted ns).splitOn '.' = ns.map (Nat.toDigits 10) := by
  refine List.splitOn_intercalate '.' ?_ (by simpa using h)
  intro piece hpiece
  obtain ⟨n, -, rfl⟩ := List.mem_map.mp hpiece
  exact dot_notMem_toDigits n

theorem dotted_injective {ns ms : List ℕ} (hns : ns ≠ []) (hms : ms ≠ [])
    (h : dotted ns = dotted ms) : ns = ms := by
  have hsplit : ns.map (Nat.toDigits 10) = ms.map (Nat.toDigits 10) := by
    rw [← splitOn_dotted hns, ← splitOn_dotted hms, h]
  exact (List.map_inj_right fun _ _ => toDigits_injective).mp hsplit

/-- The first dot stands right after the first number. -/
theorem idxOf_dotted (n m : ℕ) (ns : List ℕ) :
    (dotted (n :: m :: ns)).idxOf? '.' = some (Nat.toDigits 10 n).length := by
  have hnone : (Nat.toDigits 10 n).idxOf? '.' = none :=
    List.idxOf?_eq_none_iff.mpr (dot_notMem_toDigits n)
  rw [List.idxOf?] at hnone ⊢
  simp [dotted, List.intercalate_cons_cons, List.findIdx?_append, List.findIdx?_cons, hnone]

theorem Quad.text_injective {p q : Quad} (h : p.text = q.text) : p = q := by
  have hparts := dotted_injective (by simp) (by simp) h
  simp only [List.cons.injEq, UInt8.toNat_inj, and_true] at hparts
  cases p
  cases q
  simpa using hparts

end Texts

section Reading

/-- The value of a digit in C, in any base up to 16. -/
def digitValue (ch : Char) : Option ℕ :=
  if '0' ≤ ch ∧ ch ≤ '9' then some (ch.toNat - 48)
  else if 'a' ≤ ch ∧ ch ≤ 'f' then some (ch.toNat - 87)
  else if 'A' ≤ ch ∧ ch ≤ 'F' then some (ch.toNat - 55)
  else none

/-- Read digits after a number that is already read. -/
def readDigits (base : ℕ) : List Char → ℕ → Option ℕ
  | [], n => some n
  | ch :: chs, n => match digitValue ch with
    | some v => if v < base then readDigits base chs (base * n + v) else none
    | none => none

/-- What follows a leading 0: `x` and a hexadecimal number, or an octal number. -/
def readPrefixed : List Char → Option ℕ
  | x :: y :: ds =>
    if x = 'x' ∨ x = 'X' then readDigits 16 (y :: ds) 0 else readDigits 8 (x :: y :: ds) 0
  | ds => readDigits 8 ds 0

/-- A number of C; without a leading 0 it is decimal. -/
def readNumber : List Char → Option ℕ
  | [] => none
  | ch :: chs => if ch = '0' then readPrefixed chs else readDigits 10 (ch :: chs) 0

/-- The address of one to four numbers, the last of which fills the bytes that are left. -/
def fill : List ℕ → Option Quad
  | [n] =>
    if n < 2 ^ 32 then
      some ⟨.ofNat (n / 2 ^ 24), .ofNat (n / 2 ^ 16), .ofNat (n / 2 ^ 8), .ofNat n⟩
    else none
  | [a, n] =>
    if a < 2 ^ 8 ∧ n < 2 ^ 24 then
      some ⟨.ofNat a, .ofNat (n / 2 ^ 16), .ofNat (n / 2 ^ 8), .ofNat n⟩
    else none
  | [a, b, n] =>
    if a < 2 ^ 8 ∧ b < 2 ^ 8 ∧ n < 2 ^ 16 then
      some ⟨.ofNat a, .ofNat b, .ofNat (n / 2 ^ 8), .ofNat n⟩
    else none
  | [a, b, c, d] =>
    if a < 2 ^ 8 ∧ b < 2 ^ 8 ∧ c < 2 ^ 8 ∧ d < 2 ^ 8 then
      some ⟨.ofNat a, .ofNat b, .ofNat c, .ofNat d⟩
    else none
  | _ => none

/-- The address written by a text, if it writes one. -/
def readQuad (text : List Char) : Option Quad :=
  ((text.splitOn '.').mapM readNumber).bind fill

theorem digitValue_digitChar {n : ℕ} (h : n < 16) : digitValue (Nat.digitChar n) = some n := by
  interval_cases n <;> decide

theorem readDigits_append (base : ℕ) (xs ys : List Char) (n : ℕ) :
    readDigits base (xs ++ ys) n = (readDigits base xs n).bind (readDigits base ys) := by
  induction xs generalizing n with
  | nil => rfl
  | cons ch xs ih =>
    simp only [List.cons_append, readDigits]
    cases digitValue ch with
    | none => rfl
    | some v =>
      by_cases hv : v < base <;> simp [hv, ih]

/-- Digits that were written read back as the number, in every base up to 16. -/
theorem readDigits_toDigits {base : ℕ} (hbase : 1 < base) (hle : base ≤ 16) (n : ℕ) :
    readDigits base (Nat.toDigits base n) 0 = some n := by
  induction n using Nat.strongRecOn with
  | ind n ih =>
    by_cases hn : n < base
    · rw [Nat.toDigits_of_lt_base hn]
      simp [readDigits, digitValue_digitChar (hn.trans_le hle), hn]
    · have hlast : n % base < base := Nat.mod_lt n (by omega)
      have hlt : n / base < n := Nat.div_lt_self (by omega) hbase
      rw [Nat.toDigits_of_base_le hbase (not_lt.mp hn), readDigits_append, ih _ hlt]
      simp only [Option.bind_some, readDigits, digitValue_digitChar (hlast.trans_le hle),
        if_pos hlast, Nat.div_add_mod]

/-- A numeral other than that of 0 does not begin with the digit 0. -/
theorem head_toDigits {n : ℕ} {ch : Char} {chs : List Char} (hn : n ≠ 0)
    (h : Nat.toDigits 10 n = ch :: chs) : ch ≠ '0' := by
  induction n using Nat.strongRecOn generalizing ch chs with
  | ind n ih =>
    by_cases hlt : n < 10
    · rw [Nat.toDigits_of_lt_base hlt] at h
      obtain ⟨rfl, -⟩ := List.cons.inj h
      simpa using hn
    · have hdiv : n / 10 ≠ 0 := by omega
      rw [Nat.toDigits_of_base_le (by decide) (not_lt.mp hlt)] at h
      obtain ⟨c, cs, hhead⟩ := List.exists_cons_of_ne_nil (Nat.toDigits_ne_nil (n := n / 10) (b := 10))
      rw [hhead, List.cons_append] at h
      obtain ⟨rfl, -⟩ := List.cons.inj h
      exact ih (n / 10) (by omega) hdiv hhead

/-- So it is read in decimal. -/
theorem readNumber_toDigits (n : ℕ) : readNumber (Nat.toDigits 10 n) = some n := by
  by_cases hn : n = 0
  · subst hn
    rfl
  · obtain ⟨ch, chs, h⟩ := List.exists_cons_of_ne_nil (Nat.toDigits_ne_nil (n := n) (b := 10))
    rw [h, readNumber, if_neg (head_toDigits hn h), ← h]
    exact readDigits_toDigits (by decide) (by decide) n

/-- The dotted-decimal text of an address writes this address. -/
@[simp] theorem readQuad_text (q : Quad) : readQuad q.text = some q := by
  have ha := q.a.toNat_lt
  have hb := q.b.toNat_lt
  have hc := q.c.toNat_lt
  have hd := q.d.toNat_lt
  rw [readQuad, Quad.text, splitOn_dotted (by simp)]
  simp [readNumber_toDigits, fill, ha, hb, hc, hd]

end Reading

end DottedQuads
