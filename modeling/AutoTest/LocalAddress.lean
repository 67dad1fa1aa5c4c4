import AutoTest.DottedQuads
import AutoTest.HeldValues
import AutoTest.WorkerThreads

/-!
# The local address

`getLocalIPv4` looks for an address in the list of `getifaddrs`. It goes by the text that
`getnameinfo` left in one buffer, which is not initialised and not cleared between the entries.
-/

namespace AutoTest.LocalAddress

open DottedQuads HeldValues

section Source

/-- A `sockaddr`; the four bytes are an address when the family is `AF_INET`. -/
structure Sockaddr where
  saFamily : UInt16
  sinAddr : Quad
  deriving DecidableEq

structure Ifaddrs where
  ifaAddr : Option Sockaddr
  deriving DecidableEq

/-- The calls that are made, with their results. -/
inductive AddressCall
  | getifaddrs (ret : ℤ)
  | getnameinfo (sa : Sockaddr) (ret : ℤ)
  | freeifaddrs (ifaddr : List Ifaddrs)
  deriving DecidableEq

/-- The buffer after `getnameinfo` with `NI_NUMERICHOST`; 0 is the only result of success. -/
def getnameinfo (sa : Sockaddr) (ret : ℤ) (host : CString) : CString :=
  if ret = 0 then sa.sinAddr.text else host

/-- `strhost.find(".", 0)` as the `int` it is stored in: `npos` becomes -1. -/
def find (strhost : CString) : ℤ :=
  match strhost.idxOf? '.' with
  | some i => i
  | none => -1

/-- The text for which the loop returns. -/
def Accepted (strhost : CString) : Prop := find strhost = 3 ∧ strhost ≠ "127.0.0.1".toList

instance (strhost : CString) : Decidable (Accepted strhost) :=
  inferInstanceAs (Decidable (_ ∧ _))

/-- The loop from an entry on: the text it returns with, if it does, and its calls. Every entry
comes with the result of `getnameinfo` on it. -/
def scan (host : CString) : List (Ifaddrs × ℤ) → Option CString × List AddressCall
  | [] => (none, [])
  | (ifa, ret) :: rest =>
    match ifa.ifaAddr with
    | none => scan host rest
    | some sa =>
      if sa.saFamily = afInet then
        let strhost := getnameinfo sa ret host
        if Accepted strhost then (some strhost, [.getnameinfo sa ret])
        else
          let (found, calls) := scan strhost rest
          (found, .getnameinfo sa ret :: calls)
      else scan host rest

def fallback : CString := "172.19.34.237".toList

/-- `getLocalIPv4`, from the result and the list of `getifaddrs` and the text that the buffer
happens to hold: the text returned and the calls made. -/
def getLocalIPv4 (got : ℤ) (ifaddr : List (Ifaddrs × ℤ)) (host : CString) :
    CString × List AddressCall :=
  -- `got` is compared with -1, but only to log it
  let (found, calls) := scan host ifaddr
  match found with
  | some strhost => (strhost, .getifaddrs got :: calls)
  | none => (fallback, .getifaddrs got :: calls ++ [.freeifaddrs (ifaddr.map Prod.fst)])

end Source

section Purpose

/-- The addresses of the `AF_INET` entries, with the result of `getnameinfo` on each. -/
def inets (ifaddr : List (Ifaddrs × ℤ)) : List (Quad × ℤ) :=
  ifaddr.filterMap fun e => match e.1.ifaAddr with
    | some sa => if sa.saFamily = afInet then some (sa.sinAddr, e.2) else none
    | none => none

/-- The addresses that `getnameinfo` resolved. -/
def resolved (ifaddr : List (Ifaddrs × ℤ)) : List Quad :=
  ((inets ifaddr).filter fun e => e.2 = 0).map Prod.fst

/-- The first resolved address outside the loopback block. -/
def localAddress (ifaddr : List (Ifaddrs × ℤ)) : Option Quad :=
  (resolved ifaddr).find? fun q => ¬ q.Loopback

/-- The lists that were freed. -/
def freed (calls : List AddressCall) : List (List Ifaddrs) :=
  calls.filterMap fun c => match c with
    | .freeifaddrs l => some l
    | _ => none

/-- The answer is the text of the local address, or the fallback when there is none, and the
list of entries was freed once. -/
structure SelectsAndFrees (ifaddr : List (Ifaddrs × ℤ)) (r : CString × List AddressCall) :
    Prop where
  selects : r.1 = ((localAddress ifaddr).map Quad.text).getD fallback
  frees : freed r.2 = [ifaddr.map Prod.fst]

/-- The only addresses found are 127.0.0.1, and the buffer holds nothing that the loop accepts
if the first `getnameinfo` fails. -/
structure NothingToFind (ifaddr : List (Ifaddrs × ℤ)) (host : CString) : Prop where
  onlyLocalhost : ∀ q ∈ resolved ifaddr, q = ⟨127, 0, 0, 1⟩
  noStaleText : ∀ e ∈ (inets ifaddr).head?, e.2 ≠ 0 → ¬ Accepted host

end Purpose

variable {got : ℤ} {ifaddr : List (Ifaddrs × ℤ)} {host : CString}

section Loop

/-- What each call of `getnameinfo` writes into the buffer. -/
def writes (ifaddr : List (Ifaddrs × ℤ)) : List (Option CString) :=
  (inets ifaddr).map fun e => if e.2 = 0 then some e.1.text else none

theorem writes_cons_other {ifa : Ifaddrs} {ret : ℤ}
    (h : ∀ sa ∈ ifa.ifaAddr, sa.saFamily ≠ afInet) :
    writes ((ifa, ret) :: ifaddr) = writes ifaddr := by
  cases hsa : ifa.ifaAddr with
  | none => simp [writes, inets, hsa]
  | some sa => simp [writes, inets, hsa, h sa hsa]

theorem writes_cons_inet {ifa : Ifaddrs} {sa : Sockaddr} {ret : ℤ} (hsa : ifa.ifaAddr = some sa)
    (hinet : sa.saFamily = afInet) :
    writes ((ifa, ret) :: ifaddr) =
      (if ret = 0 then some sa.sinAddr.text else none) :: writes ifaddr := by
  simp [writes, inets, hsa, hinet]

theorem getD_write (sa : Sockaddr) (ret : ℤ) (host : CString) :
    (if ret = 0 then some sa.sinAddr.text else none).getD host = getnameinfo sa ret host := by
  unfold getnameinfo
  split <;> rfl

/-- The loop returns with the first accepted text that it reads in the buffer. -/
theorem scan_fst (host : CString) (ifaddr : List (Ifaddrs × ℤ)) :
    (scan host ifaddr).1 = (reads host (writes ifaddr)).find? fun t => Accepted t := by
  induction ifaddr generalizing host with
  | nil => rfl
  | cons e rest ih =>
    obtain ⟨ifa, ret⟩ := e
    cases hsa : ifa.ifaAddr with
    | none =>
      rw [writes_cons_other (by simp [hsa]), ← ih]
      simp only [scan, hsa]
    | some sa =>
      by_cases hinet : sa.saFamily = afInet
      · rw [writes_cons_inet hsa hinet, reads, getD_write]
        by_cases hacc : Accepted (getnameinfo sa ret host)
        · simp [scan, hsa, hinet, hacc]
        · simp [scan, hsa, hinet, hacc, ih]
      · rw [writes_cons_other (by simpa [hsa] using hinet), ← ih]
        simp only [scan, hsa, if_neg hinet]

@[simp] theorem freed_append (cs ds : List AddressCall) : freed (cs ++ ds) = freed cs ++ freed ds := by
  simp [freed]

/-- The loop itself frees nothing. -/
theorem freed_scan (host : CString) (ifaddr : List (Ifaddrs × ℤ)) :
    freed (scan host ifaddr).2 = [] := by
  induction ifaddr generalizing host with
  | nil => rfl
  | cons e rest ih =>
    obtain ⟨ifa, ret⟩ := e
    cases hsa : ifa.ifaAddr with
    | none => simpa only [scan, hsa] using ih host
    | some sa =>
      by_cases hinet : sa.saFamily = afInet
      · by_cases hacc : Accepted (getnameinfo sa ret host)
        · simp [scan, hsa, hinet, hacc, freed]
        · simpa [scan, hsa, hinet, hacc, freed] using ih (getnameinfo sa ret host)
      · simpa only [scan, hsa, if_neg hinet] using ih host

end Loop

section Answers

theorem getLocalIPv4_fst :
    (getLocalIPv4 got ifaddr host).1 =
      ((reads host (writes ifaddr)).find? fun t => Accepted t).getD fallback := by
  rw [← scan_fst]
  unfold getLocalIPv4
  rcases scan host ifaddr with ⟨_ | t, calls⟩ <;> rfl

/-- The list is freed behind the loop, and only there. -/
theorem freed_getLocalIPv4 :
    freed (getLocalIPv4 got ifaddr host).2 =
      if (scan host ifaddr).1.isSome then [] else [ifaddr.map Prod.fst] := by
  have hloop := freed_scan host ifaddr
  unfold getLocalIPv4
  generalize scan host ifaddr = r at hloop ⊢
  obtain ⟨_ | t, calls⟩ := r
  · change freed (.getifaddrs got :: (calls ++ [.freeifaddrs (ifaddr.map Prod.fst)])) = _
    rw [← List.singleton_append, freed_append, freed_append, hloop]
    rfl
  · exact hloop

/-- So it is freed exactly when the loop reads no accepted text, and then the answer is the
fallback. -/
theorem freed_iff :
    freed (getLocalIPv4 got ifaddr host).2 = [ifaddr.map Prod.fst] ↔
      ∀ t ∈ reads host (writes ifaddr), ¬ Accepted t := by
  rw [freed_getLocalIPv4, scan_fst]
  cases hfound : (reads host (writes ifaddr)).find? fun t => Accepted t with
  | none => simpa using hfound
  | some t =>
    have hmem := List.mem_of_find?_eq_some hfound
    have hacc : Accepted t := by simpa using List.find?_some hfound
    refine iff_of_false (by simp) fun hnone => hnone t hmem hacc

theorem some_mem_writes {t : CString} :
    some t ∈ writes ifaddr ↔ ∃ q ∈ resolved ifaddr, t = q.text := by
  simp only [writes, resolved, List.mem_map, List.mem_filter, decide_eq_true_eq]
  constructor
  · rintro ⟨e, he, hw⟩
    by_cases hret : e.2 = 0
    · rw [if_pos hret] at hw
      exact ⟨e.1, ⟨e, ⟨he, hret⟩, rfl⟩, (Option.some.inj hw).symm⟩
    · rw [if_neg hret] at hw
      cases hw
  · rintro ⟨q, ⟨e, ⟨he, hret⟩, rfl⟩, rfl⟩
    exact ⟨e, he, if_pos hret⟩

/-- The first write fails when the first `AF_INET` entry is not resolved. -/
theorem head_writes :
    (writes ifaddr).head? = some none ↔ ∃ e ∈ (inets ifaddr).head?, e.2 ≠ 0 := by
  rw [writes, List.head?_map]
  cases (inets ifaddr).head? <;> simp

theorem text_localhost : (⟨127, 0, 0, 1⟩ : Quad).text = "127.0.0.1".toList := by decide

/-- The loop accepts the addresses from 100.0.0.0 on, and of these all but 127.0.0.1. -/
theorem accepted_text (q : Quad) : Accepted q.text ↔ 100 ≤ q.a.toNat ∧ q ≠ ⟨127, 0, 0, 1⟩ := by
  have hlt := q.a.toNat_lt
  have htwo := Nat.length_toDigits_le_iff (n := q.a.toNat) (k := 2) (b := 10) (by decide) (by decide)
  have hthree := Nat.length_toDigits_le_iff (n := q.a.toNat) (k := 3) (b := 10) (by decide) (by decide)
  have hfind : find q.text = (Nat.toDigits 10 q.a.toNat).length := by
    rw [find, Quad.text, idxOf_dotted]
  have htext : q.text = "127.0.0.1".toList ↔ q = ⟨127, 0, 0, 1⟩ := by
    rw [← text_localhost]
    exact ⟨Quad.text_injective, congrArg Quad.text⟩
  rw [Accepted, hfind, ne_eq, htext]
  refine and_congr_left fun _ => ?_
  omega

/-- No accepted text is read when no resolved address has one, nor the buffer at the start if
this is what the first entry reads. -/
theorem rejected_iff :
    (∀ t ∈ reads host (writes ifaddr), ¬ Accepted t) ↔
      (∀ q ∈ resolved ifaddr, ¬ Accepted q.text) ∧
        ∀ e ∈ (inets ifaddr).head?, e.2 ≠ 0 → ¬ Accepted host := by
  constructor
  · intro h
    refine ⟨fun q hq => h _ ?_, fun e he hret => h host ?_⟩
    · exact mem_reads.mpr (.inl (some_mem_writes.mpr ⟨q, hq, rfl⟩))
    · exact mem_reads.mpr (.inr ⟨head_writes.mpr ⟨e, he, hret⟩, rfl⟩)
  · rintro ⟨hresolved, hstale⟩ t ht
    rcases mem_reads.mp ht with hw | ⟨hhead, rfl⟩
    · obtain ⟨q, hq, rfl⟩ := some_mem_writes.mp hw
      exact hresolved q hq
    · obtain ⟨e, he, hret⟩ := head_writes.mp hhead
      exact hstale e he hret

/-- The answer is the fallback for want of an address only when every resolved address is in the
loopback block: the loop accepts the text of the fallback. -/
theorem localAddress_eq_none (hrej : ∀ q ∈ resolved ifaddr, ¬ Accepted q.text)
    (hsel : fallback = ((localAddress ifaddr).map Quad.text).getD fallback) :
    ∀ q ∈ resolved ifaddr, q.Loopback := by
  cases hfound : localAddress ifaddr with
  | none => simpa [localAddress] using hfound
  | some p =>
    have hmem : p ∈ resolved ifaddr := List.mem_of_find?_eq_some hfound
    have htext : fallback = p.text := by simpa [hfound] using hsel
    have hacc : Accepted fallback := by decide
    exact absurd (htext ▸ hacc) (hrej p hmem)

/-- When the first `AF_INET` entry is resolved, the answer is the text of an address. -/
theorem answer_text (got : ℤ) (host : CString) (h : ∀ e ∈ (inets ifaddr).head?, e.2 = 0) :
    ∃ q : Quad, (getLocalIPv4 got ifaddr host).1 = q.text ∧
      (q = ⟨172, 19, 34, 237⟩ ∨ q ∈ resolved ifaddr) := by
  rw [getLocalIPv4_fst]
  cases hfound : (reads host (writes ifaddr)).find? fun t => Accepted t with
  | none => exact ⟨⟨172, 19, 34, 237⟩, by decide, .inl rfl⟩
  | some t =>
    rcases mem_reads.mp (List.mem_of_find?_eq_some hfound) with hw | ⟨hhead, -⟩
    · obtain ⟨q, hq, rfl⟩ := some_mem_writes.mp hw
      exact ⟨q, rfl, .inr hq⟩
    · obtain ⟨e, he, hret⟩ := head_writes.mp hhead
      exact absurd (h e he) hret

theorem writes_of_resolved (h : ∀ e ∈ inets ifaddr, e.2 = 0) :
    writes ifaddr = ((resolved ifaddr).map Quad.text).map some := by
  have hall : (inets ifaddr).filter (fun e => e.2 = 0) = inets ifaddr :=
    List.filter_eq_self.mpr fun e he => by simpa using h e he
  rw [resolved, hall, writes, List.map_map, List.map_map]
  exact List.map_congr_left fun e he => if_pos (h e he)

/-- When all entries are resolved, the answer is the text of the first address accepted. -/
theorem getLocalIPv4_of_resolved (h : ∀ e ∈ inets ifaddr, e.2 = 0) :
    (getLocalIPv4 got ifaddr host).1 = (((resolved ifaddr).find? fun q =>
      100 ≤ q.a.toNat ∧ q ≠ ⟨127, 0, 0, 1⟩).map Quad.text).getD fallback := by
  rw [getLocalIPv4_fst, writes_of_resolved h, reads_map_some, List.find?_map]
  simp only [Function.comp_def, accepted_text]

/-- So it is right exactly when the first address accepted is the first outside the loopback block:
0.0.0.0 to 99.255.255.255 is passed over, and the rest of the loopback block is not. -/
theorem selects_iff_of_resolved (h : ∀ e ∈ inets ifaddr, e.2 = 0) :
    (getLocalIPv4 got ifaddr host).1 = ((localAddress ifaddr).map Quad.text).getD fallback ↔
      (resolved ifaddr).find? (fun q => 100 ≤ q.a.toNat ∧ q ≠ ⟨127, 0, 0, 1⟩) =
        localAddress ifaddr := by
  have htext : fallback = Quad.text ⟨172, 19, 34, 237⟩ := by decide
  rw [getLocalIPv4_of_resolved h]
  refine ⟨fun heq => ?_, fun heq => by rw [heq]⟩
  cases hacc : (resolved ifaddr).find? fun q => 100 ≤ q.a.toNat ∧ q ≠ ⟨127, 0, 0, 1⟩ with
  | none =>
    cases hloc : localAddress ifaddr with
    | none => rfl
    | some q =>
      rw [hacc, hloc, Option.map_none, Option.getD_none, htext] at heq
      have hq := Quad.text_injective heq
      have hnone := List.find?_eq_none.mp hacc q (List.mem_of_find?_eq_some hloc)
      rw [← hq] at hnone
      exact absurd hnone (by decide)
  | some p =>
    cases hloc : localAddress ifaddr with
    | none =>
      rw [hacc, hloc, Option.map_none, Option.getD_none, htext] at heq
      have hp := Quad.text_injective heq
      have hnone := List.find?_eq_none.mp hloc p (List.mem_of_find?_eq_some hacc)
      rw [hp] at hnone
      exact absurd hnone (by decide)
    | some q =>
      rw [hacc, hloc] at heq
      exact congrArg some (Quad.text_injective heq)

/-- For every list, all results of `getnameinfo` and every content of the buffer, the answer is
right and the list is freed once exactly when there is nothing to find. -/
theorem selects_and_frees_iff (got : ℤ) (ifaddr : List (Ifaddrs × ℤ)) (host : CString) :
    SelectsAndFrees ifaddr (getLocalIPv4 got ifaddr host) ↔ NothingToFind ifaddr host := by
  have hfallback (hrej : ∀ t ∈ reads host (writes ifaddr), ¬ Accepted t) :
      (getLocalIPv4 got ifaddr host).1 = fallback := by
    have hnone : (reads host (writes ifaddr)).find? (fun t => Accepted t) = none := by
      simpa using hrej
    rw [getLocalIPv4_fst, hnone]
    rfl
  constructor
  · rintro ⟨hsel, hfree⟩
    have hrej := freed_iff.mp hfree
    obtain ⟨hresolved, hstale⟩ := rejected_iff.mp hrej
    rw [hfallback hrej] at hsel
    refine ⟨fun q hq => ?_, hstale⟩
    have hloop : q.a = 127 := localAddress_eq_none hresolved hsel q hq
    by_contra hne
    exact hresolved q hq ((accepted_text q).mpr ⟨by rw [hloop]; decide, hne⟩)
  · rintro ⟨hlocal, hstale⟩
    have hrej : ∀ t ∈ reads host (writes ifaddr), ¬ Accepted t := by
      refine rejected_iff.mpr ⟨fun q hq hacc => ?_, hstale⟩
      exact ((accepted_text q).mp hacc).2 (hlocal q hq)
    have hnone : localAddress ifaddr = none := by
      refine List.find?_eq_none.mpr fun q hq => ?_
      rw [hlocal q hq]
      decide
    exact ⟨by rw [hfallback hrej, hnone]; rfl, freed_iff.mpr hrej⟩

/-- An interface with an address, and the result of `getnameinfo` on it. -/
def inet (a b c d : UInt8) (ret : ℤ) : Ifaddrs × ℤ := (⟨some ⟨afInet, ⟨a, b, c, d⟩⟩⟩, ret)

/-- 10.0.0.5 is passed over, the list that has 192.168.1.5 is not freed, 127.0.0.2 is taken for a
local address, and a failed `getnameinfo` makes the loop return what the buffer holds. -/
theorem addresses_not_selected :
    ¬ SelectsAndFrees [inet 127 0 0 1 0, inet 10 0 0 5 0]
        (getLocalIPv4 0 [inet 127 0 0 1 0, inet 10 0 0 5 0] []) ∧
      ¬ SelectsAndFrees [inet 127 0 0 1 0, inet 192 168 1 5 0]
        (getLocalIPv4 0 [inet 127 0 0 1 0, inet 192 168 1 5 0] []) ∧
      ¬ SelectsAndFrees [inet 127 0 0 2 0] (getLocalIPv4 0 [inet 127 0 0 2 0] []) ∧
      ¬ SelectsAndFrees [inet 10 0 0 5 (-3)]
        (getLocalIPv4 0 [inet 10 0 0 5 (-3)] "abc.de".toList) := by
  refine ⟨fun h => absurd h.selects ?_, fun h => absurd h.frees ?_, fun h => absurd h.selects ?_,
    fun h => absurd h.selects ?_⟩ <;> decide +kernel

end Answers

end AutoTest.LocalAddress
