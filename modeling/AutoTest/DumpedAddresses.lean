import AutoTest.InterfaceResults
import AutoTest.LocalAddress

/-!
# The local address of a dump

`getLocalIPv4` reads the addresses that `getifaddrs` put into the blocks of its entries. Whatever
the kernel answers, the bytes that are read were written, and when `getnameinfo` resolves every
address, the answers decide which text is returned.
-/

namespace AutoTest.LocalAddress

open DottedQuads RecordWalks ByteBlocks

section Reading

def quadOf : List UInt8 → Option Quad
  | a :: b :: c :: d :: _ => some ⟨a, b, c, d⟩
  | _ => none

/-- What is read of a `sockaddr` in a block; nothing if one of the bytes was not written. -/
def readSockaddr (b : Block) (off : ℕ) : Option Sockaddr := do
  let family ← load b off 2
  let saFamily := UInt16.ofNat (leNat family)
  -- the address is left to `getnameinfo`, which is called for `AF_INET` only
  let sinAddr ← if saFamily = afInet then (load b (off + 4) 4).bind quadOf else some ⟨0, 0, 0, 0⟩
  return ⟨saFamily, sinAddr⟩

def readEntry (e : Netlink.Ifaddrs) : Option Ifaddrs :=
  match e.ifaAddr with
  | none => some ⟨none⟩
  | some off => (readSockaddr e.tail off).map fun sa => ⟨some sa⟩

/-- The address of an `AF_INET` entry. -/
def inetAt (ifa : Ifaddrs) : Option Quad :=
  ifa.ifaAddr.bind fun sa => if sa.saFamily = afInet then some sa.sinAddr else none

def addressQuad (a : Netlink.Address) : Option Quad :=
  if a.family = afInet then quadOf a.bytes else none

/-- The IPv4 address that an interface is said to have. -/
def inetOf (i : Netlink.Interface) : Option Quad := i.addr.bind addressQuad

/-- If the address is an IPv4 address, it has its four bytes. -/
def Complete (i : Netlink.Interface) : Prop :=
  ∀ a ∈ i.addr, a.family = afInet → 4 ≤ a.bytes.length

instance (i : Netlink.Interface) : Decidable (Complete i) :=
  inferInstanceAs (Decidable (∀ a ∈ i.addr, a.family = afInet → 4 ≤ a.bytes.length))

variable {b : Block} {off : ℕ} {a : Netlink.Address} {e : Netlink.Ifaddrs} {i : Netlink.Interface}
  {all list : List Netlink.Ifaddrs} {is : List Netlink.Interface}

theorem exists_quadOf {bytes : List UInt8} (h : 4 ≤ bytes.length) :
    ∃ q rest, quadOf bytes = some q ∧ bytes = [q.a, q.b, q.c, q.d] ++ rest := by
  obtain ⟨x, xs, rfl⟩ := List.exists_cons_of_length_pos (l := bytes) (by omega)
  obtain ⟨y, ys, rfl⟩ := List.exists_cons_of_length_pos (l := xs) (by simp at h; omega)
  obtain ⟨z, zs, rfl⟩ := List.exists_cons_of_length_pos (l := ys) (by simp at h; omega)
  obtain ⟨w, ws, rfl⟩ := List.exists_cons_of_length_pos (l := zs) (by simp at h; omega)
  exact ⟨⟨x, y, z, w⟩, ws, rfl, rfl⟩

theorem readSockaddr_of_addressAt (h : Netlink.AddressAt b off a)
    (hfull : a.family = afInet → 4 ≤ a.bytes.length) :
    ∃ sa, readSockaddr b off = some sa ∧ inetAt ⟨some sa⟩ = addressQuad a := by
  have hat := h.sockaddrAt
  have hfamily : load b off 2 = some (leBytes 2 a.family.toNat) := by
    have hload := hat.familyAt.load (hat.familyAt.le_length (by simp [leBytes]))
    rwa [length_leBytes] at hload
  by_cases hinet : a.family = afInet
  · obtain ⟨q, rest, hq, hbytes⟩ := exists_quadOf (hfull hinet)
    have hbytesAt : HasAt b (off + 4) [q.a, q.b, q.c, q.d] := by
      have haddr := hat.addrAt
      rw [hbytes, hinet] at haddr
      exact (hasAt_append.mp haddr).1
    have hload : load b (off + 4) 4 = some [q.a, q.b, q.c, q.d] :=
      hbytesAt.load (hbytesAt.le_length (by simp))
    refine ⟨⟨a.family, q⟩, ?_, ?_⟩
    · simp [readSockaddr, hfamily, hinet, hload, quadOf]
    · simp [inetAt, addressQuad, hinet, hq]
  · refine ⟨⟨a.family, ⟨0, 0, 0, 0⟩⟩, ?_, ?_⟩
    · simp [readSockaddr, hfamily, hinet]
    · simp [inetAt, addressQuad, hinet]

/-- An entry that represents an interface is read, and has its address. -/
theorem readEntry_of_represents (h : Netlink.Represents all e i) (hfull : Complete i) :
    ∃ ifa, readEntry e = some ifa ∧ inetAt ifa = inetOf i := by
  have haddr := h.addr
  unfold Complete at hfull
  unfold readEntry inetOf
  generalize e.ifaAddr = ptr at haddr ⊢
  generalize i.addr = given at haddr hfull ⊢
  cases haddr with
  | none => exact ⟨⟨none⟩, rfl, rfl⟩
  | @some off a hat =>
    obtain ⟨sa, hsa, hinet⟩ := readSockaddr_of_addressAt hat (hfull a rfl)
    exact ⟨⟨some sa⟩, congrArg (Option.map fun sa => Ifaddrs.mk (some sa)) hsa, hinet⟩

theorem readEntries_of_represents (h : List.Forall₂ (Netlink.Represents all) list is)
    (hfull : ∀ i ∈ is, Complete i) :
    ∃ ifaddr, list.mapM readEntry = some ifaddr ∧
      ifaddr.filterMap inetAt = is.filterMap inetOf := by
  induction h with
  | nil => exact ⟨[], rfl, rfl⟩
  | @cons e i list is he _ ih =>
    obtain ⟨ifa, hifa, hinet⟩ := readEntry_of_represents he (hfull i (List.mem_cons_self ..))
    obtain ⟨ifaddr, hread, hinets⟩ := ih fun j hj => hfull j (List.mem_cons_of_mem _ hj)
    refine ⟨ifa :: ifaddr, by simp [List.mapM_cons, hifa, hread], ?_⟩
    rw [List.filterMap_cons, List.filterMap_cons, hinet, hinets]

end Reading

section Selection

variable {libc : Netlink.Libc} {old : List Netlink.Ifaddrs} {r : Netlink.Run}
  {links addrs : List (List UInt8)}

/-- The entries, each with an address that `getnameinfo` resolves. -/
def allResolved (ifaddr : List Ifaddrs) : List (Ifaddrs × ℤ) := ifaddr.map fun ifa => (ifa, 0)

theorem inets_allResolved (ifaddr : List Ifaddrs) :
    inets (allResolved ifaddr) = (ifaddr.filterMap inetAt).map fun q => (q, 0) := by
  induction ifaddr with
  | nil => rfl
  | cons ifa rest ih =>
    have hcons : inets (allResolved (ifa :: rest)) =
        ((inetAt ifa).map fun q => (q, 0)).toList ++ inets (allResolved rest) := by
      cases hsa : ifa.ifaAddr with
      | none => simp [allResolved, inets, inetAt, hsa]
      | some sa =>
        by_cases hinet : sa.saFamily = afInet <;>
          simp [allResolved, inets, inetAt, hsa, hinet]
    rw [hcons, ih, List.filterMap_cons]
    cases inetAt ifa <;> rfl

theorem resolved_allResolved (ifaddr : List Ifaddrs) :
    resolved (allResolved ifaddr) = ifaddr.filterMap inetAt := by
  rw [resolved, inets_allResolved]
  simp [List.filter_map, Function.comp_def]

/-- The text of the first address from 100.0.0.0 on that is not 127.0.0.1; else the fallback. -/
def chosen (qs : List Quad) : CString :=
  ((qs.find? fun q => 100 ≤ q.a.toNat ∧ q ≠ ⟨127, 0, 0, 1⟩).map Quad.text).getD fallback

/-- When both answers come, `getLocalIPv4` reads written bytes only, and returns the text chosen
among the IPv4 addresses of the answers: of all of them, or of an initial part when a request for
memory is refused. -/
theorem getLocalIPv4_answers
    (hsound : ∀ d ∈ Netlink.datagrams r.receptions, Netlink.Sound libc libc.socketRet d)
    (hcalls : r.calls = []) (hsocket : 0 ≤ libc.socketRet) (hbind : 0 ≤ libc.bindRet)
    (hsend : ∀ n, 0 ≤ libc.sendtoRet n) (hfailed : .failed ∉ r.receptions)
    (hdata : Netlink.datagrams r.receptions = links ++ addrs)
    (hshort : ∀ d ∈ Netlink.datagrams r.receptions, d.length ≤ 4096)
    (hlinks : Netlink.IsAnswer libc libc.socketRet links)
    (haddrs : Netlink.IsAnswer libc libc.socketRet addrs)
    (hfull : ∀ i ∈ Netlink.interfacesIn libc libc.socketRet links addrs, Complete i) :
    ∃ result list r' ifaddr is,
      Netlink.getifaddrs libc (some old) r = .ok (result, some list, r') ∧
      list.mapM readEntry = some ifaddr ∧
      (result = 0 ∧ is = Netlink.interfacesIn libc libc.socketRet links addrs ∨
        result = -1 ∧ is <+: Netlink.interfacesIn libc libc.socketRet links addrs ∧
          ∃ n, Netlink.Denied libc r' n) ∧
      ((∀ k size, libc.granted k size = true) → result = 0) ∧
      ∀ host, (getLocalIPv4 result (allResolved ifaddr) host).1 =
        chosen (is.filterMap inetOf) := by
  obtain ⟨result, list, r', hrun, hsays⟩ := (Netlink.getifaddrs_listing hsound hcalls).of_answers
    hsocket hbind hsend hfailed hdata hshort hlinks haddrs
  obtain ⟨is, hinitial, hrep, hresult⟩ : ∃ is,
      is <+: Netlink.interfacesIn libc libc.socketRet links addrs ∧
      List.Forall₂ (Netlink.Represents list) list is ∧
      (result = 0 ∧ is = Netlink.interfacesIn libc libc.socketRet links addrs ∨
        result = -1 ∧ is <+: Netlink.interfacesIn libc libc.socketRet links addrs ∧
          ∃ n, Netlink.Denied libc r' n) := by
    cases hsays with
    | all represents => exact ⟨_, List.prefix_rfl, represents, .inl ⟨rfl, rfl⟩⟩
    | part initial represents denied =>
      exact ⟨_, initial, represents, .inr ⟨rfl, initial, _, denied⟩⟩
  obtain ⟨ifaddr, hread, hinets⟩ := readEntries_of_represents hrep fun i hi =>
    hfull i (hinitial.subset hi)
  refine ⟨result, list, r', ifaddr, is, hrun, hread, hresult, hsays.of_granted, fun host => ?_⟩
  have hzero : ∀ e ∈ inets (allResolved ifaddr), e.2 = 0 := by
    intro e he
    rw [inets_allResolved] at he
    obtain ⟨q, -, rfl⟩ := List.mem_map.mp he
    rfl
  rw [getLocalIPv4_of_resolved hzero, resolved_allResolved, hinets, chosen]

/-- The address 192.168.1.5, with a prefix of 24 bits. -/
def lanAddrs : List UInt8 :=
  Netlink.sampleMessage 20 ([2, 24, 128, 0, 1, 0, 0, 0] ++ [8, 0, 2, 0, 192, 168, 1, 5]) ++
    Netlink.sampleMessage 3 [0, 0, 0, 0]

def lanRun : Netlink.Run where
  receptions := [.datagram Netlink.sampleLinks Netlink.sampleLinks_lt, .interrupted,
    .datagram lanAddrs (by decide +kernel)]
  mallocs := 0
  calls := []

theorem getLocalIPv4_answers_sample : ∃ list r' ifaddr,
    Netlink.getifaddrs Netlink.sampleLibc (some []) lanRun = .ok (0, some list, r') ∧
    list.mapM readEntry = some ifaddr ∧
    ∀ host, (getLocalIPv4 0 (allResolved ifaddr) host).1 = Quad.text ⟨192, 168, 1, 5⟩ := by
  have hdata : Netlink.datagrams lanRun.receptions = [Netlink.sampleLinks] ++ [lanAddrs] := rfl
  have hsound : ∀ d ∈ Netlink.datagrams lanRun.receptions,
      Netlink.Sound Netlink.sampleLibc 7 d := by
    rw [hdata]
    simp only [List.forall_mem_append, List.forall_mem_singleton]
    exact ⟨⟨⟨by decide +kernel, by decide +kernel⟩, by decide +kernel, by decide +kernel⟩,
      ⟨by decide +kernel, by decide +kernel⟩, by decide +kernel, by decide +kernel⟩
  have hshort : ∀ d ∈ Netlink.datagrams lanRun.receptions, d.length ≤ 4096 := by
    rw [hdata]
    decide +kernel
  have hlan : Netlink.IsAnswer Netlink.sampleLibc 7 [lanAddrs] :=
    ⟨by decide +kernel, by decide +kernel, by decide⟩
  obtain ⟨result, list, r', ifaddr, is, hrun, hread, hresult, hzero, htext⟩ :=
    @getLocalIPv4_answers Netlink.sampleLibc [] lanRun _ _ hsound rfl (by decide) (by decide)
      (fun _ => by simp [Netlink.sampleLibc]) (by decide) hdata hshort
      Netlink.sampleLinks_answer hlan (by decide +kernel)
  obtain rfl := hzero fun _ _ => rfl
  obtain ⟨-, rfl⟩ := hresult.resolve_right fun h => nomatch h.1
  refine ⟨list, r', ifaddr, hrun, hread, fun host => (htext host).trans ?_⟩
  decide +kernel

end Selection

end AutoTest.LocalAddress
