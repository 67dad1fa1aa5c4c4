import AutoTest.InterfaceRuns

/-!
# What a caller of `getifaddrs` can rely on

On everything that the kernel may send, however it is cut into datagrams and whatever fails: no
access outside of the memory that was received or allocated, a list that says what the answers say,
and all that was created released once.
-/

namespace AutoTest.Netlink

open RecordWalks ByteBlocks ReleaseLedgers

section Sample

def sampleLibc : Libc where
  getpid := 1234
  granted _ _ := true
  socketRet := 7
  bindRet := 0
  sendtoRet _ := 17

/-- A message to the process 1234, for its socket 7. -/
def sampleMessage (type : ℕ) (body : List UInt8) : List UInt8 :=
  leBytes 4 (16 + body.length) ++ leBytes 2 type ++ leBytes 2 2 ++ leBytes 4 7 ++
    leBytes 4 1234 ++ body

/-- The loopback interface, with its name. -/
def sampleLinks : List UInt8 :=
  sampleMessage 16 ([0, 0, 4, 3, 1, 0, 0, 0, 73, 0, 0, 0, 0, 0, 0, 0] ++
    [7, 0, 3, 0, 108, 111, 0, 0]) ++ sampleMessage 3 [0, 0, 0, 0]

/-- The address 127.0.0.1, with a prefix of 8 bits. -/
def sampleAddrs : List UInt8 :=
  sampleMessage 20 ([2, 8, 128, 254, 1, 0, 0, 0] ++ [8, 0, 1, 0, 127, 0, 0, 1] ++
    [8, 0, 2, 0, 127, 0, 0, 1]) ++ sampleMessage 3 [0, 0, 0, 0]

theorem sampleLinks_lt : sampleLinks.length < 2 ^ 31 := by decide +kernel

def sampleRun : Run where
  receptions := [.interrupted, .datagram sampleLinks sampleLinks_lt,
    .datagram sampleAddrs (by decide +kernel)]
  mallocs := 0
  calls := []

theorem sample_datagrams : datagrams sampleRun.receptions = [sampleLinks, sampleAddrs] := rfl

theorem sample_sound : ∀ d ∈ datagrams sampleRun.receptions, Sound sampleLibc 7 d := by
  intro d hd
  rw [sample_datagrams] at hd
  simp only [List.mem_cons, List.not_mem_nil, or_false] at hd
  rcases hd with rfl | rfl
  all_goals exact ⟨⟨by decide +kernel, by decide +kernel⟩, by decide +kernel, by decide +kernel⟩

theorem sampleLinks_answer : IsAnswer sampleLibc 7 [sampleLinks] :=
  ⟨by decide +kernel, by decide +kernel, by decide⟩

theorem sampleAddrs_answer : IsAnswer sampleLibc 7 [sampleAddrs] :=
  ⟨by decide +kernel, by decide +kernel, by decide⟩

theorem sample_short : ∀ d ∈ datagrams sampleRun.receptions, d.length ≤ 4096 := by
  rw [sample_datagrams]
  decide +kernel

end Sample

section Safety

variable {libc : Libc} {old : List Ifaddrs} {r : Run}

end Safety

section Sizes

variable {libc : Libc} {socket : ℤ} {r : Run} {bytes : List UInt8} {rest : List Reception}
  {n size fuel : ℕ} {buffer : Option ℕ}

theorem leNat_replicate (k : ℕ) : leNat (List.replicate k 0) = 0 := by
  induction k with
  | zero => rfl
  | succ k ih => rw [List.replicate_succ, leNat, ih]; rfl

/-- One message of all bytes, to no process: the counter of the loop wraps around behind it. -/
def overrun (n : ℕ) : List UInt8 := leBytes 4 n ++ List.replicate (n - 4) 0

theorem length_overrun (h : 16 ≤ n) : (overrun n).length = n := by
  rw [overrun, List.length_append, length_leBytes, List.length_replicate]
  omega

theorem scan_overrun (hpid : libc.getpid ≠ 0) (hheader : 16 ≤ n) (hdvd : ¬ 4 ∣ n)
    (hlt : n < 2 ^ 31) :
    nlmsg.each .fault (scanMessage libc socket) ⟨overrun n, n⟩ false = .error .fault := by
  have hwalk : nlmsg.walk ⟨overrun n, n⟩ = ([⟨overrun n, n⟩], true) :=
    Format.walk_overrun hheader hdvd (lt_trans hlt (by decide)) (by
      change n + 16 + 4 ≤ 2 ^ 32
      omega)
  have hpidField : field (overrun n) 12 4 = .ok 0 := by
    have hlen := length_overrun hheader
    have hdrop : ((overrun n).drop 12).take 4 = List.replicate 4 0 := by
      rw [overrun, List.drop_append, length_leBytes, List.drop_of_length_le (by simp),
        List.nil_append, List.drop_replicate, List.take_replicate]
      congr 1
      omega
    rw [field_of_le (by omega), hdrop, leNat_replicate]
  have hours : ours libc socket ⟨overrun n, n⟩ = .ok false := by
    rw [ours, hpidField, ok_bind, if_neg (fun heq => hpid (by rw [← heq]; rfl))]
    rfl
  rw [Format.each, hwalk]
  dsimp only [run]
  rw [scanMessage, hours]
  rfl

theorem scan_ok (libc : Libc) (socket : ℤ) (h : 4 ∣ bytes.length ∨ bytes.length < 16)
    (hlt : bytes.length < 2 ^ 31) :
    ∃ result, nlmsg.each .fault (scanMessage libc socket) ⟨bytes, bytes.length⟩ false =
      .ok result := by
  rcases h with hdvd | hshort
  · exact ⟨_, scan_eq ⟨hdvd, hlt⟩⟩
  · have hwalk : nlmsg.walk ⟨bytes, bytes.length⟩ = ([], false) :=
      Format.walk_of_false (if_pos hshort)
    refine ⟨.inl false, ?_⟩
    rw [Format.each, hwalk]
    rfl

/-- A datagram that fits in the buffer is looked at when the buffer is there. -/
theorem netlinkResponse_first {lt : bytes.length < 2 ^ 31} {block : ℕ} {r₁ : Run}
    (hm : malloc libc size (r.log [.free buffer]) = (some block, r₁))
    (hfits : bytes.length ≤ size) (hrs : r.receptions = .datagram bytes lt :: rest) :
    netlinkResponse libc socket (fuel + 1) size buffer r =
      (nlmsg.each .fault (scanMessage libc socket) ⟨bytes, bytes.length⟩ false).bind fun
      | .inl done => .ok (some ⟨block, bytes⟩, done, { r₁ with receptions := rest })
      | .inr () => .ok (none, false,
          Run.log { r₁ with receptions := rest } [.free (some block)]) := by
  have hrecv : netlinkRecv size r₁.receptions = .ok (bytes.length, bytes, rest) := by
    have hrs₁ : r₁.receptions = r.receptions := by rw [(malloc_eq hm).1]; rfl
    rw [hrs₁, hrs, netlinkRecv, if_neg (not_lt.mpr hfits)]
  have hne : (bytes.length : ℤ) ≠ -2 := by omega
  have hpos : (0 : ℤ) ≤ bytes.length := by omega
  rw [netlinkResponse, hm]
  dsimp only
  rw [hrecv, ok_bind]
  dsimp only
  rw [if_neg hne, if_pos hpos]
  rfl

/-- Whatever is in a response of `n` bytes, its messages are looked for inside of it, exactly if
`n` is a multiple of four or leaves no room for a header. -/
theorem netlinkResponse_inside_iff (hlt : n < 2 ^ 31) :
    (∀ libc socket size fuel buffer r bytes lt rest, bytes.length = n → n ≤ size →
      r.receptions = .datagram bytes lt :: rest →
      netlinkResponse libc socket (fuel + 1) size buffer r ≠ .error .fault) ↔
      4 ∣ n ∨ n < 16 := by
  constructor
  · intro h
    by_contra hnot
    obtain ⟨hdvd, hheader⟩ := not_or.mp hnot
    have hlen := length_overrun (not_lt.mp hheader)
    have hgranted : malloc sampleLibc n
        (Run.log ⟨[.datagram (overrun n) (hlen.trans_lt hlt)], 0, []⟩ [.free none]) =
        (some 0, ⟨[.datagram (overrun n) (hlen.trans_lt hlt)], 1,
          [.free none, .malloc n (some 0)]⟩) := by
      have hsize : n < 2 ^ 63 := lt_trans hlt (by decide)
      dsimp only [malloc]
      rw [if_pos ⟨hsize, rfl⟩]
      rfl
    have hscan : nlmsg.each .fault (scanMessage sampleLibc 0)
        ⟨overrun n, (overrun n).length⟩ false = .error .fault := by
      rw [hlen]
      exact scan_overrun (by decide) (not_lt.mp hheader) hdvd hlt
    refine h sampleLibc 0 n 0 none ⟨[.datagram (overrun n) (hlen.trans_lt hlt)], 0, []⟩ (overrun n)
      (hlen.trans_lt hlt) [] hlen le_rfl rfl ?_
    rw [netlinkResponse_first hgranted hlen.le rfl, hscan]
    rfl
  · rintro hn libc socket size fuel buffer r bytes lt rest rfl hfits hrs hfault
    cases hm : malloc libc size (r.log [.free buffer]) with
    | mk ret r₁ =>
      cases ret with
      | none =>
        rw [netlinkResponse, hm] at hfault
        cases hfault
      | some block =>
        obtain ⟨result, hscan⟩ := scan_ok libc socket hn lt
        rw [netlinkResponse_first hm hfits hrs, hscan] at hfault
        cases result <;> cases hfault

theorem netlinkResponse_inside_eighteen :
    (∀ libc socket size fuel buffer r bytes lt rest, bytes.length = 18 → 18 ≤ size →
      r.receptions = .datagram bytes lt :: rest →
      netlinkResponse libc socket (fuel + 1) size buffer r ≠ .error .fault) ↔
      4 ∣ 18 ∨ 18 < 16 :=
  netlinkResponse_inside_iff (by decide)

end Sizes

section Meanings

variable {libc : Libc} {old list : List Ifaddrs} {r r' : Run} {result : ℤ}

/-- When both answers come, without an error and in datagrams that fit in the first buffer, a list
is made of exactly these answers, however often `recvmsg` is interrupted. Only when a request for
memory is refused the list is an initial part of that. -/
theorem getifaddrs_answers {links addrs : List (List UInt8)}
    (hsound : ∀ d ∈ datagrams r.receptions, Sound libc libc.socketRet d) (hcalls : r.calls = [])
    (hsocket : 0 ≤ libc.socketRet) (hbind : 0 ≤ libc.bindRet) (hsend : ∀ n, 0 ≤ libc.sendtoRet n)
    (hfailed : .failed ∉ r.receptions) (hdata : datagrams r.receptions = links ++ addrs)
    (hshort : ∀ d ∈ datagrams r.receptions, d.length ≤ 4096)
    (hlinks : IsAnswer libc libc.socketRet links) (haddrs : IsAnswer libc libc.socketRet addrs) :
    ∃ result list r', getifaddrs libc (some old) r = .ok (result, some list, r') ∧
      Says libc libc.socketRet links addrs list r' result ∧
      ((∀ k size, libc.granted k size = true) → result = 0) := by
  obtain ⟨result, list, r', hrun, hsays⟩ := (getifaddrs_listing hsound hcalls).of_answers
    hsocket hbind hsend hfailed hdata hshort hlinks haddrs
  exact ⟨result, list, r', hrun, hsays, hsays.of_granted⟩

theorem getifaddrs_answers_sample : ∃ list r',
    getifaddrs sampleLibc (some []) sampleRun = .ok (0, some list, r') ∧
      Says sampleLibc 7 [sampleLinks] [sampleAddrs] list r' 0 := by
  have hdata : datagrams sampleRun.receptions = [sampleLinks] ++ [sampleAddrs] := sample_datagrams
  obtain ⟨result, list, r', hrun, hsays, hzero⟩ := getifaddrs_answers sample_sound rfl (by decide)
    (by decide) (fun _ => by simp [sampleLibc]) (by decide) hdata sample_short sampleLinks_answer
    sampleAddrs_answer
  obtain rfl := hzero fun _ _ => rfl
  exact ⟨list, r', hrun, hsays⟩

end Meanings

section Resources

variable {libc : Libc} {old list : List Ifaddrs} {r r' : Run} {result : ℤ}

end Resources

end AutoTest.Netlink
