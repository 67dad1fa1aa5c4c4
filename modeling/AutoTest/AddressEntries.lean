import AutoTest.EntryMemory

/-!
# The entry of an address

For every message whose attributes fill it and whose addresses fit in a `sockaddr` of its family,
`interpretAddr` writes inside of the block that it allocates. The kernel may give the attributes
in any order: `IFA_LOCAL` is the address of the interface when it is there, and `IFA_ADDRESS` is
then the other end.
-/

namespace AutoTest.Netlink

open RecordWalks ByteBlocks

/-- The attributes of an address, each with its payload. -/
def addrAttrs (cs : List Cursor) : List (AddrAttr × List UInt8) :=
  cs.map fun c => (.decode (attrType c), attrData c)

theorem addrAttrs_snoc (cs : List Cursor) (c : Cursor) :
    addrAttrs (cs ++ [c]) = addrAttrs cs ++ [(.decode (attrType c), attrData c)] := by
  simp [addrAttrs]

/-- An address of the interface, or of the other end. -/
def IsEnd (k : AddrAttr) : Prop := k = .address ∨ k = .loc

def IsAddress (k : AddrAttr) : Prop := IsEnd k ∨ k = .broadcast

instance (k : AddrAttr) : Decidable (IsEnd k) := inferInstanceAs (Decidable (_ ∨ _))

instance (k : AddrAttr) : Decidable (IsAddress k) := inferInstanceAs (Decidable (_ ∨ _))

/-- The room of an attribute in the area of addresses. -/
def addrRoom (family : UInt16) (a : AddrAttr × List UInt8) : ℕ :=
  if IsAddress a.1 then nlmsgAlign (calcAddrLen family a.2.length) else 0

def addrRooms (family : UInt16) (attrs : List (AddrAttr × List UInt8)) : ℕ :=
  (attrs.map (addrRoom family)).sum

@[simp] theorem addrRooms_snoc (family : UInt16) (attrs : List (AddrAttr × List UInt8))
    (a : AddrAttr × List UInt8) :
    addrRooms family (attrs ++ [a]) = addrRooms family attrs + addrRoom family a := by
  simp [addrRooms]

/-- The room of a netmask. -/
def maskRoom (family : UInt16) : ℕ := if family = afInet then 16 else 28

theorem calcAddrLen_inet {family : UInt16} (h : IsInet family) (n : ℕ) :
    nlmsgAlign (calcAddrLen family n) = maskRoom family ∧
      calcAddrLen family n = maskRoom family := by
  have hlen : calcAddrLen family n = maskRoom family := by
    rcases h with rfl | rfl
    · rfl
    · unfold calcAddrLen maskRoom
      rw [if_neg (by decide), if_pos rfl, if_neg (by decide)]
  have halign : nlmsgAlign (maskRoom family) = maskRoom family := by
    rcases h with rfl | rfl <;> decide
  exact ⟨by rw [hlen, halign], hlen⟩

/-- The room that the first pass makes for a label. -/
def labelSpace (c : Cursor) : ℕ :=
  match AddrAttr.decode (attrType c) with
  | .label => nlmsgAlign (c.left + 1)
  | .address | .loc | .broadcast | .other => 0

section Measured

variable {hdr c c' : Cursor} {family : UInt16} {attrs : List (AddrAttr × List UInt8)}
  {sizes sizes' : AddrSizes}

/-- The sizes have room for these attributes, and for a netmask if there is an address that may
get one. -/
structure AddrMeasured (family : UInt16) (attrs : List (AddrAttr × List UInt8))
    (sizes : AddrSizes) : Prop where
  addrs : sizes.addrSize =
    addrRooms family attrs + if sizes.addedNetmask then maskRoom family else 0
  added : sizes.addedNetmask ↔ IsInet family ∧ ∃ a ∈ attrs, IsEnd a.1
  names : ∀ a ∈ attrs, a.1 = .label → a.2.length + 1 ≤ sizes.nameSize

theorem AddrMeasured.names_snoc (h : AddrMeasured family attrs sizes) {a : AddrAttr × List UInt8}
    (ha : a.1 = .label → a.2.length + 1 ≤ sizes.nameSize) :
    ∀ a' ∈ attrs ++ [a], a'.1 = .label → a'.2.length + 1 ≤ sizes.nameSize := by
  intro a' ha' hlabel
  rcases List.mem_append.mp ha' with hin | hin
  · exact h.names a' hin hlabel
  · obtain rfl := List.mem_singleton.mp hin
    exact ha hlabel

theorem measureEnd_measured (h : AddrMeasured family attrs sizes) {a : AddrAttr × List UInt8}
    (ha : IsEnd a.1) :
    AddrMeasured family (attrs ++ [a])
      (measureEnd family (nlmsgAlign (calcAddrLen family a.2.length)) sizes) := by
  have haddrs := h.addrs
  have hadded := h.added
  have hroom : addrRoom family a = nlmsgAlign (calcAddrLen family a.2.length) := if_pos (.inl ha)
  have hlabel : a.1 ≠ .label := by
    rcases ha with hk | hk <;> rw [hk] <;> decide
  have hnames := h.names_snoc (a := a) fun hk => absurd hk hlabel
  unfold measureEnd
  by_cases hfirst : IsInet family ∧ ¬ sizes.addedNetmask
  · rw [if_pos hfirst]
    have hmask := (calcAddrLen_inet hfirst.1 a.2.length).1
    rw [if_neg hfirst.2] at haddrs
    refine ⟨?_, ?_, hnames⟩
    · rw [addrRooms_snoc, hroom, if_pos rfl]
      simp only
      omega
    · exact iff_of_true rfl ⟨hfirst.1, a, by simp, ha⟩
  · rw [if_neg hfirst]
    refine ⟨?_, ?_, hnames⟩
    · rw [addrRooms_snoc, hroom]
      simp only
      omega
    · rw [hadded]
      refine and_congr_right fun hinet => iff_of_true ?_ ⟨a, by simp, ha⟩
      have hset : sizes.addedNetmask = true := by
        by_contra hnot
        exact hfirst ⟨hinet, hnot⟩
      exact (hadded.mp hset).2

theorem exists_end_snoc {a : AddrAttr × List UInt8} (ha : ¬ IsEnd a.1) :
    (∃ a' ∈ attrs ++ [a], IsEnd a'.1) ↔ ∃ a' ∈ attrs, IsEnd a'.1 := by
  simp [or_and_right, exists_or, ha]

theorem measureAddr_spec (hc : rta.Inside c c') (hleft : c.left < 2 ^ 31)
    (h : AddrMeasured family attrs sizes) :
    ∃ sizes', measureAddr family sizes c' = .ok sizes' ∧
      AddrMeasured family (attrs ++ [(.decode (attrType c'), attrData c')]) sizes' := by
  have hle := hc.leftLe
  have hpay := rtaPayload_le hc
  have hname := le_nlmsgAlign (n := c'.left + 1) (by omega)
  have hlen := length_attrData hc
  have haddrs := h.addrs
  rw [measureAddr, rtaType_eq hc, ok_bind, ← hlen]
  cases hkind : AddrAttr.decode (attrType c') with
  | address => exact ⟨_, rfl, measureEnd_measured h (.inl rfl)⟩
  | loc => exact ⟨_, rfl, measureEnd_measured h (.inr rfl)⟩
  | broadcast =>
    refine ⟨_, rfl, ?_, ?_, h.names_snoc (by simp)⟩
    · rw [addrRooms_snoc, addrRoom, if_pos (.inr rfl)]
      simp only
      omega
    · rw [exists_end_snoc (by simp [IsEnd])]
      exact h.added
  | label =>
    refine ⟨_, rfl, ?_, ?_, fun a ha hlabel => ?_⟩
    · simpa [addrRoom, IsAddress, IsEnd] using haddrs
    · rw [exists_end_snoc (by simp [IsEnd])]
      exact h.added
    · rcases List.mem_append.mp ha with hin | hin
      · exact (h.names a hin hlabel).trans (Nat.le_add_right _ _)
      · obtain rfl := List.mem_singleton.mp hin
        change (attrData c').length + 1 ≤ sizes.nameSize + nlmsgAlign (c'.left + 1)
        omega
  | other =>
    refine ⟨sizes, rfl, ?_, ?_, h.names_snoc (by simp)⟩
    · simpa [addrRoom, IsAddress, IsEnd] using haddrs
    · rw [exists_end_snoc (by simp [IsEnd])]
      exact h.added

theorem measureEnd_names (family : UInt16) (len : ℕ) (s : AddrSizes) :
    (measureEnd family len s).nameSize = s.nameSize := by
  unfold measureEnd
  split_ifs <;> rfl

theorem measureAddr_names (hc : rta.Inside c c') (hm : measureAddr family sizes c' = .ok sizes') :
    sizes'.nameSize = sizes.nameSize + labelSpace c' := by
  rw [measureAddr, rtaType_eq hc, ok_bind] at hm
  unfold labelSpace
  cases hkind : AddrAttr.decode (attrType c') with
  | address | loc =>
    rw [hkind] at hm
    obtain rfl := Except.ok.inj hm
    exact measureEnd_names _ _ _
  | broadcast | label | other =>
    rw [hkind] at hm
    obtain rfl := Except.ok.inj hm
    rfl

theorem measureAddr_fold (family : UInt16) (h : Readable hdr 8) :
    ∃ sizes, rta.fold .fault (measureAddr family) (attributes hdr 8) ⟨0, 0, false⟩ = .ok sizes ∧
      AddrMeasured family (addrAttrs (rta.walk (attributes hdr 8)).1) sizes ∧
      sizes.nameSize = ((rta.walk (attributes hdr 8)).1.map labelSpace).sum := by
  have hleft := h.left (by decide)
  have hlt := h.lengthLt
  refine Format.fold_rule (fun done sizes => AddrMeasured family (addrAttrs done) sizes ∧
      sizes.nameSize = (done.map labelSpace).sum)
    (h.aligned (by decide)) (fun done c rest sizes _ hc hI => ?_)
    ⟨⟨rfl, by simp [addrAttrs], by simp [addrAttrs]⟩, rfl⟩
  obtain ⟨sizes', hmeasure, hmeas⟩ := measureAddr_spec hc (by omega) hI.1
  refine ⟨sizes', hmeasure, ?_, ?_⟩
  · rwa [addrAttrs_snoc]
  · rw [measureAddr_names hc hmeasure, hI.2]
    simp

end Measured

section Ends

variable {attrs : List (AddrAttr × List UInt8)}

/-- Which payloads are the address and the destination or broadcast address. -/
structure Ends where
  addr : Option (List UInt8)
  dstaddr : Option (List UInt8)

/-- In a point-to-point network `IFA_ADDRESS` is the other end, and `IFA_LOCAL` the own one. -/
def Ends.see (p : Ends) : AddrAttr × List UInt8 → Ends
  | (.address, data) =>
    if p.addr.isSome then { p with dstaddr := some data } else { p with addr := some data }
  | (.loc, data) => ⟨some data, p.addr.or p.dstaddr⟩
  | (.broadcast, data) => { p with dstaddr := some data }
  | (.label, _) | (.other, _) => p

def endsOf (attrs : List (AddrAttr × List UInt8)) : Ends := attrs.foldl Ends.see ⟨none, none⟩

theorem endsOf_snoc (attrs : List (AddrAttr × List UInt8)) (a : AddrAttr × List UInt8) :
    endsOf (attrs ++ [a]) = (endsOf attrs).see a := by
  simp [endsOf]

theorem addr_isSome_iff (attrs : List (AddrAttr × List UInt8)) :
    (endsOf attrs).addr.isSome ↔ ∃ a ∈ attrs, IsEnd a.1 := by
  induction attrs using List.reverseRecOn with
  | nil => simp [endsOf]
  | append_singleton attrs a ih =>
    obtain ⟨k, data⟩ := a
    rw [endsOf_snoc]
    cases k with
    | address => cases haddr : (endsOf attrs).addr <;> simp [Ends.see, haddr, IsEnd]
    | loc => simp [Ends.see, IsEnd]
    | broadcast | label | other =>
      rw [exists_end_snoc (by simp [IsEnd])]
      exact ih

end Ends

section Filled

variable {hdr c c' : Cursor} {family : UInt16} {info : List UInt8} {b b' : Block}
  {index lo hi lo' hi' off : ℕ} {data : List UInt8} {attrs : List (AddrAttr × List UInt8)}
  {sizes : AddrSizes} {s : Filling}

/-- An address that needs its link to be of use. -/
def IsLinkLocal : List UInt8 → Prop
  | a :: b :: _ => a = 0xfe ∧ b &&& 0xc0 = 0x80 ∨ a = 0xff ∧ b &&& 0x0f = 0x02
  | _ => False

instance : (data : List UInt8) → Decidable (IsLinkLocal data)
  | _ :: _ :: _ => inferInstanceAs (Decidable (_ ∨ _))
  | [_] | [] => inferInstanceAs (Decidable False)

theorem and_toNat (b m v : UInt8) : b.toNat &&& m.toNat = v.toNat ↔ b &&& m = v := by
  rw [← UInt8.toNat_and, UInt8.toNat_inj]

theorem linkLocal_eq (a b : UInt8) (rest : List UInt8) :
    linkLocal (a :: b :: rest) = .ok (decide (IsLinkLocal (a :: b :: rest))) := by
  have hfirst : field (a :: b :: rest) 0 1 = .ok a.toNat := by
    rw [field_of_le (by simp)]
    simp [leNat]
  have hsecond : field (a :: b :: rest) 1 1 = .ok b.toNat := by
    rw [field_of_le (by simp)]
    simp [leNat]
  have hfe : a.toNat = 0xfe ↔ a = 0xfe := UInt8.toNat_inj (b := 0xfe)
  have hff : a.toNat = 0xff ↔ a = 0xff := UInt8.toNat_inj (b := 0xff)
  have hunicast : b.toNat &&& 0xc0 = 0x80 ↔ b &&& 0xc0 = 0x80 := and_toNat b 0xc0 0x80
  have hmulticast : b.toNat &&& 0x0f = 0x02 ↔ b &&& 0x0f = 0x02 := and_toNat b 0x0f 0x02
  rw [linkLocal, hfirst, ok_bind]
  simp only [hfe, hff, hsecond, ok_bind, hunicast, hmulticast]
  by_cases h : a = 0xfe
  · simp [IsLinkLocal, h]
    rfl
  · by_cases h' : a = 0xff
    · simp [IsLinkLocal, h']
      rfl
    · simp [IsLinkLocal, h, h']
      rfl

/-- What a message says of an IP address: a link-local IPv6 one is of use with the index of its
link only. -/
def inetAddress (index : ℕ) (family : UInt16) (bytes : List UInt8) : Address :=
  ⟨family, bytes, none, none, if family = afInet6 ∧ IsLinkLocal bytes then some index else none⟩

def maskAddress (family : UInt16) (mask : List UInt8) : Address := ⟨family, mask, none, none, none⟩

/-- The `sockaddr` of an IP address. Its port is never written, and its scope only if it has one. -/
structure LaidOut (b : Block) (off : ℕ) (a : Address) : Prop where
  addressAt : AddressAt b off a
  portUnwritten : IsInet a.family → Unwritten b (off + 2) (off + 4)
  scopeUnwritten : a.family = afInet6 → a.sin6ScopeId = none → Unwritten b (off + 24) (off + 28)

/-- The address of a message between two offsets. -/
structure InetAddrAt (index : ℕ) (family : UInt16) (lo hi : ℕ) (b : Block) (off : ℕ)
    (data : List UInt8) : Prop where
  loLe : lo ≤ off
  leHi : off + calcAddrLen family data.length ≤ hi
  fits : Fits family data.length
  sockaddrAt : SockaddrAt b off family data
  portUnwritten : IsInet family → Unwritten b (off + 2) (off + 4)
  scopeAt : family = afInet6 → IsLinkLocal data → HasAt b (off + 24) (leBytes 4 index)
  scopeUnwritten : family = afInet6 → ¬ IsLinkLocal data → Unwritten b (off + 24) (off + 28)

theorem InetAddrAt.laidOut (h : InetAddrAt index family lo hi b off data) :
    LaidOut b off (inetAddress index family data) := by
  have hplain := h.sockaddrAt.addressAt
  refine ⟨⟨h.sockaddrAt, hplain.ifindexAt, hplain.hatypeAt, fun n hn => ?_⟩, h.portUnwritten,
    fun h6 hnone => ?_⟩
  · by_cases hlocal : family = afInet6 ∧ IsLinkLocal data
    · rw [inetAddress, if_pos hlocal] at hn
      obtain rfl := Option.mem_some.mp hn
      exact h.scopeAt hlocal.1 hlocal.2
    · rw [inetAddress, if_neg hlocal] at hn
      cases hn
  · refine h.scopeUnwritten h6 fun hlocal => ?_
    rw [inetAddress, if_pos ⟨h6, hlocal⟩] at hnone
    cases hnone

theorem calcAddrLen_inet6 (n : ℕ) : calcAddrLen afInet6 n = 28 := rfl

theorem sixteen_le_calcAddrLen (h : IsInet family) (n : ℕ) : 16 ≤ calcAddrLen family n := by
  rcases h with rfl | rfl
  · exact le_rfl
  · rw [calcAddrLen_inet6]
    decide

theorem InetAddrAt.changed (h : InetAddrAt index family lo hi b off data)
    (hch : ChangedIn b b' lo' hi') (hapart : hi ≤ lo' ∨ hi' ≤ lo) :
    InetAddrAt index family lo hi b' off data := by
  have hlo := h.loLe
  have hhi := h.leHi
  have hindex : (leBytes 4 index).length = 4 := length_leBytes _ _
  refine ⟨hlo, hhi, h.fits, h.sockaddrAt.changed h.fits hch (by omega), fun hinet => ?_,
    fun h6 hlocal => ?_, fun h6 hglobal => ?_⟩
  · have hlen := sixteen_le_calcAddrLen hinet data.length
    exact (h.portUnwritten hinet).changed hch (by omega)
  · rw [h6, calcAddrLen_inet6] at hhi
    exact (h.scopeAt h6 hlocal).changed hch (by omega)
  · rw [h6, calcAddrLen_inet6] at hhi
    exact (h.scopeUnwritten h6 hglobal).changed hch (by omega)

theorem InetAddrAt.mono (h : InetAddrAt index family lo hi b off data) (hlo : lo' ≤ lo)
    (hhi : hi ≤ hi') : InetAddrAt index family lo' hi' b off data :=
  ⟨hlo.trans h.loLe, h.leHi.trans hhi, h.fits, h.sockaddrAt, h.portUnwritten, h.scopeAt,
    h.scopeUnwritten⟩

theorem linkLocal_rtaData (hc : rta.Inside c c') (hpay : 2 ≤ rtaPayload c') :
    linkLocal (rtaData c') = .ok (decide (IsLinkLocal (attrData c'))) := by
  have hle := rtaPayload_le_data hc
  obtain ⟨n, hn⟩ := Nat.exists_eq_add_of_le' hpay
  obtain ⟨a, b, rest, hdata⟩ : ∃ a b rest, rtaData c' = a :: b :: rest := by
    match hdata : rtaData c' with
    | a :: b :: rest => exact ⟨a, b, rest, rfl⟩
    | [_] | [] =>
      rw [hdata] at hle
      simp at hle
      omega
  have hattr : attrData c' = a :: b :: rest.take n := by
    rw [attrData, hdata, hn]
    rfl
  rw [hdata, hattr, linkLocal_eq]
  rfl

/-- The scope is the last part of a `sockaddr` that is written, if it is. -/
theorem putScope_spec (off : ℕ) (hc : rta.Inside c c') (hinfo : 8 ≤ info.length)
    (hfits : Fits family (rtaPayload c')) (hroom : family = afInet6 → off + 28 ≤ b.length) :
    ∃ b', putScope info family b off (rtaData c') = .ok b' ∧
      (family = afInet6 → IsLinkLocal (attrData c') →
        HasAt b' (off + 24) (leBytes 4 (infoIndex info)) ∧
          ChangedIn b b' (off + 24) (off + 28)) ∧
      (¬ (family = afInet6 ∧ IsLinkLocal (attrData c')) → b' = b) := by
  by_cases h6 : family = afInet6
  · have hlen : ((info.drop 4).take 4).length = 4 := by simp; omega
    rw [putScope, if_pos h6, linkLocal_rtaData hc (hfits.2 h6).1, ok_bind]
    by_cases hlocal : IsLinkLocal (attrData c')
    · obtain ⟨b', hput, hat, hch⟩ := put_spec b (off + 24) ((info.drop 4).take 4) (by
        have := hroom h6
        omega)
      rw [hlen] at hch
      rw [← leBytes_infoIndex (by omega)] at hat
      refine ⟨b', ?_, fun _ _ => ⟨hat, hch⟩, fun hnot => absurd ⟨h6, hlocal⟩ hnot⟩
      rw [if_pos (decide_eq_true hlocal), read_of_le (by omega), ok_bind, hput]
    · refine ⟨b, ?_, fun _ h => absurd h hlocal, fun _ => rfl⟩
      rw [if_neg (by simpa using hlocal)]
      rfl
  · exact ⟨b, if_neg h6, fun h => absurd h h6, fun _ => rfl⟩

theorem putAddress_spec (hc : rta.Inside c c') (hinfo : 8 ≤ info.length)
    (hfits : Fits family (rtaPayload c')) (hpacket : family ≠ afPacket)
    (hroom : s.addr + calcAddrLen family (rtaPayload c') ≤ s.entry.tail.length)
    (hfresh : Unwritten s.entry.tail s.addr (s.addr + calcAddrLen family (rtaPayload c'))) :
    ∃ tail, putAddress info family s c' = .ok tail ∧
      InetAddrAt (infoIndex info) family s.addr (s.addr + calcAddrLen family (rtaPayload c')) tail
        s.addr (attrData c') ∧
      ChangedIn s.entry.tail tail s.addr (s.addr + calcAddrLen family (rtaPayload c')) := by
  have hlen := length_attrData hc
  have htwo := two_le_addrOffset family
  have haddr := addrOffset_add_le hfits
  obtain ⟨b₁, hmake, hat, hch₁, hgap⟩ := makeSockaddr_spec (hlen.symm ▸ hfits)
    (hlen.symm ▸ hroom)
  rw [hlen] at hch₁
  obtain ⟨b₂, hput, hscope, hsame⟩ := putScope_spec (b := b₁) s.addr hc hinfo hfits (by
    rintro rfl
    rw [calcAddrLen_inet6] at hroom
    have := hch₁.length
    omega)
  have hread : putAddress info family s c' = .ok b₂ := by
    rw [putAddress, read_attrData hc, ok_bind, hmake, ok_bind, hput]
  have hport (hinet : IsInet family) : Unwritten b₁ (s.addr + 2) (s.addr + 4) := by
    intro i hi hi'
    have hoff : 4 ≤ addrOffset family := by
      rcases hinet with rfl | rfl <;> decide
    rw [hgap hpacket i hi (by omega)]
    exact hfresh i (by omega) (by omega)
  by_cases hlocal : family = afInet6 ∧ IsLinkLocal (attrData c')
  · obtain ⟨h6, hll⟩ := hlocal
    obtain ⟨hsc, hch₂⟩ := hscope h6 hll
    have hoff : addrOffset family = 8 := by rw [h6]; decide
    have hsize : calcAddrLen family (rtaPayload c') = 28 := by rw [h6, calcAddrLen_inet6]
    have hmax := (hfits.2 h6).2
    refine ⟨b₂, hread, ⟨le_rfl, by rw [hlen], by rwa [hlen], ⟨?_, ?_, fun h => absurd h hpacket⟩,
      fun hinet => ?_, fun _ _ => hsc, fun _ h => absurd hll h⟩,
      (hch₁.mono le_rfl (by omega)).trans (hch₂.mono (by omega) (by omega))⟩
    · have hfam : (leBytes 2 family.toNat).length = 2 := length_leBytes _ _
      exact hat.familyAt.changed hch₂ (by omega)
    · exact hat.addrAt.changed hch₂ (by omega)
    · exact (hport hinet).changed hch₂ (by omega)
  · obtain rfl := hsame hlocal
    refine ⟨b₂, hread, ⟨le_rfl, by rw [hlen], by rwa [hlen], hat, hport, fun h6 hll => ?_,
      fun h6 _ => ?_⟩, hch₁.mono le_rfl (by omega)⟩
    · exact absurd ⟨h6, hll⟩ hlocal
    · have hoff : addrOffset family = 8 := by rw [h6]; decide
      have hsize : calcAddrLen family (rtaPayload c') = 28 := by rw [h6, calcAddrLen_inet6]
      have hmax := (hfits.2 h6).2
      exact (hfresh.mono (by omega) (by omega)).changed hch₁ (by omega)

/-- What every entry of an address has, whatever its attributes: the block, and what it takes from
the link that it is for. -/
structure Start where
  block : ℕ
  other : NamePtr
  flags : ℕ

/-- The entry of an address after some of its attributes. -/
structure AddrFilled (info : List UInt8) (family : UInt16) (sizes : AddrSizes) (start : Start)
    (attrs : List (AddrAttr × List UInt8)) (s : Filling) : Prop where
  own : s.entry.block = start.block
  flags : s.entry.ifaFlags = start.flags
  netmask : s.entry.ifaNetmask = none
  data : s.entry.ifaData = none
  length : s.entry.tail.length = sizes.nameSize + sizes.addrSize
  cursor : s.addr = sizes.nameSize + addrRooms family attrs
  name : NameOf start.other start.block 0 s.entry.tail s.entry.ifaName (lastOf .label attrs)
  nameRoom : ∀ data ∈ lastOf .label attrs, data.length + 1 ≤ sizes.nameSize
  addr : Option.Rel (InetAddrAt (infoIndex info) family sizes.nameSize s.addr s.entry.tail)
    s.entry.ifaAddr (endsOf attrs).addr
  dstaddr : Option.Rel (InetAddrAt (infoIndex info) family sizes.nameSize s.addr s.entry.tail)
    s.entry.ifaDstaddr (endsOf attrs).dstaddr
  unwritten : Unwritten s.entry.tail s.addr (sizes.nameSize + sizes.addrSize)

theorem AddrMeasured.room {a : AddrAttr × List UInt8} {rest : List (AddrAttr × List UInt8)}
    (h : AddrMeasured family (attrs ++ a :: rest) sizes) :
    addrRooms family attrs + addrRoom family a ≤ sizes.addrSize := by
  rw [h.addrs]
  simp [addrRooms]
  omega

theorem calcAddrLen_le (family : UInt16) (n : ℕ) : calcAddrLen family n ≤ 28 + n := by
  unfold calcAddrLen maxSize
  split_ifs <;> omega

/-- An attribute with an address: it goes behind the addresses so far, and no pointer moves. -/
theorem AddrFilled.address {start : Start} (h : AddrFilled info family sizes start attrs s)
    (hc : rta.Inside c c') (hinfo : 8 ≤ info.length) (hfits : Fits family (rtaPayload c'))
    (hpacket : family ≠ afPacket)
    (hroom : addrRooms family attrs + nlmsgAlign (calcAddrLen family (rtaPayload c')) ≤
      sizes.addrSize) :
    ∃ tail addr, putAddress info family s c' = .ok tail ∧
      addr = s.addr + nlmsgAlign (calcAddrLen family (rtaPayload c')) ∧
      tail.length = s.entry.tail.length ∧
      NameOf start.other start.block 0 tail s.entry.ifaName (lastOf .label attrs) ∧
      (∀ off data, InetAddrAt (infoIndex info) family sizes.nameSize s.addr s.entry.tail off data →
        InetAddrAt (infoIndex info) family sizes.nameSize addr tail off data) ∧
      InetAddrAt (infoIndex info) family sizes.nameSize addr tail s.addr (attrData c') ∧
      Unwritten tail addr (sizes.nameSize + sizes.addrSize) := by
  have hpay := rtaPayload_lt c'
  have hcalc := calcAddrLen_le family (rtaPayload c')
  have halign := le_nlmsgAlign (n := calcAddrLen family (rtaPayload c')) (by omega)
  have hcursor := h.cursor
  have hlength := h.length
  obtain ⟨tail, hput, hat, hch⟩ := putAddress_spec (s := s) hc hinfo hfits hpacket (by omega)
    (h.unwritten.mono le_rfl (by omega))
  exact ⟨tail, _, hput, rfl, hch.length, h.name.changed h.nameRoom hch (by omega),
    fun off data hoff => (hoff.changed hch (by omega)).mono le_rfl (by omega),
    hat.mono (by omega) (by omega), (h.unwritten.mono (by omega) le_rfl).changed hch (by omega)⟩

/-- The pointers to the addresses may change when an address is added; the rest stays. -/
theorem AddrFilled.place {start : Start} {k : AddrAttr}
    (h : AddrFilled info family sizes start attrs s) (own dst : Option ℕ) (hk : IsAddress k)
    (hc : rta.Inside c c') (hinfo : 8 ≤ info.length) (hfits : Fits family (rtaPayload c'))
    (hpacket : family ≠ afPacket)
    (hroom : addrRooms family attrs + addrRoom family (k, attrData c') ≤ sizes.addrSize)
    (hends : ∀ r : ℕ → List UInt8 → Prop, Option.Rel r s.entry.ifaAddr (endsOf attrs).addr →
      Option.Rel r s.entry.ifaDstaddr (endsOf attrs).dstaddr → r s.addr (attrData c') →
      Option.Rel r own ((endsOf attrs).see (k, attrData c')).addr ∧
        Option.Rel r dst ((endsOf attrs).see (k, attrData c')).dstaddr) :
    ∃ tail, putAddress info family s c' = .ok tail ∧
      AddrFilled info family sizes start (attrs ++ [(k, attrData c')])
        ⟨{ s.entry with tail, ifaAddr := own, ifaDstaddr := dst },
          s.addr + nlmsgAlign (calcAddrLen family (rtaPayload c'))⟩ := by
  have hlen := length_attrData hc
  have hcursor := h.cursor
  have hlabel : k ≠ .label := by
    rcases hk with (hk | hk) | hk <;> rw [hk] <;> decide
  rw [addrRoom, if_pos hk, hlen] at hroom
  obtain ⟨tail, addr, hput, rfl, htail, hname, hkeep, hat, hun⟩ :=
    h.address hc hinfo hfits hpacket hroom
  obtain ⟨haddr, hdst⟩ := hends _ (rel_mono hkeep h.addr) (rel_mono hkeep h.dstaddr) hat
  refine ⟨tail, hput, h.own, h.flags, h.netmask, h.data, htail.trans h.length, ?_, ?_, ?_, ?_, ?_,
    hun⟩
  · rw [addrRooms_snoc, addrRoom, if_pos hk, hlen]
    simp only
    omega
  · simpa [lastOf_snoc, hlabel] using hname
  · simpa [lastOf_snoc, hlabel] using h.nameRoom
  · rwa [endsOf_snoc]
  · rwa [endsOf_snoc]

theorem fillAddr_spec {start : Start} (rest : List (AddrAttr × List UInt8)) (hc : rta.Inside c c')
    (hinfo : 8 ≤ info.length) (hpacket : family ≠ afPacket)
    (hfits : IsAddress (.decode (attrType c')) → Fits family (rtaPayload c'))
    (hmeas : AddrMeasured family (attrs ++ (.decode (attrType c'), attrData c') :: rest) sizes)
    (h : AddrFilled info family sizes start attrs s) :
    ∃ s', fillAddr info family s c' = .ok s' ∧
      AddrFilled info family sizes start (attrs ++ [(.decode (attrType c'), attrData c')]) s' := by
  have hlen := length_attrData hc
  have hroom := hmeas.room
  have hcursor := h.cursor
  have hlength := h.length
  have hsome := rel_isSome h.addr
  rw [fillAddr, rtaType_eq hc, ok_bind]
  cases hkind : AddrAttr.decode (attrType c') with
  | address =>
    rw [hkind] at hroom hfits
    have hk : IsAddress .address := .inl (.inl rfl)
    by_cases hown : s.entry.ifaAddr.isSome
    · obtain ⟨tail, hput, hfilled⟩ := h.place s.entry.ifaAddr (some s.addr) hk hc hinfo
        (hfits hk) hpacket hroom fun r haddr _ hat => by
          simpa [Ends.see, ← hsome, hown] using ⟨haddr, hat⟩
      simp only [hput, ok_bind, if_pos hown]
      exact ⟨_, rfl, hfilled⟩
    · obtain ⟨tail, hput, hfilled⟩ := h.place (some s.addr) s.entry.ifaDstaddr hk hc
        hinfo (hfits hk) hpacket hroom fun r _ hdst hat => by
          simpa [Ends.see, ← hsome, hown] using ⟨hat, hdst⟩
      simp only [hput, ok_bind, if_neg hown]
      exact ⟨_, rfl, hfilled⟩
  | loc =>
    rw [hkind] at hroom hfits
    have hk : IsAddress .loc := .inl (.inr rfl)
    obtain ⟨tail, hput, hfilled⟩ := h.place (some s.addr)
      (s.entry.ifaAddr.or s.entry.ifaDstaddr) hk hc hinfo (hfits hk) hpacket hroom
      fun r haddr hdst hat => ⟨.some hat, rel_or haddr hdst⟩
    simp only [hput, ok_bind]
    cases hown : s.entry.ifaAddr <;> rw [hown] at hfilled <;> exact ⟨_, rfl, hfilled⟩
  | broadcast =>
    rw [hkind] at hroom hfits
    have hk : IsAddress .broadcast := .inr rfl
    obtain ⟨tail, hput, hfilled⟩ := h.place s.entry.ifaAddr (some s.addr) hk hc hinfo
      (hfits hk) hpacket hroom fun r haddr _ hat => ⟨haddr, .some hat⟩
    simp only [hput, ok_bind]
    exact ⟨_, rfl, hfilled⟩
  | label =>
    have hfit := hmeas.names _ (List.mem_append_right _ (List.mem_cons_self ..)) hkind
    rw [hlen] at hfit
    obtain ⟨tail, hput, hat, hch⟩ := putName_spec (b := s.entry.tail) hc 0 (by omega)
    simp only [hput, ok_bind]
    refine ⟨_, rfl, h.own, h.flags, h.netmask, h.data, hch.length.trans hlength, ?_, ?_, ?_, ?_, ?_,
      h.unwritten.changed hch (by omega)⟩
    · simp [hcursor, addrRoom, IsAddress, IsEnd]
    · rw [lastOf_snoc, if_pos rfl, h.own]
      exact .own hat
    · simpa [lastOf_snoc, hlen] using hfit
    · simpa [endsOf_snoc, Ends.see] using
        rel_mono (fun _ _ hoff => hoff.changed hch (by omega)) h.addr
    · simpa [endsOf_snoc, Ends.see] using
        rel_mono (fun _ _ hoff => hoff.changed hch (by omega)) h.dstaddr
  | other =>
    refine ⟨s, rfl, h.own, h.flags, h.netmask, h.data, hlength, ?_, ?_, ?_, ?_, ?_, h.unwritten⟩
    · simp [hcursor, addrRoom, IsAddress, IsEnd]
    · simpa [lastOf_snoc] using h.name
    · simpa [lastOf_snoc] using h.nameRoom
    · simpa [endsOf_snoc, Ends.see] using h.addr
    · simpa [endsOf_snoc, Ends.see] using h.dstaddr

theorem fillAddr_fold {start : Start} (h : Readable hdr 8) (hinfo : 8 ≤ info.length)
    (hpacket : family ≠ afPacket)
    (hfits : ∀ a ∈ addrAttrs (rta.walk (attributes hdr 8)).1,
      IsAddress a.1 → Fits family a.2.length)
    (hmeas : AddrMeasured family (addrAttrs (rta.walk (attributes hdr 8)).1) sizes)
    (hs : AddrFilled info family sizes start [] s) :
    ∃ s', rta.fold .fault (fillAddr info family) (attributes hdr 8) s = .ok s' ∧
      AddrFilled info family sizes start (addrAttrs (rta.walk (attributes hdr 8)).1) s' := by
  refine Format.fold_rule (fun done s => AddrFilled info family sizes start (addrAttrs done) s)
    (h.aligned (by decide)) (fun done c rest s hwalk hc hI => ?_) hs
  rw [addrAttrs_snoc]
  refine fillAddr_spec (addrAttrs rest) hc hinfo hpacket (fun hk => ?_) ?_ hI
  · have hmem : (AddrAttr.decode (attrType c), attrData c) ∈
        addrAttrs (rta.walk (attributes hdr 8)).1 := by
      rw [hwalk]
      simp [addrAttrs]
    rw [← length_attrData hc]
    exact hfits _ hmem hk
  · rw [hwalk] at hmeas
    simpa [addrAttrs] using hmeas

end Filled

section Netmasks

variable {family : UInt16} {info : List UInt8} {attrs : List (AddrAttr × List UInt8)}
  {sizes : AddrSizes} {start : Start} {s : Filling}

theorem length_fillMask (mask : List UInt8) (i n : ℕ) :
    (fillMask mask i n).length = mask.length := by
  induction n generalizing mask i with
  | zero => rfl
  | succ n ih => rw [fillMask, ih, List.length_set]

theorem length_netmask (pre : ℕ) : (netmask pre).length = 16 := by
  have hlen := length_fillMask (List.replicate 16 0) 0 (pre / 8)
  rw [List.length_replicate] at hlen
  unfold netmask
  split_ifs
  · rw [List.length_set, hlen]
  · exact hlen

/-- `l_maxPrefix` -/
def maxPrefix (family : UInt16) : ℕ := if family = afInet then 32 else 128

/-- The bytes of a netmask for a prefix length, which may be too long. -/
def maskOf (family : UInt16) (prefixlen : ℕ) : List UInt8 :=
  (netmask (min prefixlen (maxPrefix family))).take (maxPrefix family / 8)

theorem length_maskOf (family : UInt16) (prefixlen : ℕ) :
    (maskOf family prefixlen).length = maxPrefix family / 8 := by
  rw [maskOf, List.length_take, length_netmask]
  unfold maxPrefix
  split_ifs <;> rfl

theorem fits_maskOf (family : UInt16) (prefixlen : ℕ) :
    Fits family (maskOf family prefixlen).length := by
  rw [length_maskOf]
  refine ⟨?_, ?_⟩ <;> rintro rfl <;> decide

theorem min_eq_ite (a b : ℕ) : (if a > b then b else a) = min a b := by
  split <;> omega

/-- The netmask of an entry: it has one if it has an IP address. -/
def netmaskOf (family : UInt16) (prefixlen : ℕ) (own : Option (List UInt8)) : Option Address :=
  own.bind fun _ =>
    if IsInet family then some (maskAddress family (maskOf family prefixlen)) else none

/-- A netmask that is put where nothing was written leaves its port and its scope so. -/
theorem putMask_spec {b : Block} {off prefixlen : ℕ} (hinet : IsInet family)
    (hle : off + calcAddrLen family (maskOf family prefixlen).length ≤ b.length)
    (hfresh : Unwritten b off (off + calcAddrLen family (maskOf family prefixlen).length)) :
    ∃ b', makeSockaddr family b off (maskOf family prefixlen) = .ok b' ∧
      LaidOut b' off (maskAddress family (maskOf family prefixlen)) ∧
      ChangedIn b b' off (off + calcAddrLen family (maskOf family prefixlen).length) := by
  obtain ⟨b', hmake, hmask, hch, hgap⟩ := makeSockaddr_spec (fits_maskOf family prefixlen) hle
  have haddr := addrOffset_add_le (fits_maskOf family prefixlen)
  refine ⟨b', hmake, ⟨hmask.addressAt, fun _ i hi hi' => ?_, fun h6 _ => ?_⟩,
    hch.mono le_rfl (by omega)⟩
  · have hport : family ≠ afPacket ∧ 4 ≤ addrOffset family := by
      rcases hinet with rfl | rfl <;> decide
    have hlen := sixteen_le_calcAddrLen hinet (maskOf family prefixlen).length
    rw [hgap hport.1 i hi (by omega)]
    exact hfresh i (by omega) (by omega)
  · obtain rfl : family = afInet6 := h6
    have hoff : addrOffset afInet6 = 8 := by decide
    have hmasklen : (maskOf afInet6 prefixlen).length = 16 := by
      rw [length_maskOf]
      rfl
    have hsize := calcAddrLen_inet6 (maskOf afInet6 prefixlen).length
    exact (hfresh.mono (by omega) (by omega)).changed hch (by omega)

/-- The netmask goes behind the addresses, when there is an address that may get one. -/
theorem fillNetmask_spec (h : AddrFilled info family sizes start attrs s)
    (hmeas : AddrMeasured family attrs sizes) (prefixlen : ℕ) :
    ∃ e, fillNetmask prefixlen s = .ok e ∧ e.block = s.entry.block ∧
      e.ifaName = s.entry.ifaName ∧ e.ifaFlags = s.entry.ifaFlags ∧ e.ifaAddr = s.entry.ifaAddr ∧
      e.ifaDstaddr = s.entry.ifaDstaddr ∧ e.ifaData = s.entry.ifaData ∧
      ChangedIn s.entry.tail e.tail s.addr (sizes.nameSize + sizes.addrSize) ∧
      Option.Rel (LaidOut e.tail) e.ifaNetmask
        (netmaskOf family prefixlen (endsOf attrs).addr) := by
  have haddr := h.addr
  cases hown : s.entry.ifaAddr with
  | none =>
    rw [hown] at haddr
    have hnone : (endsOf attrs).addr = none := Option.not_isSome_iff_eq_none.mp (by
      rw [← rel_isSome haddr]
      simp)
    refine ⟨s.entry, by rw [fillNetmask, hown]; rfl, rfl, rfl, rfl, hown, rfl, rfl, .refl _ _ _, ?_⟩
    rw [h.netmask, hnone]
    exact .none
  | some off =>
    rw [hown] at haddr
    obtain ⟨own, hends⟩ := Option.isSome_iff_exists.mp ((rel_isSome haddr).symm.trans rfl)
    rw [hends] at haddr
    obtain ⟨hat⟩ := haddr
    have hfam : get s.entry.tail off 2 = .ok (leBytes 2 family.toNat) := by
      have hle := hat.sockaddrAt.familyAt.le_length (by simp [leBytes])
      have hget := get_of_hasAt hat.sockaddrAt.familyAt hle
      rwa [length_leBytes] at hget
    have hfamily : UInt16.ofNat (leNat (leBytes 2 family.toNat)) = family := by
      have hlt := family.toNat_lt
      rw [leNat_leBytes, Nat.mod_eq_of_lt (by omega)]
      simp
    by_cases hinet : IsInet family
    · have hadded : sizes.addedNetmask = true :=
        hmeas.added.mpr ⟨hinet, (addr_isSome_iff attrs).mp (by rw [hends]; rfl)⟩
      have hsize := hmeas.addrs
      rw [if_pos hadded] at hsize
      have hcursor := h.cursor
      have hlength := h.length
      have hroom := (calcAddrLen_inet hinet (maskOf family prefixlen).length).2
      have hle : s.addr + calcAddrLen family (maskOf family prefixlen).length ≤
          s.entry.tail.length := by
        omega
      obtain ⟨tail, hmake, hlaid, hch⟩ := putMask_spec hinet hle
        (h.unwritten.mono le_rfl (by omega))
      refine ⟨{ s.entry with tail, ifaNetmask := some s.addr }, ?_, rfl, rfl, rfl, hown, rfl, rfl,
        hch.mono le_rfl (by omega), ?_⟩
      · rw [fillNetmask, hown]
        simp only [hfam, ok_bind, hfamily, if_pos hinet, min_eq_ite]
        change (makeSockaddr family s.entry.tail s.addr (maskOf family prefixlen) >>= _) = _
        rw [hmake]
        rfl
      · rw [hends, netmaskOf, Option.bind_some, if_pos hinet]
        exact .some hlaid
    · refine ⟨s.entry, ?_, rfl, rfl, rfl, hown, rfl, rfl, .refl _ _ _, ?_⟩
      · rw [fillNetmask, hown]
        simp only [hfam, ok_bind, hfamily, if_neg hinet]
        rfl
      · rw [hends, h.netmask, netmaskOf, Option.bind_some, if_neg hinet]
        exact .none

end Netmasks

section Entries

variable {hdr : Cursor} {libc : Libc} {numLinks : ℤ} {list : List Ifaddrs} {r : Run}
  {link : Option Ifaddrs}

/-- `ifa_family` -/
def familyOf (hdr : Cursor) : UInt16 := .ofNat (leNat ((nlmsgData hdr).take 1))

/-- `ifa_prefixlen` -/
def prefixlenOf (hdr : Cursor) : ℕ := leNat (((nlmsgData hdr).drop 1).take 1)

/-- `ifa_flags` -/
def flagsOf (hdr : Cursor) : ℕ := leNat (((nlmsgData hdr).drop 2).take 1)

/-- The attributes of a message about an address. -/
def attrsOf (hdr : Cursor) : List (AddrAttr × List UInt8) :=
  addrAttrs (rta.walk (attributes hdr 8)).1

/-- The size of the block of an address's entry: a label, addresses, and a netmask. -/
def addrEntrySize (hdr : Cursor) : ℕ :=
  sizeofIfaddrs + (((rta.walk (attributes hdr 8)).1.map labelSpace).sum +
    (addrRooms (familyOf hdr) (attrsOf hdr) +
      if IsInet (familyOf hdr) ∧ ∃ a ∈ attrsOf hdr, IsEnd a.1 then maskRoom (familyOf hdr) else 0))

theorem sizeofIfaddrs_le_addrEntrySize (hdr : Cursor) : sizeofIfaddrs ≤ addrEntrySize hdr :=
  Nat.le_add_right _ _

theorem labelSpace_le {c c' : Cursor} (hc : rta.Inside c c') (hleft : c.left < 2 ^ 31) :
    labelSpace c' ≤ 2 ^ 32 := by
  have hle := hc.leftLe
  have hname := nlmsgAlign_le (c'.left + 1)
  unfold labelSpace
  split <;> omega

theorem addrRoom_le {c c' : Cursor} (family : UInt16) (hc : rta.Inside c c') :
    addrRoom family (.decode (attrType c'), attrData c') ≤ 2 ^ 32 := by
  have hpay := rtaPayload_lt c'
  have hcalc := calcAddrLen_le family (rtaPayload c')
  have halign := nlmsgAlign_le (calcAddrLen family (rtaPayload c'))
  unfold addrRoom
  rw [length_attrData hc]
  split_ifs <;> omega

/-- A block of this size can be asked for. -/
theorem addrEntrySize_lt (h : Readable hdr 8) : addrEntrySize hdr < 2 ^ 63 := by
  have hleft := h.left (by decide)
  have hlt := h.lengthLt
  have hnames := sum_rooms_le h (by decide) labelSpace fun c hc => labelSpace_le hc (by omega)
  have hrooms := sum_rooms_le h (by decide)
    (fun c => addrRoom (familyOf hdr) (.decode (attrType c), attrData c))
    fun c hc => addrRoom_le (familyOf hdr) hc
  have haddrs : addrRooms (familyOf hdr) (attrsOf hdr) ≤ 2 ^ 61 := by
    rw [addrRooms, attrsOf, addrAttrs, List.map_map]
    exact hrooms
  have hmask : maskRoom (familyOf hdr) ≤ 28 := by
    unfold maskRoom
    split_ifs <;> decide
  unfold addrEntrySize sizeofIfaddrs
  split_ifs <;> omega

/-- A message about an address, whose addresses are not too long for their family. -/
structure AddrSound (hdr : Cursor) : Prop where
  readable : Readable hdr 8
  fits : ∀ a ∈ attrsOf hdr, IsAddress a.1 → Fits (familyOf hdr) a.2.length

/-- The entry of an address, with the link that it is for, if that is known. -/
structure AddrEntry (hdr : Cursor) (link : Option Ifaddrs) (e : Ifaddrs) : Prop where
  name : NameOf (link.elim .empty (·.ifaName)) e.block 0 e.tail e.ifaName
    (lastOf .label (attrsOf hdr))
  flags : e.ifaFlags = flagsOf hdr ||| link.elim 0 (·.ifaFlags)
  addr : Option.Rel (LaidOut e.tail) e.ifaAddr
    ((endsOf (attrsOf hdr)).addr.map (inetAddress (indexOf hdr) (familyOf hdr)))
  dstaddr : Option.Rel (LaidOut e.tail) e.ifaDstaddr
    ((endsOf (attrsOf hdr)).dstaddr.map (inetAddress (indexOf hdr) (familyOf hdr)))
  netmask : Option.Rel (LaidOut e.tail) e.ifaNetmask
    (netmaskOf (familyOf hdr) (prefixlenOf hdr) (endsOf (attrsOf hdr)).addr)
  data : e.ifaData = none

theorem interpretAddr_eq (h : Readable hdr 8)
    (hfind : findInterface (indexOf hdr) numLinks 0 list = .ok link) :
    interpretAddr libc numLinks hdr list r =
      if familyOf hdr = afPacket then .ok (0, list, r)
      else addAddress libc link (familyOf hdr) hdr list r := by
  have hinfo := h.length_nlmsgData
  have hindex : field (nlmsgData hdr) 4 4 = .ok (indexOf hdr) := field_of_le (by omega)
  have hfamily : field (nlmsgData hdr) 0 1 = .ok (leNat ((nlmsgData hdr).take 1)) :=
    field_of_le (by omega)
  rw [interpretAddr, hindex, ok_bind, hfind, ok_bind, hfamily, ok_bind]
  rfl

theorem addAddress_adds (h : AddrSound hdr) (hpacket : familyOf hdr ≠ afPacket) :
    Adds libc list r (addrEntrySize hdr) (AddrEntry hdr link)
      (addAddress libc link (familyOf hdr) hdr list r) := by
  have hinfo := h.readable.length_nlmsgData
  obtain ⟨sizes, hmeasure, hmeas, hnames⟩ := measureAddr_fold (familyOf hdr) h.readable
  have hflags : field (nlmsgData hdr) 2 1 = .ok (flagsOf hdr) := field_of_le (by omega)
  have hprefix : field (nlmsgData hdr) 1 1 = .ok (prefixlenOf hdr) := field_of_le (by omega)
  rw [addAddress, hmeasure, ok_bind]
  dsimp only
  generalize hsize : sizes.nameSize + sizes.addrSize = size
  have hsize' : addrEntrySize hdr = sizeofIfaddrs + size := by
    rw [← hsize, hnames, hmeas.addrs, addrEntrySize]
    simp only [hmeas.added]
    rfl
  rw [← hsize']
  cases hm : malloc libc (addrEntrySize hdr) r with
  | mk ret r' =>
    cases ret with
    | none => exact .failed (malloc_none (addrEntrySize_lt h.readable) hm) hm
    | some block =>
      have hstart : AddrFilled (nlmsgData hdr) (familyOf hdr) sizes
          ⟨block, link.elim .empty (·.ifaName), flagsOf hdr ||| link.elim 0 (·.ifaFlags)⟩ []
          ⟨newEntry block link (flagsOf hdr) size, sizes.nameSize⟩ := by
        have hfresh := unwritten_fresh size
        cases link with
        | none =>
          exact ⟨rfl, (Nat.or_zero _).symm, rfl, rfl, (length_fresh _).trans hsize.symm, rfl,
            .other, by simp [lastOf], .none, .none, hfresh.mono (Nat.zero_le _) (by omega)⟩
        | some cur =>
          exact ⟨rfl, rfl, rfl, rfl, (length_fresh _).trans hsize.symm, rfl, .other,
            by simp [lastOf], .none, .none, hfresh.mono (Nat.zero_le _) (by omega)⟩
      obtain ⟨s, hfill, hfilled⟩ := fillAddr_fold h.readable hinfo hpacket h.fits hmeas hstart
      obtain ⟨e, hmask, hblock, hname, hflag, haddr, hdst, hdata, hch, hnet⟩ :=
        fillNetmask_spec hfilled hmeas (prefixlenOf hdr)
      have hlength := hfilled.length
      have hcursor := hfilled.cursor
      have hrooms := hmeas.addrs
      dsimp only
      rw [hflags, ok_bind, hfill, ok_bind, hprefix, ok_bind, hmask, ok_bind, addToEnd_eq]
      have hentry : AddrEntry hdr link e := by
        refine ⟨?_, hflag.trans hfilled.flags, ?_, ?_, hnet, hdata.trans hfilled.data⟩
        · rw [hblock, hfilled.own, hname]
          exact hfilled.name.changed hfilled.nameRoom hch (by omega)
        · rw [haddr]
          exact rel_map (rel_mono (fun _ _ hoff => (hoff.changed hch (by omega)).laidOut)
            hfilled.addr)
        · rw [hdst]
          exact rel_map (rel_mono (fun _ _ hoff => (hoff.changed hch (by omega)).laidOut)
            hfilled.dstaddr)
      have hown : e.block = block := hblock.trans hfilled.own
      rw [← hown] at hm
      exact .added (malloc_some hm) hm hentry

end Entries

end AutoTest.Netlink
