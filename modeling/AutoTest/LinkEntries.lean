import AutoTest.EntryMemory

/-!
# The entry of a link

For every message whose attributes fill it, whatever they are and however often each of them is
there, `interpretLink` writes inside of the block that it allocates, and its entry says what the
last attribute of each kind says.
-/

namespace AutoTest.Netlink

open RecordWalks ByteBlocks

/-- The attributes of a link, each with its payload. -/
def linkAttrs (cs : List Cursor) : List (LinkAttr × List UInt8) :=
  cs.map fun c => (.decode (attrType c), attrData c)

theorem linkAttrs_snoc (cs : List Cursor) (c : Cursor) :
    linkAttrs (cs ++ [c]) = linkAttrs cs ++ [(.decode (attrType c), attrData c)] := by
  simp [linkAttrs]

/-- The room of an attribute in the area of addresses. -/
def linkRoom (a : LinkAttr × List UInt8) : ℕ :=
  if a.1 = .address ∨ a.1 = .broadcast then nlmsgAlign (calcAddrLen afPacket a.2.length) else 0

def linkRooms (attrs : List (LinkAttr × List UInt8)) : ℕ := (attrs.map linkRoom).sum

@[simp] theorem linkRooms_snoc (attrs : List (LinkAttr × List UInt8)) (a : LinkAttr × List UInt8) :
    linkRooms (attrs ++ [a]) = linkRooms attrs + linkRoom a := by
  simp [linkRooms]

/-- The room that the first pass makes for an attribute. -/
def linkSpace (c : Cursor) : ℕ :=
  match LinkAttr.decode (attrType c) with
  | .address | .broadcast => nlmsgAlign (calcAddrLen afPacket (rtaPayload c))
  | .ifname => nlmsgAlign (c.left + 1)
  | .stats => nlmsgAlign c.left
  | .other => 0

/-- The size of the block of a link's entry, whose index is in front of its names. -/
def linkEntrySize (hdr : Cursor) : ℕ :=
  sizeofIfaddrs + (4 + ((rta.walk (attributes hdr 16)).1.map linkSpace).sum)

theorem sizeofIfaddrs_le_linkEntrySize (hdr : Cursor) : sizeofIfaddrs ≤ linkEntrySize hdr :=
  Nat.le_add_right _ _

theorem calcAddrLen_packet_le (n : ℕ) : calcAddrLen afPacket n ≤ 20 + n := by
  change maxSize 20 _ ≤ _
  unfold maxSize
  split <;> omega

section Measured

variable {hdr c c' : Cursor} {attrs : List (LinkAttr × List UInt8)} {sizes sizes' : LinkSizes}

/-- The sizes have room for these attributes. -/
structure LinkMeasured (attrs : List (LinkAttr × List UInt8)) (sizes : LinkSizes) : Prop where
  addrs : sizes.addrSize = linkRooms attrs
  names : ∀ a ∈ attrs, a.1 = .ifname → a.2.length + 1 ≤ sizes.nameSize
  stats : ∀ a ∈ attrs, a.1 = .stats → a.2.length ≤ sizes.dataSize

theorem LinkMeasured.snoc (h : LinkMeasured attrs sizes) {a : LinkAttr × List UInt8}
    (hname : sizes.nameSize ≤ sizes'.nameSize) (hdata : sizes.dataSize ≤ sizes'.dataSize)
    (haddr : sizes'.addrSize = sizes.addrSize + linkRoom a)
    (hifname : a.1 = .ifname → a.2.length + 1 ≤ sizes'.nameSize)
    (hstats : a.1 = .stats → a.2.length ≤ sizes'.dataSize) :
    LinkMeasured (attrs ++ [a]) sizes' where
  addrs := by rw [haddr, h.addrs, linkRooms_snoc]
  names a' ha' hkind := by
    rcases List.mem_append.mp ha' with hin | hin
    · exact (h.names a' hin hkind).trans hname
    · obtain rfl := List.mem_singleton.mp hin
      exact hifname hkind
  stats a' ha' hkind := by
    rcases List.mem_append.mp ha' with hin | hin
    · exact (h.stats a' hin hkind).trans hdata
    · obtain rfl := List.mem_singleton.mp hin
      exact hstats hkind

theorem measureLink_spec (hc : rta.Inside c c') (hleft : c.left < 2 ^ 31)
    (h : LinkMeasured attrs sizes) :
    ∃ sizes', measureLink sizes c' = .ok sizes' ∧
      LinkMeasured (attrs ++ [(.decode (attrType c'), attrData c')]) sizes' := by
  have hle := hc.leftLe
  have hpay := rtaPayload_le hc
  have hname := le_nlmsgAlign (n := c'.left + 1) (by omega)
  have hdata := le_nlmsgAlign (n := c'.left) (by omega)
  have hlen := length_attrData hc
  rw [measureLink, rtaType_eq hc, ok_bind]
  cases hkind : LinkAttr.decode (attrType c') with
  | address | broadcast =>
    refine ⟨_, rfl, h.snoc le_rfl le_rfl ?_ (by simp) (by simp)⟩
    simp [linkRoom, hlen]
  | ifname =>
    refine ⟨_, rfl, h.snoc (Nat.le_add_right _ _) le_rfl ?_ (fun _ => ?_) (by simp)⟩
    · simp [linkRoom]
    · change (attrData c').length + 1 ≤ sizes.nameSize + nlmsgAlign (c'.left + 1)
      omega
  | stats =>
    refine ⟨_, rfl, h.snoc le_rfl (Nat.le_add_right _ _) ?_ (by simp) fun _ => ?_⟩
    · simp [linkRoom]
    · change (attrData c').length ≤ sizes.dataSize + nlmsgAlign c'.left
      omega
  | other =>
    refine ⟨sizes, rfl, h.snoc le_rfl le_rfl ?_ (by simp) (by simp)⟩
    simp [linkRoom]

/-- The three areas together. -/
def LinkSizes.total (s : LinkSizes) : ℕ := s.nameSize + s.addrSize + s.dataSize

theorem measureLink_total (hc : rta.Inside c c') (hm : measureLink sizes c' = .ok sizes') :
    sizes'.total = sizes.total + linkSpace c' := by
  rw [measureLink, rtaType_eq hc, ok_bind] at hm
  unfold linkSpace LinkSizes.total
  cases hkind : LinkAttr.decode (attrType c') with
  | address | broadcast | ifname | stats | other =>
    rw [hkind] at hm
    obtain rfl := Except.ok.inj hm
    dsimp only
    omega

theorem linkSpace_le (hc : rta.Inside c c') (hleft : c.left < 2 ^ 31) :
    linkSpace c' ≤ 2 ^ 32 := by
  have hle := hc.leftLe
  have hpay := rtaPayload_lt c'
  have hcalc := calcAddrLen_packet_le (rtaPayload c')
  have haddr := nlmsgAlign_le (calcAddrLen afPacket (rtaPayload c'))
  have hname := nlmsgAlign_le (c'.left + 1)
  have hdata := nlmsgAlign_le c'.left
  unfold linkSpace
  split <;> omega

/-- A block of this size can be asked for. -/
theorem linkEntrySize_lt (h : Readable hdr 16) : linkEntrySize hdr < 2 ^ 63 := by
  have hleft := h.left (by decide)
  have hlt := h.lengthLt
  have hsum := sum_rooms_le h (by decide) linkSpace fun c hc => linkSpace_le hc (by omega)
  unfold linkEntrySize sizeofIfaddrs
  omega

theorem measureLink_fold (h : Readable hdr 16) :
    ∃ sizes, rta.fold .fault measureLink (attributes hdr 16) ⟨0, 0, 0⟩ = .ok sizes ∧
      LinkMeasured (linkAttrs (rta.walk (attributes hdr 16)).1) sizes ∧
      sizes.total = ((rta.walk (attributes hdr 16)).1.map linkSpace).sum := by
  have hleft := h.left (by decide)
  have hlt := h.lengthLt
  refine Format.fold_rule (fun done sizes => LinkMeasured (linkAttrs done) sizes ∧
      sizes.total = (done.map linkSpace).sum)
    (h.aligned (by decide)) (fun done c rest sizes _ hc hI => ?_)
    ⟨⟨rfl, by simp [linkAttrs], by simp [linkAttrs]⟩, rfl⟩
  obtain ⟨sizes', hmeasure, hmeas⟩ := measureLink_spec hc (by omega) hI.1
  refine ⟨sizes', hmeasure, ?_, ?_⟩
  · rwa [linkAttrs_snoc]
  · rw [measureLink_total hc hmeasure, hI.2]
    simp

end Measured

section Filled

variable {hdr c c' : Cursor} {info : List UInt8} {b b' tail : Block} {lo hi lo' hi' off : ℕ}
  {index hatype : ℕ} {data : List UInt8} {attrs : List (LinkAttr × List UInt8)}
  {sizes : LinkSizes} {s : Filling}

/-- A link-layer address, with the index and the type of its link. -/
def linkAddress (index hatype : ℕ) (bytes : List UInt8) : Address :=
  ⟨afPacket, bytes, some index, some hatype, none⟩

/-- A link-layer address between two offsets. -/
structure LinkAddrAt (index hatype lo hi : ℕ) (b : Block) (off : ℕ) (data : List UInt8) :
    Prop where
  loLe : lo ≤ off
  leHi : off + calcAddrLen afPacket data.length ≤ hi
  sockaddrAt : SockaddrAt b off afPacket data
  ifindexAt : HasAt b (off + 4) (leBytes 4 index)
  hatypeAt : HasAt b (off + 8) (leBytes 2 hatype)

theorem LinkAddrAt.addressAt (h : LinkAddrAt index hatype lo hi b off data) :
    AddressAt b off (linkAddress index hatype data) where
  sockaddrAt := h.sockaddrAt
  ifindexAt n hn := by
    obtain rfl := Option.mem_some.mp hn
    exact h.ifindexAt
  hatypeAt n hn := by
    obtain rfl := Option.mem_some.mp hn
    exact h.hatypeAt
  scopeAt := h.sockaddrAt.addressAt.scopeAt

theorem twenty_le_calcAddrLen (n : ℕ) : 20 ≤ calcAddrLen afPacket n := by
  change 20 ≤ maxSize 20 (12 + n)
  unfold maxSize
  split <;> omega

theorem LinkAddrAt.changed (h : LinkAddrAt index hatype lo hi b off data)
    (hch : ChangedIn b b' lo' hi') (hapart : hi ≤ lo' ∨ hi' ≤ lo) :
    LinkAddrAt index hatype lo hi b' off data := by
  have hlo := h.loLe
  have hhi := h.leHi
  have hlen := twenty_le_calcAddrLen data.length
  have hindex : (leBytes 4 index).length = 4 := length_leBytes _ _
  have htype : (leBytes 2 hatype).length = 2 := length_leBytes _ _
  exact ⟨hlo, hhi, h.sockaddrAt.changed (fits_packet _) hch (by omega),
    h.ifindexAt.changed hch (by omega), h.hatypeAt.changed hch (by omega)⟩

theorem LinkAddrAt.mono (h : LinkAddrAt index hatype lo hi b off data) (hhi : hi ≤ hi') :
    LinkAddrAt index hatype lo hi' b off data :=
  ⟨h.loLe, h.leHi.trans hhi, h.sockaddrAt, h.ifindexAt, h.hatypeAt⟩

theorem putLinkAddress_spec (hc : rta.Inside c c') (hinfo : 16 ≤ info.length)
    (hroom : s.addr + calcAddrLen afPacket (rtaPayload c') ≤ s.entry.tail.length) :
    ∃ tail, putLinkAddress info s c' = .ok tail ∧
      LinkAddrAt (infoIndex info) (infoType info) s.addr
        (s.addr + calcAddrLen afPacket (rtaPayload c')) tail s.addr (attrData c') ∧
      ChangedIn s.entry.tail tail s.addr (s.addr + calcAddrLen afPacket (rtaPayload c')) := by
  have hlen := length_attrData hc
  have htwenty := twenty_le_calcAddrLen (rtaPayload c')
  have hindex : ((info.drop 4).take 4).length = 4 := by simp; omega
  have htype : ((info.drop 2).take 2).length = 2 := by simp; omega
  rw [← hlen] at hroom htwenty ⊢
  have haddr := addrOffset_add_le (fits_packet (attrData c').length)
  rw [addrOffset_packet] at haddr
  obtain ⟨b₁, hmake, hat, hch, -⟩ := makeSockaddr_spec (fits_packet _) hroom
  have hch₁ : ChangedIn s.entry.tail b₁ s.addr
      (s.addr + calcAddrLen afPacket (attrData c').length) :=
    hch.mono le_rfl (by rw [addrOffset_packet]; omega)
  have hlen₁ := hch₁.length
  obtain ⟨b₂, hput₂, hat₂, hch₂⟩ := put_spec b₁ (s.addr + 4) ((info.drop 4).take 4) (by omega)
  have hlen₂ := hch₂.length
  obtain ⟨b₃, hput₃, hat₃, hch₃⟩ := put_spec b₂ (s.addr + 8) ((info.drop 2).take 2) (by omega)
  rw [hindex] at hch₂
  rw [htype] at hch₃
  rw [← leBytes_infoIndex (by omega)] at hat₂ hindex
  rw [← leBytes_infoType (by omega)] at hat₃
  refine ⟨b₃, ?_, ⟨le_rfl, le_rfl, ⟨?_, ?_, fun hp => ?_⟩, hat₂.changed hch₃ (by omega), hat₃⟩, ?_⟩
  · rw [putLinkAddress, read_attrData hc, ok_bind, hmake, ok_bind, read_of_le (by omega), ok_bind,
      hput₂, ok_bind, read_of_le (by omega), ok_bind, hput₃]
  · have htwo : (leBytes 2 afPacket.toNat).length = 2 := length_leBytes _ _
    exact (hat.familyAt.changed hch₂ (by omega)).changed hch₃ (by omega)
  · exact (hat.addrAt.changed hch₂ (by rw [addrOffset_packet]; omega)).changed hch₃
      (by rw [addrOffset_packet]; omega)
  · exact ((hat.halenAt hp).changed hch₂ (by omega)).changed hch₃ (by omega)
  · exact (hch₁.trans (hch₂.mono (by omega) (by omega))).trans (hch₃.mono (by omega) (by omega))

/-- The statistics of a link, behind its addresses. -/
structure StatsAt (sizes : LinkSizes) (b : Block) (off : ℕ) (stats : List UInt8) : Prop where
  offEq : off = 4 + sizes.nameSize + sizes.addrSize
  fits : stats.length ≤ sizes.dataSize
  statsAt : HasAt b off stats

theorem StatsAt.changed (h : StatsAt sizes b off data) (hch : ChangedIn b b' lo hi)
    (hhi : hi ≤ 4 + sizes.nameSize + sizes.addrSize) : StatsAt sizes b' off data := by
  have hoff := h.offEq
  exact ⟨hoff, h.fits, h.statsAt.changed hch (by omega)⟩

/-- The entry of a link after some of its attributes. -/
structure LinkFilled (info : List UInt8) (sizes : LinkSizes) (block : ℕ)
    (attrs : List (LinkAttr × List UInt8)) (s : Filling) : Prop where
  own : s.entry.block = block
  flags : s.entry.ifaFlags = leNat ((info.drop 8).take 4)
  netmask : s.entry.ifaNetmask = none
  length : s.entry.tail.length = 4 + sizes.nameSize + sizes.addrSize + sizes.dataSize
  cursor : s.addr = 4 + sizes.nameSize + linkRooms attrs
  index : HasAt s.entry.tail 0 ((info.drop 4).take 4)
  name : NameOf .empty block 4 s.entry.tail s.entry.ifaName (lastOf .ifname attrs)
  nameRoom : ∀ data ∈ lastOf .ifname attrs, data.length + 1 ≤ sizes.nameSize
  addr : Option.Rel (LinkAddrAt (infoIndex info) (infoType info) (4 + sizes.nameSize) s.addr
    s.entry.tail) s.entry.ifaAddr (lastOf .address attrs)
  dstaddr : Option.Rel (LinkAddrAt (infoIndex info) (infoType info) (4 + sizes.nameSize) s.addr
    s.entry.tail) s.entry.ifaDstaddr (lastOf .broadcast attrs)
  data : Option.Rel (StatsAt sizes s.entry.tail) s.entry.ifaData (lastOf .stats attrs)

theorem LinkMeasured.room {a : LinkAttr × List UInt8} {rest : List (LinkAttr × List UInt8)}
    (h : LinkMeasured (attrs ++ a :: rest) sizes) :
    linkRooms attrs + linkRoom a ≤ sizes.addrSize := by
  rw [h.addrs]
  simp [linkRooms]

/-- An attribute with an address: it goes behind the addresses so far, and no pointer moves but
those to the address of the kind. -/
theorem LinkFilled.place {block : ℕ} {k : LinkAttr} (own dst : Option ℕ)
    (h : LinkFilled info sizes block attrs s) (hk : k = .address ∨ k = .broadcast)
    (hc : rta.Inside c c') (hinfo : 16 ≤ info.length)
    (hroom : linkRooms attrs + linkRoom (k, attrData c') ≤ sizes.addrSize)
    (hends : ∀ r : ℕ → List UInt8 → Prop, Option.Rel r s.entry.ifaAddr (lastOf .address attrs) →
      Option.Rel r s.entry.ifaDstaddr (lastOf .broadcast attrs) → r s.addr (attrData c') →
      Option.Rel r own (lastOf .address (attrs ++ [(k, attrData c')])) ∧
        Option.Rel r dst (lastOf .broadcast (attrs ++ [(k, attrData c')]))) :
    ∃ tail, putLinkAddress info s c' = .ok tail ∧
      LinkFilled info sizes block (attrs ++ [(k, attrData c')])
        ⟨{ s.entry with tail, ifaAddr := own, ifaDstaddr := dst },
          s.addr + nlmsgAlign (calcAddrLen afPacket (rtaPayload c'))⟩ := by
  have hlen := length_attrData hc
  have hpay := rtaPayload_lt c'
  have hcalc := calcAddrLen_packet_le (rtaPayload c')
  have halign := le_nlmsgAlign (n := calcAddrLen afPacket (rtaPayload c')) (by omega)
  have hcursor := h.cursor
  have hlength := h.length
  have hname : k ≠ .ifname := by rcases hk with rfl | rfl <;> decide
  have hstats : k ≠ .stats := by rcases hk with rfl | rfl <;> decide
  rw [linkRoom, if_pos hk, hlen] at hroom
  obtain ⟨tail, hput, hat, hch⟩ := putLinkAddress_spec hc hinfo (s := s) (by omega)
  have hindex : ((info.drop 4).take 4).length ≤ 4 := by simp
  have hkeep (off : ℕ) (data : List UInt8)
      (hoff : LinkAddrAt (infoIndex info) (infoType info) (4 + sizes.nameSize) s.addr s.entry.tail
        off data) :=
    (hoff.changed hch (.inl le_rfl)).mono
      (Nat.le_add_right s.addr (nlmsgAlign (calcAddrLen afPacket (rtaPayload c'))))
  obtain ⟨haddr, hdst⟩ := hends _ (rel_mono hkeep h.addr) (rel_mono hkeep h.dstaddr)
    ⟨by omega, hat.leHi.trans (by omega), hat.sockaddrAt, hat.ifindexAt, hat.hatypeAt⟩
  refine ⟨tail, hput, h.own, h.flags, h.netmask, hch.length.trans hlength, ?_,
    h.index.changed hch (by omega), ?_, ?_, haddr, hdst, ?_⟩
  · rw [linkRooms_snoc, linkRoom, if_pos hk, hlen]
    simp only
    omega
  · simpa [lastOf_snoc, hname] using h.name.changed h.nameRoom hch (by omega)
  · simpa [lastOf_snoc, hname] using h.nameRoom
  · simpa [lastOf_snoc, hstats] using
      rel_mono (fun _ _ hoff => hoff.changed hch (by omega)) h.data

/-- An attribute that is no address: it is written apart from the index and the addresses. -/
theorem LinkFilled.keep {block : ℕ} {k : LinkAttr} {name : NamePtr} {stats : Option ℕ}
    (h : LinkFilled info sizes block attrs s) (hk : k ≠ .address) (hk' : k ≠ .broadcast)
    (hch : ChangedIn s.entry.tail tail lo hi) (hlo : 4 ≤ lo)
    (hapart : hi ≤ 4 + sizes.nameSize ∨ s.addr ≤ lo)
    (hname : NameOf .empty block 4 tail name (lastOf .ifname (attrs ++ [(k, data)])))
    (hnameRoom : ∀ text ∈ lastOf .ifname (attrs ++ [(k, data)]), text.length + 1 ≤ sizes.nameSize)
    (hstats : Option.Rel (StatsAt sizes tail) stats (lastOf .stats (attrs ++ [(k, data)]))) :
    LinkFilled info sizes block (attrs ++ [(k, data)])
      { s with entry := { s.entry with tail, ifaName := name, ifaData := stats } } := by
  have hindex : ((info.drop 4).take 4).length ≤ 4 := by simp
  have hcursor := h.cursor
  refine ⟨h.own, h.flags, h.netmask, hch.length.trans h.length, ?_, h.index.changed hch (by omega),
    hname, hnameRoom, ?_, ?_, hstats⟩
  · simp [hcursor, linkRoom, hk, hk']
  · simpa [lastOf_snoc, hk] using
      rel_mono (fun _ _ hoff => hoff.changed hch hapart.symm) h.addr
  · simpa [lastOf_snoc, hk'] using
      rel_mono (fun _ _ hoff => hoff.changed hch hapart.symm) h.dstaddr

theorem fillLink_spec {block : ℕ} (rest : List (LinkAttr × List UInt8)) (hc : rta.Inside c c')
    (hinfo : 16 ≤ info.length)
    (hmeas : LinkMeasured (attrs ++ (.decode (attrType c'), attrData c') :: rest) sizes)
    (h : LinkFilled info sizes block attrs s) :
    ∃ s', fillLink info 4 (4 + sizes.nameSize + sizes.addrSize) s c' = .ok s' ∧
      LinkFilled info sizes block (attrs ++ [(.decode (attrType c'), attrData c')]) s' := by
  have hlen := length_attrData hc
  have hroom := hmeas.room
  have hcursor := h.cursor
  have hlength := h.length
  rw [fillLink, rtaType_eq hc, ok_bind]
  cases hkind : LinkAttr.decode (attrType c') with
  | address =>
    rw [hkind] at hroom
    obtain ⟨tail, hput, hfilled⟩ := h.place (some s.addr) s.entry.ifaDstaddr (.inl rfl) hc hinfo
      hroom fun r _ hdst hat => by simpa [lastOf_snoc] using ⟨hat, hdst⟩
    simp only [hput, ok_bind]
    exact ⟨_, rfl, hfilled⟩
  | broadcast =>
    rw [hkind] at hroom
    obtain ⟨tail, hput, hfilled⟩ := h.place s.entry.ifaAddr (some s.addr) (.inr rfl) hc hinfo
      hroom fun r haddr _ hat => by simpa [lastOf_snoc] using ⟨haddr, hat⟩
    simp only [hput, ok_bind]
    exact ⟨_, rfl, hfilled⟩
  | ifname =>
    have hfit := hmeas.names _ (List.mem_append_right _ (List.mem_cons_self ..)) hkind
    rw [hlen] at hfit
    obtain ⟨tail, hput, hat, hch⟩ := putName_spec (b := s.entry.tail) hc 4 (by omega)
    simp only [hput, ok_bind]
    refine ⟨_, rfl, h.keep (by decide) (by decide) hch le_rfl (.inl (by omega)) ?_ ?_ ?_⟩
    · rw [lastOf_snoc, if_pos rfl, h.own]
      exact .own hat
    · simpa [lastOf_snoc, hlen] using hfit
    · simpa [lastOf_snoc] using rel_mono (fun _ _ hoff => hoff.changed hch (by omega)) h.data
  | stats =>
    have hfit := hmeas.stats _ (List.mem_append_right _ (List.mem_cons_self ..)) hkind
    change (attrData c').length ≤ sizes.dataSize at hfit
    have hrooms : linkRooms attrs ≤ sizes.addrSize := (Nat.le_add_right _ _).trans hroom
    obtain ⟨tail, hput, hat, hch⟩ := put_spec s.entry.tail (4 + sizes.nameSize + sizes.addrSize)
      (attrData c') (by omega)
    simp only [read_attrData hc, hput, ok_bind]
    refine ⟨_, rfl, h.keep (by decide) (by decide) hch (by omega) (.inr (by omega)) ?_ ?_ ?_⟩
    · simpa [lastOf_snoc] using h.name.changed h.nameRoom hch (by omega)
    · simpa [lastOf_snoc] using h.nameRoom
    · rw [lastOf_snoc, if_pos rfl]
      exact .some ⟨rfl, hfit, hat⟩
  | other =>
    refine ⟨s, rfl, h.keep (by decide) (by decide) (.refl _ 4 4) le_rfl (.inl (by omega)) ?_ ?_ ?_⟩
    · simpa [lastOf_snoc] using h.name
    · simpa [lastOf_snoc] using h.nameRoom
    · simpa [lastOf_snoc] using h.data

theorem fillLink_fold {block : ℕ} (h : Readable hdr 16) (hinfo : 16 ≤ info.length)
    (hmeas : LinkMeasured (linkAttrs (rta.walk (attributes hdr 16)).1) sizes)
    (hs : LinkFilled info sizes block [] s) :
    ∃ s', rta.fold .fault (fillLink info 4 (4 + sizes.nameSize + sizes.addrSize))
        (attributes hdr 16) s = .ok s' ∧
      LinkFilled info sizes block (linkAttrs (rta.walk (attributes hdr 16)).1) s' := by
  refine Format.fold_rule (fun done s => LinkFilled info sizes block (linkAttrs done) s)
    (h.aligned (by decide)) (fun done c rest s hwalk hc hI => ?_) hs
  rw [linkAttrs_snoc]
  refine fillLink_spec (linkAttrs rest) hc hinfo ?_ hI
  rw [hwalk] at hmeas
  simpa [linkAttrs] using hmeas

end Filled

section Entries

variable {hdr : Cursor} {libc : Libc} {list : List Ifaddrs} {r : Run}

/-- What a message says of a link. -/
def linkInterface (hdr : Cursor) : Interface :=
  let attrs := linkAttrs (rta.walk (attributes hdr 16)).1
  { name := textOf (lastOf .ifname attrs)
    flags := leNat (((nlmsgData hdr).drop 8).take 4)
    addr := (lastOf .address attrs).map (linkAddress (indexOf hdr) (hatypeOf hdr))
    netmask := none
    dstaddr := (lastOf .broadcast attrs).map (linkAddress (indexOf hdr) (hatypeOf hdr))
    data := lastOf .stats attrs }

/-- The entry of a link: it says what the message says, and has the index of the link in front. -/
structure LinkEntry (hdr : Cursor) (e : Ifaddrs) : Prop where
  represents : Represents [e] e (linkInterface hdr)
  indexAt : get e.tail 0 4 = .ok (((nlmsgData hdr).drop 4).take 4)

theorem LinkFilled.linkEntry {sizes : LinkSizes} {block : ℕ} {s : Filling}
    (h : LinkFilled (nlmsgData hdr) sizes block (linkAttrs (rta.walk (attributes hdr 16)).1) s)
    (hinfo : 16 ≤ (nlmsgData hdr).length) : LinkEntry hdr s.entry := by
  have hlen : (((nlmsgData hdr).drop 4).take 4).length = 4 := by simp; omega
  have hindex := get_of_hasAt h.index (by have := h.length; omega)
  rw [hlen] at hindex
  generalize hattrs : linkAttrs (rta.walk (attributes hdr 16)).1 = attrs at h
  have hname : NameIn [s.entry] s.entry.ifaName (textOf (lastOf .ifname attrs)) := by
    have hname := h.name
    generalize s.entry.ifaName = ptr at hname ⊢
    generalize lastOf .ifname attrs = given at hname ⊢
    cases hname with
    | other => rfl
    | @own data hat =>
      exact ⟨zero_notMem_cText data, s.entry, List.mem_singleton_self _, h.own, hat⟩
  have haddr : Option.Rel (AddressAt s.entry.tail) s.entry.ifaAddr
      ((lastOf .address attrs).map (linkAddress (indexOf hdr) (hatypeOf hdr))) :=
    rel_map (rel_mono (fun _ _ hoff => hoff.addressAt) h.addr)
  have hdstaddr : Option.Rel (AddressAt s.entry.tail) s.entry.ifaDstaddr
      ((lastOf .broadcast attrs).map (linkAddress (indexOf hdr) (hatypeOf hdr))) :=
    rel_map (rel_mono (fun _ _ hoff => hoff.addressAt) h.dstaddr)
  have hnetmask : Option.Rel (AddressAt s.entry.tail) s.entry.ifaNetmask none := by
    rw [h.netmask]
    exact .none
  have hdata : Option.Rel (HasAt s.entry.tail) s.entry.ifaData (lastOf .stats attrs) :=
    rel_mono (fun _ _ hoff => hoff.statsAt) h.data
  refine ⟨?_, hindex⟩
  rw [linkInterface, hattrs]
  exact ⟨hname, h.flags, haddr, hnetmask, hdstaddr, hdata⟩

theorem interpretLink_adds (h : Readable hdr 16) :
    Adds libc list r (linkEntrySize hdr) (LinkEntry hdr) (interpretLink libc hdr list r) := by
  have hroom := h.room
  have hbytes := h.lengthLe
  have hinfo : 16 ≤ (nlmsgData hdr).length := by
    rw [nlmsgData, List.length_drop]
    omega
  obtain ⟨sizes, hmeasure, hmeas, htotal⟩ := measureLink_fold h
  have hindex : (((nlmsgData hdr).drop 4).take 4).length = 4 := by simp; omega
  generalize hsize : 4 + sizes.nameSize + sizes.addrSize + sizes.dataSize = size
  have hsize' : linkEntrySize hdr = sizeofIfaddrs + size := by
    rw [linkEntrySize, ← htotal, ← hsize, LinkSizes.total]
    omega
  rw [interpretLink, hmeasure, ok_bind]
  simp only [hsize, ← hsize']
  cases hm : malloc libc (linkEntrySize hdr) r with
  | mk ret r' =>
    cases ret with
    | none => exact .failed (malloc_none (linkEntrySize_lt h) hm) hm
    | some block =>
      obtain ⟨tail, hput, hat, hch⟩ := put_spec (fresh size) 0 (((nlmsgData hdr).drop 4).take 4) (by
        rw [length_fresh]
        omega)
      have hfilled : LinkFilled (nlmsgData hdr) sizes block []
          ⟨⟨block, .empty, leNat (((nlmsgData hdr).drop 8).take 4), none, none, none, none, tail⟩,
            4 + sizes.nameSize⟩ :=
        ⟨rfl, rfl, rfl, hch.length.trans ((length_fresh _).trans hsize.symm), rfl, hat, .other,
          by simp [lastOf], .none, .none, .none⟩
      obtain ⟨s, hfill, hlink⟩ := fillLink_fold h hinfo hmeas hfilled
      have hread : read (nlmsgData hdr) 4 4 = .ok (((nlmsgData hdr).drop 4).take 4) :=
        read_of_le (by omega)
      have hfield : field (nlmsgData hdr) 8 4 = .ok (leNat (((nlmsgData hdr).drop 8).take 4)) :=
        field_of_le (by omega)
      dsimp only
      rw [hread, ok_bind, hput, ok_bind, hfield, ok_bind, hfill, ok_bind, addToEnd_eq]
      rw [← hlink.own] at hm
      exact .added (malloc_some hm) hm (hlink.linkEntry hinfo)

end Entries

end AutoTest.Netlink
