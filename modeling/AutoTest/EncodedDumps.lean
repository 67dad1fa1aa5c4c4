import AutoTest.InterfaceResults

/-!
# Dumps as the kernel encodes them

Links and addresses as messages with attributes in any order, the messages packed into datagrams in
any way, and a message that ends the answer behind the last of them. What is read of such answers
is what was encoded.
-/

namespace AutoTest.Netlink

open RecordWalks ByteBlocks

section Lists

variable {α β γ : Type*} {R : α → β → Prop} {as : List α} {bs : List β}

theorem forall₂_takeWhile {p : α → Bool} {q : β → Bool} (h : List.Forall₂ R as bs)
    (hpq : ∀ a b, R a b → p a = q b) : List.Forall₂ R (as.takeWhile p) (bs.takeWhile q) := by
  induction h with
  | nil => exact .nil
  | @cons a b as bs hab _ ih =>
    cases hq : q b with
    | false =>
      rw [List.takeWhile_cons_of_neg (by rw [hpq a b hab, hq]; decide),
        List.takeWhile_cons_of_neg (by rw [hq]; decide)]
      exact .nil
    | true =>
      rw [List.takeWhile_cons_of_pos (by rw [hpq a b hab, hq]), List.takeWhile_cons_of_pos hq]
      exact .cons hab ih

theorem map_eq_of_forall₂ {f : α → γ} {g : β → γ} (h : List.Forall₂ R as bs)
    (hfg : ∀ a b, R a b → f a = g b) : as.map f = bs.map g := by
  have hmap : List.Forall₂ (· = ·) (as.map f) (bs.map g) :=
    List.forall₂_map_left_iff.mpr (List.forall₂_map_right_iff.mpr (h.imp hfg))
  rwa [List.forall₂_eq_eq_eq] at hmap

theorem find?_of_forall₂ {p : α → Bool} {q : β → Bool} {f : α → γ} {g : β → γ}
    (h : List.Forall₂ R as bs) (hpq : ∀ a b, R a b → p a = q b)
    (hfg : ∀ a b, R a b → f a = g b) : (as.find? p).map f = (bs.find? q).map g := by
  induction h with
  | nil => rfl
  | @cons a b as bs hab _ ih =>
    cases hq : q b with
    | false =>
      rw [List.find?_cons_of_neg (by rw [hpq a b hab, hq]; decide),
        List.find?_cons_of_neg (by rw [hq]; decide)]
      exact ih
    | true =>
      rw [List.find?_cons_of_pos (by rw [hpq a b hab, hq]), List.find?_cons_of_pos hq]
      exact congrArg some (hfg a b hab)

theorem forall₂_left {p : α → Prop} (h : List.Forall₂ R as bs) (hp : ∀ a b, R a b → p a) :
    ∀ a ∈ as, p a :=
  ((List.forall₂_and_left as bs).mp (h.imp fun a b hab => ⟨hp a b hab, hab⟩)).1

/-- Two lists with the same images. -/
theorem forall₂_of_map_eq {f : α → γ} {g : β → γ} (h : as.map f = bs.map g) :
    List.Forall₂ (fun a b => f a = g b) as bs := by
  have heq : List.Forall₂ (· = ·) (as.map f) (bs.map g) := by
    rwa [List.forall₂_eq_eq_eq]
  exact List.forall₂_map_right_iff.mp (List.forall₂_map_left_iff.mp heq)

end Lists

section Fields

variable {bytes rest : List UInt8} {off k n : ℕ}

theorem leNat_leBytes_of_lt (h : n < 256 ^ k) : leNat (leBytes k n) = n := by
  rw [leNat_leBytes, Nat.mod_eq_of_lt h]

theorem field_at (h : bytes.drop off = leBytes k n ++ rest) (hn : n < 256 ^ k) :
    leNat ((bytes.drop off).take k) = n := by
  rw [h, List.take_left' (length_leBytes k n), leNat_leBytes_of_lt hn]

theorem behind_field (h : bytes.drop off = leBytes k n ++ rest) : bytes.drop (off + k) = rest := by
  rw [← List.drop_drop, h, List.drop_left' (length_leBytes k n)]

end Fields

section Messages

/-- A message by its type, and what follows its header. -/
structure Message where
  type : ℕ
  body : List UInt8

/-- A message of an answer to this socket of this process. -/
def Message.bytes (libc : Libc) (m : Message) : List UInt8 :=
  leBytes 4 (16 + m.body.length) ++ (leBytes 2 m.type ++ (leBytes 2 2 ++
    (leBytes 4 libc.socketRet.toNat ++ (leBytes 4 libc.getpid.toNat ++ m.body))))

/-- The numbers that identify the answers fit in their fields. -/
structure Identified (libc : Libc) : Prop where
  socket : 0 ≤ libc.socketRet ∧ libc.socketRet < (2 ^ 31 : ℕ)
  pid : 0 ≤ libc.getpid ∧ libc.getpid < (2 ^ 31 : ℕ)

structure Message.Ok (m : Message) : Prop where
  type : m.type < 2 ^ 16
  length : 16 + m.body.length < 2 ^ 31

/-- What is read of a message. -/
structure Message.Read (libc : Libc) (m : Message) (hdr : Cursor) : Prop where
  length : nlmsg.length hdr = 16 + m.body.length
  type : typeOf hdr = .decode m.type
  ours : IsOurs libc libc.socketRet hdr
  data : ∃ rest, nlmsgData hdr = m.body ++ rest

variable {libc : Libc} {m : Message} {hdr : Cursor}

theorem bmod_toNat {i : ℤ} (h : 0 ≤ i ∧ i < (2 ^ 31 : ℕ)) :
    Int.bmod (i.toNat : ℤ) (2 ^ 32) = i := by
  rw [Int.toNat_of_nonneg h.1, Int.bmod_eq_of_le (by omega) (by omega)]

theorem Message.length_bytes (libc : Libc) (m : Message) :
    (m.bytes libc).length = 16 + m.body.length := by
  simp only [Message.bytes, List.length_append, length_leBytes]
  omega

theorem Message.wellFormed (libc : Libc) (h : m.Ok) : nlmsg.WellFormed (m.bytes libc) := by
  have hlt := h.length
  refine ⟨?_, ?_⟩
  · rw [m.length_bytes]
    exact Nat.le_add_right _ _
  · change leNat ((m.bytes libc).take 4) = _
    rw [m.length_bytes, Message.bytes, List.take_left' (length_leBytes _ _)]
    exact leNat_leBytes_of_lt (by omega)

theorem Message.Ok.read_of_record (h : m.Ok) (hid : Identified libc)
    (hrecord : nlmsg.record hdr = m.bytes libc) : m.Read libc hdr := by
  obtain ⟨rest, hbytes⟩ : ∃ rest, hdr.bytes = m.bytes libc ++ rest :=
    ⟨_, by rw [← hrecord, Format.record, List.take_append_drop]⟩
  have hlt := h.length
  have hsocket := hid.socket
  have hpid := hid.pid
  have h0 : hdr.bytes.drop 0 = leBytes 4 (16 + m.body.length) ++ (leBytes 2 m.type ++
      (leBytes 2 2 ++ (leBytes 4 libc.socketRet.toNat ++ (leBytes 4 libc.getpid.toNat ++
      (m.body ++ rest))))) := by
    rw [List.drop_zero, hbytes, Message.bytes]
    simp only [List.append_assoc]
  have h4 := behind_field h0
  have h6 := behind_field h4
  have h8 := behind_field h6
  have h12 := behind_field h8
  have h16 := behind_field h12
  refine ⟨?_, ?_, ⟨?_, ?_⟩, rest, h16⟩
  · exact field_at h0 (by omega)
  · exact congrArg MessageType.decode (field_at h4 h.type)
  · have hfield := field_at h12 (by omega)
    exact (congrArg (fun n : ℕ => Int.bmod (n : ℤ) (2 ^ 32)) hfield).trans (bmod_toNat hpid)
  · have hfield := field_at h8 (by omega)
    exact (congrArg (fun n : ℕ => Int.bmod (n : ℤ) (2 ^ 32)) hfield).trans (bmod_toNat hsocket)

/-- A datagram of messages. -/
def packed (libc : Libc) (ms : List Message) : List UInt8 := nlmsg.pack (ms.map (·.bytes libc))

variable {ms : List Message}

/-- What is read of a datagram is what was packed in it. -/
theorem read_packed (hid : Identified libc) (h : ∀ m ∈ ms, m.Ok)
    (hlt : (packed libc ms).length < 2 ^ 31) :
    List.Forall₂ (fun hdr m => m.Read libc hdr) (messagesIn (packed libc ms)) ms := by
  have hwell : ∀ r ∈ ms.map (·.bytes libc), nlmsg.WellFormed r := by
    intro r hr
    obtain ⟨m, hm, rfl⟩ := List.mem_map.mp hr
    exact Message.wellFormed libc (h m hm)
  have hwalk := (Format.walk_pack hwell [] (lt_trans hlt (by decide))).2
  rw [List.append_nil] at hwalk
  have hrecords := forall₂_of_map_eq hwalk
  change List.Forall₂ _ (messagesIn (packed libc ms)) ms at hrecords
  exact forall₂_imp_mem hrecords fun hdr m hm hrecord => (h m hm).read_of_record hid hrecord

end Messages

section Verdicts

variable {libc : Libc} {ms : List Message} {hdrs : List Cursor}

/-- The message that ends an answer. -/
def doneMessage : Message := ⟨3, [0, 0, 0, 0]⟩

/-- A message about a link or an address. -/
def Message.Informs (m : Message) : Prop :=
  MessageType.decode m.type = .newlink ∨ MessageType.decode m.type = .newaddr

theorem verdictOf_more {rest : List Cursor}
    (h : List.Forall₂ (fun hdr m => m.Read libc hdr) hdrs ms) (hms : ∀ m ∈ ms, m.Informs) :
    verdictOf (fun hdr => IsOurs libc libc.socketRet hdr) typeOf (hdrs ++ rest) =
      verdictOf (fun hdr => IsOurs libc libc.socketRet hdr) typeOf rest := by
  induction h with
  | nil => rfl
  | @cons hdr m hdrs ms hread _ ih =>
    have hrest := ih fun m' hm' => hms m' (List.mem_cons_of_mem m hm')
    rw [List.cons_append, verdictOf, if_pos (decide_eq_true hread.ours), hread.type]
    rcases hms m (List.mem_cons_self ..) with htype | htype <;> rw [htype] <;> exact hrest

/-- Messages that do not end the answer, and then one that does, if `ends`. -/
def answerPart (ends : Bool) (ms : List Message) : List Message :=
  if ends then ms ++ [doneMessage] else ms

theorem doneMessage_ok : doneMessage.Ok := ⟨by decide, by decide⟩

theorem answerPart_ok {ends : Bool} (h : ∀ m ∈ ms, m.Ok) : ∀ m ∈ answerPart ends ms, m.Ok := by
  intro m hm
  cases ends with
  | false => exact h m hm
  | true =>
    rcases List.mem_append.mp hm with hm | hm
    · exact h m hm
    · rw [List.mem_singleton.mp hm]
      exact doneMessage_ok

theorem verdict_answerPart (hid : Identified libc) (ends : Bool) (h : ∀ m ∈ ms, m.Ok)
    (hms : ∀ m ∈ ms, m.Informs) (hlt : (packed libc (answerPart ends ms)).length < 2 ^ 31) :
    verdict libc libc.socketRet (packed libc (answerPart ends ms)) =
      if ends then .done else .more := by
  have hread := read_packed hid (answerPart_ok h) hlt
  rw [verdict]
  generalize messagesIn (packed libc (answerPart ends ms)) = hdrs at hread ⊢
  cases ends with
  | false =>
    rw [← List.append_nil hdrs, verdictOf_more hread hms]
    rfl
  | true =>
    have hfront := List.forall₂_take_append hdrs ms [doneMessage] hread
    have hlast := List.forall₂_drop_append hdrs ms [doneMessage] hread
    rw [← List.take_append_drop ms.length hdrs, verdictOf_more hfront hms]
    generalize hdrs.drop ms.length = last at hlast ⊢
    cases hlast with
    | @cons hdr _ _ _ hdone hnil =>
      cases hnil
      rw [verdictOf, if_pos (decide_eq_true hdone.ours), hdone.type]
      rfl

/-- The messages of a type in a part of an answer are those of this type in front of the end. -/
theorem selected_answerPart (hid : Identified libc) (ends : Bool) (h : ∀ m ∈ ms, m.Ok)
    (hms : ∀ m ∈ ms, m.Informs) (hlt : (packed libc (answerPart ends ms)).length < 2 ^ 31)
    (type : MessageType) :
    List.Forall₂ (fun hdr m => m.Read libc hdr)
      (selected libc libc.socketRet type (packed libc (answerPart ends ms)))
      (ms.filter fun m => MessageType.decode m.type = type) := by
  have hread := read_packed hid (answerPart_ok h) hlt
  have hours : ∀ hdr ∈ messagesIn (packed libc (answerPart ends ms)),
      IsOurs libc libc.socketRet hdr := forall₂_left hread fun hdr m hm => hm.ours
  have hnotDone : ∀ m ∈ ms, (!decide (MessageType.decode m.type = .done)) = true := by
    intro m hm
    rcases hms m hm with htype | htype <;> simp [htype]
  have htake : (answerPart ends ms).takeWhile
      (fun m => !decide (MessageType.decode m.type = .done)) = ms := by
    cases ends with
    | false => exact List.takeWhile_eq_self_iff.mpr hnotDone
    | true =>
      rw [answerPart, if_pos rfl, List.takeWhile_append_of_pos hnotDone]
      exact List.append_nil ms
  have hsel := List.rel_filter (R := fun hdr m => Message.Read libc m hdr)
    (p := fun hdr => typeOf hdr = type) (q := fun m => MessageType.decode m.type = type)
    (fun hdr m hm => by simp only [hm.type]) (forall₂_takeWhile hread
      (p := fun hdr => !decide (typeOf hdr = .done))
      (q := fun m => !decide (MessageType.decode m.type = .done)) fun hdr m hm => by rw [hm.type])
  rw [htake] at hsel
  rw [selected, List.filter_eq_self.mpr fun hdr hmem => decide_eq_true (hours hdr hmem)]
  exact hsel

end Verdicts

section Attributes

variable {a : ℕ × List UInt8} {as : List (ℕ × List UInt8)} {c : Cursor}

/-- An attribute: its type and its payload. -/
def attrBytes (a : ℕ × List UInt8) : List UInt8 :=
  leBytes 2 (4 + a.2.length) ++ (leBytes 2 a.1 ++ a.2)

def AttrOk (a : ℕ × List UInt8) : Prop := a.1 < 2 ^ 16 ∧ 4 + a.2.length < 2 ^ 16

instance (a : ℕ × List UInt8) : Decidable (AttrOk a) := inferInstanceAs (Decidable (_ ∧ _))

theorem length_attrBytes (a : ℕ × List UInt8) : (attrBytes a).length = 4 + a.2.length := by
  simp only [attrBytes, List.length_append, length_leBytes]
  omega

theorem attr_wellFormed (h : AttrOk a) : rta.WellFormed (attrBytes a) := by
  refine ⟨?_, ?_⟩
  · rw [length_attrBytes]
    exact Nat.le_add_right _ _
  · change leNat ((attrBytes a).take 2) = _
    rw [length_attrBytes, attrBytes, List.take_left' (length_leBytes _ _)]
    exact leNat_leBytes_of_lt h.2

theorem attr_of_record (h : AttrOk a) (hrecord : rta.record c = attrBytes a) :
    attrType c = a.1 ∧ attrData c = a.2 := by
  obtain ⟨rest, hbytes⟩ : ∃ rest, c.bytes = attrBytes a ++ rest :=
    ⟨_, by rw [← hrecord, Format.record, List.take_append_drop]⟩
  have h0 : c.bytes.drop 0 =
      leBytes 2 (4 + a.2.length) ++ (leBytes 2 a.1 ++ (a.2 ++ rest)) := by
    rw [List.drop_zero, hbytes, attrBytes]
    simp only [List.append_assoc]
  have h2 := behind_field h0
  have h4 := behind_field h2
  have hlength : rta.length c = 4 + a.2.length := field_at h0 h.2
  have hpayload : rtaPayload c = a.2.length := by
    rw [rtaPayload, hlength]
    omega
  refine ⟨field_at h2 h.1, ?_⟩
  rw [attrData, hpayload]
  exact (congrArg (List.take _) h4).trans (List.take_left' rfl)

/-- Attributes one behind the other, each padded. -/
def packedAttrs (as : List (ℕ × List UInt8)) : List UInt8 := rta.pack (as.map attrBytes)

theorem attrs_of_walk (h : ∀ a ∈ as, AttrOk a) (rest : List UInt8)
    (hlt : (packedAttrs as).length < 2 ^ 31) :
    List.Forall₂ (fun c a => attrType c = a.1 ∧ attrData c = a.2)
      (rta.walk ⟨packedAttrs as ++ rest, (packedAttrs as).length⟩).1 as := by
  have hwell : ∀ r ∈ as.map attrBytes, rta.WellFormed r := by
    intro r hr
    obtain ⟨a, ha, rfl⟩ := List.mem_map.mp hr
    exact attr_wellFormed (h a ha)
  have hrecords := forall₂_of_map_eq (Format.walk_pack hwell rest (lt_trans hlt (by decide))).2
  exact forall₂_imp_mem hrecords fun c a ha hrecord => attr_of_record (h a ha) hrecord

/-- Where the attributes of a message are, behind its own data. -/
theorem attributes_of_read {libc : Libc} {type n : ℕ} {front : List UInt8} {hdr : Cursor}
    (hread : Message.Read libc ⟨type, front ++ packedAttrs as⟩ hdr) (hn : front.length = n)
    (hdata : nlmsgAlign n = n) (hheader : nlmsgAlign (n + 16) = n + 16)
    (hlt : 16 + (n + (packedAttrs as).length) < 2 ^ 31) :
    ∃ rest, attributes hdr n = ⟨packedAttrs as ++ rest, (packedAttrs as).length⟩ := by
  obtain ⟨rest, hbytes⟩ := hread.data
  have hlength : nlmsg.length hdr = 16 + (n + (packedAttrs as).length) := by
    rw [hread.length, List.length_append, hn]
  refine ⟨rest, ?_⟩
  rw [attributes, hbytes, hdata, hlength, nlmsgPayload, hheader, List.append_assoc,
    List.drop_left' hn]
  congr 1
  omega

end Attributes

section Infos

/-- What the kernel knows of a link: its hardware type, index, flags and attributes. -/
structure LinkInfo where
  hatype : ℕ
  index : ℕ
  flags : ℕ
  attrs : List (ℕ × List UInt8)

/-- What the kernel knows of an address. -/
structure AddrInfo where
  family : ℕ
  prefixlen : ℕ
  flags : ℕ
  index : ℕ
  attrs : List (ℕ × List UInt8)

/-- A `struct ifinfomsg` and its attributes, as an `RTM_NEWLINK`. -/
def LinkInfo.message (l : LinkInfo) : Message :=
  ⟨16, (leBytes 2 0 ++ (leBytes 2 l.hatype ++ (leBytes 4 l.index ++ (leBytes 4 l.flags ++
    leBytes 4 0)))) ++ packedAttrs l.attrs⟩

/-- A `struct ifaddrmsg` and its attributes, as an `RTM_NEWADDR`. -/
def AddrInfo.message (a : AddrInfo) : Message :=
  ⟨20, (leBytes 1 a.family ++ (leBytes 1 a.prefixlen ++ (leBytes 1 a.flags ++ (leBytes 1 0 ++
    leBytes 4 a.index)))) ++ packedAttrs a.attrs⟩

def LinkInfo.kinds (l : LinkInfo) : List (LinkAttr × List UInt8) :=
  l.attrs.map fun x => (.decode x.1, x.2)

def AddrInfo.kinds (a : AddrInfo) : List (AddrAttr × List UInt8) :=
  a.attrs.map fun x => (.decode x.1, x.2)

structure LinkInfo.Ok (l : LinkInfo) : Prop where
  hatype : l.hatype < 2 ^ 16
  index : l.index < 2 ^ 32
  flags : l.flags < 2 ^ 32
  attrs : ∀ x ∈ l.attrs, AttrOk x
  length : 32 + (packedAttrs l.attrs).length < 2 ^ 31

structure AddrInfo.Ok (a : AddrInfo) : Prop where
  family : a.family < 2 ^ 8
  prefixlen : a.prefixlen < 2 ^ 8
  flags : a.flags < 2 ^ 8
  index : a.index < 2 ^ 32
  attrs : ∀ x ∈ a.attrs, AttrOk x
  fits : ∀ x ∈ a.kinds, IsAddress x.1 → Fits (.ofNat a.family) x.2.length
  length : 24 + (packedAttrs a.attrs).length < 2 ^ 31

/-- What a link is. -/
def LinkInfo.interface (l : LinkInfo) : Interface where
  name := textOf (lastOf .ifname l.kinds)
  flags := l.flags
  addr := (lastOf .address l.kinds).map (linkAddress l.index l.hatype)
  netmask := none
  dstaddr := (lastOf .broadcast l.kinds).map (linkAddress l.index l.hatype)
  data := lastOf .stats l.kinds

/-- What an address is, with these links. -/
def AddrInfo.interface (links : List LinkInfo) (a : AddrInfo) : Interface :=
  addressInterface ((links.find? fun l => l.index = a.index).map LinkInfo.interface)
    a.index (.ofNat a.family) a.prefixlen a.flags a.kinds

/-- What links and addresses are, but for the link-layer addresses. -/
def dumped (links : List LinkInfo) (addrs : List AddrInfo) : List Interface :=
  links.map LinkInfo.interface ++
    (addrs.filter fun a => !decide (UInt16.ofNat a.family = afPacket)).map
      (AddrInfo.interface links)

variable {libc : Libc} {hdr : Cursor} {l : LinkInfo} {a : AddrInfo}

theorem LinkInfo.Ok.read (h : l.Ok) (hread : l.message.Read libc hdr) :
    linkInterface hdr = l.interface ∧ indexOf hdr = l.index ∧ Framed hdr 16 := by
  have hlt := h.length
  obtain ⟨rest, hattrs⟩ := attributes_of_read (n := 16) hread rfl (by decide) (by decide) (by omega)
  obtain ⟨behind, hbytes⟩ := hread.data
  have h0 : (nlmsgData hdr).drop 0 = leBytes 2 0 ++ (leBytes 2 l.hatype ++ (leBytes 4 l.index ++
      (leBytes 4 l.flags ++ (leBytes 4 0 ++ (packedAttrs l.attrs ++ behind))))) := by
    rw [List.drop_zero, hbytes, LinkInfo.message]
    simp only [List.append_assoc]
  have h2 := behind_field h0
  have h4 := behind_field h2
  have h8 := behind_field h4
  have hhatype : hatypeOf hdr = l.hatype := field_at h2 h.hatype
  have hindex : indexOf hdr = l.index := field_at h4 h.index
  have hflags : leNat (((nlmsgData hdr).drop 8).take 4) = l.flags := field_at h8 h.flags
  have hkinds : linkAttrs (rta.walk (attributes hdr 16)).1 = l.kinds := by
    rw [hattrs]
    exact map_eq_of_forall₂ (attrs_of_walk h.attrs rest (by omega)) fun c x hx => by
      rw [hx.1, hx.2]
  refine ⟨?_, hindex, ?_⟩
  · rw [linkInterface, hkinds, hflags, hindex, hhatype]
    rfl
  · have hdvd : 4 ∣ (packedAttrs l.attrs).length := Format.dvd_length_pack _
    have hlength : nlmsg.length hdr = 32 + (packedAttrs l.attrs).length := by
      rw [hread.length, LinkInfo.message]
      simp only [List.length_append, length_leBytes]
      omega
    rw [Framed, hlength]
    omega

theorem AddrInfo.Ok.read (h : a.Ok) (hread : a.message.Read libc hdr) :
    familyOf hdr = .ofNat a.family ∧ prefixlenOf hdr = a.prefixlen ∧ flagsOf hdr = a.flags ∧
      indexOf hdr = a.index ∧ attrsOf hdr = a.kinds ∧ Framed hdr 8 := by
  have hlt := h.length
  obtain ⟨rest, hattrs⟩ := attributes_of_read (n := 8) hread rfl (by decide) (by decide) (by omega)
  obtain ⟨behind, hbytes⟩ := hread.data
  have h0 : (nlmsgData hdr).drop 0 = leBytes 1 a.family ++ (leBytes 1 a.prefixlen ++
      (leBytes 1 a.flags ++ (leBytes 1 0 ++ (leBytes 4 a.index ++
        (packedAttrs a.attrs ++ behind))))) := by
    rw [List.drop_zero, hbytes, AddrInfo.message]
    simp only [List.append_assoc]
  have h1 := behind_field h0
  have h2 := behind_field h1
  have h4 := behind_field (behind_field h2)
  refine ⟨congrArg UInt16.ofNat (field_at h0 h.family), field_at h1 h.prefixlen,
    field_at h2 h.flags, field_at h4 h.index, ?_, ?_⟩
  · rw [attrsOf, hattrs]
    exact map_eq_of_forall₂ (attrs_of_walk h.attrs rest (by omega)) fun c x hx => by
      rw [hx.1, hx.2]
  · have hdvd : 4 ∣ (packedAttrs a.attrs).length := Format.dvd_length_pack _
    have hlength : nlmsg.length hdr = 24 + (packedAttrs a.attrs).length := by
      rw [hread.length, AddrInfo.message]
      simp only [List.length_append, length_leBytes]
      omega
    rw [Framed, hlength]
    omega

/-- What the messages say is what was encoded in them. -/
theorem interfaces_read {links : List LinkInfo} {addrs : List AddrInfo} {hdrs hdrs' : List Cursor}
    (hlinks : ∀ l ∈ links, l.Ok) (haddrs : ∀ a ∈ addrs, a.Ok)
    (h : List.Forall₂ (fun hdr l => l.message.Read libc hdr) hdrs links)
    (h' : List.Forall₂ (fun hdr a => a.message.Read libc hdr) hdrs' addrs) :
    interfaces hdrs hdrs' = dumped links addrs := by
  have hok := forall₂_imp_mem h fun hdr l hl hread => (hlinks l hl).read hread
  have hok' := forall₂_imp_mem h' fun hdr a ha hread => (haddrs a ha).read hread
  rw [interfaces, dumped, map_eq_of_forall₂ hok fun hdr l hl => hl.1]
  refine congrArg _ (map_eq_of_forall₂ (List.rel_filter
    (fun hdr a ha => by simp only [ha.1]) hok') ?_)
  intro hdr a ha
  have hlink := find?_of_forall₂ (p := fun l => indexOf l = indexOf hdr)
    (q := fun l => l.index = a.index) (f := linkInterface) (g := LinkInfo.interface) hok
    (fun c l hl => by rw [hl.2.1, ha.2.2.2.1]) fun c l hl => hl.1
  rw [addrInterface, hlink, ha.1, ha.2.1, ha.2.2.1, ha.2.2.2.1, ha.2.2.2.2.1]
  rfl

end Infos

section Answers

/-- What a message of an answer tells. -/
inductive Info
  | link (l : LinkInfo)
  | addr (a : AddrInfo)

def Info.message : Info → Message
  | .link l => l.message
  | .addr a => a.message

inductive Info.Ok : Info → Prop
  | link {l : LinkInfo} (h : l.Ok) : Ok (.link l)
  | addr {a : AddrInfo} (h : a.Ok) : Ok (.addr a)

def linksIn (infos : List Info) : List LinkInfo :=
  infos.filterMap fun
    | .link l => some l
    | .addr _ => none

def addrsIn (infos : List Info) : List AddrInfo :=
  infos.filterMap fun
    | .link _ => none
    | .addr a => some a

/-- A datagram with a part of an answer: its last one, if `ends`. -/
def datagramOf (libc : Libc) (ends : Bool) (infos : List Info) : List UInt8 :=
  packed libc (answerPart ends (infos.map Info.message))

/-- An answer in one datagram or more. -/
def answerOf (libc : Libc) (front : List (List Info)) (last : List Info) : List (List UInt8) :=
  front.map (datagramOf libc false) ++ [datagramOf libc true last]

variable {libc : Libc} {infos last : List Info} {front : List (List Info)} {ends : Bool}

theorem Info.Ok.message {i : Info} (h : i.Ok) : i.message.Ok := by
  cases h with
  | @link l h =>
    have hlt := h.length
    refine ⟨(by decide : 16 < 2 ^ 16), ?_⟩
    simp only [Info.message, LinkInfo.message, List.length_append, length_leBytes]
    omega
  | @addr a h =>
    have hlt := h.length
    refine ⟨(by decide : 20 < 2 ^ 16), ?_⟩
    simp only [Info.message, AddrInfo.message, List.length_append, length_leBytes]
    omega

theorem messages_ok (h : ∀ i ∈ infos, i.Ok) : ∀ m ∈ infos.map Info.message, m.Ok := by
  intro m hm
  obtain ⟨i, hi, rfl⟩ := List.mem_map.mp hm
  exact (h i hi).message

theorem messages_inform (infos : List Info) : ∀ m ∈ infos.map Info.message, m.Informs := by
  intro m hm
  obtain ⟨i, -, rfl⟩ := List.mem_map.mp hm
  cases i with
  | link l => exact .inl rfl
  | addr a => exact .inr rfl

theorem filter_newlink (infos : List Info) :
    (infos.map Info.message).filter (fun m => MessageType.decode m.type = .newlink) =
      (linksIn infos).map LinkInfo.message := by
  induction infos with
  | nil => rfl
  | cons i infos ih =>
    cases i with
    | link l => exact congrArg (List.cons _) ih
    | addr a => exact ih

theorem filter_newaddr (infos : List Info) :
    (infos.map Info.message).filter (fun m => MessageType.decode m.type = .newaddr) =
      (addrsIn infos).map AddrInfo.message := by
  induction infos with
  | nil => rfl
  | cons i infos ih =>
    cases i with
    | link l => exact ih
    | addr a => exact congrArg (List.cons _) ih

theorem linksIn_ok (h : ∀ i ∈ infos, i.Ok) : ∀ l ∈ linksIn infos, l.Ok := by
  intro l hl
  obtain ⟨i, hi, hil⟩ := List.mem_filterMap.mp hl
  cases h i hi with
  | link hok =>
    obtain rfl := Option.some.inj hil
    exact hok
  | addr hok => cases hil

theorem addrsIn_ok (h : ∀ i ∈ infos, i.Ok) : ∀ a ∈ addrsIn infos, a.Ok := by
  intro a ha
  obtain ⟨i, hi, hia⟩ := List.mem_filterMap.mp ha
  cases h i hi with
  | link hok => cases hia
  | addr hok =>
    obtain rfl := Option.some.inj hia
    exact hok

section Datagrams

variable (hid : Identified libc) (hok : ∀ i ∈ infos, i.Ok)
  (hlt : (datagramOf libc ends infos).length < 2 ^ 31)

include hid hok hlt

theorem links_of_datagram :
    List.Forall₂ (fun hdr (l : LinkInfo) => l.message.Read libc hdr)
      (selected libc libc.socketRet .newlink (datagramOf libc ends infos)) (linksIn infos) := by
  have h := selected_answerPart hid ends (messages_ok hok) (messages_inform infos) hlt .newlink
  rw [filter_newlink] at h
  exact List.forall₂_map_right_iff.mp h

theorem addrs_of_datagram :
    List.Forall₂ (fun hdr (a : AddrInfo) => a.message.Read libc hdr)
      (selected libc libc.socketRet .newaddr (datagramOf libc ends infos)) (addrsIn infos) := by
  have h := selected_answerPart hid ends (messages_ok hok) (messages_inform infos) hlt .newaddr
  rw [filter_newaddr] at h
  exact List.forall₂_map_right_iff.mp h

theorem sound_datagramOf : Sound libc libc.socketRet (datagramOf libc ends infos) where
  whole := ⟨Format.dvd_length_pack _, hlt⟩
  links := by
    refine forall₂_left (forall₂_imp_mem (links_of_datagram hid hok hlt)
      fun hdr l hl hread => (linksIn_ok hok l hl).read hread) fun hdr l hl => hl.2.2
  addrs := by
    have hread := forall₂_imp_mem (S := fun hdr a => a.Ok ∧ familyOf hdr = .ofNat a.family ∧
      attrsOf hdr = a.kinds ∧ Framed hdr 8) (addrs_of_datagram hid hok hlt)
      fun hdr a ha hread => by
        have haok := addrsIn_ok hok a ha
        obtain ⟨hfamily, -, -, -, hattrs, hframed⟩ := haok.read hread
        exact ⟨haok, hfamily, hattrs, hframed⟩
    refine forall₂_left hread fun hdr a ha => ⟨ha.2.2.2, ?_⟩
    rw [ha.2.2.1, ha.2.1]
    exact ha.1.fits

theorem verdict_datagramOf :
    verdict libc libc.socketRet (datagramOf libc ends infos) = if ends then .done else .more :=
  verdict_answerPart hid ends (messages_ok hok) (messages_inform infos) hlt

end Datagrams

section Whole

variable (hid : Identified libc) (hfront : ∀ infos ∈ front, ∀ i ∈ infos, i.Ok)
  (hlast : ∀ i ∈ last, i.Ok) (hlt : ∀ d ∈ answerOf libc front last, d.length < 2 ^ 31)

include hid hfront hlast hlt

theorem isAnswer_answerOf : IsAnswer libc libc.socketRet (answerOf libc front last) := by
  refine ⟨fun d hd => ?_, fun d hd => ?_, by simp [answerOf]⟩
  · rw [answerOf, List.dropLast_concat] at hd
    obtain ⟨infos, hinfos, rfl⟩ := List.mem_map.mp hd
    exact verdict_datagramOf hid (hfront infos hinfos) (hlt _ (List.mem_append_left _ hd))
  · rw [answerOf, List.getLast?_concat] at hd
    obtain rfl := Option.mem_some.mp hd
    exact verdict_datagramOf hid hlast (hlt _ (List.mem_append_right _ (List.mem_singleton_self _)))

theorem sound_answerOf : ∀ d ∈ answerOf libc front last, Sound libc libc.socketRet d := by
  intro d hd
  have hshort := hlt d hd
  rcases List.mem_append.mp hd with hd | hd
  · obtain ⟨infos, hinfos, rfl⟩ := List.mem_map.mp hd
    exact sound_datagramOf hid (hfront infos hinfos) hshort
  · obtain rfl := List.mem_singleton.mp hd
    exact sound_datagramOf hid hlast hshort

theorem links_of_answer :
    List.Forall₂ (fun hdr (l : LinkInfo) => l.message.Read libc hdr)
      ((answerOf libc front last).flatMap (selected libc libc.socketRet .newlink))
      (linksIn (front.flatten ++ last)) := by
  induction front with
  | nil =>
    have h := links_of_datagram hid hlast (hlt (datagramOf libc true last) (by simp [answerOf]))
    simpa [answerOf] using h
  | cons infos front ih =>
    have hfirst := links_of_datagram hid (hfront infos (List.mem_cons_self ..))
      (hlt (datagramOf libc false infos) (by simp [answerOf]))
    have hrest := ih (fun infos' h => hfront infos' (List.mem_cons_of_mem _ h))
      fun d hd => hlt d (List.mem_cons_of_mem _ hd)
    have hsplit : linksIn ((infos :: front).flatten ++ last) =
        linksIn infos ++ linksIn (front.flatten ++ last) := by
      simp [linksIn]
    rw [hsplit]
    exact List.rel_append hfirst hrest

theorem addrs_of_answer :
    List.Forall₂ (fun hdr (a : AddrInfo) => a.message.Read libc hdr)
      ((answerOf libc front last).flatMap (selected libc libc.socketRet .newaddr))
      (addrsIn (front.flatten ++ last)) := by
  induction front with
  | nil =>
    have h := addrs_of_datagram hid hlast (hlt (datagramOf libc true last) (by simp [answerOf]))
    simpa [answerOf] using h
  | cons infos front ih =>
    have hfirst := addrs_of_datagram hid (hfront infos (List.mem_cons_self ..))
      (hlt (datagramOf libc false infos) (by simp [answerOf]))
    have hrest := ih (fun infos' h => hfront infos' (List.mem_cons_of_mem _ h))
      fun d hd => hlt d (List.mem_cons_of_mem _ hd)
    have hsplit : addrsIn ((infos :: front).flatten ++ last) =
        addrsIn infos ++ addrsIn (front.flatten ++ last) := by
      simp [addrsIn]
    rw [hsplit]
    exact List.rel_append hfirst hrest

end Whole

end Answers

section RoundTrip

variable {libc : Libc} {old : List Ifaddrs} {r : Run} {front front' : List (List Info)}
  {last last' : List Info}

/-- What the kernel encoded is what a caller gets: the links of the first answer and the addresses
of the second one, however both are cut into datagrams that fit in the first buffer, in whatever
order their attributes come and however often `recvmsg` is interrupted; an initial part of that
when a request for memory is refused. -/
theorem getifaddrs_round_trip (hid : Identified libc) (hbind : 0 ≤ libc.bindRet)
    (hsend : ∀ n, 0 ≤ libc.sendtoRet n) (hcalls : r.calls = []) (hfailed : .failed ∉ r.receptions)
    (hfront : ∀ infos ∈ front, ∀ i ∈ infos, i.Ok) (hlast : ∀ i ∈ last, i.Ok)
    (hfront' : ∀ infos ∈ front', ∀ i ∈ infos, i.Ok) (hlast' : ∀ i ∈ last', i.Ok)
    (hdata : datagrams r.receptions = answerOf libc front last ++ answerOf libc front' last')
    (hshort : ∀ d ∈ datagrams r.receptions, d.length ≤ 4096) :
    ∃ result list r', getifaddrs libc (some old) r = .ok (result, some list, r') ∧
      (result = 0 ∧ List.Forall₂ (Represents list) list
          (dumped (linksIn (front.flatten ++ last)) (addrsIn (front'.flatten ++ last'))) ∨
        result = -1 ∧ (∃ n, Denied libc r' n) ∧ ∃ is,
          is <+: dumped (linksIn (front.flatten ++ last)) (addrsIn (front'.flatten ++ last')) ∧
          List.Forall₂ (Represents list) list is) ∧
      ((∀ k size, libc.granted k size = true) → result = 0) := by
  have hfirst : ∀ d ∈ answerOf libc front last, d.length < 2 ^ 31 := fun d hd =>
    (hshort d (hdata ▸ List.mem_append_left _ hd)).trans_lt (by decide)
  have hsecond : ∀ d ∈ answerOf libc front' last', d.length < 2 ^ 31 := fun d hd =>
    (hshort d (hdata ▸ List.mem_append_right _ hd)).trans_lt (by decide)
  have hsound : ∀ d ∈ datagrams r.receptions, Sound libc libc.socketRet d := by
    intro d hd
    rw [hdata] at hd
    rcases List.mem_append.mp hd with hd | hd
    · exact sound_answerOf hid hfront hlast hfirst d hd
    · exact sound_answerOf hid hfront' hlast' hsecond d hd
  have hall : ∀ i ∈ front.flatten ++ last, i.Ok := by
    intro i hi
    rcases List.mem_append.mp hi with hi | hi
    · obtain ⟨infos, hinfos, hi⟩ := List.mem_flatten.mp hi
      exact hfront infos hinfos i hi
    · exact hlast i hi
  have hall' : ∀ i ∈ front'.flatten ++ last', i.Ok := by
    intro i hi
    rcases List.mem_append.mp hi with hi | hi
    · obtain ⟨infos, hinfos, hi⟩ := List.mem_flatten.mp hi
      exact hfront' infos hinfos i hi
    · exact hlast' i hi
  have hlisting : Listing libc r (getifaddrs libc (some old) r) :=
    getifaddrs_listing hsound hcalls
  obtain ⟨result, list, r', hrun, hmeaning⟩ := hlisting.of_answers hid.socket.1 hbind hsend hfailed
    hdata hshort (isAnswer_answerOf hid hfront hlast hfirst)
    (isAnswer_answerOf hid hfront' hlast' hsecond)
  have hdumped : interfacesIn libc libc.socketRet (answerOf libc front last)
      (answerOf libc front' last') =
      dumped (linksIn (front.flatten ++ last)) (addrsIn (front'.flatten ++ last')) :=
    interfaces_read (linksIn_ok hall) (addrsIn_ok hall') (links_of_answer hid hfront hlast hfirst)
      (addrs_of_answer hid hfront' hlast' hsecond)
  refine ⟨result, list, r', hrun, ?_, hmeaning.of_granted⟩
  rw [← hdumped]
  cases hmeaning with
  | all represents => exact .inl ⟨rfl, represents⟩
  | part initial represents denied => exact .inr ⟨rfl, ⟨_, denied⟩, _, initial, represents⟩

/-- The loopback interface, and its address. -/
def loopback : LinkInfo := ⟨772, 1, 73, [(3, [108, 111, 0])]⟩

def localhost : AddrInfo := ⟨2, 8, 128, 1, [(1, [127, 0, 0, 1]), (2, [127, 0, 0, 1])]⟩

theorem loopback_ok : loopback.Ok :=
  ⟨by decide, by decide, by decide, by decide, by decide +kernel⟩

theorem localhost_ok : localhost.Ok :=
  ⟨by decide, by decide, by decide, by decide, by decide, by decide +kernel, by decide +kernel⟩

def encodedRun : Run where
  receptions := [.datagram (datagramOf sampleLibc true [.link loopback]) (by decide +kernel),
    .interrupted, .datagram (datagramOf sampleLibc true [.addr localhost]) (by decide +kernel)]
  mallocs := 0
  calls := []

theorem getifaddrs_round_trip_sample : ∃ list r',
    getifaddrs sampleLibc (some []) encodedRun = .ok (0, some list, r') ∧
      List.Forall₂ (Represents list) list (dumped [loopback] [localhost]) := by
  have hshort : ∀ d ∈ [datagramOf sampleLibc true [.link loopback],
      datagramOf sampleLibc true [.addr localhost]], d.length ≤ 4096 := by decide +kernel
  obtain ⟨result, list, r', hrun, hmeaning, hzero⟩ := @getifaddrs_round_trip sampleLibc []
    encodedRun [] [] [.link loopback] [.addr localhost] ⟨by decide, by decide⟩ (by decide)
    (fun _ => by simp [sampleLibc]) rfl (by simp [encodedRun]) nofun
    (List.forall_mem_singleton.mpr (.link loopback_ok)) nofun
    (List.forall_mem_singleton.mpr (.addr localhost_ok)) rfl hshort
  obtain rfl := hzero fun _ _ => rfl
  rcases hmeaning with ⟨-, represents⟩ | ⟨hnone, -⟩
  · exact ⟨list, r', hrun, represents⟩
  · cases hnone

end RoundTrip

end AutoTest.Netlink
