import AutoTest.AddressEntries
import AutoTest.LinkEntries
import AutoTest.NetlinkResponses

/-!
# The list of interfaces

What `interpretLinks` and `interpretAddrs` make of the answers to both requests: one entry for
each message about a link, in order, and behind them one for each message about an address.
-/

namespace AutoTest.Netlink

open RecordWalks ByteBlocks

section Messages

variable {libc : Libc} {socket : ℤ} {c hdr : Cursor} {bytes : List UInt8}

/-- `nlmsg_pid` and `nlmsg_seq` are those of this process and socket. -/
def IsOurs (libc : Libc) (socket : ℤ) (hdr : Cursor) : Prop :=
  Int.bmod (leNat ((hdr.bytes.drop 12).take 4)) (2 ^ 32) = libc.getpid ∧
    Int.bmod (leNat ((hdr.bytes.drop 8).take 4)) (2 ^ 32) = socket

instance (libc : Libc) (socket : ℤ) (hdr : Cursor) : Decidable (IsOurs libc socket hdr) :=
  inferInstanceAs (Decidable (_ ∧ _))

/-- `nlmsg_type` -/
def typeOf (hdr : Cursor) : MessageType := .decode (leNat ((hdr.bytes.drop 4).take 2))

theorem sixteen_le_bytes (h : nlmsg.Inside c hdr) : 16 ≤ hdr.bytes.length := by
  have hheader : 16 ≤ nlmsg.length hdr := h.headerLe
  have hlength := h.lengthLe
  have hleft := h.aligned.leftLe
  omega

theorem ours_eq (h : nlmsg.Inside c hdr) :
    ours libc socket hdr = .ok (decide (IsOurs libc socket hdr)) := by
  have hbytes := sixteen_le_bytes h
  have hpid : field hdr.bytes 12 4 = .ok (leNat ((hdr.bytes.drop 12).take 4)) :=
    field_of_le (by omega)
  have hseq : field hdr.bytes 8 4 = .ok (leNat ((hdr.bytes.drop 8).take 4)) :=
    field_of_le (by omega)
  rw [ours, hpid, ok_bind]
  by_cases hours : Int.bmod (leNat ((hdr.bytes.drop 12).take 4)) (2 ^ 32) = libc.getpid
  · rw [if_pos hours, hseq, ok_bind]
    simp only [IsOurs, hours, true_and]
    rfl
  · rw [if_neg hours]
    simp only [IsOurs, hours, false_and, decide_false]
    rfl

theorem messageType_eq (h : nlmsg.Inside c hdr) : messageType hdr = .ok (typeOf hdr) := by
  have hbytes := sixteen_le_bytes h
  have htype : field hdr.bytes 4 2 = .ok (leNat ((hdr.bytes.drop 4).take 2)) :=
    field_of_le (by omega)
  rw [messageType, htype]
  rfl

/-- The messages of a datagram. -/
def messagesIn (bytes : List UInt8) : List Cursor := (nlmsg.walk ⟨bytes, bytes.length⟩).1

/-- A datagram that does not lead a walk over its messages outside. -/
structure Whole (bytes : List UInt8) : Prop where
  dvd : 4 ∣ bytes.length
  lt : bytes.length < 2 ^ 31

theorem Whole.aligned (h : Whole bytes) : nlmsg.Aligned ⟨bytes, bytes.length⟩ where
  dvd := h.dvd
  leftLe := le_rfl
  leftLt := h.lt.trans (by decide)

theorem Whole.inside (h : Whole bytes) (hmem : hdr ∈ messagesIn bytes) :
    nlmsg.Inside ⟨bytes, bytes.length⟩ hdr :=
  (Format.walk_inside h.aligned).2 hdr hmem

/-- The messages of one type for this process and socket, up to the one that ends the answer. -/
def selected (libc : Libc) (socket : ℤ) (type : MessageType) (bytes : List UInt8) : List Cursor :=
  (((messagesIn bytes).filter fun hdr => IsOurs libc socket hdr).takeWhile
    fun hdr => !decide (typeOf hdr = .done)).filter fun hdr => typeOf hdr = type

/-- What is done with a message of the type. -/
def interpretOne (interpret : Cursor → List Ifaddrs → Run → Except Halt Interpreted)
    (s : Interpreted) (hdr : Cursor) : Except Halt (Interpreted ⊕ Interpreted) := do
  let (ret, list, r) ← interpret hdr s.2.1 s.2.2
  if ret = -1 then return .inr (-1, list, r) else return .inl (s.1 + 1, list, r)

theorem each_eq (h : Whole bytes) (type : MessageType)
    (interpret : Cursor → List Ifaddrs → Run → Except Halt Interpreted) (s : Interpreted) :
    nlmsg.each .fault (interpretMessage libc socket type interpret) ⟨bytes, bytes.length⟩ s =
      runAll (interpretOne interpret) (selected libc socket type bytes) s := by
  rw [Format.each, (Format.walk_inside h.aligned).1]
  refine run_select _ _ _ (fun hdr hmem s hp => ?_) (fun hdr hmem s hp hq => ?_)
    (fun hdr hmem s hp hq ht => ?_) (fun hdr hmem s hp hq ht => ?_) s
  all_goals
    have hin := h.inside hmem
    rw [interpretMessage, ours_eq hin, ok_bind, hp]
  · rfl
  · rw [if_pos rfl, messageType_eq hin, ok_bind, if_pos (of_decide_eq_true hq)]
    rfl
  · rw [if_pos rfl, messageType_eq hin, ok_bind, if_neg (of_decide_eq_false hq),
      if_neg (of_decide_eq_false ht)]
    rfl
  · rw [if_pos rfl, messageType_eq hin, ok_bind, if_neg (of_decide_eq_false hq),
      if_pos (of_decide_eq_true ht), interpretOne]
    cases interpret hdr s.2.1 s.2.2 with
    | error e => rfl
    | ok result =>
      obtain ⟨ret, list, r⟩ := result
      simp only [ok_bind]
      split <;> rfl

/-- The loops over all datagrams are one loop over the messages of the type. -/
theorem interpretItems_eq {items : List Item} (h : ∀ item ∈ items, Whole item.data.bytes)
    (type : MessageType)
    (interpret : Cursor → List Ifaddrs → Run → Except Halt Interpreted) (s : Interpreted) :
    interpretItems libc socket type interpret items s =
      (runAll (interpretOne interpret)
        (items.flatMap fun item => selected libc socket type item.data.bytes) s).map
        (Sum.elim id id) := by
  induction items generalizing s with
  | nil => rfl
  | cons item rest ih =>
    have hrest := ih fun item' hmem => h item' (List.mem_cons_of_mem item hmem)
    rw [interpretItems, each_eq (h item (List.mem_cons_self ..)) type, List.flatMap_cons,
      runAll_append]
    cases runAll (interpretOne interpret) (selected libc socket type item.data.bytes) s with
    | error e => rfl
    | ok result =>
      cases result with
      | inl s' => exact hrest s'
      | inr s' => rfl

end Messages

section Runs

variable {libc : Libc} {P : Cursor → Ifaddrs → Prop} {A : List Ifaddrs → Run → Prop}
  {list : List Ifaddrs} {r : Run} {size : Cursor → ℕ}

/-- What is kept when an entry is allocated, or fails to be. -/
structure KeptByMalloc (libc : Libc) (A : List Ifaddrs → Run → Prop) : Prop where
  failed : ∀ {list r size r'}, A list r → sizeofIfaddrs ≤ size →
    malloc libc size r = (none, r') → A list r'
  added : ∀ {list r size r'} {e : Ifaddrs}, A list r → sizeofIfaddrs ≤ size →
    malloc libc size r = (some e.block, r') → A (list ++ [e]) r'


/-- The loop over messages of which some are passed over and each other one adds an entry: it
ends with an entry for each of these, or returns -1 when an entry cannot be allocated. -/
theorem adds_run (interpret : Cursor → List Ifaddrs → Run → Except Halt Interpreted)
    (hdrs : List Cursor) (skip : Cursor → Bool) (hA : KeptByMalloc libc A)
    (hsize : ∀ hdr, sizeofIfaddrs ≤ size hdr)
    (hskip : ∀ hdr ∈ hdrs, ∀ es r, skip hdr →
      interpret hdr (list ++ es) r = .ok (0, list ++ es, r))
    (hadds : ∀ hdr ∈ hdrs, ∀ es r, skip hdr = false →
      Adds libc (list ++ es) r (size hdr) (P hdr) (interpret hdr (list ++ es) r)) (num : ℤ)
    (h : A list r) :
    (∃ es r', runAll (interpretOne interpret) hdrs (num, list, r) =
        .ok (.inl (num + hdrs.length, list ++ es, r')) ∧
        List.Forall₂ P (hdrs.filter fun hdr => !skip hdr) es ∧ A (list ++ es) r') ∨
      ∃ es r' done n, runAll (interpretOne interpret) hdrs (num, list, r) =
        .ok (.inr (-1, list ++ es, r')) ∧ done <+: hdrs ∧
        List.Forall₂ P (done.filter fun hdr => !skip hdr) es ∧ A (list ++ es) r' ∧
        Denied libc r' n := by
  have hrun := runAll_rule (s := (num, list, r)) (interpretOne interpret) hdrs
    (fun done s => ∃ es r', s = (num + done.length, list ++ es, r') ∧
      List.Forall₂ P (done.filter fun hdr => !skip hdr) es ∧ A (list ++ es) r')
    (fun done s => ∃ es r' n, s = (-1, list ++ es, r') ∧
      List.Forall₂ P (done.filter fun hdr => !skip hdr) es ∧ A (list ++ es) r' ∧
      Denied libc r' n)
    (fun done hdr rest s hsplit hI => ?_)
    ⟨[], r, by simp, by simp, by simpa using h⟩
  · rcases hrun with ⟨s', heq, es, r', rfl, hP, hA'⟩ |
      ⟨s', done, heq, hpre, es, r', n, rfl, hP, hA', hdenied⟩
    · exact .inl ⟨es, r', heq, hP, hA'⟩
    · exact .inr ⟨es, r', done, n, heq, hpre, hP, hA', hdenied⟩
  · obtain ⟨es, r₀, rfl, hP, hA₀⟩ := hI
    have hmem : hdr ∈ hdrs := by simp [hsplit]
    have hcount : num + (done.length : ℤ) + 1 = num + ((done ++ [hdr]).length : ℕ) := by
      rw [List.length_append, List.length_singleton]
      omega
    rw [interpretOne]
    cases hs : skip hdr with
    | true =>
      rw [hskip hdr hmem es r₀ hs, ok_bind]
      refine .inl ⟨_, rfl, es, r₀, by rw [← hcount], ?_, hA₀⟩
      rwa [List.filter_append, List.filter_cons_of_neg (by simp [hs]), List.filter_nil,
        List.append_nil]
    | false =>
      have hadd := hadds hdr hmem es r₀ hs
      generalize interpret hdr (list ++ es) r₀ = result at hadd
      cases hadd with
      | @failed r' refused hm =>
        exact .inr ⟨_, rfl, es, r', size hdr, rfl, hP, hA.failed hA₀ (hsize hdr) hm,
          .of_malloc refused hm⟩
      | @added r' e granted hm he =>
        refine .inl ⟨_, rfl, es ++ [e], r', by rw [← hcount, List.append_assoc], ?_, ?_⟩
        · rw [List.filter_append, List.filter_cons_of_pos (by simp [hs]), List.filter_nil]
          exact List.rel_append hP (.cons he .nil)
        · rw [← List.append_assoc]
          exact hA.added hA₀ (hsize hdr) hm

end Runs

section Results

variable {libc : Libc} {socket : ℤ} {A : List Ifaddrs → Run → Prop} {links addrs : List Item}
  {list : List Ifaddrs} {r : Run} {hdr : Cursor} {hdrs : List Cursor}

/-- A message has room for its own data, and attributes that fill the rest of it. -/
def Framed (hdr : Cursor) (n : ℕ) : Prop := n + 16 ≤ nlmsg.length hdr ∧ 4 ∣ nlmsg.length hdr

instance (hdr : Cursor) (n : ℕ) : Decidable (Framed hdr n) := inferInstanceAs (Decidable (_ ∧ _))

/-- What the kernel keeps to in a datagram: it ends with a padded message, messages about links
and addresses are full of attributes, and the addresses are no longer than their family allows. -/
structure Sound (libc : Libc) (socket : ℤ) (bytes : List UInt8) : Prop where
  whole : Whole bytes
  links : ∀ hdr ∈ selected libc socket .newlink bytes, Framed hdr 16
  addrs : ∀ hdr ∈ selected libc socket .newaddr bytes, Framed hdr 8 ∧
    ∀ a ∈ attrsOf hdr, IsAddress a.1 → Fits (familyOf hdr) a.2.length

theorem mem_messagesIn {type : MessageType} {bytes : List UInt8}
    (h : hdr ∈ selected libc socket type bytes) : hdr ∈ messagesIn bytes := by
  have htake := (List.mem_filter.mp h).1
  exact (List.mem_filter.mp ((List.takeWhile_prefix _).subset htake)).1

theorem Whole.readable {bytes : List UInt8} (h : Whole bytes) (hmem : hdr ∈ messagesIn bytes)
    {n : ℕ} (hframed : Framed hdr n) : Readable hdr n := by
  have hin := h.inside hmem
  have hlength := hin.lengthLe
  have hleft := hin.aligned.leftLe
  have hle : hdr.left ≤ bytes.length := hin.leftLe
  have hlt := h.lt
  exact ⟨hframed.1, hframed.2, by omega, by omega⟩

/-- The messages about links, or addresses, of all datagrams. -/
def messagesOf (libc : Libc) (socket : ℤ) (type : MessageType) (items : List Item) : List Cursor :=
  items.flatMap fun item => selected libc socket type item.data.bytes

theorem readable_links (h : ∀ item ∈ links, Sound libc socket item.data.bytes) :
    ∀ hdr ∈ messagesOf libc socket .newlink links, Readable hdr 16 := by
  intro hdr hmem
  obtain ⟨item, hitem, hsel⟩ := List.mem_flatMap.mp hmem
  have hsound := h item hitem
  exact hsound.whole.readable (mem_messagesIn hsel) (hsound.links hdr hsel)

theorem sound_addrs (h : ∀ item ∈ addrs, Sound libc socket item.data.bytes) :
    ∀ hdr ∈ messagesOf libc socket .newaddr addrs, AddrSound hdr := by
  intro hdr hmem
  obtain ⟨item, hitem, hsel⟩ := List.mem_flatMap.mp hmem
  have hsound := h item hitem
  obtain ⟨hframed, hfits⟩ := hsound.addrs hdr hsel
  exact ⟨hsound.whole.readable (mem_messagesIn hsel) hframed, hfits⟩

/-- The links are interpreted to the end, or up to one that there is no memory for. -/
theorem interpretLinks_spec (h : ∀ item ∈ links, Sound libc socket item.data.bytes)
    (hA : KeptByMalloc libc A) (hr : A list r) :
    (∃ es r', interpretLinks libc socket links list r =
        .ok ((messagesOf libc socket .newlink links).length, list ++ es, r') ∧
        List.Forall₂ LinkEntry (messagesOf libc socket .newlink links) es ∧ A (list ++ es) r') ∨
      ∃ es r' done n, interpretLinks libc socket links list r = .ok (-1, list ++ es, r') ∧
        done <+: messagesOf libc socket .newlink links ∧ List.Forall₂ LinkEntry done es ∧
        A (list ++ es) r' ∧ Denied libc r' n := by
  have hreadable := readable_links h
  rw [interpretLinks, interpretItems_eq fun item hitem => (h item hitem).whole]
  rcases adds_run (P := LinkEntry) (interpretLink libc)
    (messagesOf libc socket .newlink links) (fun _ => false) hA sizeofIfaddrs_le_linkEntrySize
    (fun _ _ _ _ hskip => nomatch hskip)
    (fun hdr hmem es r _ => interpretLink_adds (hreadable hdr hmem)) 0 hr with
    ⟨es, r', hrun, hP, hA'⟩ | ⟨es, r', done, n, hrun, hpre, hP, hA', hdenied⟩
  · refine .inl ⟨es, r', ?_, by simpa using hP, hA'⟩
    change (runAll _ (messagesOf libc socket .newlink links) _).map _ = _
    rw [hrun]
    simp [Except.map]
  · refine .inr ⟨es, r', done, n, ?_, hpre, by simpa using hP, hA', hdenied⟩
    change (runAll _ (messagesOf libc socket .newlink links) _).map _ = _
    rw [hrun]
    rfl

/-- The link that `findInterface` finds: the first one with the index. -/
theorem findInterface_spec {es : List Ifaddrs} (h : List.Forall₂ LinkEntry hdrs es)
    (rest : List Ifaddrs) (index : ℕ) (num : ℤ) :
    ∃ link, findInterface index (num + hdrs.length) num (es ++ rest) = .ok link ∧
      Option.Rel (fun e hdr => LinkEntry hdr e ∧ e ∈ es) link
        (hdrs.find? fun hdr => indexOf hdr = index) := by
  induction h generalizing num with
  | nil =>
    refine ⟨none, ?_, .none⟩
    cases rest with
    | nil => rfl
    | cons e rest =>
      rw [List.nil_append, findInterface, if_neg (by simp)]
  | @cons hdr e hdrs es he _ ih =>
    have hcount : num + ((hdr :: hdrs).length : ℕ) = num + 1 + hdrs.length := by
      rw [List.length_cons]
      omega
    rw [List.cons_append, findInterface, if_pos (by rw [hcount]; omega), he.indexAt,
      ok_bind]
    by_cases heq : indexOf hdr = index
    · refine ⟨some e, if_pos heq, ?_⟩
      rw [List.find?_cons_of_pos (by simpa using heq)]
      exact .some ⟨he, List.mem_cons_self ..⟩
    · obtain ⟨link, hfind, hrel⟩ := ih (num + 1)
      refine ⟨link, ?_, ?_⟩
      · rw [hcount]
        exact (if_neg heq).trans hfind
      · rw [List.find?_cons_of_neg (by simpa using heq)]
        exact rel_mono (fun _ _ hl => ⟨hl.1, List.mem_cons_of_mem _ hl.2⟩) hrel

/-- The messages about an address that is not a link-layer one. -/
def inetMessages (hdrs : List Cursor) : List Cursor :=
  hdrs.filter fun hdr => !decide (familyOf hdr = afPacket)

/-- The entry of an address behind the entries `es` of the links. -/
def AddrEntryOf (links : List Cursor) (es : List Ifaddrs) (hdr : Cursor) (e : Ifaddrs) : Prop :=
  ∃ link, Option.Rel (fun e hdr => LinkEntry hdr e ∧ e ∈ es) link
    (links.find? fun l => indexOf l = indexOf hdr) ∧ AddrEntry hdr link e

/-- The addresses are interpreted to the end, or up to one that there is no memory for. -/
theorem interpretAddrs_spec (h : ∀ item ∈ addrs, Sound libc socket item.data.bytes)
    (hlinks : List.Forall₂ LinkEntry hdrs list) (hA : KeptByMalloc libc A) (hr : A list r) :
    (∃ es r', interpretAddrs libc socket addrs list hdrs.length r = .ok (0, list ++ es, r') ∧
        List.Forall₂ (AddrEntryOf hdrs list)
          (inetMessages (messagesOf libc socket .newaddr addrs)) es ∧ A (list ++ es) r') ∨
      ∃ es r' done n,
        interpretAddrs libc socket addrs list hdrs.length r = .ok (-1, list ++ es, r') ∧
        done <+: messagesOf libc socket .newaddr addrs ∧
        List.Forall₂ (AddrEntryOf hdrs list) (inetMessages done) es ∧ A (list ++ es) r' ∧
        Denied libc r' n := by
  have hsound := sound_addrs h
  have hfind (hdr : Cursor) (es : List Ifaddrs) :=
    findInterface_spec hlinks es (indexOf hdr) 0
  rw [Int.zero_add] at hfind
  rw [interpretAddrs, interpretItems_eq fun item hitem => (h item hitem).whole]
  have hrun := adds_run (P := AddrEntryOf hdrs list) (interpretAddr libc hdrs.length)
    (messagesOf libc socket .newaddr addrs) (fun hdr => familyOf hdr = afPacket) hA
    sizeofIfaddrs_le_addrEntrySize (fun hdr hmem es r hskip => by
      obtain ⟨link, heq, -⟩ := hfind hdr es
      rw [interpretAddr_eq (hsound hdr hmem).readable heq, if_pos (of_decide_eq_true hskip)])
    (fun hdr hmem es r hskip => by
      obtain ⟨link, heq, hrel⟩ := hfind hdr es
      have hpacket := of_decide_eq_false hskip
      rw [interpretAddr_eq (hsound hdr hmem).readable heq, if_neg hpacket]
      exact (addAddress_adds (hsound hdr hmem) hpacket).mono fun e he => ⟨link, hrel, he⟩) 0 hr
  rcases hrun with ⟨es, r', hrun, hP, hA'⟩ | ⟨es, r', done, n, hrun, hpre, hP, hA', hdenied⟩
  · refine .inl ⟨es, r', ?_, hP, hA'⟩
    change ((runAll _ (messagesOf libc socket .newaddr addrs) _).map _ >>= _) = _
    rw [hrun]
    simp [Except.map]
  · refine .inr ⟨es, r', done, n, ?_, hpre, hP, hA', hdenied⟩
    change ((runAll _ (messagesOf libc socket .newaddr addrs) _).map _ >>= _) = _
    rw [hrun]
    rfl

end Results

section Meaning

variable {links hdrs : List Cursor} {list es es' : List Ifaddrs} {e : Ifaddrs} {hdr : Cursor}

/-- What a message says of an address. Where it has no label the name is that of its link, and the
flags are those of the link as well. -/
def addressInterface (link : Option Interface) (index : ℕ) (family : UInt16) (prefixlen flags : ℕ)
    (attrs : List (AddrAttr × List UInt8)) : Interface where
  name := ((lastOf .label attrs).map cText).getD (link.elim [] (·.name))
  flags := flags ||| link.elim 0 (·.flags)
  addr := (endsOf attrs).addr.map (inetAddress index family)
  netmask := netmaskOf family prefixlen (endsOf attrs).addr
  dstaddr := (endsOf attrs).dstaddr.map (inetAddress index family)
  data := none

/-- The link of an address is the first one with its index. -/
def addrInterface (links : List Cursor) (hdr : Cursor) : Interface :=
  addressInterface ((links.find? fun l => indexOf l = indexOf hdr).map linkInterface)
    (indexOf hdr) (familyOf hdr) (prefixlenOf hdr) (flagsOf hdr) (attrsOf hdr)

/-- What the messages say: of each link, and of each address that is not a link-layer one. -/
def interfaces (links addrs : List Cursor) : List Interface :=
  links.map linkInterface ++ (inetMessages addrs).map (addrInterface links)

/-- The name of a link, for an address that has no label. -/
theorem nameIn_of_nameOf {link : Option Ifaddrs} {linked : Option Interface}
    {given : Option (List UInt8)} {ptr : NamePtr}
    (hlink : Option.Rel (fun e i => Represents [e] e i ∧ e ∈ es) link linked)
    (h : NameOf (link.elim .empty (·.ifaName)) e.block 0 e.tail ptr given) (hmem : e ∈ list)
    (hsub : es ⊆ list) :
    NameIn list ptr ((given.map cText).getD (linked.elim [] (·.name))) := by
  cases h with
  | @own data hat => exact ⟨zero_notMem_cText data, e, hmem, rfl, hat⟩
  | other =>
    cases hlink with
    | none => rfl
    | some hl =>
      refine hl.1.name.mono ?_
      simpa using hsub hl.2

theorem AddrEntry.represents {link : Option Ifaddrs} {linked : Option Interface}
    (h : AddrEntry hdr link e)
    (hlink : Option.Rel (fun e i => Represents [e] e i ∧ e ∈ es) link linked) (hmem : e ∈ list)
    (hsub : es ⊆ list) :
    Represents list e (addressInterface linked (indexOf hdr) (familyOf hdr) (prefixlenOf hdr)
      (flagsOf hdr) (attrsOf hdr)) := by
  obtain ⟨hname, hflags, haddr, hdstaddr, hnetmask, hdata⟩ := h
  generalize familyOf hdr = family at haddr hdstaddr hnetmask ⊢
  generalize prefixlenOf hdr = prefixlen at hnetmask ⊢
  generalize flagsOf hdr = flags at hflags ⊢
  generalize attrsOf hdr = attrs at hname haddr hdstaddr hnetmask ⊢
  have hlaid (off : ℕ) (a : Address) (h : LaidOut e.tail off a) : AddressAt e.tail off a :=
    h.addressAt
  refine ⟨nameIn_of_nameOf hlink hname hmem hsub, ?_, rel_mono hlaid haddr,
    rel_mono hlaid hnetmask, rel_mono hlaid hdstaddr, hdata ▸ .none⟩
  cases hlink with
  | none => exact hflags
  | some hl => exact hflags.trans (congrArg _ hl.1.flags)

theorem AddrEntryOf.represents (h : AddrEntryOf links es hdr e) (hmem : e ∈ list)
    (hsub : es ⊆ list) : Represents list e (addrInterface links hdr) := by
  obtain ⟨link, hlink, hentry⟩ := h
  refine hentry.represents (rel_map (rel_mono (fun _ _ hl => ?_) hlink)) hmem hsub
  exact ⟨hl.1.represents, hl.2⟩

theorem forall₂_imp_mem {α β : Type*} {R S : α → β → Prop} {as : List α} {bs : List β}
    (h : List.Forall₂ R as bs) (himp : ∀ a b, b ∈ bs → R a b → S a b) :
    List.Forall₂ S as bs := by
  have hmem : List.Forall₂ (fun b a => b ∈ bs ∧ R a b) bs as :=
    (List.forall₂_and_left bs as).mpr ⟨fun _ hb => hb, h.flip⟩
  exact (hmem.imp fun b a hba => himp a b hba.1 hba.2).flip

/-- Entries say what their messages say. -/
theorem forall₂_represents {R : Cursor → Ifaddrs → Prop} {say : Cursor → Interface}
    (h : List.Forall₂ R hdrs es) (himp : ∀ hdr, ∀ e ∈ es, R hdr e → Represents list e (say hdr)) :
    List.Forall₂ (Represents list) es (hdrs.map say) := by
  have hsay : List.Forall₂ (fun hdr e => Represents list e (say hdr)) hdrs es :=
    forall₂_imp_mem h himp
  exact List.forall₂_map_right_iff.mpr hsay.flip

/-- The list that the entries of the messages make says what the messages say. -/
theorem represents_interfaces (hlinks : List.Forall₂ LinkEntry links es)
    (haddrs : List.Forall₂ (AddrEntryOf links es) (inetMessages hdrs) es') :
    List.Forall₂ (Represents (es ++ es')) (es ++ es') (interfaces links hdrs) := by
  refine List.rel_append (forall₂_represents hlinks fun hdr e he hl => hl.represents.mono ?_)
    (forall₂_represents haddrs fun hdr e he ha => ha.represents ?_ ?_)
  · simpa using Or.inl he
  · exact List.mem_append_right _ he
  · exact List.subset_append_left _ _

end Meaning

end AutoTest.Netlink
