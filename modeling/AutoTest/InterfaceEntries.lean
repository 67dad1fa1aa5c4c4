import AutoTest.NetlinkMessages

/-!
# The entries of `getifaddrs`

Every message makes one entry. An entry and all it points to are one block, which is measured by
a first pass over the attributes and filled by a second one; the pointers of an entry are offsets
behind its `struct ifaddrs`. Only its name may be in another block: an address without a label
has the name of its link.
-/

namespace AutoTest.Netlink

open RecordWalks ByteBlocks

/-- A pointer to a name: the empty literal, or into the block of an entry. -/
inductive NamePtr
  | empty
  | at (block off : ℕ)
  deriving DecidableEq

/-- A `struct ifaddrs` in its block; `tail` is what follows it there. The broadcast address is
kept in `ifaDstaddr`. -/
structure Ifaddrs where
  block : ℕ
  ifaName : NamePtr
  ifaFlags : ℕ
  ifaAddr : Option ℕ
  ifaNetmask : Option ℕ
  ifaDstaddr : Option ℕ
  ifaData : Option ℕ
  tail : Block
  deriving DecidableEq

def sizeofIfaddrs : ℕ := 56

def addToEnd : List Ifaddrs → Ifaddrs → List Ifaddrs
  | [], entry => [entry]
  | cur :: rest, entry => cur :: addToEnd rest entry

section Attributes

/-- `RTA_PAYLOAD` -/
def rtaPayload (c : Cursor) : ℕ := rta.length c - 4

/-- `RTA_DATA` -/
def rtaData (c : Cursor) : List UInt8 := c.bytes.drop 4

/-- `rta_type` -/
def rtaType (c : Cursor) : Except Halt ℕ := field c.bytes 2 2

/-- `NLMSG_DATA` -/
def nlmsgData (hdr : Cursor) : List UInt8 := hdr.bytes.drop 16

/-- The first attribute behind the `n` bytes of a message's own data, and the size of them all. -/
def attributes (hdr : Cursor) (n : ℕ) : Cursor :=
  ⟨(nlmsgData hdr).drop (nlmsgAlign n), nlmsgPayload (nlmsg.length hdr) n⟩

/-- The text of an attribute with a terminator behind it. -/
def putName (b : Block) (name : ℕ) (c : Cursor) : Except Halt Block := do
  let b ← put b name (← strncpy (rtaData c) (rtaPayload c))
  put b (name + rtaPayload c) [0]

end Attributes

section Links

/-- The sizes that the first pass over a link measures. -/
structure LinkSizes where
  nameSize : ℕ
  addrSize : ℕ
  dataSize : ℕ

def measureLink (s : LinkSizes) (c : Cursor) : Except Halt LinkSizes := do
  match LinkAttr.decode (← rtaType c) with
  | .address | .broadcast =>
    return { s with addrSize := s.addrSize + nlmsgAlign (calcAddrLen afPacket (rtaPayload c)) }
  | .ifname => return { s with nameSize := s.nameSize + nlmsgAlign (c.left + 1) }
  | .stats => return { s with dataSize := s.dataSize + nlmsgAlign c.left }
  | .other => return s

/-- The entry that the second pass fills, and where the next address goes. -/
structure Filling where
  entry : Ifaddrs
  addr : ℕ

/-- The address of an attribute, as a `sockaddr_ll` where the next one goes, with the index and
the type of the link. -/
def putLinkAddress (info : List UInt8) (s : Filling) (c : Cursor) : Except Halt Block := do
  let tail ← makeSockaddr afPacket s.entry.tail s.addr (← read (rtaData c) 0 (rtaPayload c))
  let tail ← put tail (s.addr + 4) (← read info 4 4)
  put tail (s.addr + 8) (← read info 2 2)

/-- One attribute of a link, with its names at `name` and its statistics at `data`. -/
def fillLink (info : List UInt8) (name data : ℕ) (s : Filling) (c : Cursor) :
    Except Halt Filling := do
  let addr := s.addr + nlmsgAlign (calcAddrLen afPacket (rtaPayload c))
  match LinkAttr.decode (← rtaType c) with
  | .address =>
    let tail ← putLinkAddress info s c
    return ⟨{ s.entry with tail, ifaAddr := some s.addr }, addr⟩
  | .broadcast =>
    let tail ← putLinkAddress info s c
    return ⟨{ s.entry with tail, ifaDstaddr := some s.addr }, addr⟩
  | .ifname =>
    let tail ← putName s.entry.tail name c
    return { s with entry := { s.entry with tail, ifaName := .at s.entry.block name } }
  | .stats =>
    let tail ← put s.entry.tail data (← read (rtaData c) 0 (rtaPayload c))
    return { s with entry := { s.entry with tail, ifaData := some data } }
  | .other => return s

/-- What a function that interprets a message gives back: its result, the list and the rest. -/
abbrev Interpreted := ℤ × List Ifaddrs × Run

def interpretLink (libc : Libc) (hdr : Cursor) (list : List Ifaddrs) (r : Run) :
    Except Halt Interpreted := do
  let sizes ← rta.fold .fault measureLink (attributes hdr 16) ⟨0, 0, 0⟩
  let size := 4 + sizes.nameSize + sizes.addrSize + sizes.dataSize
  match malloc libc (sizeofIfaddrs + size) r with
  | (none, r) => return (-1, list, r)
  | (some block, r) =>
    -- the index of the link is kept in front of its name
    let tail ← put (fresh size) 0 (← read (nlmsgData hdr) 4 4)
    let flags ← field (nlmsgData hdr) 8 4
    let entry := ⟨block, .empty, flags, none, none, none, none, tail⟩
    let name := 4
    let addr := name + sizes.nameSize
    let data := addr + sizes.addrSize
    let filling ← rta.fold .fault (fillLink (nlmsgData hdr) name data) (attributes hdr 16)
      ⟨entry, addr⟩
    return (0, addToEnd list filling.entry, r)

/-- The first of the links, which are in front of the list, that has an index. -/
def findInterface (index : ℕ) (numLinks : ℤ) : ℤ → List Ifaddrs → Except Halt (Option Ifaddrs)
  | _, [] => .ok none
  | num, cur :: rest =>
    if num < numLinks then do
      let curIndex ← get cur.tail 0 4
      if leNat curIndex = index then return some cur
      else findInterface index numLinks (num + 1) rest
    else .ok none

end Links

section Addresses

/-- The sizes that the first pass over an address measures, and whether room was made for the
netmask. -/
structure AddrSizes where
  nameSize : ℕ
  addrSize : ℕ
  addedNetmask : Bool

def IsInet (family : UInt16) : Prop := family = afInet ∨ family = afInet6

instance (family : UInt16) : Decidable (IsInet family) := inferInstanceAs (Decidable (_ ∨ _))

/-- The first address of an interface, or of the other end, makes room for the netmask. -/
def measureEnd (family : UInt16) (len : ℕ) (s : AddrSizes) : AddrSizes :=
  if IsInet family ∧ ¬ s.addedNetmask then
    { s with addrSize := s.addrSize + len + len, addedNetmask := true }
  else { s with addrSize := s.addrSize + len }

def measureAddr (family : UInt16) (s : AddrSizes) (c : Cursor) : Except Halt AddrSizes := do
  let len := nlmsgAlign (calcAddrLen family (rtaPayload c))
  match AddrAttr.decode (← rtaType c) with
  | .address | .loc => return measureEnd family len s
  | .broadcast => return { s with addrSize := s.addrSize + len }
  | .label => return { s with nameSize := s.nameSize + nlmsgAlign (c.left + 1) }
  | .other => return s

/-- `sin6_scope_id`, which only an IPv6 address has, and gets only if it is link-local. -/
def putScope (info : List UInt8) (family : UInt16) (b : Block) (dest : ℕ) (addr : List UInt8) :
    Except Halt Block :=
  if family = afInet6 then do
    if ← linkLocal addr then put b (dest + 24) (← read info 4 4) else return b
  else .ok b

/-- The address of an attribute, as a `sockaddr` where the next one goes. -/
def putAddress (info : List UInt8) (family : UInt16) (s : Filling) (c : Cursor) :
    Except Halt Block := do
  let tail ← makeSockaddr family s.entry.tail s.addr (← read (rtaData c) 0 (rtaPayload c))
  putScope info family tail s.addr (rtaData c)

/-- One attribute of an address, with its label at the start of the tail. -/
def fillAddr (info : List UInt8) (family : UInt16) (s : Filling) (c : Cursor) :
    Except Halt Filling := do
  let addr := s.addr + nlmsgAlign (calcAddrLen family (rtaPayload c))
  match AddrAttr.decode (← rtaType c) with
  | .address =>
    let tail ← putAddress info family s c
    if s.entry.ifaAddr.isSome then
      return ⟨{ s.entry with tail, ifaDstaddr := some s.addr }, addr⟩
    else return ⟨{ s.entry with tail, ifaAddr := some s.addr }, addr⟩
  | .loc =>
    let tail ← putAddress info family s c
    if s.entry.ifaAddr.isSome then
      return ⟨{ s.entry with tail, ifaDstaddr := s.entry.ifaAddr, ifaAddr := some s.addr }, addr⟩
    else return ⟨{ s.entry with tail, ifaAddr := some s.addr }, addr⟩
  | .broadcast =>
    let tail ← putAddress info family s c
    return ⟨{ s.entry with tail, ifaDstaddr := some s.addr }, addr⟩
  | .label =>
    let tail ← putName s.entry.tail 0 c
    return { s with entry := { s.entry with tail, ifaName := .at s.entry.block 0 } }
  | .other => return s

/-- The loop over the whole bytes of a netmask: `n` of them from `i` on. -/
def fillMask (mask : List UInt8) (i : ℕ) : ℕ → List UInt8
  | 0 => mask
  | n + 1 => fillMask (mask.set i 0xff) (i + 1) n

/-- `l_mask` -/
def netmask (pre : ℕ) : List UInt8 :=
  let mask := fillMask (List.replicate 16 0) 0 (pre / 8)
  if pre % 8 ≠ 0 then mask.set (pre / 8) (.ofNat (0xff <<< (8 - pre % 8))) else mask

/-- The netmask behind the last address, for an entry that has an IP address. -/
def fillNetmask (prefixlen : ℕ) (s : Filling) : Except Halt Ifaddrs := do
  match s.entry.ifaAddr with
  | none => return s.entry
  | some off =>
    let family := UInt16.ofNat (leNat (← get s.entry.tail off 2))
    if IsInet family then
      let maxPrefix := if family = afInet then 32 else 128
      let pre := if prefixlen > maxPrefix then maxPrefix else prefixlen
      let tail ← makeSockaddr family s.entry.tail s.addr ((netmask pre).take (maxPrefix / 8))
      return { s.entry with tail, ifaNetmask := some s.addr }
    else return s.entry

/-- The entry of an address before the second pass: it has the name of its link, if there is one,
and the flags of both. -/
def newEntry (block : ℕ) (interface : Option Ifaddrs) (flags size : ℕ) : Ifaddrs :=
  match interface with
  | some link => ⟨block, link.ifaName, flags ||| link.ifaFlags, none, none, none, none, fresh size⟩
  | none => ⟨block, .empty, flags, none, none, none, none, fresh size⟩

/-- The part of `interpretAddr` for an address that is not a link-layer one. -/
def addAddress (libc : Libc) (interface : Option Ifaddrs) (family : UInt16) (hdr : Cursor)
    (list : List Ifaddrs) (r : Run) : Except Halt Interpreted := do
  let sizes ← rta.fold .fault (measureAddr family) (attributes hdr 8) ⟨0, 0, false⟩
  let size := sizes.nameSize + sizes.addrSize
  match malloc libc (sizeofIfaddrs + size) r with
  | (none, r) => return (-1, list, r)
  | (some block, r) =>
    let entry := newEntry block interface (← field (nlmsgData hdr) 2 1) size
    let filling ← rta.fold .fault (fillAddr (nlmsgData hdr) family) (attributes hdr 8)
      ⟨entry, sizes.nameSize⟩
    let entry ← fillNetmask (← field (nlmsgData hdr) 1 1) filling
    return (0, addToEnd list entry, r)

def interpretAddr (libc : Libc) (numLinks : ℤ) (hdr : Cursor) (list : List Ifaddrs) (r : Run) :
    Except Halt Interpreted := do
  let interface ← findInterface (← field (nlmsgData hdr) 4 4) numLinks 0 list
  let family := UInt16.ofNat (← field (nlmsgData hdr) 0 1)
  if family = afPacket then return (0, list, r)
  else addAddress libc interface family hdr list r

end Addresses

section Lists

/-- What the kernel sent in one datagram, in its block; `size` is `m_size`. -/
structure Response where
  block : ℕ
  bytes : List UInt8

/-- A `NetlinkList` item in its own block. -/
structure Item where
  block : ℕ
  data : Response

/-- The body of the loops over messages: those of one type are interpreted and counted. -/
def interpretMessage (libc : Libc) (socket : ℤ) (type : MessageType)
    (interpret : Cursor → List Ifaddrs → Run → Except Halt Interpreted) (s : Interpreted)
    (hdr : Cursor) : Except Halt (LoopStep Interpreted Interpreted) := do
  if ← ours libc socket hdr then
    let found ← messageType hdr
    if found = .done then return .leave s
    else if found = type then
      let (ret, list, r) ← interpret hdr s.2.1 s.2.2
      if ret = -1 then return .exit (-1, list, r) else return .next (s.1 + 1, list, r)
    else return .next s
  else return .next s

/-- The loops of `interpretLinks` and `interpretAddrs`. -/
def interpretItems (libc : Libc) (socket : ℤ) (type : MessageType)
    (interpret : Cursor → List Ifaddrs → Run → Except Halt Interpreted) :
    List Item → Interpreted → Except Halt Interpreted
  | [], s => .ok s
  | item :: rest, s => do
    let hdr := ⟨item.data.bytes, item.data.bytes.length⟩
    match ← nlmsg.each .fault (interpretMessage libc socket type interpret) hdr s with
    | .inl s => interpretItems libc socket type interpret rest s
    | .inr result => return result

/-- The number of links, or -1. -/
def interpretLinks (libc : Libc) (socket : ℤ) (items : List Item) (list : List Ifaddrs)
    (r : Run) : Except Halt Interpreted :=
  interpretItems libc socket .newlink (interpretLink libc) items (0, list, r)

/-- 0, or -1. -/
def interpretAddrs (libc : Libc) (socket : ℤ) (items : List Item) (list : List Ifaddrs)
    (numLinks : ℤ) (r : Run) : Except Halt Interpreted := do
  let (ret, list, r) ←
    interpretItems libc socket .newaddr (interpretAddr libc numLinks) items (0, list, r)
  return (if ret = -1 then -1 else 0, list, r)

end Lists

end AutoTest.Netlink
