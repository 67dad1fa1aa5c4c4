import AutoTest.ByteBlocks
import AutoTest.RecordWalks
import AutoTest.WorkerThreads

/-!
# Netlink messages and the memory that `ifaddrs.c` works on

The layouts are those of `linux/netlink.h`, `linux/rtnetlink.h` and the socket headers, on a
little-endian machine with 64-bit pointers. A computation halts with a fault when it reads behind
the bytes that were received, or reads or writes outside of what was allocated; it waits when it
asks for a datagram and none comes any more.
-/

namespace AutoTest.Netlink

open RecordWalks ByteBlocks

inductive Halt
  | fault
  | waiting
  deriving DecidableEq

section Reads

@[simp] theorem ok_bind {α β : Type} (a : α) (f : α → Except Halt β) :
    (Except.ok a >>= f) = f a := rfl

@[simp] theorem error_bind {α β : Type} (e : Halt) (f : α → Except Halt β) :
    (Except.error e >>= f) = .error e := rfl

/-- The `n` bytes at an offset of a pointer to received bytes. -/
def read (bytes : List UInt8) (off n : ℕ) : Except Halt (List UInt8) :=
  if off + n ≤ bytes.length then .ok ((bytes.drop off).take n) else .error .fault

/-- The unsigned number in the `n` bytes at an offset. -/
def field (bytes : List UInt8) (off n : ℕ) : Except Halt ℕ := (read bytes off n).map leNat

/-- `memcpy` into an allocated block. -/
def put (b : Block) (off : ℕ) (data : List UInt8) : Except Halt Block :=
  match store b off data with
  | some b' => .ok b'
  | none => .error .fault

/-- `n` bytes at an offset of an allocated block. -/
def get (b : Block) (off n : ℕ) : Except Halt (List UInt8) :=
  match load b off n with
  | some data => .ok data
  | none => .error .fault

/-- The `n` bytes that `strncpy` writes: the source is read up to its terminator. -/
def strncpy (src : List UInt8) (n : ℕ) : Except Halt (List UInt8) :=
  let text := (src.take n).takeWhile (· ≠ 0)
  if text.length < (src.take n).length ∨ n ≤ src.length then
    .ok (text ++ List.replicate (n - text.length) 0)
  else .error .fault

end Reads

section Records

/-- `NLMSG_OK` and `NLMSG_NEXT`, with an `unsigned int` for the size. -/
def nlmsg : Format where
  header := 16
  width := 4
  unit := 4
  modulus := 2 ^ 32
  widthPos := by decide
  widthLe := by decide
  unitPos := by decide

/-- `RTA_OK` and `RTA_NEXT`, with a `size_t` for the size. -/
def rta : Format where
  header := 4
  width := 2
  unit := 4
  modulus := 2 ^ 64
  widthPos := by decide
  widthLe := by decide
  unitPos := by decide

/-- `NLMSG_ALIGN`; its mask has 32 bits. -/
def nlmsgAlign (n : ℕ) : ℕ := (n + 3) % 2 ^ 32 / 4 * 4

/-- `NLMSG_PAYLOAD`, as a `size_t`. -/
def nlmsgPayload (nlmsgLen n : ℕ) : ℕ := (nlmsgLen + 2 ^ 64 - nlmsgAlign (n + 16)) % 2 ^ 64

inductive MessageType
  | error
  | done
  | newlink
  | newaddr
  | other
  deriving DecidableEq

/-- `NLMSG_ERROR`, `NLMSG_DONE`, `RTM_NEWLINK` and `RTM_NEWADDR`. -/
def MessageType.decode : ℕ → MessageType
  | 2 => .error
  | 3 => .done
  | 16 => .newlink
  | 20 => .newaddr
  | _ => .other

/-- `nlmsg_type` -/
def messageType (hdr : Cursor) : Except Halt MessageType :=
  (field hdr.bytes 4 2).map MessageType.decode

def rtmGetlink : ℕ := 18

def rtmGetaddr : ℕ := 22

/-- The attributes of a link that are used. -/
inductive LinkAttr
  | address
  | broadcast
  | ifname
  | stats
  | other
  deriving DecidableEq

/-- `IFLA_ADDRESS`, `IFLA_BROADCAST`, `IFLA_IFNAME` and `IFLA_STATS`. -/
def LinkAttr.decode : ℕ → LinkAttr
  | 1 => .address
  | 2 => .broadcast
  | 3 => .ifname
  | 7 => .stats
  | _ => .other

/-- The attributes of an address that are used. -/
inductive AddrAttr
  | address
  | loc
  | label
  | broadcast
  | other
  deriving DecidableEq

/-- `IFA_ADDRESS`, `IFA_LOCAL`, `IFA_LABEL` and `IFA_BROADCAST`. -/
def AddrAttr.decode : ℕ → AddrAttr
  | 1 => .address
  | 2 => .loc
  | 3 => .label
  | 4 => .broadcast
  | _ => .other

end Records

section Addresses

def afInet6 : UInt16 := 10

def afPacket : UInt16 := 17

def maxSize (a b : ℕ) : ℕ := if a > b then a else b

def calcAddrLen (family : UInt16) (dataSize : ℕ) : ℕ :=
  if family = afInet then 16
  else if family = afInet6 then 28
  else if family = afPacket then maxSize 20 (12 + dataSize)
  else maxSize 16 (2 + dataSize)

/-- Where the bytes of an address are in its `sockaddr`: `sin_addr`, `sin6_addr`, `sll_addr` and
`sa_data`. -/
def addrOffset (family : UInt16) : ℕ :=
  if family = afInet then 4
  else if family = afInet6 then 8
  else if family = afPacket then 12
  else 2

/-- `sll_halen`, which only a link-layer address has. -/
def putHalen (family : UInt16) (b : Block) (dest n : ℕ) : Except Halt Block :=
  if family = afPacket then put b (dest + 11) [.ofNat n] else .ok b

/-- The `sockaddr` at `dest` gets its address and its family. -/
def makeSockaddr (family : UInt16) (b : Block) (dest : ℕ) (data : List UInt8) :
    Except Halt Block := do
  let b ← put b (dest + addrOffset family) data
  let b ← putHalen family b dest data.length
  put b dest (leBytes 2 family.toNat)

/-- `IN6_IS_ADDR_LINKLOCAL` or `IN6_IS_ADDR_MC_LINKLOCAL`. -/
def linkLocal (addr : List UInt8) : Except Halt Bool := do
  let first ← field addr 0 1
  if first = 0xfe then return (← field addr 1 1) &&& 0xc0 = 0x80
  else if first = 0xff then return (← field addr 1 1) &&& 0x0f = 0x02
  else return false

end Addresses

section Calls

/-- The calls that are made, with their results. -/
inductive Call
  | malloc (size : ℕ) (ret : Option ℕ)
  | free (ptr : Option ℕ)
  | socket (ret : ℤ)
  | sendto (socket : ℤ) (data : List UInt8)
  | close (socket : ℤ)
  deriving DecidableEq

/-- What a call of `recvmsg` meets. A datagram is shorter than 2 ^ 31 bytes. -/
inductive Reception
  | interrupted
  | failed
  | datagram (bytes : List UInt8) (lt : bytes.length < 2 ^ 31)
  deriving DecidableEq

/-- The answers of the system: its process id, whether a `malloc` succeeds, by its number and the
size, and the results of `socket`, `bind` and, for each request, `sendto`. -/
structure Libc where
  getpid : ℤ
  granted : ℕ → ℕ → Bool
  socketRet : ℤ
  bindRet : ℤ
  sendtoRet : ℕ → ℤ

/-- What is still to be received, how often `malloc` was called, and the calls so far. -/
structure Run where
  receptions : List Reception
  mallocs : ℕ
  calls : List Call

/-- A block has the number of the `malloc` that made it. None is larger than `PTRDIFF_MAX`. -/
def malloc (libc : Libc) (size : ℕ) (r : Run) : Option ℕ × Run :=
  let ret := if size < 2 ^ 63 ∧ libc.granted r.mallocs size then some r.mallocs else none
  (ret, { r with mallocs := r.mallocs + 1, calls := r.calls ++ [.malloc size ret] })

def Run.log (r : Run) (calls : List Call) : Run := { r with calls := r.calls ++ calls }

/-- Whether a message is one for this process and this socket. -/
def ours (libc : Libc) (socket : ℤ) (hdr : Cursor) : Except Halt Bool := do
  if Int.bmod (← field hdr.bytes 12 4) (2 ^ 32) = libc.getpid then
    return Int.bmod (← field hdr.bytes 8 4) (2 ^ 32) = socket
  else return false

end Calls

end AutoTest.Netlink
