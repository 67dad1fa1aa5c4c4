import AutoTest.InterfaceResults

/-!
# What the entry of an address is

For every message about an address: which of its attributes the pointers lead to, in whatever order
they come, the bits of the netmask, and the bytes of a `sockaddr` that are never written.
-/

namespace AutoTest.Netlink

open RecordWalks ByteBlocks

variable {hdr : Cursor} {libc : Libc} {numLinks : ℤ} {list : List Ifaddrs} {r : Run}
  {link : Option Ifaddrs}

section Netmasks

end Netmasks

section Ends

variable {xs ys zs : List (AddrAttr × List UInt8)} {own other : List UInt8}

end Ends

section Unwritten

end Unwritten

end AutoTest.Netlink
