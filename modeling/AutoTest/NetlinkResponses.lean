import AutoTest.InterfaceEntries

/-!
# Asking the kernel for links and addresses

`getifaddrs` sends a request for the links and one for the addresses, reads the datagrams of each
answer until one has a message that ends it, and interprets the messages of both. A datagram that
does not fit in the buffer is cut off by `recvmsg` and lost: the next one is received in a buffer
twice as large.
-/

namespace AutoTest.Netlink

open RecordWalks ByteBlocks

section Socket

/-- `netlink_socket` -/
def netlinkSocket (libc : Libc) (r : Run) : ℤ × Run :=
  let r := r.log [.socket libc.socketRet]
  if libc.socketRet < 0 then (-1, r)
  else if libc.bindRet < 0 then (-1, r.log [.close libc.socketRet])
  else (libc.socketRet, r)

/-- The request of `netlink_send`: a header with the flags `NLM_F_ROOT`, `NLM_F_MATCH` and
`NLM_F_REQUEST`, and an address family. -/
def requestMessage (socket : ℤ) (request : ℕ) : List UInt8 :=
  leBytes 4 17 ++ leBytes 2 request ++ leBytes 2 0x301 ++ leBytes 4 socket.toNat ++ leBytes 4 0 ++ [0]

/-- `netlink_send` -/
def netlinkSend (libc : Libc) (socket : ℤ) (request : ℕ) (r : Run) : ℤ × Run :=
  (libc.sendtoRet request, r.log [.sendto socket (requestMessage socket request)])

/-- `netlink_recv` with a buffer of `len` bytes: the result, what is in the buffer, and what is
still to be received. -/
def netlinkRecv (len : ℕ) :
    List Reception → Except Halt (ℤ × List UInt8 × List Reception)
  | [] => .error .waiting
  | .interrupted :: rest => netlinkRecv len rest
  | .failed :: rest => .ok (-2, [], rest)
  | .datagram bytes _ :: rest =>
    if bytes.length > len then .ok (-1, bytes.take len, rest) else .ok (bytes.length, bytes, rest)

end Socket

section Responses

/-- The body of the loop over a response: whether its end was seen, or an error. -/
def scanMessage (libc : Libc) (socket : ℤ) (done : Bool) (hdr : Cursor) :
    Except Halt (LoopStep Bool Unit) := do
  if ← ours libc socket hdr then
    match ← messageType hdr with
    | .done => return .leave true
    | .error => return .exit ()
    | _ => return .next done
  else return .next done

/-- `getNetlinkResponse` from a buffer on that is freed first: the response, and whether it is the
last one. The size cannot overflow: a `malloc` fails before. -/
def netlinkResponse (libc : Libc) (socket : ℤ) :
    ℕ → ℕ → Option ℕ → Run → Except Halt (Option Response × Bool × Run)
  | 0, _, _, _ => .error .waiting
  | fuel + 1, size, buffer, r =>
    match malloc libc size (r.log [.free buffer]) with
    | (none, r) => .ok (none, false, r)
    | (some buffer, r) => do
      let (result, bytes, receptions) ← netlinkRecv size r.receptions
      let r := { r with receptions }
      if result = -2 then return (none, false, r.log [.free (some buffer)])
      else if 0 ≤ result then
        match ← nlmsg.each .fault (scanMessage libc socket) ⟨bytes, bytes.length⟩ false with
        | .inl done => return (some ⟨buffer, bytes⟩, done, r)
        | .inr () => return (none, false, r.log [.free (some buffer)])
      else netlinkResponse libc socket fuel (size * 2) (some buffer) r

/-- Every round receives something, so there are no more rounds than receptions and one. -/
def getNetlinkResponse (libc : Libc) (socket : ℤ) (r : Run) :
    Except Halt (Option Response × Bool × Run) :=
  netlinkResponse libc socket (r.receptions.length + 1) 4096 none r

end Responses

section Results

def sizeofNetlinkList : ℕ := 24

def newListItem (libc : Libc) (data : Response) (r : Run) : Option Item × Run :=
  match malloc libc sizeofNetlinkList r with
  | (none, r) => (none, r)
  | (some block, r) => (some ⟨block, data⟩, r)

/-- The calls of `freeResultList`. -/
def freeResultList : List Item → List Call
  | [] => []
  | cur :: rest => .free (some cur.data.block) :: .free (some cur.block) :: freeResultList rest

/-- The loop of `getResultList`, from the items that it has so far. -/
def resultList (libc : Libc) (socket : ℤ) :
    ℕ → List Item → Run → Except Halt (Option (List Item) × Run)
  | 0, _, _ => .error .waiting
  | fuel + 1, list, r => do
    match ← getNetlinkResponse libc socket r with
    | (none, _, r) => return (none, r.log (freeResultList list))
    | (some hdr, done, r) =>
      match newListItem libc hdr r with
      | (none, r) => return (none, r.log (freeResultList list))
      | (some item, r) =>
        if done then return (some (list ++ [item]), r)
        else resultList libc socket fuel (list ++ [item]) r

def getResultList (libc : Libc) (socket : ℤ) (request : ℕ) (r : Run) :
    Except Halt (Option (List Item) × Run) :=
  let (ret, r) := netlinkSend libc socket request r
  if ret < 0 then .ok (none, r) else resultList libc socket (r.receptions.length + 1) [] r

/-- The addresses are interpreted unless a link failed; the result is 0, or -1. -/
def interpretRest (libc : Libc) (socket : ℤ) (addrResults : List Item) (numLinks : ℤ)
    (list : List Ifaddrs) (r : Run) : Except Halt Interpreted :=
  if numLinks = -1 then .ok (-1, list, r)
  else interpretAddrs libc socket addrResults list numLinks r

/-- The result of `getifaddrs`, and what `ifap` points to then, unless it is `NULL`. -/
def getifaddrs (libc : Libc) (ifap : Option (List Ifaddrs)) (r : Run) :
    Except Halt (ℤ × Option (List Ifaddrs) × Run) :=
  match ifap with
  | none => .ok (-1, none, r)
  | some _ =>
    let (socket, r) := netlinkSocket libc r
    if socket < 0 then .ok (-1, some [], r)
    else do
      match ← getResultList libc socket rtmGetlink r with
      | (none, r) => return (-1, some [], r.log [.close socket])
      | (some linkResults, r) =>
        match ← getResultList libc socket rtmGetaddr r with
        | (none, r) => return (-1, some [], r.log (.close socket :: freeResultList linkResults))
        | (some addrResults, r) =>
          let (numLinks, list, r) ← interpretLinks libc socket linkResults [] r
          let (result, list, r) ← interpretRest libc socket addrResults numLinks list r
          return (result, some list, r.log
            (freeResultList linkResults ++ freeResultList addrResults ++ [.close socket]))

/-- The calls of `freeifaddrs`. -/
def freeifaddrs : List Ifaddrs → List Call
  | [] => []
  | cur :: rest => .free (some cur.block) :: freeifaddrs rest

end Results

end AutoTest.Netlink
