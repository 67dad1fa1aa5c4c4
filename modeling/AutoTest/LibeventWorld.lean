import AutoTest.InterfaceObject
import Mathlib.Data.Finset.Basic
import Mathlib.Logic.Function.Basic

/-!
# What an interface acts on: libevent objects, heap buffers and the descriptor table

The calls into libevent, libc and the callback class, with the effect the code relies on. They
are recorded with their arguments and results, all but the accessors of a bufferevent and its
input buffer. A libevent call on a `NULL` handle has no effect and returns the failure value; it
is recorded like any other call.
-/

namespace AutoTest

/-- `sockaddr_in`: address and port are stored in network byte order. -/
structure SockaddrIn where
  sinFamily : UInt16
  sinAddr : UInt32
  sinPort : UInt16
  deriving DecidableEq

inductive LibeventCall
  | eventBaseNew (ret : Option Handle)
  | eventBaseDispatch (base : Option Handle)
  | eventBaseLoopexit (base : Option Handle)
  | eventBaseFree (base : Option Handle)
  | evconnlistenerNewBind (base : Option Handle) (addr : SockaddrIn) (ret : Option Handle)
  | evconnlistenerSetErrorCb (listener : Option Handle)
  | evconnlistenerGetBase (listener : Option Handle)
  | evconnlistenerFree (listener : Option Handle)
  | buffereventSocketNew (base : Option Handle) (fd : Fd) (ret : Option Handle)
  | buffereventSocketConnect (bev : Option Handle) (addr : SockaddrIn) (ret : ℤ)
  | buffereventSetcb (bev : Option Handle)
  | buffereventEnable (bev : Option Handle)
  | buffereventFree (bev : Option Handle)
  deriving DecidableEq

/-- Everything an interface does that is visible outside its own fields. -/
inductive Call
  | onConnect (fd : Fd)
  | onRecv (fd : Fd) (msg : Bytes) (len : ℕ)
  | onWrite (fd : Fd) (msg : Bytes) (len : ℕ)
  | onError (code : ℤ) (fd : Fd)
  | os (c : OsCall)
  | socket (ret : Fd)
  | malloc (size : ℕ) (ret : Option Handle)
  | free (ptr : Handle)
  | pthreadCreate (created : Bool)
  | deleteCallback
  | event (c : LibeventCall)
  deriving DecidableEq

structure Evconnlistener where
  base : Handle
  fd : Fd
  deriving DecidableEq

/-- A socket bufferevent, created with `BEV_OPT_CLOSE_ON_FREE`. `connecting` is set from
`bufferevent_socket_connect` until the connect is reported as finished or failed. -/
structure Bufferevent where
  base : Handle
  fd : Fd
  input : Bytes
  connecting : Bool
  deriving DecidableEq

/-- The objects that are allocated now. `fresh` and all names above it were never used. -/
structure Heap where
  bases : Finset Handle
  listeners : Handle → Option Evconnlistener
  bufferevents : Handle → Option Bufferevent
  buffers : Finset Handle
  fresh : Handle
  unused : ∀ x, fresh ≤ x →
    x ∉ bases ∧ listeners x = none ∧ bufferevents x = none ∧ x ∉ buffers

namespace Heap

def empty : Heap where
  bases := ∅
  listeners _ := none
  bufferevents _ := none
  buffers := ∅
  fresh := 0
  unused x _ := ⟨Finset.notMem_empty x, rfl, rfl, Finset.notMem_empty x⟩

/-- Take the next name, for a new base if `ok`. -/
@[simps -fullyApplied]
def addBase (h : Heap) (ok : Bool) : Heap where
  bases := if ok then insert h.fresh h.bases else h.bases
  listeners := h.listeners
  bufferevents := h.bufferevents
  buffers := h.buffers
  fresh := h.fresh + 1
  unused x hx := by
    obtain ⟨hbase, hrest⟩ := h.unused x (Nat.le_of_succ_le hx)
    have hne : x ≠ h.fresh := (Nat.lt_of_succ_le hx).ne'
    exact ⟨by cases ok <;> simp [hbase, hne], hrest⟩

@[simps -fullyApplied]
def removeBase (h : Heap) (base : Option Handle) : Heap where
  bases := match base with
    | some b => h.bases.erase b
    | none => h.bases
  listeners := h.listeners
  bufferevents := h.bufferevents
  buffers := h.buffers
  fresh := h.fresh
  unused x hx := by
    obtain ⟨hbase, hrest⟩ := h.unused x hx
    exact ⟨by cases base <;> simp [hbase], hrest⟩

/-- Take the next name, for a new listener if there is one. -/
@[simps -fullyApplied]
def addListener (h : Heap) (made : Option Evconnlistener) : Heap where
  bases := h.bases
  listeners := match made with
    | some r => Function.update h.listeners h.fresh (some r)
    | none => h.listeners
  bufferevents := h.bufferevents
  buffers := h.buffers
  fresh := h.fresh + 1
  unused x hx := by
    obtain ⟨hbase, hlistener, hrest⟩ := h.unused x (Nat.le_of_succ_le hx)
    have hne : x ≠ h.fresh := (Nat.lt_of_succ_le hx).ne'
    exact ⟨hbase, by cases made <;> simp [hlistener, hne], hrest⟩

@[simps -fullyApplied]
def removeListener (h : Heap) (listener : Option Handle) : Heap where
  bases := h.bases
  listeners := match listener with
    | some l => Function.update h.listeners l none
    | none => h.listeners
  bufferevents := h.bufferevents
  buffers := h.buffers
  fresh := h.fresh
  unused x hx := by
    obtain ⟨hbase, hlistener, hrest⟩ := h.unused x hx
    exact ⟨hbase, by cases listener <;> simp [hlistener, Function.update_apply], hrest⟩

/-- Take the next name, for a new bufferevent if there is one. -/
@[simps -fullyApplied]
def addBufferevent (h : Heap) (made : Option Bufferevent) : Heap where
  bases := h.bases
  listeners := h.listeners
  bufferevents := match made with
    | some r => Function.update h.bufferevents h.fresh (some r)
    | none => h.bufferevents
  buffers := h.buffers
  fresh := h.fresh + 1
  unused x hx := by
    obtain ⟨hbase, hlistener, hbev, hbuffer⟩ := h.unused x (Nat.le_of_succ_le hx)
    have hne : x ≠ h.fresh := (Nat.lt_of_succ_le hx).ne'
    exact ⟨hbase, hlistener, by cases made <;> simp [hbev, hne], hbuffer⟩

/-- Change the record of a bufferevent; nothing happens when it is not allocated. -/
def modify (h : Heap) (b : Handle) (f : Bufferevent → Bufferevent) : Heap where
  bases := h.bases
  listeners := h.listeners
  bufferevents := Function.update h.bufferevents b ((h.bufferevents b).map f)
  buffers := h.buffers
  fresh := h.fresh
  unused x hx := by
    obtain ⟨hbase, hlistener, hbev, hbuffer⟩ := h.unused x hx
    refine ⟨hbase, hlistener, ?_, hbuffer⟩
    by_cases hb : x = b
    · subst hb
      simp [hbev]
    · simp [hbev, hb]

@[simps -fullyApplied]
def removeBufferevent (h : Heap) (bev : Option Handle) : Heap where
  bases := h.bases
  listeners := h.listeners
  bufferevents := match bev with
    | some b => Function.update h.bufferevents b none
    | none => h.bufferevents
  buffers := h.buffers
  fresh := h.fresh
  unused x hx := by
    obtain ⟨hbase, hlistener, hbev, hbuffer⟩ := h.unused x hx
    exact ⟨hbase, hlistener, by cases bev <;> simp [hbev, Function.update_apply], hbuffer⟩

/-- Take the next name, for a new buffer of the C heap if `ok`. -/
@[simps -fullyApplied]
def addBuffer (h : Heap) (ok : Bool) : Heap where
  bases := h.bases
  listeners := h.listeners
  bufferevents := h.bufferevents
  buffers := if ok then insert h.fresh h.buffers else h.buffers
  fresh := h.fresh + 1
  unused x hx := by
    obtain ⟨hbase, hlistener, hbev, hbuffer⟩ := h.unused x (Nat.le_of_succ_le hx)
    have hne : x ≠ h.fresh := (Nat.lt_of_succ_le hx).ne'
    exact ⟨hbase, hlistener, hbev, by cases ok <;> simp [hbuffer, hne]⟩

@[simps -fullyApplied]
def removeBuffer (h : Heap) (p : Handle) : Heap where
  bases := h.bases
  listeners := h.listeners
  bufferevents := h.bufferevents
  buffers := h.buffers.erase p
  fresh := h.fresh
  unused x hx := by
    obtain ⟨hbase, hlistener, hbev, hbuffer⟩ := h.unused x hx
    exact ⟨hbase, hlistener, hbev, fun hmem => hbuffer (Finset.mem_of_mem_erase hmem)⟩

theorem modify_eq_some {h : Heap} {b b' : Handle} {f : Bufferevent → Bufferevent}
    {r : Bufferevent} (hr : (h.modify b f).bufferevents b' = some r) :
    ∃ r₀, h.bufferevents b' = some r₀ ∧ r = if b' = b then f r₀ else r₀ := by
  change Function.update h.bufferevents b ((h.bufferevents b).map f) b' = some r at hr
  by_cases hb : b' = b
  · subst hb
    rw [Function.update_self] at hr
    obtain ⟨r₀, hr₀, rfl⟩ := Option.map_eq_some_iff.mp hr
    exact ⟨r₀, hr₀, (if_pos rfl).symm⟩
  · rw [Function.update_of_ne hb] at hr
    exact ⟨r, hr, (if_neg hb).symm⟩

theorem modify_eq_self {h : Heap} {b : Handle} {f : Bufferevent → Bufferevent}
    (hf : ∀ r, h.bufferevents b = some r → f r = r) : h.modify b f = h := by
  have hb : (h.bufferevents b).map f = h.bufferevents b := by
    cases hr : h.bufferevents b with
    | none => rfl
    | some r => simp [hf r hr]
  cases h
  simp only [Heap.modify, Heap.mk.injEq, true_and, and_true] at hb ⊢
  rw [hb, Function.update_eq_self]

end Heap

/-- Who an open descriptor belongs to: a socket an interface made or a connection it has, a
socket one of its listeners listens on, or anything else in the process. -/
inductive Holder (ι : Type*)
  | socket (i : ι)
  | connection (i : ι)
  | listening (i : ι)
  | rest
  deriving DecidableEq

abbrev FdTable (ι : Type*) := Fd → Option (Holder ι)

/-- The table after the system calls of a callback body. Closing a number closes whatever is
open there. -/
def FdTable.afterCalls {ι : Type*} (fds : FdTable ι) (body : List OsCall) : FdTable ι :=
  body.foldl (fun t c => match c with
    | .close fd => Function.update t fd none
    | .write _ _ _ _ => t) fds

/-- The view of the interface `me`: its fields, its objects, the descriptor table of the
process, and the calls made by the function that is running. -/
structure World (ι : Type*) where
  me : ι
  ati : AutoTestInterface
  heap : Heap
  fds : FdTable ι
  calls : List Call

namespace World

variable {ι : Type*}

def emit (w : World ι) (c : Call) : World ι := { w with calls := w.calls ++ [c] }

def setFds (w : World ι) (fd : Fd) (h : Option (Holder ι)) : World ι :=
  { w with fds := Function.update w.fds fd h }

/-- Replace the callback object of the interface. -/
def setCallback (w : World ι) (cb : Option AutoTestInterfaceCallback) : World ι :=
  { w with ati := { w.ati with mCallback := cb } }

/-- A virtual call: the call itself, then the body of the method. -/
def invoke (w : World ι) (c : Call) (body : List OsCall) : World ι :=
  { w with fds := w.fds.afterCalls body, calls := w.calls ++ c :: body.map .os }

/-- `socket(AF_INET, SOCK_STREAM, 0)`; the result is the new descriptor or `-1`. -/
def socket (w : World ι) (ret : Fd) : World ι :=
  { w with
    fds := if ret = -1 then w.fds else Function.update w.fds ret (some (.socket w.me))
    calls := w.calls ++ [.socket ret] }

def malloc (w : World ι) (size : ℕ) (ok : Bool) : Option Handle × World ι :=
  let ret := if ok then some w.heap.fresh else none
  (ret, { w with heap := w.heap.addBuffer ok, calls := w.calls ++ [.malloc size ret] })

def free (w : World ι) (p : Handle) : World ι :=
  { w with heap := w.heap.removeBuffer p, calls := w.calls ++ [.free p] }

def eventBaseNew (w : World ι) (ok : Bool) : Option Handle × World ι :=
  let ret := if ok then some w.heap.fresh else none
  (ret, { w with heap := w.heap.addBase ok, calls := w.calls ++ [.event (.eventBaseNew ret)] })

def eventBaseDispatch (w : World ι) (base : Option Handle) : World ι :=
  w.emit (.event (.eventBaseDispatch base))

def eventBaseLoopexit (w : World ι) (base : Option Handle) : World ι :=
  w.emit (.event (.eventBaseLoopexit base))

/-- `event_base_free` frees the base alone, not the objects that belong to it. -/
def eventBaseFree (w : World ι) (base : Option Handle) : World ι :=
  { w with
    heap := w.heap.removeBase base
    calls := w.calls ++ [.event (.eventBaseFree base)] }

/-- `evconnlistener_new_bind` opens the listening socket itself: `ret` is the number it gets,
or `none` when socket, bind or listen fails. -/
def evconnlistenerNewBind (w : World ι) (base : Option Handle) (addr : SockaddrIn)
    (ret : Option Fd) : Option Handle × World ι :=
  let made : Option Evconnlistener := base.bind fun b => ret.map fun fd => ⟨b, fd⟩
  let listener := made.map fun _ => w.heap.fresh
  (listener, { w with
    heap := w.heap.addListener made
    fds := match made with
      | some r => Function.update w.fds r.fd (some (.listening w.me))
      | none => w.fds
    calls := w.calls ++ [.event (.evconnlistenerNewBind base addr listener)] })

def evconnlistenerSetErrorCb (w : World ι) (listener : Option Handle) : World ι :=
  w.emit (.event (.evconnlistenerSetErrorCb listener))

def evconnlistenerGetBase (w : World ι) (listener : Option Handle) : Option Handle × World ι :=
  ((listener.bind w.heap.listeners).map Evconnlistener.base,
    w.emit (.event (.evconnlistenerGetBase listener)))

/-- `evconnlistener_free`; the listener was made with `LEV_OPT_CLOSE_ON_FREE`. -/
def evconnlistenerFree (w : World ι) (listener : Option Handle) : World ι :=
  { w with
    heap := w.heap.removeListener listener
    fds := match listener.bind w.heap.listeners with
      | some r => Function.update w.fds r.fd none
      | none => w.fds
    calls := w.calls ++ [.event (.evconnlistenerFree listener)] }

def buffereventSocketNew (w : World ι) (base : Option Handle) (fd : Fd) (ok : Bool) :
    Option Handle × World ι :=
  let made : Option Bufferevent := if ok then base.map fun b => ⟨b, fd, [], false⟩ else none
  let bev := made.map fun _ => w.heap.fresh
  (bev, { w with
    heap := w.heap.addBufferevent made
    calls := w.calls ++ [.event (.buffereventSocketNew base fd bev)] })

/-- `bufferevent_socket_connect`: 0 when the connect was launched, `-1` when it failed. -/
def buffereventSocketConnect (w : World ι) (bev : Option Handle) (addr : SockaddrIn)
    (ok : Bool) : ℤ × World ι :=
  let launched := if ok then bev else none
  let ret := if launched.isSome then 0 else -1
  (ret, { w with
    heap := match launched with
      | some b => w.heap.modify b fun r => { r with connecting := true }
      | none => w.heap
    calls := w.calls ++ [.event (.buffereventSocketConnect bev addr ret)] })

def buffereventSetcb (w : World ι) (bev : Option Handle) : World ι :=
  w.emit (.event (.buffereventSetcb bev))

def buffereventEnable (w : World ι) (bev : Option Handle) : World ι :=
  w.emit (.event (.buffereventEnable bev))

/-- `bufferevent_free` closes the number the bufferevent was created with, whoever closed it
before. -/
def buffereventFree (w : World ι) (bev : Option Handle) : World ι :=
  { w with
    heap := w.heap.removeBufferevent bev
    fds := match bev.bind w.heap.bufferevents with
      | some r => Function.update w.fds r.fd none
      | none => w.fds
    calls := w.calls ++ [.event (.buffereventFree bev)] }

/-- `bufferevent_getfd`; `-1` for a bufferevent that is not allocated. -/
def buffereventGetfd (w : World ι) (bev : Handle) : Fd :=
  ((w.heap.bufferevents bev).map Bufferevent.fd).getD (-1)

/-- The bytes in the input buffer, as `bufferevent_get_input` gives access to them. -/
def buffereventInput (w : World ι) (bev : Handle) : Bytes :=
  ((w.heap.bufferevents bev).map Bufferevent.input).getD []

/-- `evbuffer_remove` on the input buffer of `bev`: the first `n` bytes, and what is left. -/
def evbufferRemove (w : World ι) (bev : Handle) (n : ℕ) : Bytes × World ι :=
  ((w.buffereventInput bev).take n,
    { w with heap := w.heap.modify bev fun r => { r with input := r.input.drop n } })

theorem buffereventGetfd_eq {w : World ι} {bev : Handle} {r : Bufferevent}
    (h : w.heap.bufferevents bev = some r) : w.buffereventGetfd bev = r.fd := by
  simp [buffereventGetfd, h]

theorem buffereventInput_eq {w : World ι} {bev : Handle} {r : Bufferevent}
    (h : w.heap.bufferevents bev = some r) : w.buffereventInput bev = r.input := by
  simp [buffereventInput, h]

end World
end AutoTest
