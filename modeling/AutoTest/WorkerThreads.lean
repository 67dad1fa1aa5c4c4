import AutoTest.EventCallbacks

/-!
# Starting an interface, its worker threads and its destructor

`start_server` and `start_client` are cut at every call they make and at every write to a field
of the interface, since other threads run in between. A program point carries the local
variables that are live there. The loop of `event_base_dispatch` is one program point: the
callbacks it runs are separate steps, and its own step is the return from it.
-/

namespace AutoTest

variable {ι : Type*}

/-- `htons` on the little-endian targets of the build. -/
def htons (port : UInt16) : UInt16 := (port <<< 8) ||| (port >>> 8)

def afInet : UInt16 := 2

/-- The address both workers build from `hi`; the call of `htons` narrows the port to 16 bits. -/
def remoteAddr (inetAddr : CString → UInt32) (hi : HostInfo) : SockaddrIn :=
  ⟨afInet, inetAddr hi.ip, htons hi.port.toUInt16⟩

/-- The program points of the two thread functions. -/
inductive WorkerPc
  | serverEntry
  | serverBind (addr : SockaddrIn) (base : Option Handle)
  | serverSetErrorCb (base listener : Option Handle)
  | serverPublishBase (base : Option Handle) (listener : Handle)
  | serverPublishListener (base : Option Handle) (listener : Handle)
  | clientEntry
  | clientBaseNew (addr : SockaddrIn) (fd : Fd)
  | clientSocketNew (addr : SockaddrIn) (fd : Fd) (base : Option Handle)
  | clientConnect (addr : SockaddrIn) (base conn : Option Handle)
  | clientSetcb (base conn : Option Handle)
  | clientEnable (base conn : Option Handle)
  | clientPublishBase (base conn : Option Handle)
  | clientPublishConn (base conn : Option Handle)
  | dispatch (base : Option Handle)
  | loop (base : Option Handle)
  | onStop
  deriving DecidableEq

/-- What the environment answers to the call of a step: whether it succeeds, and the descriptor
that `socket` or the bind of a listener gets when it does. -/
structure Outcome where
  ok : Bool
  fd : Fd
  deriving DecidableEq

/-- One step of a worker; the thread function returns when there is no next point. -/
def workerStep (inetAddr : CString → UInt32) (w : World ι) (pc : WorkerPc) (o : Outcome) :
    Option WorkerPc × World ι :=
  match pc with
  | .serverEntry =>
    let addr := remoteAddr inetAddr w.ati.hi
    let (base, w) := w.eventBaseNew o.ok
    (some (.serverBind addr base), w)
  | .serverBind addr base =>
    let (listener, w) := w.evconnlistenerNewBind base addr (if o.ok then some o.fd else none)
    (some (.serverSetErrorCb base listener), w)
  | .serverSetErrorCb base listener =>
    let w := w.evconnlistenerSetErrorCb listener
    (match listener with
      | some l => some (.serverPublishBase base l)
      | none => some .onStop, w)
  | .serverPublishBase base l =>
    (some (.serverPublishListener base l), { w with ati := { w.ati with serverBase := base } })
  | .serverPublishListener base l =>
    (some (.dispatch base), { w with ati := { w.ati with mBaselistener := some l } })
  | .clientEntry =>
    let fd := if o.ok then o.fd else -1
    let w := w.socket fd
    -- the early return, without `onStop`
    (if -1 = fd then none else some (.clientBaseNew (remoteAddr inetAddr w.ati.hi) fd), w)
  | .clientBaseNew addr fd =>
    let (base, w) := w.eventBaseNew o.ok
    (some (.clientSocketNew addr fd base), w)
  | .clientSocketNew addr fd base =>
    let (conn, w) := w.buffereventSocketNew base fd o.ok
    (some (.clientConnect addr base conn), w)
  | .clientConnect addr base conn =>
    let (ret, w) := w.buffereventSocketConnect conn addr o.ok
    (if ret = 0 then some (.clientSetcb base conn) else some .onStop, w)
  | .clientSetcb base conn => (some (.clientEnable base conn), w.buffereventSetcb conn)
  | .clientEnable base conn => (some (.clientPublishBase base conn), w.buffereventEnable conn)
  | .clientPublishBase base conn =>
    (some (.clientPublishConn base conn), { w with ati := { w.ati with clientBase := base } })
  | .clientPublishConn base conn =>
    (some (.dispatch base), { w with ati := { w.ati with conn := conn } })
  | .dispatch base => (some (.loop base), w.eventBaseDispatch base)
  | .loop _ => (some .onStop, w)
  | .onStop => (none, { w with ati := w.ati.onStop })

/-- `init_client_thread` and `init_server_thread`: the new thread begins at `entry`, unless
`pthread_create` fails; its result is not looked at. -/
def initThread (w : World ι) (entry : WorkerPc) (created : Bool) : Option WorkerPc × World ι :=
  (if created then some entry else none, w.emit (.pthreadCreate created))

def initClientThread (w : World ι) (created : Bool) : Option WorkerPc × World ι :=
  initThread w .clientEntry created

def initServerThread (w : World ι) (created : Bool) : Option WorkerPc × World ι :=
  initThread w .serverEntry created

/-- `start`: its result, the thread it creates and the world after it. -/
def start (w : World ι) (created : Bool) : Bool × Option WorkerPc × World ι :=
  if w.ati.mStoped then
    if w.ati.mMode = clientMode then
      (true, initClientThread { w with ati := { w.ati with mStoped := false } } created)
    else if w.ati.mMode = serverMode then
      (true, initServerThread { w with ati := { w.ati with mStoped := false } } created)
    else (true, none, w)
  else (true, none, w)

def writeMessage (w : World ι) (msg : Bytes) (len : ℕ) (ret : ℤ) : World ι :=
  match w.ati.mCallback with
  | some cb => w.invoke (.onWrite cb.getFd msg len) (cb.cls.onWrite cb.getFd msg len ret)
  | none => w

section Destructor

def deleteCallback (w : World ι) : World ι :=
  if w.ati.mCallback.isSome then (w.emit .deleteCallback).setCallback none else w

def freeConn (w : World ι) : World ι :=
  if w.ati.conn.isSome then
    let w := w.buffereventFree w.ati.conn
    { w with ati := { w.ati with conn := none } }
  else w

def freeBaselistener (w : World ι) : World ι :=
  if w.ati.mBaselistener.isSome then
    let w := w.evconnlistenerFree w.ati.mBaselistener
    { w with ati := { w.ati with mBaselistener := none } }
  else w

def freeServerBase (w : World ι) : World ι :=
  if w.ati.serverBase.isSome then
    let w := w.eventBaseLoopexit w.ati.serverBase
    let w := w.eventBaseFree w.ati.serverBase
    { w with ati := { w.ati with serverBase := none } }
  else w

def freeClientBase (w : World ι) : World ι :=
  if w.ati.clientBase.isSome then
    let w := w.eventBaseLoopexit w.ati.clientBase
    let w := w.eventBaseFree w.ati.clientBase
    { w with ati := { w.ati with clientBase := none } }
  else w

/-- `~AutoTestInterface`. -/
def destroy (w : World ι) : World ι :=
  freeClientBase (freeServerBase (freeBaselistener (freeConn (deleteCallback w))))

end Destructor
end AutoTest
