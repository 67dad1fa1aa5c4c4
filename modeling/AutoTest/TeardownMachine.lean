import AutoTest.OutputMachines
import AutoTest.ResourceAccounts

/-!
# The destructor against the worker threads

Here the destructor and the callbacks are cut at every call they make and at every pointer of
the interface they read or write, and any thread can run between two steps. Each step of a
worker says which objects it touches, and the state remembers which the destructor has freed.
A callback that finds `NULL` where it has tested for a pointer before goes on without the call.
-/

namespace AutoTest

open OutputMachines ThreadPools
open Resource (atBase atListener atBufferevent)

variable {ι : Type*}

/-- What the destructor frees. -/
inductive Cell
  | interface
  | callback
  | object (r : Resource)
  deriving DecidableEq

/-- The pointer members of the interface, in the order of the destructor. -/
inductive Pointer
  | mCallback
  | conn
  | mBaselistener
  | serverBase
  | clientBase
  deriving DecidableEq

section Destructor

/-- The object that a pointer member refers to. -/
def AutoTestInterface.target (a : AutoTestInterface) : Pointer → Option Cell
  | .mCallback => a.mCallback.map fun _ => .callback
  | .conn => a.conn.map fun b => .object (.bufferevent b)
  | .mBaselistener => a.mBaselistener.map fun l => .object (.listener l)
  | .serverBase => a.serverBase.map fun b => .object (.base b)
  | .clientBase => a.clientBase.map fun b => .object (.base b)

/-- The points of the destructor: each member is tested, what it refers to is freed, and the
member is cleared. A loop is told to exit before its base is freed. -/
inductive DestructorPc
  | test (p : Pointer)
  | loopexit (p : Pointer)
  | free (p : Pointer)
  | clear (p : Pointer)
  | endOfLife
  | returned
  deriving DecidableEq

def DestructorPc.entry : DestructorPc := .test .mCallback

namespace Pointer

/-- Where the destructor goes on after a member. -/
def next : Pointer → DestructorPc
  | .mCallback => .test .conn
  | .conn => .test .mBaselistener
  | .mBaselistener => .test .serverBase
  | .serverBase => .test .clientBase
  | .clientBase => .endOfLife

/-- Where the destructor goes on after a test that found a pointer. -/
def found : Pointer → DestructorPc
  | .serverBase => .loopexit .serverBase
  | .clientBase => .loopexit .clientBase
  | p => .free p

def loopexit (w : World ι) : Pointer → World ι
  | .serverBase => w.eventBaseLoopexit w.ati.serverBase
  | .clientBase => w.eventBaseLoopexit w.ati.clientBase
  | _ => w

def free (w : World ι) : Pointer → World ι
  | .mCallback => w.emit .deleteCallback
  | .conn => w.buffereventFree w.ati.conn
  | .mBaselistener => w.evconnlistenerFree w.ati.mBaselistener
  | .serverBase => w.eventBaseFree w.ati.serverBase
  | .clientBase => w.eventBaseFree w.ati.clientBase

def clear (w : World ι) : Pointer → World ι
  | .mCallback => w.setCallback none
  | .conn => { w with ati := { w.ati with conn := none } }
  | .mBaselistener => { w with ati := { w.ati with mBaselistener := none } }
  | .serverBase => { w with ati := { w.ati with serverBase := none } }
  | .clientBase => { w with ati := { w.ati with clientBase := none } }

end Pointer

/-- One step of the destructor: its next point, the world, and what the step frees. -/
def destructorStep (w : World ι) : DestructorPc → DestructorPc × World ι × List Cell
  | .test p => (if (w.ati.target p).isSome then p.found else p.next, w, [])
  | .loopexit p => (.free p, p.loopexit w, [])
  | .free p => (.clear p, p.free w, (w.ati.target p).toList)
  | .clear p => (p.next, p.clear w, [])
  | .endOfLife => (.returned, w, [.interface])
  | .returned => (.returned, w, [])

/-- The destructor with nobody in between, for at most `n` steps. -/
def finishDestructor : ℕ → DestructorPc → World ι → DestructorPc × World ι
  | 0, pc, w => (pc, w)
  | n + 1, pc, w => finishDestructor n (destructorStep w pc).1 (destructorStep w pc).2.1

theorem finishDestructor_add (m n : ℕ) (pc : DestructorPc) (w : World ι) :
    finishDestructor (m + n) pc w =
      finishDestructor n (finishDestructor m pc w).1 (finishDestructor m pc w).2 := by
  induction m generalizing pc w with
  | zero => rw [Nat.zero_add, finishDestructor]
  | succ m ih => rw [Nat.succ_add, finishDestructor, ih, finishDestructor]

/-- The part of `destroy` for one member. -/
def Pointer.release (w : World ι) : Pointer → World ι
  | .mCallback => deleteCallback w
  | .conn => freeConn w
  | .mBaselistener => freeBaselistener w
  | .serverBase => freeServerBase w
  | .clientBase => freeClientBase w

theorem Pointer.release_eq (p : Pointer) (w : World ι) :
    p.release w =
      if (w.ati.target p).isSome then p.clear (p.free (p.loopexit w)) else w := by
  cases p <;> simp only [AutoTestInterface.target, Option.isSome_map] <;> rfl

theorem finishDestructor_found (p : Pointer) (w : World ι) :
    ∃ n ≤ 2, finishDestructor n p.found w = (.clear p, p.free (p.loopexit w)) := by
  cases p with
  | serverBase | clientBase => exact ⟨2, le_rfl, rfl⟩
  | mCallback | conn | mBaselistener => exact ⟨1, by omega, rfl⟩

theorem finishDestructor_test (p : Pointer) (w : World ι) :
    ∃ n ≤ 4, finishDestructor n (.test p) w = (p.next, p.release w) := by
  rw [p.release_eq]
  by_cases h : (w.ati.target p).isSome = true
  · obtain ⟨n, hn, hfound⟩ := finishDestructor_found p w
    have htest : finishDestructor 1 (.test p) w = (p.found, w) := by
      simp [finishDestructor, destructorStep, h]
    refine ⟨1 + (n + 1), by omega, ?_⟩
    rw [finishDestructor_add, htest, finishDestructor_add, hfound, if_pos h]
    rfl
  · refine ⟨1, by omega, ?_⟩
    simp [finishDestructor, destructorStep, h]

/-- The steps of the destructor, with nobody in between, are `destroy`. -/
theorem finishDestructor_eq_destroy (w : World ι) :
    ∃ n ≤ 21, finishDestructor n .entry w = (.returned, destroy w) := by
  obtain ⟨n₁, hn₁, h₁⟩ := finishDestructor_test .mCallback w
  obtain ⟨n₂, hn₂, h₂⟩ := finishDestructor_test .conn (deleteCallback w)
  obtain ⟨n₃, hn₃, h₃⟩ := finishDestructor_test .mBaselistener (freeConn (deleteCallback w))
  obtain ⟨n₄, hn₄, h₄⟩ := finishDestructor_test .serverBase
    (freeBaselistener (freeConn (deleteCallback w)))
  obtain ⟨n₅, hn₅, h₅⟩ := finishDestructor_test .clientBase
    (freeServerBase (freeBaselistener (freeConn (deleteCallback w))))
  refine ⟨n₁ + (n₂ + (n₃ + (n₄ + (n₅ + 1)))), by omega, ?_⟩
  simp only [DestructorPc.entry, finishDestructor_add, h₁, h₂, h₃, h₄, h₅, Pointer.next,
    Pointer.release]
  rfl

end Destructor

section Callbacks

/-- The points of the callbacks. -/
inductive CallbackPc
  | readEntry (bev : Handle)
  | readRemove (bev buf : Handle) (len : ℕ)
  | readTest (buf : Handle) (msg : Bytes) (len : ℕ)
  | readGetFd (buf : Handle) (msg : Bytes) (len : ℕ)
  | readOnRecv (buf : Handle) (msg : Bytes) (len : ℕ) (fd : Fd)
  | readFree (buf : Handle)
  | eventEntry (bev : Handle) (what : BitVec 16)
  | eventTest (what : BitVec 16) (fd : Fd)
  | eventSetFd (fd : Fd)
  | eventOnConnect (fd : Fd)
  | eventOnError (what : BitVec 16) (fd : Fd)
  | errorTest (listener : Handle) (err : ℤ)
  | errorOnError (err : ℤ)
  | writeEntry (bev : Handle)
  | writeRemove (bev : Handle) (len : ℕ)
  | acceptTest (listener : Handle) (fd : Fd)
  | acceptSetFd (listener : Handle) (fd : Fd)
  | acceptOnConnect (listener : Handle) (fd : Fd)
  | acceptGetBase (listener : Handle) (fd : Fd)
  | acceptSocketNew (base : Option Handle) (fd : Fd)
  | acceptSetcb (bev : Option Handle)
  | acceptEnable (bev : Option Handle)
  deriving DecidableEq

/-- One step of a callback; it returns when there is no next point. `ok` is what an allocation
answers. -/
def callbackStep (w : World ι) (pc : CallbackPc) (ok : Bool) : Option CallbackPc × World ι :=
  match pc with
  | .readEntry bev =>
    let len := (w.buffereventInput bev).length
    if len > 0 then
      let (buf, w) := w.malloc (len + 1) ok
      (buf.map fun buf => .readRemove bev buf len, w)
    else (none, w)
  | .readRemove bev buf len =>
    let (data, w) := w.evbufferRemove bev len
    (some (.readTest buf (data ++ [0]) len), w)
  | .readTest buf msg len =>
    (some (if w.ati.mCallback.isSome then .readGetFd buf msg len else .readFree buf), w)
  | .readGetFd buf msg len =>
    (some (match w.ati.mCallback with
      | some cb => .readOnRecv buf msg len cb.getFd
      | none => .readFree buf), w)
  | .readOnRecv buf msg len fd =>
    (some (.readFree buf), match w.ati.mCallback with
      | some cb => w.invoke (.onRecv fd msg len) (cb.cls.onRecv fd msg len)
      | none => w)
  | .readFree buf => (none, w.free buf)
  | .eventEntry bev what => (some (.eventTest what (w.buffereventGetfd bev)), w)
  | .eventTest what fd =>
    (if w.ati.mCallback.isSome then
      if hasFlag what bevEventConnected then some (.eventSetFd fd)
      else if isFailure what then some (.eventOnError what fd) else none
    else none, w)
  | .eventSetFd fd =>
    (some (.eventOnConnect fd), w.setCallback (w.ati.mCallback.map (·.setFd fd)))
  | .eventOnConnect fd =>
    (none, match w.ati.mCallback with
      | some cb => w.invoke (.onConnect fd) (cb.cls.onConnect fd)
      | none => w)
  | .eventOnError what fd =>
    (none, match w.ati.mCallback with
      | some cb => w.invoke (.onError what.toInt fd) (cb.cls.onError what.toInt fd)
      | none => w)
  | .errorTest _ err => (if w.ati.mCallback.isSome then some (.errorOnError err) else none, w)
  | .errorOnError err =>
    (none, match w.ati.mCallback with
      | some cb => w.invoke (.onError err 0) (cb.cls.onError err 0)
      | none => w)
  | .writeEntry bev =>
    let len := (w.buffereventInput bev).length
    let (buf, w) := w.malloc (len + 1) ok
    (buf.map fun _ => .writeRemove bev len, w)
  | .writeRemove bev len => (none, (w.evbufferRemove bev len).2)
  | .acceptTest listener fd =>
    (some (if w.ati.mCallback.isSome then .acceptSetFd listener fd
      else .acceptGetBase listener fd), w)
  | .acceptSetFd listener fd =>
    (some (.acceptOnConnect listener fd), w.setCallback (w.ati.mCallback.map (·.setFd fd)))
  | .acceptOnConnect listener fd =>
    (some (.acceptGetBase listener fd), match w.ati.mCallback with
      | some cb => w.invoke (.onConnect fd) (cb.cls.onConnect fd)
      | none => w)
  | .acceptGetBase listener fd =>
    let (base, w) := w.evconnlistenerGetBase (some listener)
    (some (.acceptSocketNew base fd), w)
  | .acceptSocketNew base fd =>
    let (bev, w) := w.buffereventSocketNew base fd ok
    (some (.acceptSetcb bev), w)
  | .acceptSetcb bev => (some (.acceptEnable bev), w.buffereventSetcb bev)
  | .acceptEnable bev => (none, w.buffereventEnable bev)

/-- A callback with nobody in between, for at most `n` steps. -/
def finishCallback (ok : Bool) : ℕ → CallbackPc → World ι → Option CallbackPc × World ι
  | 0, pc, w => (some pc, w)
  | n + 1, pc, w =>
    match callbackStep w pc ok with
    | (none, w) => (none, w)
    | (some pc, w) => finishCallback ok n pc w

variable (w : World ι) (ok : Bool)

/-- The steps of the callbacks, with nobody in between, are the callbacks. -/
theorem finishCallback_readcb (bev : Handle) :
    finishCallback ok 6 (.readEntry bev) w = (none, autoTestOnReadcb w bev true ok) := by
  by_cases h : (w.buffereventInput bev).length > 0
  · cases ok <;> cases hcb : w.ati.mCallback <;>
      simp [finishCallback, callbackStep, autoTestOnReadcb, World.malloc, World.evbufferRemove,
        h, hcb]
  · simp [finishCallback, callbackStep, autoTestOnReadcb, h]

theorem finishCallback_event (bev : Handle) (what : BitVec 16) :
    finishCallback ok 4 (.eventEntry bev what) w = (none, autoTestEventCb w bev what true) := by
  cases hcb : w.ati.mCallback with
  | none => simp [finishCallback, callbackStep, autoTestEventCb, hcb]
  | some cb =>
    cases hc : hasFlag what bevEventConnected <;> cases hf : isFailure what <;>
      simp [finishCallback, callbackStep, autoTestEventCb, World.setCallback, hcb, hc, hf]

theorem finishCallback_listenerError (listener : Handle) (err : ℤ) :
    finishCallback ok 2 (.errorTest listener err) w =
      (none, serverEvconnlistenerErrorcb w err true) := by
  cases hcb : w.ati.mCallback <;>
    simp [finishCallback, callbackStep, serverEvconnlistenerErrorcb, hcb]

theorem finishCallback_write (bev : Handle) :
    finishCallback ok 2 (.writeEntry bev) w = (none, autoTestWriteCb w bev true ok) := by
  cases ok <;> simp [finishCallback, callbackStep, autoTestWriteCb, World.malloc]

theorem finishCallback_accept (listener : Handle) (fd : Fd) :
    finishCallback ok 7 (.acceptTest listener fd) w =
      (none, serverOnAccept w listener fd true ok) := by
  cases hcb : w.ati.mCallback <;>
    simp [finishCallback, callbackStep, serverOnAccept, World.setCallback, hcb]

end Callbacks

section Uses

def Cell.objects (rs : List Resource) : List Cell := rs.map .object

/-- The objects that a step of a callback touches. -/
def CallbackPc.uses : CallbackPc → List Cell
  | .readEntry bev | .readRemove bev _ _ | .eventEntry bev _ | .writeEntry bev
  | .writeRemove bev _ => [.object (.bufferevent bev)]
  | .readTest _ _ _ | .eventTest _ _ | .errorTest _ _ | .acceptTest _ _ => [.interface]
  | .readGetFd _ _ _ | .readOnRecv _ _ _ _ | .eventSetFd _ | .eventOnConnect _
  | .eventOnError _ _ | .errorOnError _ | .acceptSetFd _ _ | .acceptOnConnect _ _ =>
    [.interface, .callback]
  | .readFree _ => []
  | .acceptGetBase listener _ => [.object (.listener listener)]
  | .acceptSocketNew base _ => Cell.objects (atBase base)
  | .acceptSetcb bev | .acceptEnable bev => Cell.objects (atBufferevent bev)

/-- The objects that a step of a thread function touches; the loop touches its base until it has
returned. -/
def WorkerPc.uses : WorkerPc → List Cell
  | .serverEntry | .clientEntry | .serverPublishBase _ _ | .serverPublishListener _ _
  | .clientPublishBase _ _ | .clientPublishConn _ _ | .onStop => [.interface]
  | .serverBind _ base | .clientSocketNew _ _ base | .dispatch base | .loop base =>
    Cell.objects (atBase base)
  | .serverSetErrorCb _ listener => Cell.objects (atListener listener)
  | .clientBaseNew _ _ => []
  | .clientConnect _ _ conn | .clientSetcb _ conn | .clientEnable _ conn =>
    Cell.objects (atBufferevent conn)

end Uses

section Machine

/-- A worker is in its thread function, or in a callback that its loop has called. -/
inductive ThreadPc
  | function (pc : WorkerPc)
  | callback (base : Handle) (pc : CallbackPc)
  deriving DecidableEq

/-- An interface with its workers, and the destructor once it has been called. -/
structure Teardown (ι : Type*) where
  world : World ι
  workers : List ThreadPc
  destructor : Option DestructorPc
  freed : List Cell

inductive TeardownAction
  | start (created : Bool)
  | worker (k : ℕ) (o : Outcome)
  | callback (k : ℕ) (base : Handle) (pc : CallbackPc)
  | arrive (k : ℕ) (base bev : Handle) (chunk : Bytes)
  | destroy
  | destructor
  deriving DecidableEq

namespace Teardown

/-- The state before any action. -/
def initial (me : ι) (ati : AutoTestInterface) (fds : FdTable ι) : Teardown ι :=
  ⟨⟨me, ati, .empty, fds, []⟩, [], none, []⟩

end Teardown

def ThreadPc.uses : ThreadPc → List Cell
  | .function pc => pc.uses
  | .callback _ pc => pc.uses

/-- One step of a worker; after a callback it is in its loop again. -/
def threadStep (inetAddr : CString → UInt32) (w : World ι) (pc : ThreadPc) (o : Outcome) :
    Option ThreadPc × World ι :=
  match pc with
  | .function pc =>
    let (pc, w) := workerStep inetAddr w pc o
    (pc.map .function, w)
  | .callback base pc =>
    let (pc, w) := callbackStep w pc o.ok
    (some (match pc with
      | some pc => .callback base pc
      | none => .function (.loop (some base))), w)

/-- What the loop of `base` touches when it calls a callback, if it can call it now. -/
def CallbackPc.calledOn (w : World ι) (base : Handle) : CallbackPc → Prop
  | .readEntry bev | .writeEntry bev => ∃ r ∈ w.heap.bufferevents bev, r.base = base
  | .eventEntry bev what => ∃ r ∈ w.heap.bufferevents bev, r.base = base ∧
      (hasFlag what bevEventConnected → r.connecting = true)
  | .errorTest listener _ => ∃ r ∈ w.heap.listeners listener, r.base = base
  | .acceptTest listener fd => 0 ≤ fd ∧ (w.fds fd).isNone ∧
      ∃ r ∈ w.heap.listeners listener, r.base = base
  | _ => False

instance (w : World ι) (base : Handle) (pc : CallbackPc) : Decidable (pc.calledOn w base) := by
  unfold CallbackPc.calledOn
  split <;> infer_instance

/-- The object whose callback it is. -/
def CallbackPc.owner : CallbackPc → List Cell
  | .readEntry bev | .writeEntry bev | .eventEntry bev _ => [.object (.bufferevent bev)]
  | .errorTest listener _ | .acceptTest listener _ => [.object (.listener listener)]
  | _ => []

/-- What libevent does before it calls a callback: it notes the end of a connect, and it accepts
the connection. -/
def CallbackPc.prepare [DecidableEq ι] (w : World ι) : CallbackPc → World ι
  | .eventEntry bev what => Sys.reportConnect w bev what
  | .acceptTest _ fd => w.setFds fd (some (.connection w.me))
  | _ => w

/-- The steps that obtain a descriptor get an unused one. -/
def ThreadPc.OutcomeOk (w : World ι) (pc : ThreadPc) (o : Outcome) : Prop :=
  match pc with
  | .function .clientEntry | .function (.serverBind _ _) =>
    o.ok → 0 ≤ o.fd ∧ (w.fds o.fd).isNone
  | _ => True

instance (w : World ι) (pc : ThreadPc) (o : Outcome) : Decidable (pc.OutcomeOk w o) := by
  unfold ThreadPc.OutcomeOk
  split <;> infer_instance

variable [DecidableEq ι] (inetAddr : CString → UInt32)

/-- The effect of an action, and what a worker touches in it. -/
def teardownEffect (s : Teardown ι) : TeardownAction → Teardown ι × List Cell
  | .start created =>
    let r := (start s.world created).2
    ({ s with world := r.2, workers := s.workers ++ (r.1.map ThreadPc.function).toList }, [])
  | .worker k o =>
    match s.workers[k]? with
    | none => (s, [])
    | some pc =>
      let r := threadStep inetAddr s.world pc o
      ({ s with world := r.2, workers := setThread s.workers k r.1 }, pc.uses)
  | .callback k base pc =>
    ({ s with
        world := pc.prepare s.world
        workers := setThread s.workers k (some (.callback base pc)) },
      .object (.base base) :: pc.owner)
  | .arrive _ base bev chunk =>
    ({ s with world := { s.world with
        heap := s.world.heap.modify bev fun r => { r with input := r.input ++ chunk } } },
      [.object (.base base), .object (.bufferevent bev)])
  | .destroy => ({ s with destructor := some .entry }, [])
  | .destructor =>
    match s.destructor with
    | none => (s, [])
    | some pc =>
      let r := destructorStep s.world pc
      ({ s with world := r.2.1, destructor := some r.1, freed := s.freed ++ r.2.2 }, [])

/-- When an action can happen. The destructor can be called at any time, whatever the workers do;
nobody calls `start` from then on. -/
def TeardownEnabled (s : Teardown ι) : TeardownAction → Prop
  | .start _ => s.destructor = none
  | .worker k o => ∃ pc ∈ s.workers[k]?, pc.OutcomeOk s.world o
  | .callback k base pc =>
    s.workers[k]? = some (.function (.loop (some base))) ∧ pc.calledOn s.world base
  | .arrive k base bev _ =>
    s.workers[k]? = some (.function (.loop (some base))) ∧
      ∃ r ∈ s.world.heap.bufferevents bev, r.base = base
  | .destroy => s.destructor = none
  | .destructor => ∃ pc ∈ s.destructor, pc ≠ .returned

instance (s : Teardown ι) (a : TeardownAction) : Decidable (TeardownEnabled s a) := by
  cases a <;> unfold TeardownEnabled <;> infer_instance

def teardownMachine : Machine (Teardown ι) TeardownAction Cell where
  step s a := if TeardownEnabled s a then some (teardownEffect inetAddr s a) else none

theorem teardownMachine_step {s t : Teardown ι} {a : TeardownAction} {out : List Cell} :
    (teardownMachine inetAddr).step s a = some (t, out) ↔
      TeardownEnabled s a ∧ teardownEffect inetAddr s a = (t, out) := by
  simp [teardownMachine]

end Machine
end AutoTest
