import AutoTest.OutputMachines
import AutoTest.ThreadPools
import AutoTest.WorkerThreads

/-!
# The runs of one interface

The machine of one interface `me` in its process. Its actions are the calls of its users, the
steps of its workers, the callbacks of the loop a worker is dispatching, the arrival of bytes,
and what the rest of the process does to the descriptor table. `start` and the destructor are
single actions here: the calls of `start` come one after another, and the destructor runs when
no worker is left.
-/

namespace AutoTest

open OutputMachines ThreadPools

/-- An interface with the threads it created that have not returned. -/
structure Sys (ι : Type*) where
  world : World ι
  workers : List WorkerPc
  destroyed : Bool

inductive Action
  | start (created : Bool)
  | worker (k : ℕ) (o : Outcome)
  | accept (listener : Handle) (fd : Fd) (bevOk : Bool)
  | arrive (bev : Handle) (chunk : Bytes)
  | readcb (bev : Handle) (mallocOk : Bool)
  | writecb (bev : Handle) (mallocOk : Bool)
  | event (bev : Handle) (what : BitVec 16)
  | listenerError (listener : Handle) (err : ℤ)
  | writeMessage (msg : Bytes) (len : ℕ) (ret : ℤ)
  | destroy
  | openOther (fd : Fd)
  | closeOther (fd : Fd)
  deriving DecidableEq

/-- The points of `start_server` and those both thread functions share. -/
def WorkerPc.onServer : WorkerPc → Bool
  | .serverEntry | .serverBind _ _ | .serverSetErrorCb _ _ | .serverPublishBase _ _
  | .serverPublishListener _ _ | .dispatch _ | .loop _ | .onStop => true
  | _ => false

namespace Sys

variable {ι : Type*}

/-- The state before any action: a configured interface in a process with table `fds`. -/
def initial (me : ι) (ati : AutoTestInterface) (fds : FdTable ι) : Sys ι :=
  ⟨⟨me, ati, .empty, fds, []⟩, [], false⟩

/-- A process that has opened its three standard streams. -/
def standardStreams : FdTable ι := fun fd => if 0 ≤ fd ∧ fd ≤ 2 then some .rest else none

/-- Run a function of the interface; its calls are the outputs of the step. -/
def exec (s : Sys ι) (f : World ι → World ι) : Sys ι × List Call :=
  let w := f { s.world with calls := [] }
  ({ s with world := w }, w.calls)

/-- Some worker is inside `event_base_dispatch` on this base. -/
def Dispatching (s : Sys ι) (base : Handle) : Prop :=
  WorkerPc.loop (some base) ∈ s.workers

instance (s : Sys ι) (base : Handle) : Decidable (s.Dispatching base) :=
  inferInstanceAs (Decidable (_ ∈ _))

/-- Callbacks of `bev` can run: it is allocated and the loop of its base is dispatched. -/
def Live (s : Sys ι) (bev : Handle) : Prop :=
  ∃ r ∈ s.world.heap.bufferevents bev, s.Dispatching r.base

instance (s : Sys ι) (bev : Handle) : Decidable (s.Live bev) :=
  inferInstanceAs (Decidable (∃ r ∈ s.world.heap.bufferevents bev, s.Dispatching r.base))

def Listening (s : Sys ι) (listener : Handle) : Prop :=
  ∃ r ∈ s.world.heap.listeners listener, s.Dispatching r.base

instance (s : Sys ι) (listener : Handle) : Decidable (s.Listening listener) :=
  inferInstanceAs (Decidable (∃ r ∈ s.world.heap.listeners listener, s.Dispatching r.base))

/-- The kernel may hand out any number that is not open. -/
def Unused (s : Sys ι) (fd : Fd) : Prop := 0 ≤ fd ∧ (s.world.fds fd).isNone

instance (s : Sys ι) (fd : Fd) : Decidable (s.Unused fd) :=
  inferInstanceAs (Decidable (_ ∧ _))

/-- The steps that obtain a descriptor get an unused one. -/
def OutcomeOk (s : Sys ι) (pc : WorkerPc) (o : Outcome) : Prop :=
  match pc with
  | .clientEntry | .serverBind _ _ => o.ok → s.Unused o.fd
  | _ => True

instance (s : Sys ι) (pc : WorkerPc) (o : Outcome) : Decidable (s.OutcomeOk pc o) := by
  unfold OutcomeOk
  split <;> infer_instance

/-- A bufferevent is connecting until the event that reports the result. -/
def Connecting (s : Sys ι) (bev : Handle) : Prop :=
  ∃ r ∈ s.world.heap.bufferevents bev, r.connecting = true

instance (s : Sys ι) (bev : Handle) : Decidable (s.Connecting bev) :=
  inferInstanceAs (Decidable (∃ r ∈ s.world.heap.bufferevents bev, r.connecting = true))

/-- Before the event callback runs: a connect is over once it is reported, and its socket is a
connection when it succeeded. -/
def reportConnect [DecidableEq ι] (w : World ι) (bev : Handle) (what : BitVec 16) : World ι :=
  let fd := w.buffereventGetfd bev
  { w with
    heap := w.heap.modify bev fun r => { r with connecting := false }
    fds := if hasFlag what bevEventConnected ∧ w.fds fd = some (.socket w.me) then
        Function.update w.fds fd (some (.connection w.me))
      else w.fds }

end Sys

section Step

variable {ι : Type*} [DecidableEq ι] (inetAddr : CString → UInt32)

/-- The effect of an action whose guard holds. -/
def effect (s : Sys ι) : Action → Sys ι × List Call
  | .start created =>
    let r := (start { s.world with calls := [] } created).2
    ({ s with world := r.2, workers := s.workers ++ r.1.toList }, r.2.calls)
  | .worker k o =>
    match s.workers[k]? with
    | none => (s, [])
    | some pc =>
      let r := workerStep inetAddr { s.world with calls := [] } pc o
      ({ s with world := r.2, workers := setThread s.workers k r.1 }, r.2.calls)
  | .accept listener fd bevOk =>
    s.exec fun w => serverOnAccept (w.setFds fd (some (.connection w.me))) listener fd true bevOk
  | .arrive bev chunk => s.exec fun w =>
    { w with heap := w.heap.modify bev fun r => { r with input := r.input ++ chunk } }
  | .readcb bev mallocOk => s.exec fun w => autoTestOnReadcb w bev true mallocOk
  | .writecb bev mallocOk => s.exec fun w => autoTestWriteCb w bev true mallocOk
  | .event bev what => s.exec fun w => autoTestEventCb (Sys.reportConnect w bev what) bev what true
  | .listenerError _ err => s.exec fun w => serverEvconnlistenerErrorcb w err true
  | .writeMessage msg len ret => s.exec fun w => writeMessage w msg len ret
  | .destroy =>
    let r := s.exec destroy
    ({ r.1 with destroyed := true }, r.2)
  | .openOther fd => s.exec fun w => w.setFds fd (some .rest)
  | .closeOther fd => s.exec fun w => w.setFds fd none

/-- When an action can happen. The callbacks run in the loop of a dispatching worker, and an
event reports a connect only while the bufferevent is connecting. -/
def Enabled (s : Sys ι) : Action → Prop
  | .start _ => s.destroyed = false
  | .worker k o => s.destroyed = false ∧ ∃ pc ∈ s.workers[k]?, s.OutcomeOk pc o
  | .accept listener fd _ => s.destroyed = false ∧ s.Listening listener ∧ s.Unused fd
  | .arrive bev _ => s.destroyed = false ∧ s.Live bev
  | .readcb bev _ => s.destroyed = false ∧ s.Live bev
  | .writecb bev _ => s.destroyed = false ∧ s.Live bev
  | .event bev what =>
    s.destroyed = false ∧ s.Live bev ∧ (hasFlag what bevEventConnected → s.Connecting bev)
  | .listenerError listener _ => s.destroyed = false ∧ s.Listening listener
  | .writeMessage msg len ret =>
    s.destroyed = false ∧ len ≤ msg.length ∧ -1 ≤ ret ∧ ret ≤ len
  | .destroy => s.destroyed = false ∧ s.workers = []
  | .openOther fd => s.Unused fd
  | .closeOther fd => s.world.fds fd = some .rest

instance (s : Sys ι) (a : Action) : Decidable (Enabled s a) := by
  cases a <;> unfold Enabled <;> infer_instance

/-- The machine of one interface. -/
def interfaceMachine : Machine (Sys ι) Action Call where
  step s a := if Enabled s a then some (effect inetAddr s a) else none

/-- The steps of the runs of `interfaceMachine`. -/
abbrev Step (ι : Type*) := Transition (Sys ι) Action Call

theorem interfaceMachine_step {s t : Sys ι} {a : Action} {out : List Call} :
    (interfaceMachine inetAddr).step s a = some (t, out) ↔
      Enabled s a ∧ effect inetAddr s a = (t, out) := by
  simp [interfaceMachine]

end Step

section Starting

/-- A server with `MyCallback`, before any action. -/
def Sys.server : Sys Unit :=
  .initial () (.configured myCallback [] 4999 serverMode) Sys.standardStreams

/-- A client with `MyCallback`, before any action. -/
def Sys.client : Sys Unit :=
  .initial () (.configured myCallback [] 4999 clientMode) Sys.standardStreams

/-- The steps of the worker of a server up to its loop, with listening socket 3. -/
def serverDispatched : List Action :=
  [.worker 0 ⟨true, 0⟩, .worker 0 ⟨true, 3⟩, .worker 0 ⟨true, 0⟩, .worker 0 ⟨true, 0⟩,
    .worker 0 ⟨true, 0⟩, .worker 0 ⟨true, 0⟩]

def serverStarted : List Action := .start true :: serverDispatched

/-- The steps of the worker of a client up to its loop, with socket `fd`. -/
def clientDispatched (fd : Fd) : List Action :=
  [.worker 0 ⟨true, fd⟩, .worker 0 ⟨true, 0⟩, .worker 0 ⟨true, 0⟩, .worker 0 ⟨true, 0⟩,
    .worker 0 ⟨true, 0⟩, .worker 0 ⟨true, 0⟩, .worker 0 ⟨true, 0⟩, .worker 0 ⟨true, 0⟩,
    .worker 0 ⟨true, 0⟩]

def clientStarted (fd : Fd) : List Action := .start true :: clientDispatched fd

end Starting
end AutoTest
