import AutoTest.InterfaceMachine
import AutoTest.SharedMachines

/-!
# Several interfaces in one process

The interfaces of a process share its descriptor table and nothing else. `Sample` owns two of
them, a server and a client.
-/

namespace AutoTest

open OutputMachines SharedMachines

variable {κ : Type*}

/-- The descriptor table as the shared part of the state of an interface. -/
def sharedFds : Access (Sys κ) (FdTable κ) where
  get s := s.world.fds
  put fds s := { s with world := { s.world with fds := fds } }
  get_put _ _ := rfl
  put_put _ _ _ := rfl
  put_get _ := rfl

abbrev Process (κ : Type*) := Family κ (Sys κ) (FdTable κ)

/-- An interface as it is now, with the descriptor table of its process. -/
abbrev Process.interface (p : Process κ) (k : κ) : Sys κ := p.view sharedFds k

def Process.initial (ati : κ → AutoTestInterface) (fds : FdTable κ) : Process κ :=
  ⟨fds, fun k => .initial k (ati k) fds⟩

abbrev ProcessStep (κ : Type*) := Transition (Process κ) (κ × Action) Call

/-- The actions of one interface in a run. -/
def actionsOf [DecidableEq κ] (k : κ) (tr : List (ProcessStep κ)) : List Action :=
  tr.filterMap fun x => if x.action.1 = k then some x.action.2 else none

def processMachine [DecidableEq κ] (inetAddr : CString → UInt32) :
    Machine (Process κ) (κ × Action) Call :=
  family sharedFds (interfaceMachine inetAddr)

theorem actionsOf_snoc_self [DecidableEq κ] (k : κ) (tr : List (ProcessStep κ)) (a : Action)
    (q p : Process κ) (out : List Call) :
    actionsOf k (tr ++ [⟨q, (k, a), out, p⟩]) = actionsOf k tr ++ [a] := by
  simp [actionsOf]

theorem actionsOf_snoc_other [DecidableEq κ] {j k : κ} (h : j ≠ k) (tr : List (ProcessStep κ))
    (a : Action) (q p : Process κ) (out : List Call) :
    actionsOf j (tr ++ [⟨q, (k, a), out, p⟩]) = actionsOf j tr := by
  simp [actionsOf, h.symm]

/-- The two interfaces of `Sample`. -/
inductive Endpoint
  | autotestServer
  | autotestClient
  deriving DecidableEq

/-- The arguments of the two `init` calls; `localIp` is what `getLocalIPv4` answers. -/
def Endpoint.ip (localIp : CString) : Endpoint → CString
  | .autotestServer => "0.0.0.0".toList
  | .autotestClient => localIp

def Endpoint.mode : Endpoint → ℤ
  | .autotestServer => serverMode
  | .autotestClient => clientMode

/-- `Sample::Sample`. -/
def sample (localIp : CString) (k : Endpoint) : AutoTestInterface :=
  .configured myCallback (k.ip localIp) 4999 k.mode

/-- `Sample::initServer` and `Sample::initClient`. -/
def initServer (created : Bool) : Endpoint × Action := (.autotestServer, .start created)
def initClient (created : Bool) : Endpoint × Action := (.autotestClient, .start created)

/-- `Sample::sendServermsg` and `Sample::sendClientMsg`; `ret` is what `write` returns. -/
def sendServermsg (msg : Bytes) (ret : ℤ) : Endpoint × Action :=
  (.autotestServer, .writeMessage msg msg.length ret)

def sendClientMsg (msg : Bytes) (ret : ℤ) : Endpoint × Action :=
  (.autotestClient, .writeMessage msg msg.length ret)

section Starting

def sampleProcess : Process Endpoint :=
  .initial (sample "127.0.0.1".toList) Sys.standardStreams

/-- Both endpoints of `Sample` are started: the server dispatches with a listener on 3, the
client is connected through 4. -/
def bothStarted : List (Endpoint × Action) :=
  initServer true :: serverDispatched.map (.autotestServer, ·) ++
    initClient true :: (clientDispatched 4).map (.autotestClient, ·) ++
    [(.autotestClient, .event 1 bevEventConnected)]

end Starting
end AutoTest
