import AutoTest.WriteOnceCells
import Mathlib.Data.Int.Notation
import Mathlib.Data.Nat.Notation

/-!
# The interface object and its callback object

The data members of `AutoTestInterface`, `host_info` and `AutoTestInterfaceCallback`, and the
member functions that only read and write them. A virtual call on the callback object is
dispatched through the class stored in it; the class says which system calls each body makes.
-/

namespace AutoTest

/-- Descriptors are C `int`s: any number from 0 up may be open, `-1` is the failure value. -/
abbrev Fd := ℤ

/-- A number that is open is not the failure value. -/
theorem Fd.ne_failure {fd : Fd} (h : 0 ≤ fd) : fd ≠ -1 := by
  rintro rfl
  exact absurd h (by decide)

/-- Names of heap objects. A name is never used for a second object. -/
abbrev Handle := ℕ

abbrev Bytes := List UInt8

/-- The text of a C string, without its terminator. -/
abbrev CString := List Char

/-- The system calls that a callback body may make, with what they return. -/
inductive OsCall
  | close (fd : Fd)
  | write (fd : Fd) (buf : Bytes) (count : ℕ) (ret : ℤ)
  deriving DecidableEq

/-- The virtual functions of a callback class, each as the system calls of its body. The last
argument of `onWrite` is the result of the `write` it makes. -/
structure CallbackClass where
  onConnect : Fd → List OsCall
  onRecv : Fd → Bytes → ℕ → List OsCall
  onWrite : Fd → Bytes → ℕ → ℤ → List OsCall
  onError : ℤ → Fd → List OsCall

/-- `MyCallback`: `on_error` closes what it is given, `on_write` writes once and drops the
result, the other two only log. -/
def myCallback : CallbackClass where
  onConnect _ := []
  onRecv _ _ _ := []
  onWrite fd msg len ret := [.write fd msg len ret]
  onError _ fd := [.close fd]

/-- The callback object: its class and the `fd` member. -/
structure AutoTestInterfaceCallback where
  cls : CallbackClass
  fd : Fd

namespace AutoTestInterfaceCallback

/-- The constructor. -/
def new (cls : CallbackClass) : AutoTestInterfaceCallback := ⟨cls, 0⟩

def setFd (c : AutoTestInterfaceCallback) (fd : Fd) : AutoTestInterfaceCallback :=
  if c.fd = 0 then { c with fd := fd } else c

def getFd (c : AutoTestInterfaceCallback) : Fd := c.fd

@[simp] theorem setFd_cls (c : AutoTestInterfaceCallback) (fd : Fd) : (c.setFd fd).cls = c.cls := by
  unfold setFd
  split <;> rfl

/-- The `fd` member is a write-once cell that counts as empty while it holds 0. -/
@[simp] theorem setFd_fd (c : AutoTestInterfaceCallback) (fd : Fd) :
    (c.setFd fd).fd = WriteOnceCells.writeOnce 0 c.fd fd := by
  unfold setFd WriteOnceCells.writeOnce
  split <;> rfl

end AutoTestInterfaceCallback

/-- The enumeration `CLIENT_MODE, SERVER_MODE`. -/
def clientMode : ℤ := 0
def serverMode : ℤ := 1

structure HostInfo where
  ip : CString
  port : UInt32
  deriving DecidableEq

structure AutoTestInterface where
  mCallback : Option AutoTestInterfaceCallback
  mInited : Bool
  mStoped : Bool
  mMode : ℤ
  hi : HostInfo
  conn : Option Handle
  mBaselistener : Option Handle
  serverBase : Option Handle
  clientBase : Option Handle

namespace AutoTestInterface

/-- The constructor; `host_info()` leaves an empty `ip` and port 0. -/
def new : AutoTestInterface where
  mCallback := none
  mInited := false
  mStoped := true
  mMode := -1
  hi := ⟨[], 0⟩
  conn := none
  mBaselistener := none
  serverBase := none
  clientBase := none

/-- `init`: only the first call has an effect, every call answers `true`. -/
def init (a : AutoTestInterface) (ip : CString) (port : UInt32) (mode : ℤ) :
    Bool × AutoTestInterface :=
  if !a.mInited then
    (true, { a with mInited := true, mMode := mode, hi := ⟨ip, port⟩ })
  else (true, a)

def onStop (a : AutoTestInterface) : AutoTestInterface := { a with mStoped := true }

/-- A constructed interface that was given a callback object, or none, and then initialised. -/
def initialised (cb : Option AutoTestInterfaceCallback) (ip : CString) (port : UInt32)
    (mode : ℤ) : AutoTestInterface :=
  ({ new with mCallback := cb }.init ip port mode).2

/-- One that was given a fresh callback object, as `Sample::Sample` does it. -/
def configured (cls : CallbackClass) (ip : CString) (port : UInt32) (mode : ℤ) :
    AutoTestInterface :=
  initialised (some (.new cls)) ip port mode

end AutoTestInterface
end AutoTest
