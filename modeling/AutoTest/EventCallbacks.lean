import AutoTest.LibeventWorld

/-!
# The callbacks that libevent runs in the dispatching thread

Each function is one callback from its entry to its return. `ctx` (or `args`) says whether the
context pointer is set; it then points to the interface of the world. The remaining arguments
are what the callback's allocations return.
-/

namespace AutoTest

variable {ι : Type*}

/-- The event bits of event2/bufferevent.h. -/
def bevEventReading : BitVec 16 := 0x01
def bevEventWriting : BitVec 16 := 0x02
def bevEventEof : BitVec 16 := 0x10
def bevEventError : BitVec 16 := 0x20
def bevEventTimeout : BitVec 16 := 0x40
def bevEventConnected : BitVec 16 := 0x80

/-- The test `what & flag`. -/
def hasFlag (what flag : BitVec 16) : Bool := what &&& flag != 0

/-- The condition of the error branch of `auto_test_event_cb`. -/
def isFailure (what : BitVec 16) : Bool :=
  hasFlag what bevEventEof || hasFlag what bevEventError || hasFlag what bevEventReading ||
    hasFlag what bevEventWriting || hasFlag what bevEventTimeout

def autoTestOnReadcb (w : World ι) (bev : Handle) (ctx mallocOk : Bool) : World ι :=
  let len := (w.buffereventInput bev).length
  if len > 0 then
    let size := len + 1
    match w.malloc size mallocOk with
    | (none, w) => w
    | (some buf, w) =>
      let (data, w) := w.evbufferRemove bev len
      -- `buf[len] = '\0'`
      let msg := data ++ [0]
      let w :=
        if ctx then
          match w.ati.mCallback with
          | some cb => w.invoke (.onRecv cb.getFd msg len) (cb.cls.onRecv cb.getFd msg len)
          | none => w
        else w
      w.free buf
  else w

def autoTestEventCb (w : World ι) (bev : Handle) (what : BitVec 16) (ctx : Bool) : World ι :=
  if ctx then
    let fd := w.buffereventGetfd bev
    match w.ati.mCallback with
    | some cb =>
      if hasFlag what bevEventConnected then
        let cb := cb.setFd fd
        (w.setCallback (some cb)).invoke (.onConnect fd) (cb.cls.onConnect fd)
      else if isFailure what then
        w.invoke (.onError what.toInt fd) (cb.cls.onError what.toInt fd)
      else w
    | none => w
  else w

/-- The error callback of the listener passes 0 as the descriptor. -/
def serverEvconnlistenerErrorcb (w : World ι) (err : ℤ) (ctx : Bool) : World ι :=
  if ctx then
    match w.ati.mCallback with
    | some cb => w.invoke (.onError err 0) (cb.cls.onError err 0)
    | none => w
  else w

/-- The drained bytes are only logged, and the buffer is not freed. -/
def autoTestWriteCb (w : World ι) (bev : Handle) (ctx mallocOk : Bool) : World ι :=
  if ctx then
    let len := (w.buffereventInput bev).length
    let size := len + 1
    match w.malloc size mallocOk with
    | (none, w) => w
    | (some _, w) => (w.evbufferRemove bev len).2
  else w

def serverOnAccept (w : World ι) (listener : Handle) (fd : Fd) (args bevOk : Bool) : World ι :=
  if args then
    let w :=
      match w.ati.mCallback with
      | some cb =>
        let cb := cb.setFd fd
        (w.setCallback (some cb)).invoke (.onConnect fd) (cb.cls.onConnect fd)
      | none => w
    let (base, w) := w.evconnlistenerGetBase (some listener)
    let (bev, w) := w.buffereventSocketNew base fd bevOk
    let w := w.buffereventSetcb bev
    w.buffereventEnable bev
  else w

section Specification

variable {w : World ι} {bev : Handle} {cb : AutoTestInterfaceCallback}

theorem autoTestOnReadcb_empty {ctx mallocOk : Bool} (h : w.buffereventInput bev = []) :
    autoTestOnReadcb w bev ctx mallocOk = w := by
  simp [autoTestOnReadcb, h]

theorem autoTestOnReadcb_noMemory {ctx : Bool} (h : w.buffereventInput bev ≠ []) :
    autoTestOnReadcb w bev ctx false =
      (w.malloc ((w.buffereventInput bev).length + 1) false).2 := by
  have hlen := List.length_pos_iff.mpr h
  simp [autoTestOnReadcb, World.malloc, hlen]

/-- A read that finds bytes and gets its buffer hands all of them to `on_recv`, with the
descriptor stored in the callback object. -/
theorem autoTestOnReadcb_delivers (h : w.buffereventInput bev ≠ [])
    (hcb : w.ati.mCallback = some cb) :
    autoTestOnReadcb w bev true true =
      let input := w.buffereventInput bev
      let w' := ((w.malloc (input.length + 1) true).2.evbufferRemove bev input.length).2
      (w'.invoke (.onRecv cb.fd (input ++ [0]) input.length)
        (cb.cls.onRecv cb.fd (input ++ [0]) input.length)).free w.heap.fresh := by
  have hlen := List.length_pos_iff.mpr h
  have hinput : (w.malloc ((w.buffereventInput bev).length + 1) true).2.buffereventInput bev =
      w.buffereventInput bev := rfl
  simp only [autoTestOnReadcb, hlen, if_true, World.evbufferRemove, World.malloc] at hinput ⊢
  simp [hcb, hinput, AutoTestInterfaceCallback.getFd]

theorem autoTestOnReadcb_noCallback (h : w.buffereventInput bev ≠ [])
    (hcb : w.ati.mCallback = none) :
    autoTestOnReadcb w bev true true =
      let input := w.buffereventInput bev
      ((w.malloc (input.length + 1) true).2.evbufferRemove bev input.length).2.free
        w.heap.fresh := by
  have hlen := List.length_pos_iff.mpr h
  simp only [autoTestOnReadcb, hlen, if_true, World.evbufferRemove, World.malloc]
  simp [hcb]

theorem autoTestEventCb_connected {what : BitVec 16} (hcb : w.ati.mCallback = some cb)
    (h : hasFlag what bevEventConnected = true) :
    autoTestEventCb w bev what true =
      (w.setCallback (some (cb.setFd (w.buffereventGetfd bev)))).invoke
        (.onConnect (w.buffereventGetfd bev)) (cb.cls.onConnect (w.buffereventGetfd bev)) := by
  simp [autoTestEventCb, hcb, h]

theorem autoTestEventCb_failure {what : BitVec 16} (hcb : w.ati.mCallback = some cb)
    (h : hasFlag what bevEventConnected = false) (hf : isFailure what = true) :
    autoTestEventCb w bev what true =
      w.invoke (.onError what.toInt (w.buffereventGetfd bev))
        (cb.cls.onError what.toInt (w.buffereventGetfd bev)) := by
  simp [autoTestEventCb, hcb, h, hf]

theorem autoTestEventCb_other {what : BitVec 16} {ctx : Bool}
    (h : hasFlag what bevEventConnected = false) (hf : isFailure what = false) :
    autoTestEventCb w bev what ctx = w := by
  unfold autoTestEventCb
  split
  · cases hcb : w.ati.mCallback <;> simp [h, hf]
  · rfl

theorem serverEvconnlistenerErrorcb_eq {err : ℤ} (hcb : w.ati.mCallback = some cb) :
    serverEvconnlistenerErrorcb w err true =
      w.invoke (.onError err 0) (cb.cls.onError err 0) := by
  simp [serverEvconnlistenerErrorcb, hcb]

theorem serverOnAccept_eq {listener : Handle} {fd : Fd} {bevOk : Bool}
    (hcb : w.ati.mCallback = some cb) :
    serverOnAccept w listener fd true bevOk =
      let w₁ := (w.setCallback (some (cb.setFd fd))).invoke (.onConnect fd) (cb.cls.onConnect fd)
      let r := (w₁.evconnlistenerGetBase (some listener)).2.buffereventSocketNew
        ((w.heap.listeners listener).map Evconnlistener.base) fd bevOk
      (r.2.buffereventSetcb r.1).buffereventEnable r.1 := by
  simp only [serverOnAccept, hcb, if_true, AutoTestInterfaceCallback.setFd_cls]
  rfl

theorem serverOnAccept_noCallback {listener : Handle} {fd : Fd} {bevOk : Bool}
    (hcb : w.ati.mCallback = none) :
    serverOnAccept w listener fd true bevOk =
      let r := (w.evconnlistenerGetBase (some listener)).2.buffereventSocketNew
        ((w.heap.listeners listener).map Evconnlistener.base) fd bevOk
      (r.2.buffereventSetcb r.1).buffereventEnable r.1 := by
  simp only [serverOnAccept, hcb, if_true]
  rfl

theorem autoTestWriteCb_noMemory :
    autoTestWriteCb w bev true false =
      (w.malloc ((w.buffereventInput bev).length + 1) false).2 := by
  simp [autoTestWriteCb, World.malloc]

/-- A write callback that gets its buffer drains the input buffer and calls nobody. -/
theorem autoTestWriteCb_drains :
    autoTestWriteCb w bev true true =
      let input := w.buffereventInput bev
      ((w.malloc (input.length + 1) true).2.evbufferRemove bev input.length).2 := by
  simp [autoTestWriteCb, World.malloc]

end Specification
end AutoTest
