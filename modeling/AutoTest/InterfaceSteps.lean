import AutoTest.InterfaceMachine

/-!
# What one action does to each part of the state

One lemma for each part of the state of an interface. The invariants of the later modules use
these and do not unfold the functions of the interface again.
-/

namespace AutoTest

open OutputMachines ThreadPools

variable {ι : Type*}

section Functions

variable (inetAddr : CString → UInt32) (w : World ι)

@[simp] theorem autoTestOnReadcb_me (bev : Handle) (ctx mallocOk : Bool) :
    (autoTestOnReadcb w bev ctx mallocOk).me = w.me := by
  simp only [autoTestOnReadcb]
  split
  · cases mallocOk <;> cases ctx <;> cases h : w.ati.mCallback <;>
      simp [World.malloc, World.evbufferRemove, World.free, World.invoke, h]
  · rfl

@[simp] theorem autoTestOnReadcb_ati (bev : Handle) (ctx mallocOk : Bool) :
    (autoTestOnReadcb w bev ctx mallocOk).ati = w.ati := by
  simp only [autoTestOnReadcb]
  split
  · cases mallocOk <;> cases ctx <;> cases h : w.ati.mCallback <;>
      simp [World.malloc, World.evbufferRemove, World.free, World.invoke, h]
  · rfl

@[simp] theorem autoTestWriteCb_me (bev : Handle) (ctx mallocOk : Bool) :
    (autoTestWriteCb w bev ctx mallocOk).me = w.me := by
  cases ctx <;> cases mallocOk <;> rfl

@[simp] theorem autoTestWriteCb_ati (bev : Handle) (ctx mallocOk : Bool) :
    (autoTestWriteCb w bev ctx mallocOk).ati = w.ati := by
  cases ctx <;> cases mallocOk <;> rfl

@[simp] theorem autoTestEventCb_me (bev : Handle) (what : BitVec 16) (ctx : Bool) :
    (autoTestEventCb w bev what ctx).me = w.me := by
  unfold autoTestEventCb
  split
  · cases w.ati.mCallback with
    | none => rfl
    | some cb =>
      dsimp only
      split
      · rfl
      · split <;> rfl
  · rfl

/-- Only a connect that finished reaches the stored descriptor. -/
theorem autoTestEventCb_ati (bev : Handle) (what : BitVec 16) :
    (autoTestEventCb w bev what true).ati =
      if hasFlag what bevEventConnected then
        { w.ati with mCallback := w.ati.mCallback.map (·.setFd (w.buffereventGetfd bev)) }
      else w.ati := by
  cases hcb : w.ati.mCallback with
  | none =>
    have hw : w.ati = { w.ati with mCallback := none } := by rw [← hcb]
    simp only [autoTestEventCb, hcb, Option.map_none, ← hw, ite_self]
  | some cb =>
    simp only [autoTestEventCb, hcb, if_true]
    split
    · rfl
    · split <;> rfl

@[simp] theorem serverEvconnlistenerErrorcb_me (err : ℤ) (ctx : Bool) :
    (serverEvconnlistenerErrorcb w err ctx).me = w.me := by
  unfold serverEvconnlistenerErrorcb
  split
  · cases w.ati.mCallback <;> rfl
  · rfl

@[simp] theorem serverEvconnlistenerErrorcb_ati (err : ℤ) (ctx : Bool) :
    (serverEvconnlistenerErrorcb w err ctx).ati = w.ati := by
  unfold serverEvconnlistenerErrorcb
  split
  · cases w.ati.mCallback <;> rfl
  · rfl

@[simp] theorem serverOnAccept_me (listener : Handle) (fd : Fd) (args bevOk : Bool) :
    (serverOnAccept w listener fd args bevOk).me = w.me := by
  unfold serverOnAccept
  split
  · cases w.ati.mCallback <;> rfl
  · rfl

theorem serverOnAccept_ati (listener : Handle) (fd : Fd) (bevOk : Bool) :
    (serverOnAccept w listener fd true bevOk).ati =
      { w.ati with mCallback := w.ati.mCallback.map (·.setFd fd) } := by
  cases hcb : w.ati.mCallback with
  | none =>
    have hw : w.ati = { w.ati with mCallback := none } := by rw [← hcb]
    simp only [serverOnAccept, hcb, if_true, Option.map_none, ← hw]
    rfl
  | some cb =>
    simp only [serverOnAccept, hcb, if_true]
    rfl

@[simp] theorem writeMessage_me (msg : Bytes) (len : ℕ) (ret : ℤ) :
    (writeMessage w msg len ret).me = w.me := by
  unfold writeMessage
  split <;> rfl

@[simp] theorem writeMessage_ati (msg : Bytes) (len : ℕ) (ret : ℤ) :
    (writeMessage w msg len ret).ati = w.ati := by
  unfold writeMessage
  split <;> rfl

@[simp] theorem workerStep_me (pc : WorkerPc) (o : Outcome) :
    (workerStep inetAddr w pc o).2.me = w.me := by
  cases pc <;> rfl

@[simp] theorem workerStep_mCallback (pc : WorkerPc) (o : Outcome) :
    (workerStep inetAddr w pc o).2.ati.mCallback = w.ati.mCallback := by
  cases pc <;> rfl

/-- `start` touches the fields alone. -/
theorem start_kept (created : Bool) :
    (start w created).2.2.me = w.me ∧ (start w created).2.2.heap = w.heap ∧
      (start w created).2.2.fds = w.fds := by
  unfold start
  split
  · split
    · exact ⟨rfl, rfl, rfl⟩
    · split <;> exact ⟨rfl, rfl, rfl⟩
  · exact ⟨rfl, rfl, rfl⟩

@[simp] theorem start_me (created : Bool) : (start w created).2.2.me = w.me :=
  (start_kept w created).1

/-- The modes in which `start` creates a worker. -/
def KnownMode (mode : ℤ) : Prop := mode = clientMode ∨ mode = serverMode

instance (mode : ℤ) : Decidable (KnownMode mode) := inferInstanceAs (Decidable (_ ∨ _))

theorem start_ati (created : Bool) :
    (start w created).2.2.ati =
      if w.ati.mStoped ∧ KnownMode w.ati.mMode then { w.ati with mStoped := false }
      else w.ati := by
  unfold start KnownMode
  by_cases hs : w.ati.mStoped = true
  · by_cases hc : w.ati.mMode = clientMode
    · simp [hs, hc, initClientThread, initThread, World.emit]
    · by_cases hm : w.ati.mMode = serverMode
      · simp [hs, hm, serverMode, clientMode, initServerThread, initThread, World.emit]
      · simp [hs, hc, hm]
  · simp [hs]

/-- `start` creates a thread when the interface is stopped, its mode is known and
`pthread_create` succeeds, and the thread begins with the function of the mode. -/
theorem start_thread (created : Bool) :
    (start w created).2.1 =
      if w.ati.mStoped ∧ created then
        if w.ati.mMode = clientMode then some .clientEntry
        else if w.ati.mMode = serverMode then some .serverEntry else none
      else none := by
  unfold start
  by_cases hs : w.ati.mStoped = true
  · by_cases hc : w.ati.mMode = clientMode
    · simp [hs, hc, initClientThread, initThread]
    · by_cases hm : w.ati.mMode = serverMode
      · simp [hs, hm, serverMode, clientMode, initServerThread, initThread]
      · simp [hs, hc, hm]
  · simp [hs]

theorem start_entry {created : Bool} {pc : WorkerPc} (h : pc ∈ (start w created).2.1) :
    pc = .clientEntry ∨ pc = .serverEntry := by
  rw [start_thread] at h
  split at h
  · split at h
    · exact .inl (Option.some.inj h).symm
    · split at h
      · exact .inr (Option.some.inj h).symm
      · cases h
  · cases h

theorem start_knownMode {created : Bool} {pc : WorkerPc} (h : pc ∈ (start w created).2.1) :
    KnownMode w.ati.mMode := by
  rw [start_thread] at h
  by_contra hmode
  obtain ⟨hc, hs⟩ := not_or.mp hmode
  simp [hc, hs] at h

theorem deleteCallback_ati : (deleteCallback w).ati = { w.ati with mCallback := none } := by
  unfold deleteCallback
  split
  · rfl
  · rename_i h
    have hn : w.ati.mCallback = none := by simpa using h
    rw [← hn]

theorem freeConn_ati : (freeConn w).ati = { w.ati with conn := none } := by
  unfold freeConn
  split
  · rfl
  · rename_i h
    have hn : w.ati.conn = none := by simpa using h
    rw [← hn]

theorem freeBaselistener_ati :
    (freeBaselistener w).ati = { w.ati with mBaselistener := none } := by
  unfold freeBaselistener
  split
  · rfl
  · rename_i h
    have hn : w.ati.mBaselistener = none := by simpa using h
    rw [← hn]

theorem freeServerBase_ati : (freeServerBase w).ati = { w.ati with serverBase := none } := by
  unfold freeServerBase
  split
  · rfl
  · rename_i h
    have hn : w.ati.serverBase = none := by simpa using h
    rw [← hn]

theorem freeClientBase_ati : (freeClientBase w).ati = { w.ati with clientBase := none } := by
  unfold freeClientBase
  split
  · rfl
  · rename_i h
    have hn : w.ati.clientBase = none := by simpa using h
    rw [← hn]

/-- The destructor leaves no pointer in the object. -/
theorem destroy_ati :
    (destroy w).ati = { w.ati with
      mCallback := none, conn := none, mBaselistener := none, serverBase := none,
      clientBase := none } := by
  simp only [destroy, freeClientBase_ati, freeServerBase_ati, freeBaselistener_ati, freeConn_ati,
    deleteCallback_ati]

@[simp] theorem destroy_me : (destroy w).me = w.me := by
  have h₁ : (deleteCallback w).me = w.me := by unfold deleteCallback; split <;> rfl
  have h₂ (v : World ι) : (freeConn v).me = v.me := by unfold freeConn; split <;> rfl
  have h₃ (v : World ι) : (freeBaselistener v).me = v.me := by
    unfold freeBaselistener; split <;> rfl
  have h₄ (v : World ι) : (freeServerBase v).me = v.me := by
    unfold freeServerBase; split <;> rfl
  have h₅ (v : World ι) : (freeClientBase v).me = v.me := by
    unfold freeClientBase; split <;> rfl
  rw [destroy, h₅, h₄, h₃, h₂, h₁]

/-- A step of `start_server` stays in it and leaves the bufferevents alone. -/
theorem workerStep_onServer {pc : WorkerPc} (o : Outcome) (h : pc.onServer = true) :
    (∀ pc' ∈ (workerStep inetAddr w pc o).1, pc'.onServer = true) ∧
      (workerStep inetAddr w pc o).2.heap.bufferevents = w.heap.bufferevents := by
  cases pc with
  | serverSetErrorCb base listener => cases listener <;> simp [workerStep, WorkerPc.onServer] <;> rfl
  | onStop => exact ⟨by simp [workerStep], rfl⟩
  | serverEntry | serverBind | serverPublishBase | serverPublishListener | dispatch | loop =>
    exact ⟨by simp [workerStep, WorkerPc.onServer], rfl⟩
  | _ => cases h

theorem deleteCallback_heap : (deleteCallback w).heap = w.heap := by
  unfold deleteCallback
  split <;> rfl

/-- The destructor frees the bufferevent in `conn` and no other. -/
theorem destroy_bufferevents :
    (destroy w).heap.bufferevents = match w.ati.conn with
      | some b => Function.update w.heap.bufferevents b none
      | none => w.heap.bufferevents := by
  have h₁ (v : World ι) : (freeBaselistener v).heap.bufferevents = v.heap.bufferevents := by
    unfold freeBaselistener; split <;> rfl
  have h₂ (v : World ι) : (freeServerBase v).heap.bufferevents = v.heap.bufferevents := by
    unfold freeServerBase; split <;> rfl
  have h₃ (v : World ι) : (freeClientBase v).heap.bufferevents = v.heap.bufferevents := by
    unfold freeClientBase; split <;> rfl
  rw [destroy, h₃, h₂, h₁]
  cases hc : w.ati.conn <;>
    simp [freeConn, deleteCallback_ati, deleteCallback_heap, hc, World.buffereventFree]

end Functions

section Steps

variable [DecidableEq ι] (inetAddr : CString → UInt32) (s : Sys ι)

@[simp] theorem reportConnect_ati (w : World ι) (bev : Handle) (what : BitVec 16) :
    (Sys.reportConnect w bev what).ati = w.ati := rfl

@[simp] theorem reportConnect_getfd (w : World ι) (bev : Handle) (what : BitVec 16) :
    (Sys.reportConnect w bev what).buffereventGetfd bev = w.buffereventGetfd bev := by
  simp only [World.buffereventGetfd, Sys.reportConnect, Heap.modify, Function.update_self]
  cases w.heap.bufferevents bev <;> rfl

@[simp] theorem effect_me (a : Action) : (effect inetAddr s a).1.world.me = s.world.me := by
  cases a with
  | worker k o =>
    simp only [effect]
    cases s.workers[k]? <;> simp
  | event bev what => simp [effect, Sys.exec, Sys.reportConnect]
  | _ => simp [effect, Sys.exec, World.setFds]

/-- The fields of the interface after an action. -/
def atiAfter (s : Sys ι) : Action → AutoTestInterface
  | .start _ =>
    if s.world.ati.mStoped ∧ KnownMode s.world.ati.mMode then
      { s.world.ati with mStoped := false }
    else s.world.ati
  | .worker k o =>
    match s.workers[k]? with
    | some pc => (workerStep inetAddr { s.world with calls := [] } pc o).2.ati
    | none => s.world.ati
  | .accept _ fd _ => { s.world.ati with mCallback := s.world.ati.mCallback.map (·.setFd fd) }
  | .event bev what =>
    if hasFlag what bevEventConnected then
      { s.world.ati with
        mCallback := s.world.ati.mCallback.map (·.setFd (s.world.buffereventGetfd bev)) }
    else s.world.ati
  | .destroy => { s.world.ati with
      mCallback := none, conn := none, mBaselistener := none, serverBase := none,
      clientBase := none }
  | _ => s.world.ati

theorem effect_ati (a : Action) :
    (effect inetAddr s a).1.world.ati = atiAfter inetAddr s a := by
  cases a with
  | start created => simp only [effect, start_ati, atiAfter]
  | worker k o =>
    simp only [effect, atiAfter]
    cases s.workers[k]? <;> rfl
  | accept listener fd bevOk => simp [effect, Sys.exec, serverOnAccept_ati, World.setFds, atiAfter]
  | event bev what =>
    simp only [effect, Sys.exec, autoTestEventCb_ati, reportConnect_ati, reportConnect_getfd]
    rfl
  | destroy => simp only [effect, Sys.exec, destroy_ati, atiAfter]
  | _ => simp [effect, Sys.exec, World.setFds, atiAfter]

/-- No action touches what `init` stored. -/
theorem effect_configuration (a : Action) :
    (effect inetAddr s a).1.world.ati.mMode = s.world.ati.mMode ∧
      (effect inetAddr s a).1.world.ati.mInited = s.world.ati.mInited ∧
      (effect inetAddr s a).1.world.ati.hi = s.world.ati.hi := by
  rw [effect_ati]
  cases a with
  | start created => simp only [atiAfter]; split <;> exact ⟨rfl, rfl, rfl⟩
  | worker k o =>
    simp only [atiAfter]
    cases s.workers[k]? with
    | none => exact ⟨rfl, rfl, rfl⟩
    | some pc => cases pc <;> exact ⟨rfl, rfl, rfl⟩
  | event bev what => simp only [atiAfter]; split <;> exact ⟨rfl, rfl, rfl⟩
  | _ => exact ⟨rfl, rfl, rfl⟩

@[simp] theorem effect_mMode (a : Action) :
    (effect inetAddr s a).1.world.ati.mMode = s.world.ati.mMode :=
  (effect_configuration inetAddr s a).1

/-- The callback object after an action: accepts and finished connects offer their descriptor to
it, and the destructor deletes it. -/
theorem effect_mCallback (a : Action) :
    (effect inetAddr s a).1.world.ati.mCallback = match a with
      | .accept _ fd _ => s.world.ati.mCallback.map (·.setFd fd)
      | .event bev what =>
        if hasFlag what bevEventConnected then
          s.world.ati.mCallback.map (·.setFd (s.world.buffereventGetfd bev))
        else s.world.ati.mCallback
      | .destroy => none
      | _ => s.world.ati.mCallback := by
  rw [effect_ati]
  cases a with
  | start created => simp only [atiAfter]; split <;> rfl
  | worker k o => simp only [atiAfter]; cases s.workers[k]? <;> simp
  | event bev what => simp only [atiAfter]; split <;> rfl
  | _ => rfl

theorem effect_destroyed (a : Action) :
    (effect inetAddr s a).1.destroyed = (s.destroyed || decide (a = .destroy)) := by
  cases a with
  | worker k o => simp only [effect]; cases s.workers[k]? <;> simp
  | _ => simp [effect, Sys.exec]

/-- The threads after an action. -/
theorem effect_workers (a : Action) :
    (effect inetAddr s a).1.workers = match a with
      | .start created =>
        s.workers ++ (start { s.world with calls := [] } created).2.1.toList
      | .worker k o =>
        match s.workers[k]? with
        | some pc => setThread s.workers k
            (workerStep inetAddr { s.world with calls := [] } pc o).1
        | none => s.workers
      | _ => s.workers := by
  cases a with
  | worker k o => simp only [effect]; cases s.workers[k]? <;> rfl
  | _ => rfl

/-- The threads after a step of the only worker. -/
theorem effect_onlyWorker {pc : WorkerPc} {o : Outcome} (h : s.workers = [pc]) :
    (effect inetAddr s (.worker 0 o)).1.workers =
      (workerStep inetAddr { s.world with calls := [] } pc o).1.toList := by
  have hk : s.workers[0]? = some pc := by rw [h]; rfl
  have hworkers := effect_workers inetAddr s (.worker 0 o)
  simp only [hk] at hworkers
  rw [hworkers, h]
  cases (workerStep inetAddr { s.world with calls := [] } pc o).1 <;> rfl

omit [DecidableEq ι] in
/-- After the destructor only the rest of the process goes on. -/
theorem enabled_of_destroyed {a : Action} (hen : Enabled s a) (hend : s.destroyed = true) :
    ∃ fd, a = .openOther fd ∨ a = .closeOther fd := by
  have hlive (h : s.destroyed = false) : False := by
    rw [hend] at h
    cases h
  cases a with
  | openOther fd => exact ⟨fd, .inl rfl⟩
  | closeOther fd => exact ⟨fd, .inr rfl⟩
  | start created => exact (hlive hen).elim
  | _ => exact (hlive hen.1).elim

end Steps

section Bufferevents

/-- `evbuffer_remove` with the length of the buffer leaves it empty. -/
theorem evbufferRemove_all (w : World ι) (bev : Handle) :
    (w.evbufferRemove bev (w.buffereventInput bev).length).2.heap =
      w.heap.modify bev fun r => { r with input := [] } := by
  cases hr : w.heap.bufferevents bev with
  | none => simp [World.evbufferRemove, Heap.modify, hr]
  | some r =>
    simp [World.evbufferRemove, Heap.modify, hr, World.buffereventInput]

theorem autoTestOnReadcb_bufferevents (w : World ι) (bev : Handle) (mallocOk : Bool) :
    (autoTestOnReadcb w bev true mallocOk).heap.bufferevents =
      if mallocOk then (w.heap.modify bev fun r => { r with input := [] }).bufferevents
      else w.heap.bufferevents := by
  by_cases h : w.buffereventInput bev = []
  · have hm : (w.heap.modify bev fun r => { r with input := [] }) = w.heap := by
      apply Heap.modify_eq_self
      intro r hr
      rw [World.buffereventInput_eq hr] at h
      rw [← h]
    rw [autoTestOnReadcb_empty h, hm, ite_self]
  · cases mallocOk with
    | false =>
      rw [autoTestOnReadcb_noMemory h]
      rfl
    | true =>
      have hremove := congrArg Heap.bufferevents
        (evbufferRemove_all (w.malloc ((w.buffereventInput bev).length + 1) true).2 bev)
      cases hcb : w.ati.mCallback with
      | none =>
        rw [autoTestOnReadcb_noCallback h hcb]
        exact hremove
      | some cb =>
        rw [autoTestOnReadcb_delivers h hcb]
        exact hremove

theorem autoTestWriteCb_bufferevents (w : World ι) (bev : Handle) (mallocOk : Bool) :
    (autoTestWriteCb w bev true mallocOk).heap.bufferevents =
      if mallocOk then (w.heap.modify bev fun r => { r with input := [] }).bufferevents
      else w.heap.bufferevents := by
  cases mallocOk with
  | false => rfl
  | true =>
    have hremove := congrArg Heap.bufferevents
      (evbufferRemove_all (w.malloc ((w.buffereventInput bev).length + 1) true).2 bev)
    rw [autoTestWriteCb_drains]
    exact hremove

theorem autoTestEventCb_heap (w : World ι) (bev : Handle) (what : BitVec 16) (ctx : Bool) :
    (autoTestEventCb w bev what ctx).heap = w.heap := by
  unfold autoTestEventCb
  split
  · cases w.ati.mCallback with
    | none => rfl
    | some cb =>
      dsimp only
      split
      · rfl
      · split <;> rfl
  · rfl

/-- The bufferevent of an accepted connection, when its allocation succeeds. -/
def acceptedBufferevent (h : Heap) (listener : Handle) (fd : Fd) (ok : Bool) :
    Option Bufferevent :=
  if ok then (h.listeners listener).map fun l => ⟨l.base, fd, [], false⟩ else none

theorem serverOnAccept_bufferevents (w : World ι) (listener : Handle) (fd : Fd) (ok : Bool) :
    (serverOnAccept w listener fd true ok).heap.bufferevents =
      match acceptedBufferevent w.heap listener fd ok with
      | some r => Function.update w.heap.bufferevents w.heap.fresh (some r)
      | none => w.heap.bufferevents := by
  have hmade : (if ok = true then ((w.heap.listeners listener).map Evconnlistener.base).map
      fun b => (⟨b, fd, [], false⟩ : Bufferevent) else none) =
      acceptedBufferevent w.heap listener fd ok := by
    simp [acceptedBufferevent, Function.comp_def]
  rw [← hmade]
  cases hcb : w.ati.mCallback with
  | none =>
    rw [serverOnAccept_noCallback hcb]
    rfl
  | some cb =>
    rw [serverOnAccept_eq hcb]
    rfl

variable [DecidableEq ι] (inetAddr : CString → UInt32)

/-- The bufferevents after an action. -/
theorem effect_bufferevents (s : Sys ι) (a : Action) :
    (effect inetAddr s a).1.world.heap.bufferevents = match a with
      | .worker k o =>
        match s.workers[k]? with
        | some pc =>
          (workerStep inetAddr { s.world with calls := [] } pc o).2.heap.bufferevents
        | none => s.world.heap.bufferevents
      | .accept listener fd ok =>
        match acceptedBufferevent s.world.heap listener fd ok with
        | some r => Function.update s.world.heap.bufferevents s.world.heap.fresh (some r)
        | none => s.world.heap.bufferevents
      | .arrive bev chunk =>
        (s.world.heap.modify bev fun r => { r with input := r.input ++ chunk }).bufferevents
      | .readcb bev ok | .writecb bev ok =>
        if ok then (s.world.heap.modify bev fun r => { r with input := [] }).bufferevents
        else s.world.heap.bufferevents
      | .event bev _ =>
        (s.world.heap.modify bev fun r => { r with connecting := false }).bufferevents
      | .destroy => (destroy { s.world with calls := [] }).heap.bufferevents
      | _ => s.world.heap.bufferevents := by
  cases a with
  | start created => exact congrArg Heap.bufferevents (start_kept _ created).2.1
  | worker k o => simp only [effect]; cases s.workers[k]? <;> rfl
  | accept listener fd ok => exact serverOnAccept_bufferevents _ _ _ _
  | readcb bev ok => exact autoTestOnReadcb_bufferevents _ _ _
  | writecb bev ok => exact autoTestWriteCb_bufferevents _ _ _
  | event bev what =>
    simp only [effect, Sys.exec, autoTestEventCb_heap]
    rfl
  | listenerError l err =>
    simp only [effect, Sys.exec, serverEvconnlistenerErrorcb]
    cases s.world.ati.mCallback <;> rfl
  | writeMessage msg len ret =>
    simp only [effect, Sys.exec, writeMessage]
    cases s.world.ati.mCallback <;> rfl
  | _ => rfl

end Bufferevents

section Outputs

variable [DecidableEq ι] (inetAddr : CString → UInt32) {s : Sys ι}
  {cb : AutoTestInterfaceCallback}

theorem accept_outputs (hcb : s.world.ati.mCallback = some cb) (listener : Handle) (fd : Fd)
    (ok : Bool) :
    (effect inetAddr s (.accept listener fd ok)).2 =
      let base := (s.world.heap.listeners listener).map Evconnlistener.base
      let bev := (acceptedBufferevent s.world.heap listener fd ok).map fun _ => s.world.heap.fresh
      .onConnect fd :: (cb.cls.onConnect fd).map .os ++
        [.event (.evconnlistenerGetBase (some listener)),
          .event (.buffereventSocketNew base fd bev),
          .event (.buffereventSetcb bev), .event (.buffereventEnable bev)] := by
  have hcb' : (World.setFds { s.world with calls := [] } fd
      (some (.connection s.world.me))).ati.mCallback = some cb := hcb
  simp only [effect, Sys.exec, serverOnAccept_eq hcb', acceptedBufferevent]
  cases ok <;> cases hl : s.world.heap.listeners listener <;>
    simp [World.evconnlistenerGetBase, World.buffereventSocketNew, World.buffereventSetcb,
      World.buffereventEnable, World.emit, World.setCallback, World.invoke, World.setFds, hl]

theorem readcb_outputs (hcb : s.world.ati.mCallback = some cb) (bev : Handle) (ok : Bool) :
    (effect inetAddr s (.readcb bev ok)).2 =
      let input := s.world.buffereventInput bev
      if input = [] then []
      else if ok then
        .malloc (input.length + 1) (some s.world.heap.fresh) ::
          .onRecv cb.fd (input ++ [0]) input.length ::
          (cb.cls.onRecv cb.fd (input ++ [0]) input.length).map .os ++ [.free s.world.heap.fresh]
      else [.malloc (input.length + 1) none] := by
  have hi : World.buffereventInput { s.world with calls := [] } bev =
      s.world.buffereventInput bev := rfl
  have hcb' : ({ s.world with calls := [] } : World ι).ati.mCallback = some cb := hcb
  simp only [effect, Sys.exec]
  by_cases h : s.world.buffereventInput bev = []
  · rw [autoTestOnReadcb_empty (hi.trans h), if_pos h]
  · have h' : World.buffereventInput { s.world with calls := [] } bev ≠ [] := by rwa [hi]
    rw [if_neg h]
    cases ok with
    | false =>
      rw [autoTestOnReadcb_noMemory h', hi]
      rfl
    | true =>
      rw [autoTestOnReadcb_delivers h' hcb', hi]
      simp [World.malloc, World.evbufferRemove, World.invoke, World.free]

theorem event_outputs (hcb : s.world.ati.mCallback = some cb) (bev : Handle)
    (what : BitVec 16) :
    (effect inetAddr s (.event bev what)).2 =
      let fd := s.world.buffereventGetfd bev
      if hasFlag what bevEventConnected then .onConnect fd :: (cb.cls.onConnect fd).map .os
      else if isFailure what then
        .onError what.toInt fd :: (cb.cls.onError what.toInt fd).map .os
      else [] := by
  have hcb' : (Sys.reportConnect { s.world with calls := [] } bev what).ati.mCallback =
      some cb := hcb
  have hfd : World.buffereventGetfd { s.world with calls := [] } bev =
      s.world.buffereventGetfd bev := rfl
  simp only [effect, Sys.exec]
  cases hc : hasFlag what bevEventConnected with
  | true =>
    rw [autoTestEventCb_connected hcb' hc, reportConnect_getfd, hfd]
    simp [World.invoke, World.setCallback, Sys.reportConnect]
  | false =>
    cases hf : isFailure what with
    | true =>
      rw [autoTestEventCb_failure hcb' hc hf, reportConnect_getfd, hfd]
      simp [World.invoke, Sys.reportConnect]
    | false =>
      rw [autoTestEventCb_other hc hf]
      simp [Sys.reportConnect]

theorem writeMessage_outputs (hcb : s.world.ati.mCallback = some cb) (msg : Bytes) (len : ℕ)
    (ret : ℤ) :
    (effect inetAddr s (.writeMessage msg len ret)).2 =
      .onWrite cb.fd msg len :: (cb.cls.onWrite cb.fd msg len ret).map .os := by
  simp [effect, Sys.exec, writeMessage, hcb, World.invoke, AutoTestInterfaceCallback.getFd]

end Outputs
end AutoTest
