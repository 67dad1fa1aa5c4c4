import AutoTest.DottedQuads
import AutoTest.LifetimeMachine
import AutoTest.ResourceSteps

/-!
# The addresses that are bound and connected to

The first call of `init` fixes a text and a number. `start_server` and `start_client` both make
a `sockaddr_in` of them, in which a text that writes no address has become 255.255.255.255 and
the number has lost all but its low 16 bits. Every bind and every connect uses this address.
-/

namespace AutoTest.EndpointAttempts

open DottedQuads OutputMachines ThreadPools

variable {ι : Type*} (written : CString → Option Quad)

section Addresses

def inaddrNone : UInt32 := 0xFFFFFFFF

/-- `inet_addr`; `written` says which texts write an address, and which. -/
def inetAddr (cp : CString) : UInt32 :=
  match written cp with
  | some q => q.word
  | none => inaddrNone

/-- The number that `sin_port` holds in network byte order, as `ntohs` gives it back. -/
def portNumber (addr : SockaddrIn) : ℕ := (htons addr.sinPort).toNat

/-- The address written by `ip`, with the number `port`. -/
def Denotes (addr : SockaddrIn) (ip : CString) (port : UInt32) : Prop :=
  match written ip with
  | some q => addr.sinFamily = afInet ∧ addr.sinAddr = q.word ∧ portNumber addr = port.toNat
  | none => False

instance (addr : SockaddrIn) (ip : CString) (port : UInt32) :
    Decidable (Denotes written addr ip port) := by
  unfold Denotes
  cases written ip <;> infer_instance

theorem htons_htons (port : UInt16) : htons (htons port) = port := by
  apply UInt16.eq_of_toBitVec_eq
  simp only [htons, UInt16.toBitVec_or, UInt16.toBitVec_shiftLeft, UInt16.toBitVec_shiftRight]
  ext i hi
  have hhigh : port.toBitVec.getLsbD (8 + (8 + i)) = false := BitVec.getLsbD_of_ge _ _ (by omega)
  by_cases h : i < 8
  · have hlow : 8 + i < 16 := by omega
    simp [h, hlow, hhigh]
  · have hlow : i - 8 < 8 := by omega
    have hback : 8 + (i - 8) = i := by omega
    have hup : ¬ 8 + i < 16 := by omega
    simp [h, hi, hlow, hback, hup, hhigh]

theorem word_broadcast : (⟨255, 255, 255, 255⟩ : Quad).word = inaddrNone := by decide

theorem inetAddr_eq (ip : CString) :
    inetAddr written ip = ((written ip).getD ⟨255, 255, 255, 255⟩).word := by
  unfold inetAddr
  cases written ip with
  | none => exact word_broadcast.symm
  | some q => rfl

theorem portNumber_remoteAddr (hi : HostInfo) :
    portNumber (remoteAddr (inetAddr written) hi) = hi.port.toNat % 2 ^ 16 := by
  rw [portNumber, remoteAddr, htons_htons]
  exact UInt32.toNat_toUInt16 hi.port

/-- The address denotes the endpoint exactly when the text writes an address and the port has 16
bits. -/
theorem remoteAddr_denotes_iff (ip : CString) (port : UInt32) :
    Denotes written (remoteAddr (inetAddr written) ⟨ip, port⟩) ip port ↔
      port.toNat ≤ 65535 ∧ (written ip).isSome := by
  have hport := portNumber_remoteAddr written ⟨ip, port⟩
  have haddr := inetAddr_eq written ip
  unfold Denotes
  cases hip : written ip with
  | none => simp
  | some q =>
    have hword : (remoteAddr (inetAddr written) ⟨ip, port⟩).sinAddr = q.word := by
      simpa [hip, remoteAddr] using haddr
    have hmod : port.toNat % 2 ^ 16 = port.toNat ↔ port.toNat ≤ 65535 := by omega
    dsimp only at hport ⊢
    rw [hport, hword, hmod]
    simp [remoteAddr]

end Addresses

section Calls

/-- The calls that the users of the interface make. -/
inductive UserCall
  | init (ip : CString) (port : UInt32) (mode : ℤ)
  | start
  deriving DecidableEq

structure InitArgs where
  ip : CString
  port : UInt32
  mode : ℤ
  deriving DecidableEq

def UserCall.args : UserCall → Option InitArgs
  | .init ip port mode => some ⟨ip, port, mode⟩
  | .start => none

/-- The arguments of the first call of `init`. -/
def firstInit (calls : List UserCall) : Option InitArgs := calls.findSome? UserCall.args

/-- Some `start` comes after an `init`. -/
def Started (calls : List UserCall) : Prop :=
  ∃ pre post, calls = pre ++ .start :: post ∧ (firstInit pre).isSome

/-- If an interface is started, then with a text that writes an address and a port of 16 bits. -/
def Sound (calls : List UserCall) : Prop :=
  ∀ e ∈ firstInit calls, KnownMode e.mode → Started calls →
    e.port.toNat ≤ 65535 ∧ (written e.ip).isSome

theorem firstInit_append {calls : List UserCall} {e : InitArgs} (h : firstInit calls = some e)
    (more : List UserCall) : firstInit (calls ++ more) = some e := by
  rw [firstInit] at h ⊢
  rw [List.findSome?_append, h]
  rfl

theorem firstInit_snoc_start (calls : List UserCall) :
    firstInit (calls ++ [.start]) = firstInit calls := by
  simp [firstInit, List.findSome?_append, UserCall.args]

theorem firstInit_snoc_init {calls : List UserCall} (h : firstInit calls = none) (ip : CString)
    (port : UInt32) (mode : ℤ) :
    firstInit (calls ++ [.init ip port mode]) = some ⟨ip, port, mode⟩ := by
  rw [firstInit] at h ⊢
  rw [List.findSome?_append, h]
  rfl

theorem Started.append {calls : List UserCall} (h : Started calls) (more : List UserCall) :
    Started (calls ++ more) := by
  obtain ⟨pre, post, rfl, hinit⟩ := h
  exact ⟨pre, post ++ more, by simp, hinit⟩

theorem started_cons_start {calls : List UserCall} (h : Started (.start :: calls)) :
    Started calls := by
  obtain ⟨pre, post, hcalls, hinit⟩ := h
  cases pre with
  | nil => cases hinit
  | cons c pre =>
    obtain ⟨rfl, rfl⟩ := List.cons.inj hcalls
    exact ⟨pre, post, rfl, hinit⟩

theorem started_cons_init {calls : List UserCall} {ip : CString} {port : UInt32} {mode : ℤ}
    (h : Started (.init ip port mode :: calls)) : .start ∈ calls := by
  obtain ⟨pre, post, hcalls, hinit⟩ := h
  cases pre with
  | nil => cases hinit
  | cons c pre =>
    obtain ⟨-, rfl⟩ := List.cons.inj hcalls
    exact List.mem_append_right _ List.mem_cons_self

theorem started_snoc {calls : List UserCall} {e : InitArgs} (h : firstInit calls = some e) :
    Started (calls ++ [.start]) :=
  ⟨calls, [], rfl, by rw [h]; rfl⟩

/-- The users' calls in a run. -/
def userCalls (tr : List (LifeStep ι)) : List UserCall :=
  tr.filterMap fun x => match x.action with
    | .init ip port mode => some (.init ip port mode)
    | .act (.start _) => some .start
    | .act _ => none

@[simp] theorem userCalls_append (tr tr' : List (LifeStep ι)) :
    userCalls (tr ++ tr') = userCalls tr ++ userCalls tr' := by
  simp [userCalls]

end Calls

section Attempts

/-- The addresses of the binds and connects among the calls. -/
def attempted (out : List Call) : List SockaddrIn :=
  out.filterMap fun c => match c with
    | .event (.evconnlistenerNewBind _ addr _) => some addr
    | .event (.buffereventSocketConnect _ addr _) => some addr
    | _ => none

/-- The address that a worker carries. -/
def carried : WorkerPc → Option SockaddrIn
  | .serverBind addr _ | .clientBaseNew addr _ | .clientSocketNew addr _ _
  | .clientConnect addr _ _ => some addr
  | _ => none

/-- The address that a worker is about to use. -/
def attempts : WorkerPc → List SockaddrIn
  | .serverBind addr _ | .clientConnect addr _ _ => [addr]
  | _ => []

@[simp] theorem attempted_append (out out' : List Call) :
    attempted (out ++ out') = attempted out ++ attempted out' := by
  simp [attempted]

@[simp] theorem attempted_os (body : List OsCall) : attempted (body.map .os) = [] := by
  simp [attempted]

theorem carried_of_attempts {pc : WorkerPc} {addr : SockaddrIn} (h : addr ∈ attempts pc) :
    carried pc = some addr := by
  cases pc <;> simp_all [attempts, carried]

variable (inet : CString → UInt32) (w : World ι)

/-- A worker makes its address when it enters, from the endpoint that is stored then. -/
theorem workerStep_carried {pc pc' : WorkerPc} {o : Outcome} {addr : SockaddrIn}
    (hpc : pc' ∈ (workerStep inet w pc o).1) (h : carried pc' = some addr) :
    carried pc = some addr ∨ addr = remoteAddr inet w.ati.hi := by
  cases pc with
  | serverSetErrorCb base listener =>
    cases listener <;> simp [workerStep] at hpc <;> subst hpc <;> cases h
  | clientEntry =>
    simp only [workerStep, Option.mem_def] at hpc
    generalize (if o.ok = true then o.fd else -1) = fd at hpc
    split at hpc
    · cases hpc
    · cases hpc
      exact .inr (Option.some.inj h).symm
  | clientConnect addr base conn =>
    simp only [workerStep, Option.mem_def] at hpc
    split at hpc <;> cases hpc <;> cases h
  | serverEntry =>
    cases hpc
    exact .inr (Option.some.inj h).symm
  | clientBaseNew | clientSocketNew =>
    cases hpc
    exact .inl h
  | onStop => cases hpc
  | _ =>
    cases hpc
    cases h

theorem workerStep_attempted (pc : WorkerPc) (o : Outcome) :
    attempted (workerStep inet w pc o).2.calls = attempted w.calls ++ attempts pc := by
  cases pc <;>
    simp [workerStep, attempts, World.eventBaseNew, World.evconnlistenerNewBind,
      World.evconnlistenerSetErrorCb, World.socket, World.buffereventSocketNew,
      World.buffereventSocketConnect, World.buffereventSetcb, World.buffereventEnable,
      World.eventBaseDispatch, World.emit, attempted]

theorem readcb_attempted (bev : Handle) (ok : Bool) :
    attempted (autoTestOnReadcb w bev true ok).calls = attempted w.calls := by
  by_cases hinput : w.buffereventInput bev = []
  · rw [autoTestOnReadcb_empty hinput]
  · cases ok with
    | false =>
      rw [autoTestOnReadcb_noMemory hinput]
      simp [World.malloc, attempted]
    | true =>
      cases hcb : w.ati.mCallback with
      | none =>
        rw [autoTestOnReadcb_noCallback hinput hcb]
        simp [World.malloc, World.evbufferRemove, World.free, attempted]
      | some cb =>
        rw [autoTestOnReadcb_delivers hinput hcb]
        simp [World.malloc, World.evbufferRemove, World.invoke, World.free, attempted]

theorem start_attempted (created : Bool) :
    attempted (start w created).2.2.calls = attempted w.calls := by
  simp only [start, initClientThread, initServerThread, initThread]
  split
  · split
    · simp [World.emit, attempted]
    · split <;> simp [World.emit, attempted]
  · rfl

theorem accept_attempted (listener : Handle) (fd : Fd) (ok : Bool) :
    attempted (serverOnAccept w listener fd true ok).calls = attempted w.calls := by
  cases hcb : w.ati.mCallback with
  | none =>
    rw [serverOnAccept_noCallback hcb]
    simp [World.evconnlistenerGetBase, World.buffereventSocketNew, World.buffereventSetcb,
      World.buffereventEnable, World.emit, attempted]
  | some cb =>
    rw [serverOnAccept_eq hcb]
    simp [World.evconnlistenerGetBase, World.buffereventSocketNew, World.buffereventSetcb,
      World.buffereventEnable, World.emit, World.setCallback, World.invoke, attempted]

theorem event_attempted (bev : Handle) (what : BitVec 16) :
    attempted (autoTestEventCb w bev what true).calls = attempted w.calls := by
  cases hcb : w.ati.mCallback with
  | none => simp [autoTestEventCb, hcb]
  | some cb =>
    simp only [autoTestEventCb, hcb, if_true]
    split
    · simp [World.setCallback, World.invoke, attempted]
    · split
      · simp [World.invoke, attempted]
      · rfl

/-- Only the steps of workers bind or connect. -/
theorem effect_attempted [DecidableEq ι] (s : Sys ι) (a : Action) :
    attempted (effect inet s a).2 = match a with
      | .worker k _ => (s.workers[k]?).elim [] attempts
      | _ => [] := by
  cases a with
  | start created => exact start_attempted _ created
  | worker k o =>
    simp only [effect]
    cases s.workers[k]? with
    | none => rfl
    | some pc => exact workerStep_attempted inet { s.world with calls := [] } pc o
  | accept listener fd ok => exact accept_attempted _ listener fd ok
  | arrive bev chunk | openOther fd | closeOther fd => rfl
  | readcb bev ok => exact readcb_attempted _ bev ok
  | writecb bev ok => cases ok <;> rfl
  | event bev what => exact event_attempted _ bev what
  | listenerError listener err =>
    cases hcb : s.world.ati.mCallback <;>
      simp [effect, Sys.exec, serverEvconnlistenerErrorcb, hcb, World.invoke, attempted]
  | writeMessage msg len ret =>
    cases hcb : s.world.ati.mCallback <;>
      simp [effect, Sys.exec, writeMessage, hcb, World.invoke, attempted]
  | destroy =>
    have hdestroy := destroy_calls { s.world with calls := [] }
    simp only [effect, Sys.exec, hdestroy]
    cases s.world.ati.mCallback <;> cases s.world.ati.conn <;>
      cases s.world.ati.mBaselistener <;> cases s.world.ati.serverBase <;>
      cases s.world.ati.clientBase <;> rfl

end Attempts

section Invariant

/-- What every run from the construction on keeps: the stored endpoint is that of the first call
of `init`, workers exist only if the interface was started afterwards, and the addresses that
they carry were made of this endpoint. -/
structure Pinned (hist : List (LifeStep ι)) (s : Sys ι) : Prop where
  fresh : firstInit (userCalls hist) = none →
    s.world.ati.mInited = false ∧ s.world.ati.mMode = -1
  stored : ∀ e ∈ firstInit (userCalls hist),
    s.world.ati.mInited = true ∧ s.world.ati.mMode = e.mode ∧ s.world.ati.hi = ⟨e.ip, e.port⟩
  started : s.workers ≠ [] →
    KnownMode s.world.ati.mMode ∧ Started (userCalls hist)
  carries : ∀ pc ∈ s.workers, ∀ addr ∈ carried pc,
    addr = remoteAddr (inetAddr written) s.world.ati.hi

theorem pinned_constructed (me : ι) (cb : Option AutoTestInterfaceCallback) (fds : FdTable ι) :
    Pinned written [] (.constructed me cb fds) where
  fresh _ := ⟨rfl, rfl⟩
  stored e he := by cases he
  started h := absurd rfl h
  carries pc hpc := by cases hpc

variable {written} {hist : List (LifeStep ι)} {s t : Sys ι} {out : List Call}

/-- A worker shows that `init` was called, and with a known mode. -/
theorem Pinned.args (h : Pinned written hist s) (hw : s.workers ≠ []) :
    ∃ e ∈ firstInit (userCalls hist), KnownMode e.mode ∧ Started (userCalls hist) ∧
      s.world.ati.hi = ⟨e.ip, e.port⟩ := by
  obtain ⟨hmode, hstart⟩ := h.started hw
  cases he : firstInit (userCalls hist) with
  | none =>
    rw [(h.fresh he).2] at hmode
    exact absurd hmode (by decide)
  | some e =>
    obtain ⟨-, hm, hhi⟩ := h.stored e he
    exact ⟨e, rfl, hm ▸ hmode, hstart, hhi⟩

/-- Calls that leave the first `init` as it is. -/
theorem Pinned.extend (h : Pinned written hist s) {hist' : List (LifeStep ι)}
    {more : List UserCall} (hcalls : userCalls hist' = userCalls hist ++ more)
    (hfirst : firstInit (userCalls hist ++ more) = firstInit (userCalls hist)) :
    Pinned written hist' s where
  fresh hnone := h.fresh (by rwa [hcalls, hfirst] at hnone)
  stored e he := h.stored e (by rwa [hcalls, hfirst] at he)
  started hw := ⟨(h.started hw).1, hcalls ▸ (h.started hw).2.append more⟩
  carries := h.carries

theorem pinned_init (h : Pinned written hist s) (ip : CString) (port : UInt32) (mode : ℤ) :
    Pinned written (hist ++ [⟨s, .init ip port mode, out, s.init ip port mode⟩])
      (s.init ip port mode) := by
  have hcalls : userCalls (hist ++ [⟨s, .init ip port mode, out, s.init ip port mode⟩]) =
      userCalls hist ++ [.init ip port mode] := userCalls_append _ _
  cases hfirst : firstInit (userCalls hist) with
  | none =>
    have hati := Sys.init_fresh (h.fresh hfirst).1 ip port mode
    have hidle : s.workers = [] := by
      by_contra hne
      obtain ⟨e, he, -⟩ := h.args hne
      rw [hfirst] at he
      cases he
    have hnew : firstInit (userCalls hist ++ [.init ip port mode]) = some ⟨ip, port, mode⟩ :=
      firstInit_snoc_init hfirst ip port mode
    refine ⟨fun hnone => ?_, fun e he => ?_, fun hw => absurd hidle hw, fun pc hpc => ?_⟩
    · rw [hcalls, hnew] at hnone
      cases hnone
    · rw [hcalls, hnew] at he
      cases he
      rw [hati]
      exact ⟨rfl, rfl, rfl⟩
    · have hpc' : pc ∈ s.workers := hpc
      rw [hidle] at hpc'
      cases hpc'
  | some e =>
    rw [Sys.init_again (h.stored e hfirst).1] at hcalls ⊢
    exact h.extend hcalls (by rw [hfirst, firstInit_append hfirst])

variable [DecidableEq ι]

/-- The threads after an action, with the addresses that they carry. -/
theorem carries_act (h : Pinned written hist s) (a : Action) :
    ∀ pc ∈ (effect (inetAddr written) s a).1.workers, ∀ addr ∈ carried pc,
      addr = remoteAddr (inetAddr written) s.world.ati.hi := by
  intro pc hpc addr haddr
  rw [effect_workers] at hpc
  cases a with
  | start created =>
    rcases List.mem_append.mp hpc with hpc | hpc
    · exact h.carries pc hpc addr haddr
    · rcases start_entry _ (Option.mem_toList.mp hpc) with rfl | rfl <;> cases haddr
  | worker k o =>
    cases hk : s.workers[k]? with
    | none =>
      simp only [hk] at hpc
      exact h.carries pc hpc addr haddr
    | some pc₀ =>
      simp only [hk] at hpc
      rcases mem_setThread hk hpc with hpc | hpc
      · exact h.carries pc hpc addr haddr
      · rcases workerStep_carried _ _ hpc haddr with hold | hnew
        · exact h.carries pc₀ (List.mem_of_getElem? hk) addr hold
        · exact hnew
  | _ => exact h.carries pc hpc addr haddr

/-- Workers come from a `start` after an `init`. -/
theorem started_act (h : Pinned written hist s) {a : Action} (hen : Enabled s a)
    (hw : (effect (inetAddr written) s a).1.workers ≠ []) :
    KnownMode s.world.ati.mMode ∧ Started (userCalls (hist ++ [⟨s, .act a, out, t⟩])) := by
  rw [userCalls_append]
  by_cases hidle : s.workers = []
  · rw [effect_workers] at hw
    cases a with
    | start created =>
      dsimp only at hw
      rw [hidle, List.nil_append] at hw
      obtain ⟨pc, hpc⟩ := List.exists_mem_of_ne_nil _ hw
      have hknown := start_knownMode { s.world with calls := [] } (Option.mem_toList.mp hpc)
      dsimp only at hknown
      refine ⟨hknown, ?_⟩
      cases hargs : firstInit (userCalls hist) with
      | none =>
        rw [(h.fresh hargs).2] at hknown
        exact absurd hknown (by decide)
      | some e => exact started_snoc hargs
    | worker k o =>
      obtain ⟨-, pc, hk, -⟩ := hen
      rw [hidle] at hk
      cases hk
    | _ => exact absurd hidle hw
  · exact ⟨(h.started hidle).1, (h.started hidle).2.append _⟩

theorem pinned_act (h : Pinned written hist s) {a : Action} (hen : Enabled s a)
    (heff : effect (inetAddr written) s a = (t, out)) :
    Pinned written (hist ++ [⟨s, .act a, out, t⟩]) t := by
  obtain ⟨hmode, hinited, hhi⟩ := effect_configuration (inetAddr written) s a
  have hcarries := carries_act h a
  have hworkers : (effect (inetAddr written) s a).1.workers = t.workers := by rw [heff]
  rw [heff] at hmode hinited hhi hcarries
  have hfirst : firstInit (userCalls (hist ++ [⟨s, .act a, out, t⟩])) =
      firstInit (userCalls hist) := by
    rw [userCalls_append]
    cases a with
    | start created => exact firstInit_snoc_start _
    | _ => exact congrArg firstInit (List.append_nil _)
  refine ⟨fun hnone => ?_, fun e he => ?_, fun hw => ?_, fun pc hpc => ?_⟩
  · rw [hinited, hmode]
    exact h.fresh (hfirst ▸ hnone)
  · rw [hinited, hmode, hhi]
    exact h.stored e (hfirst ▸ he)
  · rw [hmode]
    exact started_act h hen (hworkers ▸ hw)
  · rw [hhi]
    exact hcarries pc hpc

theorem pinned_step (h : Pinned written hist s) {a : Operation}
    (hs : (lifetimeMachine (inetAddr written)).step s a = some (t, out)) :
    Pinned written (hist ++ [⟨s, a, out, t⟩]) t := by
  cases a with
  | init ip port mode =>
    obtain ⟨-, rfl, rfl⟩ := (lifetimeMachine_init _).mp hs
    exact pinned_init h ip port mode
  | act a =>
    obtain ⟨hen, heff⟩ := (lifetimeMachine_act _).mp hs
    exact pinned_act h hen heff

/-- Every bind and connect uses the address made of the first `init`. -/
theorem attempted_step (h : Pinned written hist s) {a : Operation} {addr : SockaddrIn}
    (hs : (lifetimeMachine (inetAddr written)).step s a = some (t, out))
    (haddr : addr ∈ attempted out) :
    ∃ e ∈ firstInit (userCalls hist), KnownMode e.mode ∧ Started (userCalls hist) ∧
      addr = remoteAddr (inetAddr written) ⟨e.ip, e.port⟩ := by
  cases a with
  | init ip port mode =>
    obtain ⟨-, -, rfl⟩ := (lifetimeMachine_init _).mp hs
    cases haddr
  | act a =>
    obtain ⟨-, heff⟩ := (lifetimeMachine_act _).mp hs
    have hout := effect_attempted (inetAddr written) s a
    rw [heff] at hout
    dsimp only at hout
    rw [hout] at haddr
    cases a with
    | worker k o =>
      dsimp only at haddr
      cases hk : s.workers[k]? with
      | none =>
        rw [hk] at haddr
        cases haddr
      | some pc =>
        rw [hk] at haddr
        have hmem := List.mem_of_getElem? hk
        obtain ⟨e, he, hmode, hstart, hhi⟩ := h.args (List.ne_nil_of_mem hmem)
        refine ⟨e, he, hmode, hstart, ?_⟩
        rw [← hhi]
        exact h.carries pc hmem addr (carried_of_attempts haddr)
    | _ => cases haddr

end Invariant

end AutoTest.EndpointAttempts
