import AutoTest.StoredDescriptor

/-!
# Whose descriptor the callbacks of a server report

Accepts and events report the descriptor of their own connection. A read reports the one
stored in the callback object, which is the first nonzero descriptor that was ever accepted.
-/

namespace AutoTest.EventAttribution

open OutputMachines WriteOnceCells ThreadPools

variable {ι : Type*}

/-- The descriptors accepted in a run, in order. -/
def accepted (tr : List (Step ι)) : List Fd :=
  tr.filterMap fun x => match x.action with
    | .accept _ fd _ => some fd
    | _ => none

/-- The descriptor of the connection an action is about. For a read it is that of the
bufferevent whose input buffer is drained. -/
def connectionFd (s : Sys ι) : Action → Option Fd
  | .accept _ fd _ => some fd
  | .readcb bev _ | .event bev _ => some (s.world.buffereventGetfd bev)
  | _ => none

/-- The descriptor argument of a call that reports something about a connection. -/
def reportedFd : Call → Option Fd
  | .onConnect fd => some fd
  | .onRecv fd _ _ => some fd
  | .onError _ fd => some fd
  | _ => none

/-- All reports among the calls carry the descriptor `d`. -/
def Report (d : Fd) (out : List Call) : Prop := ∀ c ∈ out, ∀ fd ∈ reportedFd c, fd = d

/-- Every report of the step about a connection carries the descriptor of that connection. -/
def Attributed (_ : List (Step ι)) (x : Step ι) : Prop :=
  ∀ d ∈ connectionFd x.source x.action, Report d x.outputs

/-- A read that delivers bytes is a read on a connection with the descriptor of the first
connection that was accepted (the first with a nonzero descriptor). -/
def ReadsFirst (hist : List (Step ι)) (x : Step ι) : Prop :=
  match x.action with
  | .readcb bev true => x.source.world.buffereventInput bev ≠ [] →
      firstOther 0 (accepted hist) = x.source.world.buffereventGetfd bev
  | _ => True

instance (d : Fd) (out : List Call) : Decidable (Report d out) :=
  inferInstanceAs (Decidable (∀ c ∈ out, ∀ fd ∈ reportedFd c, fd = d))

instance (hist : List (Step ι)) (x : Step ι) : Decidable (Attributed hist x) :=
  inferInstanceAs (Decidable (∀ d ∈ connectionFd x.source x.action, Report d x.outputs))

instance (hist : List (Step ι)) (x : Step ι) : Decidable (ReadsFirst hist x) := by
  rcases x with ⟨s, _ | _ | _ | _ | ⟨bev, _ | _⟩ | _, out, t⟩ <;> dsimp only [ReadsFirst] <;>
    infer_instance

@[simp] theorem report_nil (d : Fd) : Report d [] := by simp [Report]

@[simp] theorem report_cons (d : Fd) (c : Call) (out : List Call) :
    Report d (c :: out) ↔ (∀ fd ∈ reportedFd c, fd = d) ∧ Report d out := by
  simp only [Report, List.forall_mem_cons]

@[simp] theorem report_append (d : Fd) (out out' : List Call) :
    Report d (out ++ out') ↔ Report d out ∧ Report d out' := by
  simp only [Report, List.forall_mem_append]

@[simp] theorem report_os (d : Fd) (body : List OsCall) : Report d (body.map .os) := by
  simp [Report, reportedFd]

/-- What every run of a server keeps. -/
structure ServerInv (cls : CallbackClass) (hist : List (Step ι)) (s : Sys ι) : Prop where
  mode : s.world.ati.mMode = serverMode
  workers : ∀ pc ∈ s.workers, pc.onServer = true
  settled : ∀ b r, s.world.heap.bufferevents b = some r → r.connecting = false
  connected : connected hist = accepted hist
  stored : Stored cls hist s

theorem serverInv_initial (me : ι) (cls : CallbackClass) (ip : CString) (port : UInt32)
    (fds : FdTable ι) :
    ServerInv cls [] (.initial me (.configured cls ip port serverMode) fds) where
  mode := rfl
  workers := by simp [Sys.initial]
  settled := by simp [Sys.initial, Heap.empty]
  connected := rfl
  stored := stored_initial me cls ip port serverMode fds

theorem accepted_snoc (tr : List (Step ι)) (x : Step ι) :
    accepted (tr ++ [x]) = accepted tr ++ accepted [x] := by
  simp [accepted]

variable [DecidableEq ι] (inetAddr : CString → UInt32) {cls : CallbackClass}

theorem workers_step {hist : List (Step ι)} {s : Sys ι} (h : ServerInv cls hist s) (a : Action) :
    ∀ pc ∈ (effect inetAddr s a).1.workers, pc.onServer = true := by
  rw [effect_workers]
  cases a with
  | start created =>
    intro pc hpc
    rcases List.mem_append.mp hpc with hpc | hpc
    · exact h.workers pc hpc
    · have hm : s.world.ati.mMode = serverMode := h.mode
      rw [start_thread, hm] at hpc
      cases created <;> cases hs : s.world.ati.mStoped <;>
        simp [hs, serverMode, clientMode] at hpc
      rw [hpc]
      rfl
  | worker k o =>
    cases hk : s.workers[k]? with
    | none => simpa [hk] using h.workers
    | some pc₀ =>
      have hpc₀ := h.workers pc₀ (List.mem_of_getElem? hk)
      have hstep := workerStep_onServer inetAddr { s.world with calls := [] } o hpc₀
      intro pc hpc
      simp only [hk] at hpc
      rcases mem_setThread hk hpc with hpc | hpc
      · exact h.workers pc hpc
      · exact hstep.1 pc hpc
  | _ => exact h.workers

theorem settled_step {hist : List (Step ι)} {s : Sys ι} (h : ServerInv cls hist s) (a : Action) :
    ∀ b r, (effect inetAddr s a).1.world.heap.bufferevents b = some r → r.connecting = false := by
  have hmodify (b₀ : Handle) (f : Bufferevent → Bufferevent)
      (hf : ∀ r, r.connecting = false → (f r).connecting = false) (b : Handle) (r : Bufferevent)
      (hr : (s.world.heap.modify b₀ f).bufferevents b = some r) : r.connecting = false := by
    obtain ⟨r₀, hr₀, rfl⟩ := Heap.modify_eq_some hr
    have hs := h.settled b r₀ hr₀
    split
    · exact hf r₀ hs
    · exact hs
  rw [effect_bufferevents]
  cases a with
  | worker k o =>
    dsimp only
    cases hk : s.workers[k]? with
    | none => exact h.settled
    | some pc =>
      have hpc := h.workers pc (List.mem_of_getElem? hk)
      dsimp only
      rw [(workerStep_onServer inetAddr _ o hpc).2]
      exact h.settled
  | accept listener fd ok =>
    dsimp only
    cases hr : acceptedBufferevent s.world.heap listener fd ok with
    | none => exact h.settled
    | some r₀ =>
      intro b r hb
      dsimp only at hb
      by_cases hfresh : b = s.world.heap.fresh
      · subst hfresh
        rw [Function.update_self] at hb
        cases hb
        unfold acceptedBufferevent at hr
        split at hr
        · obtain ⟨l, -, rfl⟩ := Option.map_eq_some_iff.mp hr
          rfl
        · cases hr
      · rw [Function.update_of_ne hfresh] at hb
        exact h.settled b r hb
  | arrive bev chunk => exact hmodify bev _ fun _ hr => hr
  | readcb bev ok | writecb bev ok =>
    cases ok with
    | false => exact h.settled
    | true => exact hmodify bev _ fun _ hr => hr
  | event bev what => exact hmodify bev _ fun _ _ => rfl
  | destroy =>
    intro b r hb
    dsimp only at hb
    rw [destroy_bufferevents] at hb
    cases hc : s.world.ati.conn with
    | none => exact h.settled b r (by simpa [hc] using hb)
    | some b₀ =>
      simp only [hc] at hb
      by_cases hb₀ : b = b₀
      · simp [hb₀] at hb
      · rw [Function.update_of_ne hb₀] at hb
        exact h.settled b r hb
  | _ => exact h.settled

omit [DecidableEq ι] in
/-- No connection of a server is made by a connect. -/
theorem connected_step {hist : List (Step ι)} {s t : Sys ι} {a : Action} {out : List Call}
    (h : ServerInv cls hist s) (hen : Enabled s a) :
    connected (hist ++ [⟨s, a, out, t⟩]) = accepted (hist ++ [⟨s, a, out, t⟩]) := by
  rw [connected_snoc, accepted_snoc, h.connected]
  refine congrArg _ ?_
  cases a with
  | event bev what =>
    have hc : ¬ hasFlag what bevEventConnected = true := by
      intro hc
      obtain ⟨r, hr, hconn⟩ := hen.2.2 hc
      rw [h.settled bev r hr] at hconn
      cases hconn
    simp [AutoTest.connected, accepted, hc]
  | _ => rfl

theorem serverInv_step {hist : List (Step ι)} {s t : Sys ι} {a : Action} {out : List Call}
    (h : ServerInv cls hist s) (hstep : (interfaceMachine inetAddr).step s a = some (t, out)) :
    ServerInv cls (hist ++ [⟨s, a, out, t⟩]) t := by
  obtain ⟨hen, heff⟩ := (interfaceMachine_step inetAddr).mp hstep
  refine ⟨?_, ?_, ?_, connected_step h hen, stored_step inetAddr h.stored heff⟩
  · have hm := effect_mMode inetAddr s a
    rw [heff] at hm
    exact hm.trans h.mode
  · have hw := workers_step inetAddr h a
    rwa [heff] at hw
  · have hb := settled_step inetAddr h a
    rwa [heff] at hb

/-- What a step reports, as long as the callback object is there. -/
theorem report_iff {s : Sys ι} {cb : AutoTestInterfaceCallback}
    (hcb : s.world.ati.mCallback = some cb) (a : Action) :
    (∀ d ∈ connectionFd s a, Report d (effect inetAddr s a).2) ↔
      match a with
      | .readcb bev true =>
        s.world.buffereventInput bev ≠ [] → cb.fd = s.world.buffereventGetfd bev
      | _ => True := by
  cases a with
  | accept listener fd ok =>
    rw [accept_outputs inetAddr hcb]
    simp [connectionFd, reportedFd]
  | readcb bev ok =>
    rw [readcb_outputs inetAddr hcb]
    by_cases hin : s.world.buffereventInput bev = []
    · cases ok <;> simp [connectionFd, hin]
    · cases ok <;> simp [connectionFd, reportedFd, hin]
  | event bev what =>
    rw [event_outputs inetAddr hcb]
    cases hasFlag what bevEventConnected <;> cases isFailure what <;>
      simp [connectionFd, reportedFd]
  | _ => simp [connectionFd]

/-- A run of a server attributes every report to its connection exactly when all its reads that
deliver bytes are on connections with the descriptor of the first one. -/
theorem reports_attributed_iff {me : ι} {ip : CString} {port : UInt32}
    {fds : FdTable ι} {tr : List (Step ι)} {t : Sys ι}
    (h : (interfaceMachine inetAddr).Trace
      (.initial me (.configured cls ip port serverMode) fds) tr t) :
    Every Attributed tr ↔ Every ReadsFirst tr := by
  refine h.every_iff (serverInv_initial me cls ip port fds)
    (fun _ _ _ _ _ hinv hs => serverInv_step inetAddr hinv hs) ?_
  intro hist s a out u hinv hs
  obtain ⟨hen, heff⟩ := (interfaceMachine_step inetAddr).mp hs
  have hout : out = (effect inetAddr s a).2 := by rw [heff]
  subst hout
  cases hd : s.destroyed with
  | false =>
    obtain ⟨cb, hcb, -, hfd⟩ := hinv.stored hd
    have hrep := report_iff inetAddr hcb a
    rw [storedFd, hinv.connected] at hfd
    simp only [Attributed, ReadsFirst]
    rw [← hfd]
    exact hrep
  | true =>
    cases a with
    | accept | readcb | event =>
      have hd' : s.destroyed = false := hen.1
      rw [hd] at hd'
      cases hd'
    | _ => simp [Attributed, ReadsFirst, connectionFd]

section Runs

/-- A client leaves and the next one gets the same descriptor. -/
def descriptorReused : List Action :=
  serverStarted ++ [.accept 1 5 true, .arrive 2 [65], .readcb 2 true, .event 2 bevEventEof,
    .accept 1 5 true, .arrive 4 [66], .readcb 4 true]

theorem descriptorReused_attributed :
    ∃ tr t, (interfaceMachine fun _ => 0).run .server descriptorReused = some (tr, t) ∧
      Every Attributed tr := by
  have hreads : ∃ tr t, (interfaceMachine fun _ => 0).run .server descriptorReused =
      some (tr, t) ∧ Every ReadsFirst tr := Machine.run_satisfies (by decide +kernel)
  obtain ⟨tr, t, hr, hreads⟩ := hreads
  exact ⟨tr, t, hr, (reports_attributed_iff _ (Machine.run_trace hr)).mpr hreads⟩

/-- Two clients are connected and the second one sends a byte. -/
def twoClients : List Action :=
  serverStarted ++ [.accept 1 5 true, .accept 1 6 true, .arrive 3 [65], .readcb 3 true]

/-- The read on the second connection reports the descriptor of the first. -/
theorem twoClients_not_attributed :
    ∃ tr t, (interfaceMachine fun _ => 0).run .server twoClients = some (tr, t) ∧
      ¬ Every Attributed tr :=
  Machine.run_not_every (by decide +kernel)

end Runs
end AutoTest.EventAttribution
