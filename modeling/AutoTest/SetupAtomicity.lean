import AutoTest.ResourceSteps

/-!
# Setting up an endpoint when a call fails

An attempt is `start_server` or `start_client` up to its dispatch loop or its return, or one
call of `server_on_accept`, with what each fallible call in it returns. The attempts check too
late, or not at all, and undo nothing.
-/

namespace AutoTest.SetupAtomicity

variable {ι : Type*}

/-- An attempt; `none` and `false` stand for the failure of a call. -/
inductive Attempt
  | startServer (baseNew : Bool) (bind : Option Fd)
  | startClient (socket : Option Fd) (baseNew socketNew connect : Bool)
  | serverOnAccept (listener : Handle) (fd : Fd) (socketNew : Bool)

/-- What the calls of a thread function return at each of its points. -/
def serverAnswers (baseNew : Bool) (bind : Option Fd) : WorkerPc → Outcome
  | .serverEntry => ⟨baseNew, 0⟩
  | .serverBind _ _ => ⟨bind.isSome, bind.getD 0⟩
  | _ => ⟨true, 0⟩

def clientAnswers (socket : Option Fd) (baseNew socketNew connect : Bool) : WorkerPc → Outcome
  | .clientEntry => ⟨socket.isSome, socket.getD 0⟩
  | .clientBaseNew _ _ => ⟨baseNew, 0⟩
  | .clientSocketNew _ _ _ => ⟨socketNew, 0⟩
  | .clientConnect _ _ _ => ⟨connect, 0⟩
  | _ => ⟨true, 0⟩

/-- At most `n` steps of a worker, up to its loop. -/
def drive (inetAddr : CString → UInt32) (answers : WorkerPc → Outcome) :
    ℕ → WorkerPc → World ι → Option WorkerPc × World ι
  | _, .loop base, w => (some (.loop base), w)
  | 0, pc, w => (some pc, w)
  | n + 1, pc, w =>
    match workerStep inetAddr w pc (answers pc) with
    | (none, w) => (none, w)
    | (some pc, w) => drive inetAddr answers n pc w

/-- The attempt; a connection is in the descriptor table when `server_on_accept` is called. -/
def Attempt.run (inetAddr : CString → UInt32) (w : World ι) : Attempt → World ι
  | .startServer baseNew bind =>
    (drive inetAddr (serverAnswers baseNew bind) 9 .serverEntry w).2
  | .startClient socket baseNew socketNew connect =>
    (drive inetAddr (clientAnswers socket baseNew socketNew connect) 9 .clientEntry w).2
  | .serverOnAccept listener fd socketNew =>
    AutoTest.serverOnAccept (w.setFds fd (some (.connection w.me))) listener fd true socketNew

/-- The kernel hands out unused descriptors, and the listener that accepts is allocated. -/
def Attempt.Possible (w : World ι) : Attempt → Prop
  | .startServer _ bind => ∀ fd ∈ bind, 0 ≤ fd ∧ w.fds fd = none
  | .startClient socket _ _ _ => ∀ fd ∈ socket, 0 ≤ fd ∧ w.fds fd = none
  | .serverOnAccept listener fd _ => w.heap.listeners listener ≠ none ∧ 0 ≤ fd ∧ w.fds fd = none

/-- The attempts that fail nowhere, and those that fail before they acquire anything. -/
def Attempt.FailsFirstOrNever : Attempt → Prop
  | .startServer baseNew bind => baseNew = true ∧ bind.isSome
  | .startClient socket baseNew socketNew connect =>
    socket = none ∨ (baseNew = true ∧ socketNew = true ∧ connect = true)
  | .serverOnAccept _ _ socketNew => socketNew = true

/-- A libevent call on a handle that is `NULL`. -/
def onNull : Call → Bool
  | .event (.eventBaseDispatch none) | .event (.eventBaseLoopexit none)
  | .event (.eventBaseFree none) | .event (.evconnlistenerNewBind none _ _)
  | .event (.evconnlistenerSetErrorCb none) | .event (.evconnlistenerGetBase none)
  | .event (.evconnlistenerFree none) | .event (.buffereventSocketNew none _ _)
  | .event (.buffereventSocketConnect none _ _) | .event (.buffereventSetcb none)
  | .event (.buffereventEnable none) | .event (.buffereventFree none) => true
  | _ => false

/-- A fallible call that returned `NULL` or `-1`. -/
def failed : Call → Bool
  | .socket ret => ret = -1
  | .event (.eventBaseNew none) | .event (.evconnlistenerNewBind _ _ none)
  | .event (.buffereventSocketNew _ _ none) => true
  | .event (.buffereventSocketConnect _ _ ret) => ret ≠ 0
  | _ => false

/-- The four fields, the live objects and the open descriptors are the same. -/
structure SameEndpoint (w w' : World ι) : Prop where
  serverBase : w'.ati.serverBase = w.ati.serverBase
  mBaselistener : w'.ati.mBaselistener = w.ati.mBaselistener
  clientBase : w'.ati.clientBase = w.ati.clientBase
  conn : w'.ati.conn = w.ati.conn
  bases : w'.heap.bases = w.heap.bases
  listeners : ∀ l, (w'.heap.listeners l).isSome = (w.heap.listeners l).isSome
  bufferevents : ∀ b, (w'.heap.bufferevents b).isSome = (w.heap.bufferevents b).isSome
  fds : ∀ fd, (w'.fds fd).isSome = (w.fds fd).isSome

/-- No call on `NULL`, and no trace of the attempt when one of its calls failed. -/
def Atomic (inetAddr : CString → UInt32) (w : World ι) (att : Attempt) : Prop :=
  let w' := att.run inetAddr { w with calls := [] }
  (∀ c ∈ w'.calls, onNull c = false) ∧ ((∃ c ∈ w'.calls, failed c = true) → SameEndpoint w w')

variable (inetAddr : CString → UInt32) (w : World ι)

section StartServer

/-- Without a base the listener is asked for on `NULL`. -/
theorem startServer_no_base (bind : Option Fd) :
    .event (.evconnlistenerNewBind none (remoteAddr inetAddr w.ati.hi) none) ∈
      ((Attempt.startServer false bind).run inetAddr w).calls := by
  simp [Attempt.run, drive, workerStep, serverAnswers, World.eventBaseNew,
    World.evconnlistenerNewBind, World.evconnlistenerSetErrorCb, World.emit]

/-- A listener that could not be bound is given its error callback all the same. -/
theorem startServer_no_bind :
    .event (.evconnlistenerSetErrorCb none) ∈
      ((Attempt.startServer true none).run inetAddr w).calls := by
  simp [Attempt.run, drive, workerStep, serverAnswers, World.eventBaseNew,
    World.evconnlistenerNewBind, World.evconnlistenerSetErrorCb, World.emit]

theorem startServer_success (fd : Fd) :
    ((Attempt.startServer true (some fd)).run inetAddr w).calls = w.calls ++
      [.event (.eventBaseNew (some w.heap.fresh)),
        .event (.evconnlistenerNewBind (some w.heap.fresh) (remoteAddr inetAddr w.ati.hi)
          (some (w.heap.fresh + 1))),
        .event (.evconnlistenerSetErrorCb (some (w.heap.fresh + 1))),
        .event (.eventBaseDispatch (some w.heap.fresh))] := by
  simp [Attempt.run, drive, workerStep, serverAnswers, World.eventBaseNew,
    World.evconnlistenerNewBind, World.evconnlistenerSetErrorCb, World.eventBaseDispatch,
    World.emit]

end StartServer

section StartClient

/-- The one failure that is caught in time. -/
theorem startClient_no_socket (baseNew socketNew connect : Bool) :
    (Attempt.startClient none baseNew socketNew connect).run inetAddr w = w.socket (-1) := by
  simp [Attempt.run, drive, workerStep, clientAnswers]

theorem startClient_no_base {fd : Fd} (hfd : 0 ≤ fd) (socketNew connect : Bool) :
    .event (.buffereventSocketNew none fd none) ∈
      ((Attempt.startClient (some fd) false socketNew connect).run inetAddr w).calls := by
  have hne : -1 ≠ fd := (Fd.ne_failure hfd).symm
  cases socketNew <;> cases connect <;>
    simp [Attempt.run, drive, workerStep, clientAnswers, hne, World.socket, World.eventBaseNew,
      World.buffereventSocketNew, World.buffereventSocketConnect]

theorem startClient_no_bufferevent {fd : Fd} (hfd : 0 ≤ fd) (connect : Bool) :
    .event (.buffereventSocketConnect none (remoteAddr inetAddr w.ati.hi) (-1)) ∈
      ((Attempt.startClient (some fd) true false connect).run inetAddr w).calls := by
  have hne : -1 ≠ fd := (Fd.ne_failure hfd).symm
  cases connect <;>
    simp [Attempt.run, drive, workerStep, clientAnswers, hne, World.socket, World.eventBaseNew,
      World.buffereventSocketNew, World.buffereventSocketConnect]

/-- A connect that fails leaves the base, the bufferevent and the socket behind. -/
theorem startClient_no_connect {fd : Fd} (hfd : 0 ≤ fd) :
    let w' := (Attempt.startClient (some fd) true true false).run inetAddr w
    w'.heap.bases = insert w.heap.fresh w.heap.bases ∧
      .event (.buffereventSocketConnect (some (w.heap.fresh + 1)) (remoteAddr inetAddr w.ati.hi)
        (-1)) ∈ w'.calls := by
  have hne : -1 ≠ fd := (Fd.ne_failure hfd).symm
  simp [Attempt.run, drive, workerStep, clientAnswers, hne, World.socket, World.eventBaseNew,
    World.buffereventSocketNew, World.buffereventSocketConnect, AutoTestInterface.onStop]

theorem startClient_success {fd : Fd} (hfd : 0 ≤ fd) :
    ((Attempt.startClient (some fd) true true true).run inetAddr w).calls = w.calls ++
      [.socket fd, .event (.eventBaseNew (some w.heap.fresh)),
        .event (.buffereventSocketNew (some w.heap.fresh) fd (some (w.heap.fresh + 1))),
        .event (.buffereventSocketConnect (some (w.heap.fresh + 1))
          (remoteAddr inetAddr w.ati.hi) 0),
        .event (.buffereventSetcb (some (w.heap.fresh + 1))),
        .event (.buffereventEnable (some (w.heap.fresh + 1))),
        .event (.eventBaseDispatch (some w.heap.fresh))] := by
  have hne : -1 ≠ fd := (Fd.ne_failure hfd).symm
  simp [Attempt.run, drive, workerStep, clientAnswers, hne, World.socket, World.eventBaseNew,
    World.buffereventSocketNew, World.buffereventSocketConnect, World.buffereventSetcb,
    World.buffereventEnable, World.eventBaseDispatch, World.emit]

end StartClient

section ServerOnAccept

/-- Without a bufferevent its callbacks are set on `NULL`. -/
theorem serverOnAccept_no_bufferevent (listener : Handle) (fd : Fd) :
    .event (.buffereventSetcb none) ∈
      ((Attempt.serverOnAccept listener fd false).run inetAddr w).calls := by
  cases hcb : w.ati.mCallback <;>
    simp [Attempt.run, AutoTest.serverOnAccept, hcb, World.setFds, World.setCallback,
      World.invoke, World.evconnlistenerGetBase, World.buffereventSocketNew,
      World.buffereventSetcb, World.buffereventEnable, World.emit]

theorem serverOnAccept_success {listener : Handle} {r : Evconnlistener}
    (hl : w.heap.listeners listener = some r) (fd : Fd) :
    ∀ c ∈ ((Attempt.serverOnAccept listener fd true).run inetAddr { w with calls := [] }).calls,
      onNull c = false ∧ failed c = false := by
  have hos (body : List OsCall) :
      ∀ c ∈ body.map Call.os, onNull c = false ∧ failed c = false := by
    intro c hc
    obtain ⟨o, -, rfl⟩ := List.mem_map.mp hc
    exact ⟨rfl, rfl⟩
  cases hcb : w.ati.mCallback with
  | none =>
    simp [Attempt.run, AutoTest.serverOnAccept, hcb, hl, World.setFds,
      World.evconnlistenerGetBase, World.buffereventSocketNew, World.buffereventSetcb,
      World.buffereventEnable, World.emit, onNull, failed]
  | some cb =>
    intro c hc
    simp only [Attempt.run, AutoTest.serverOnAccept, hcb, hl, World.setFds, World.setCallback,
      World.invoke, World.evconnlistenerGetBase, World.buffereventSocketNew,
      World.buffereventSetcb, World.buffereventEnable, World.emit, if_true, List.nil_append,
      Option.bind_some, Option.map_some] at hc
    simp only [List.mem_append, List.mem_cons, List.not_mem_nil, or_false] at hc
    rcases hc with ((((rfl | hc) | rfl) | rfl) | rfl) | rfl
    · exact ⟨rfl, rfl⟩
    · exact hos _ c hc
    all_goals exact ⟨rfl, rfl⟩

end ServerOnAccept

/-- Nine steps are enough for the attempt of a thread function: it dispatches or has returned. -/
theorem drive_ends (baseNew : Bool) (bind socket : Option Fd) (socketNew connect : Bool) :
    (∀ pc ∈ (drive inetAddr (serverAnswers baseNew bind) 9 .serverEntry w).1,
        ∃ base, pc = .loop base) ∧
      ∀ pc ∈ (drive inetAddr (clientAnswers socket baseNew socketNew connect) 9 .clientEntry w).1,
        ∃ base, pc = .loop base := by
  constructor
  · cases baseNew <;> cases bind <;>
      simp [drive, workerStep, serverAnswers, World.eventBaseNew, World.evconnlistenerNewBind]
  · cases socket with
    | none => simp [drive, workerStep, clientAnswers]
    | some fd =>
      by_cases hfd : -1 = fd <;> cases baseNew <;> cases socketNew <;> cases connect <;>
        simp [drive, workerStep, clientAnswers, hfd, World.eventBaseNew,
          World.buffereventSocketNew, World.buffereventSocketConnect]

theorem not_atomic_of_onNull {att : Attempt} {c : Call}
    (hc : c ∈ (att.run inetAddr { w with calls := [] }).calls) (hnull : onNull c = true) :
    ¬ Atomic inetAddr w att := by
  intro h
  have hfalse := h.1 c hc
  rw [hnull] at hfalse
  cases hfalse

theorem atomic_of_success {att : Attempt}
    (h : ∀ c ∈ (att.run inetAddr { w with calls := [] }).calls,
      onNull c = false ∧ failed c = false) : Atomic inetAddr w att := by
  refine ⟨fun c hc => (h c hc).1, ?_⟩
  rintro ⟨c, hc, hfailed⟩
  rw [(h c hc).2] at hfailed
  cases hfailed

/-- From any state, an attempt makes no libevent call on `NULL`, and leaves no trace when one of
its calls fails, exactly when no call of it fails but possibly the first one of a client. -/
theorem setup_atomic_iff {att : Attempt} (hatt : att.Possible w) :
    Atomic inetAddr w att ↔ att.FailsFirstOrNever := by
  cases att with
  | startServer baseNew bind =>
    cases baseNew with
    | false =>
      have hnull := startServer_no_base inetAddr { w with calls := [] } bind
      simpa [Attempt.FailsFirstOrNever] using not_atomic_of_onNull inetAddr w hnull rfl
    | true =>
      cases bind with
      | none =>
        have hnull := startServer_no_bind inetAddr { w with calls := [] }
        simpa [Attempt.FailsFirstOrNever] using not_atomic_of_onNull inetAddr w hnull rfl
      | some fd =>
        refine iff_of_true (atomic_of_success inetAddr w ?_) ⟨rfl, rfl⟩
        rw [startServer_success]
        simp [onNull, failed]
  | startClient socket baseNew socketNew connect =>
    cases socket with
    | none =>
      refine iff_of_true ?_ (.inl rfl)
      unfold Atomic
      rw [startClient_no_socket]
      refine ⟨by simp [World.socket, onNull], fun _ => ?_⟩
      constructor <;> simp [World.socket]
    | some fd =>
      have hfd := (hatt fd rfl).1
      cases baseNew with
      | false =>
        have hnull := startClient_no_base inetAddr { w with calls := [] } hfd socketNew connect
        simpa [Attempt.FailsFirstOrNever] using not_atomic_of_onNull inetAddr w hnull rfl
      | true =>
        cases socketNew with
        | false =>
          have hnull := startClient_no_bufferevent inetAddr { w with calls := [] } hfd connect
          simpa [Attempt.FailsFirstOrNever] using not_atomic_of_onNull inetAddr w hnull rfl
        | true =>
          cases connect with
          | false =>
            refine iff_of_false ?_ (by simp [Attempt.FailsFirstOrNever])
            obtain ⟨hbases, hconnect⟩ := startClient_no_connect inetAddr { w with calls := [] } hfd
            rintro ⟨-, hsame⟩
            have hkept := (hsame ⟨_, hconnect, rfl⟩).bases
            have hfresh := (w.heap.unused _ le_rfl).1
            rw [hbases] at hkept
            exact hfresh (hkept ▸ Finset.mem_insert_self _ _)
          | true =>
            refine iff_of_true (atomic_of_success inetAddr w ?_) (.inr ⟨rfl, rfl, rfl⟩)
            rw [startClient_success inetAddr _ hfd]
            simp [onNull, failed, Fd.ne_failure hfd]
  | serverOnAccept listener fd socketNew =>
    cases socketNew with
    | false =>
      have hnull := serverOnAccept_no_bufferevent inetAddr { w with calls := [] } listener fd
      simpa [Attempt.FailsFirstOrNever] using not_atomic_of_onNull inetAddr w hnull rfl
    | true =>
      obtain ⟨r, hl⟩ := Option.ne_none_iff_exists'.mp hatt.1
      exact iff_of_true
        (atomic_of_success inetAddr w (serverOnAccept_success inetAddr w hl fd)) rfl

section Attempts

/-- A client whose calls all succeed. -/
theorem connects_atomic :
    Atomic (fun _ => 0) Sys.client.world (.startClient (some 3) true true true) := by
  refine (setup_atomic_iff (fun _ => 0) Sys.client.world ?_).mpr (.inr ⟨rfl, rfl, rfl⟩)
  intro fd hfd
  cases hfd
  exact ⟨by decide, by decide⟩

/-- A busy port gives a call on `NULL`, and a connect that fails leaves its base behind. -/
theorem failures_not_atomic :
    ¬ Atomic (fun _ => 0) Sys.server.world (.startServer true none) ∧
      ¬ Atomic (fun _ => 0) Sys.client.world (.startClient (some 3) true true false) := by
  constructor
  · have hnull := startServer_no_bind (fun _ => 0) { Sys.server.world with calls := [] }
    exact not_atomic_of_onNull _ _ hnull rfl
  · have hfd : (0 : Fd) ≤ 3 := by decide
    obtain ⟨hbases, hconnect⟩ := startClient_no_connect (fun _ => 0)
      { Sys.client.world with calls := [] } hfd
    rintro ⟨-, hsame⟩
    have hkept := (hsame ⟨_, hconnect, rfl⟩).bases
    rw [hbases] at hkept
    exact absurd hkept (by decide)

end Attempts
end AutoTest.SetupAtomicity
