import AutoTest.EndpointAttempts
import AutoTest.LocalAddress
import AutoTest.ProcessMachine

/-!
# Endpoint fidelity

Whether the addresses that are bound and connected to denote the endpoint of the first call of
`init` depends on its arguments alone, and on whether the interface is started afterwards.
-/

namespace AutoTest.EndpointFidelity

open DottedQuads EndpointAttempts LocalAddress OutputMachines

variable {ι : Type*} (written : CString → Option Quad)

section Fidelity

/-- Every bind and connect uses an address that denotes the endpoint of the first `init`; when
that is no IPv4 address with a port of 16 bits there is no bind and no connect. -/
structure Faithful (hist : List (LifeStep ι)) (x : LifeStep ι) : Prop where
  denotes : ∀ addr ∈ attempted x.outputs, ∃ e ∈ firstInit (userCalls hist),
    Denotes written addr e.ip e.port
  refuses : ∀ e ∈ firstInit (userCalls hist), 65535 < e.port.toNat ∨ written e.ip = none →
    attempted x.outputs = []

instance (hist : List (LifeStep ι)) (x : LifeStep ι) : Decidable (Faithful written hist x) :=
  decidable_of_iff
    ((∀ addr ∈ attempted x.outputs, ∃ e ∈ firstInit (userCalls hist),
        Denotes written addr e.ip e.port) ∧
      ∀ e ∈ firstInit (userCalls hist), 65535 < e.port.toNat ∨ written e.ip = none →
        attempted x.outputs = [])
    ⟨fun h => ⟨h.1, h.2⟩, fun h => ⟨h.denotes, h.refuses⟩⟩

variable [DecidableEq ι] {written}

/-- With sound calls, every run is faithful. -/
theorem faithful_of_sound {me : ι} {cb : Option AutoTestInterfaceCallback} {fds : FdTable ι}
    {tr : List (LifeStep ι)} {t : Sys ι}
    (h : (lifetimeMachine (inetAddr written)).Trace (.constructed me cb fds) tr t)
    (hsound : Sound written (userCalls tr)) : Every (Faithful written) tr := by
  rintro pre x post rfl
  obtain ⟨hpre, hs, -⟩ := h.split
  have hpinned : Pinned written pre x.source :=
    hpre.invariant (I := Pinned written) (pinned_constructed written me cb fds)
      fun _ _ _ _ _ hinv hstep => pinned_step hinv hstep
  have hvalid {e : InitArgs} (he : e ∈ firstInit (userCalls pre)) (hmode : KnownMode e.mode)
      (hstart : Started (userCalls pre)) : e.port.toNat ≤ 65535 ∧ (written e.ip).isSome := by
    rw [userCalls_append] at hsound
    exact hsound e (firstInit_append he _) hmode (hstart.append _)
  refine ⟨fun addr haddr => ?_, fun e he hbad => ?_⟩
  · obtain ⟨e, he, hmode, hstart, rfl⟩ := attempted_step hpinned hs haddr
    exact ⟨e, he, (remoteAddr_denotes_iff written e.ip e.port).mpr (hvalid he hmode hstart)⟩
  · refine List.eq_nil_iff_forall_not_mem.mpr fun addr haddr => ?_
    obtain ⟨e', he', hmode, hstart, -⟩ := attempted_step hpinned hs haddr
    obtain rfl : e = e' := Option.some.inj (he.symm.trans he')
    obtain ⟨hport, hip⟩ := hvalid he hmode hstart
    rcases hbad with hbad | hbad
    · omega
    · rw [hbad] at hip
      cases hip

end Fidelity

section Runs

variable [DecidableEq ι] (inet : CString → UInt32)

/-- Without further calls of the users, the interface gets to a bind or connect of `addr`. -/
def Attempts (addr : SockaddrIn) (s : Sys ι) : Prop :=
  ∃ tr t, (lifetimeMachine inet).Trace s tr t ∧ userCalls tr = [] ∧ t.destroyed = false ∧
    ∃ x ∈ tr, addr ∈ attempted x.outputs

variable {s : Sys ι} {addr : SockaddrIn}

/-- A step of the only worker. -/
theorem worker_step {pc : WorkerPc} {o : Outcome} (hw : s.workers = [pc])
    (hlive : s.destroyed = false) (ho : s.OutcomeOk pc o) :
    ∃ t out, (lifetimeMachine inet).step s (.act (.worker 0 o)) = some (t, out) ∧
      t.workers = (workerStep inet { s.world with calls := [] } pc o).1.toList ∧
      t.destroyed = false ∧ attempted out = attempts pc := by
  have hk : s.workers[0]? = some pc := by rw [hw]; rfl
  have hdestroyed := effect_destroyed inet s (.worker 0 o)
  have hout := effect_attempted inet s (.worker 0 o)
  simp only [hk] at hout
  refine ⟨_, _, act_step inet ⟨hlive, pc, hk, ho⟩, effect_onlyWorker inet s hw, ?_, hout⟩
  rw [hdestroyed, hlive]
  rfl

theorem attempts_now {pc : WorkerPc} (hw : s.workers = [pc]) (hlive : s.destroyed = false)
    (h : addr ∈ attempts pc) : Attempts inet addr s := by
  have hok : s.OutcomeOk pc ⟨false, 0⟩ := by cases pc <;> simp [Sys.OutcomeOk]
  obtain ⟨t, out, hs, -, ht, hout⟩ := worker_step inet hw hlive hok
  exact ⟨_, t, .cons hs .nil, rfl, ht, _, List.mem_singleton_self _, hout ▸ h⟩

theorem attempts_later {pc pc' : WorkerPc} {o : Outcome} (hw : s.workers = [pc])
    (hlive : s.destroyed = false) (ho : s.OutcomeOk pc o)
    (hnext : (workerStep inet { s.world with calls := [] } pc o).1 = some pc')
    (h : ∀ t : Sys ι, t.workers = [pc'] → t.destroyed = false → Attempts inet addr t) :
    Attempts inet addr s := by
  obtain ⟨t, out, hs, hworkers, ht, -⟩ := worker_step inet hw hlive ho
  rw [hnext] at hworkers
  obtain ⟨tr, u, htr, hcalls, hu, x, hx, haddr⟩ := h t hworkers ht
  exact ⟨_, u, .cons hs htr, hcalls, hu, x, List.mem_cons_of_mem _ hx, haddr⟩

/-- A worker that carries an address gets to use it. -/
theorem attempts_of_carried {pc : WorkerPc} (hw : s.workers = [pc]) (hlive : s.destroyed = false)
    (h : carried pc = some addr) : Attempts inet addr s := by
  have hconnect (base conn : Option Handle) (t : Sys ι)
      (ht : t.workers = [.clientConnect addr base conn]) (hlive : t.destroyed = false) :
      Attempts inet addr t := attempts_now inet ht hlive (List.mem_singleton_self _)
  have hsocketNew (fd : Fd) (base : Option Handle) (t : Sys ι)
      (ht : t.workers = [.clientSocketNew addr fd base]) (hlive : t.destroyed = false) :
      Attempts inet addr t :=
    attempts_later inet (o := ⟨true, 0⟩) ht hlive trivial rfl (hconnect base _)
  cases pc with
  | serverBind addr' base =>
    cases h
    exact attempts_now inet hw hlive (List.mem_singleton_self _)
  | clientBaseNew addr' fd =>
    cases h
    exact attempts_later inet (o := ⟨true, 0⟩) hw hlive trivial rfl (hsocketNew fd _)
  | clientSocketNew addr' fd base =>
    cases h
    exact hsocketNew fd base s hw hlive
  | clientConnect addr' base conn =>
    cases h
    exact hconnect base conn s hw hlive
  | _ => cases h

/-- The users can always make their calls. -/
theorem calls_run (calls : List UserCall) (hlive : s.destroyed = false) :
    ∃ tr t, (lifetimeMachine inet).Trace s tr t ∧ userCalls tr = calls := by
  induction calls generalizing s with
  | nil => exact ⟨[], s, .nil, rfl⟩
  | cons c calls ih =>
    cases c with
    | init ip port mode =>
      have hs := init_step inet hlive ip port mode
      have hlive' : (s.init ip port mode).destroyed = false := hlive
      obtain ⟨tr, t, htr, hcalls⟩ := ih hlive'
      exact ⟨_, t, .cons hs htr, congrArg (UserCall.init ip port mode :: ·) hcalls⟩
    | start =>
      have hlive' : (effect inet s (.start true)).1.destroyed = false := by
        rw [effect_destroyed, hlive]
        rfl
      obtain ⟨tr, t, htr, hcalls⟩ := ih hlive'
      exact ⟨_, t, .cons (act_step inet (a := .start true) hlive) htr,
        congrArg (UserCall.start :: ·) hcalls⟩

/-- The interface is there and has no worker, and the kernel has a descriptor left. -/
structure Idle (s : Sys ι) : Prop where
  alive : s.destroyed = false
  noWorker : s.workers = []
  stopped : s.world.ati.mStoped = true
  descriptor : ∃ fd, s.Unused fd

theorem start_unused {fd : Fd} (h : s.Unused fd) :
    (effect inet s (.start true)).1.Unused fd := by
  have hfds := (start_kept { s.world with calls := [] } true).2.2
  exact ⟨h.1, (congrArg (fun fds => (fds fd).isNone = true) hfds).mpr h.2⟩

/-- A `start` before `init` does nothing. -/
theorem start_unknown (h : Idle s) (hmode : ¬ KnownMode s.world.ati.mMode) :
    Idle (effect inet s (.start true)).1 := by
  have hworkers := effect_workers inet s (.start true)
  have hati := effect_ati inet s (.start true)
  obtain ⟨fd, hfd⟩ := h.descriptor
  obtain ⟨hc, hs⟩ := not_or.mp hmode
  simp only [start_thread, h.noWorker, hc, hs, if_false, ite_self, Option.toList_none,
    List.append_nil] at hworkers
  simp only [atiAfter, hmode, and_false, if_false] at hati
  refine ⟨?_, hworkers, by rw [hati]; exact h.stopped, fd, start_unused inet hfd⟩
  rw [effect_destroyed, h.alive]
  rfl

/-- A `start` with a known mode creates a worker, which gets to a bind or connect. -/
theorem start_attempts (h : Idle s) (hmode : KnownMode s.world.ati.mMode) :
    Attempts inet (remoteAddr inet s.world.ati.hi) (effect inet s (.start true)).1 := by
  obtain ⟨fd, hfd⟩ := h.descriptor
  have hworkers := effect_workers inet s (.start true)
  have hhi := (effect_configuration inet s (.start true)).2.2
  have hlive : (effect inet s (.start true)).1.destroyed = false := by
    rw [effect_destroyed, h.alive]
    rfl
  simp only [start_thread, h.noWorker, h.stopped, and_self, if_true, List.nil_append] at hworkers
  rw [← hhi]
  rcases hmode with hm | hm
  · rw [hm, if_pos rfl] at hworkers
    have hnext (w : World ι) : (workerStep inet w .clientEntry ⟨true, fd⟩).1 =
        some (.clientBaseNew (remoteAddr inet w.ati.hi) fd) := by
      simp [workerStep, (Fd.ne_failure hfd.1).symm, World.socket]
    exact attempts_later inet hworkers hlive (fun _ => start_unused inet hfd) (hnext _)
      fun t ht hlive => attempts_of_carried inet ht hlive rfl
  · rw [hm, if_neg (by decide), if_pos rfl] at hworkers
    exact attempts_later inet (o := ⟨true, 0⟩) hworkers hlive trivial rfl
      fun t ht hlive => attempts_of_carried inet ht hlive rfl

/-- From the first `init` on. -/
theorem runs_from_init {e : InitArgs} (calls : List UserCall) (h : Idle s)
    (hinit : s.world.ati.mInited = true) (hmode : s.world.ati.mMode = e.mode)
    (hhi : s.world.ati.hi = ⟨e.ip, e.port⟩) :
    ∃ tr t, (lifetimeMachine inet).Trace s tr t ∧ userCalls tr = calls ∧
      (KnownMode e.mode → .start ∈ calls →
        ∃ x ∈ tr, remoteAddr inet ⟨e.ip, e.port⟩ ∈ attempted x.outputs) := by
  induction calls with
  | nil => exact ⟨[], s, .nil, rfl, fun _ hmem => absurd hmem List.not_mem_nil⟩
  | cons c calls ih =>
    cases c with
    | init ip port mode =>
      obtain ⟨tr, t, htr, hcalls, hattempt⟩ := ih
      have hs := init_step inet h.alive ip port mode
      rw [Sys.init_again hinit] at hs
      refine ⟨_, t, .cons hs htr, congrArg (UserCall.init ip port mode :: ·) hcalls, fun hk hmem => ?_⟩
      have hmem' : .start ∈ calls := by simpa using hmem
      obtain ⟨x, hx, haddr⟩ := hattempt hk hmem'
      exact ⟨x, List.mem_cons_of_mem _ hx, haddr⟩
    | start =>
      by_cases hk : KnownMode e.mode
      · obtain ⟨tr, t, htr, hnone, ht, x, hx, haddr⟩ :=
          start_attempts inet h (hmode ▸ hk)
        obtain ⟨tr', u, htr', hcalls⟩ := calls_run inet calls ht
        have hs := act_step inet (a := .start true) h.alive
        refine ⟨_, u, .cons hs (htr.append htr'), ?_, fun _ _ => ⟨x, ?_, hhi ▸ haddr⟩⟩
        · change .start :: userCalls (tr ++ tr') = _
          rw [userCalls_append, hnone, hcalls, List.nil_append]
        · exact List.mem_cons_of_mem _ (List.mem_append_left _ hx)
      · obtain ⟨tr, t, htr, hcalls⟩ := calls_run inet (.start :: calls) h.alive
        exact ⟨tr, t, htr, hcalls, fun hk' => absurd hk' hk⟩

/-- From the construction on: for every sequence of calls some run makes a bind or connect, unless
the interface is not started. -/
theorem runs_from_construction (calls : List UserCall) (h : Idle s)
    (hinit : s.world.ati.mInited = false) (hmode : s.world.ati.mMode = -1) :
    ∃ tr t, (lifetimeMachine inet).Trace s tr t ∧ userCalls tr = calls ∧
      ∀ e ∈ firstInit calls, KnownMode e.mode → Started calls →
        ∃ x ∈ tr, remoteAddr inet ⟨e.ip, e.port⟩ ∈ attempted x.outputs := by
  induction calls generalizing s with
  | nil => exact ⟨[], s, .nil, rfl, fun e he => by cases he⟩
  | cons c calls ih =>
    cases c with
    | init ip port mode =>
      have hati := Sys.init_fresh hinit ip port mode
      have hidle : Idle (s.init ip port mode) :=
        ⟨h.alive, h.noWorker, by rw [hati]; exact h.stopped, h.descriptor⟩
      obtain ⟨tr, t, htr, hcalls, hattempt⟩ := runs_from_init inet (e := ⟨ip, port, mode⟩)
        calls hidle (by rw [hati]) (by rw [hati]) (by rw [hati])
      refine ⟨_, t, .cons (init_step inet h.alive ip port mode) htr,
        congrArg (UserCall.init ip port mode :: ·) hcalls, fun e he hk hstart => ?_⟩
      cases he
      obtain ⟨x, hx, haddr⟩ := hattempt hk (started_cons_init hstart)
      exact ⟨x, List.mem_cons_of_mem _ hx, haddr⟩
    | start =>
      obtain ⟨hmode', hinit', -⟩ := effect_configuration inet s (.start true)
      have hidle := start_unknown inet h (by rw [hmode]; decide)
      obtain ⟨tr, t, htr, hcalls, hattempt⟩ := ih hidle (hinit'.trans hinit) (hmode'.trans hmode)
      refine ⟨_, t, .cons (act_step inet (a := .start true) h.alive) htr,
        congrArg (UserCall.start :: ·) hcalls, fun e he hk hstart => ?_⟩
      obtain ⟨x, hx, haddr⟩ := hattempt e he hk (started_cons_start hstart)
      exact ⟨x, List.mem_cons_of_mem _ hx, haddr⟩

omit [DecidableEq ι] in
theorem idle_constructed (me : ι) (cb : Option AutoTestInterfaceCallback) :
    Idle (.constructed me cb Sys.standardStreams) :=
  ⟨rfl, rfl, rfl, 3, by decide, rfl⟩

/-- For every sequence of calls of `init` and `start`: all its runs are faithful, whatever the
process and the kernel do, exactly when the calls are sound. -/
theorem endpoints_faithful_iff (written : CString → Option Quad) (me : ι)
    (cb : Option AutoTestInterfaceCallback) (calls : List UserCall) :
    (∀ (fds : FdTable ι) (tr : List (LifeStep ι)) (t : Sys ι),
      (lifetimeMachine (inetAddr written)).Trace (.constructed me cb fds) tr t →
        userCalls tr = calls → Every (Faithful written) tr) ↔ Sound written calls := by
  constructor
  · intro h e he hmode hstart
    obtain ⟨tr, t, htr, hcalls, hattempt⟩ := runs_from_construction (inetAddr written)
      calls (idle_constructed me cb) rfl rfl
    obtain ⟨x, hx, haddr⟩ := hattempt e he hmode hstart
    obtain ⟨pre, post, rfl⟩ := List.append_of_mem hx
    obtain ⟨e', he', hdenotes⟩ := (h _ _ t htr hcalls pre x post rfl).denotes _ haddr
    have hfirst := firstInit_append he' (userCalls (x :: post))
    rw [← userCalls_append, hcalls] at hfirst
    obtain rfl : e = e' := Option.some.inj (he.symm.trans hfirst)
    exact (remoteAddr_denotes_iff written e.ip e.port).mp hdenotes
  · rintro hsound fds tr t htr rfl
    exact faithful_of_sound htr hsound

/-- A client is to connect to port 70000. -/
def portTooLarge : List Operation :=
  .init "127.0.0.1".toList 70000 clientMode :: ((clientStarted 3).take 5).map .act

/-- A server is to bind to a host name. -/
def hostName : List Operation :=
  .init "localhost".toList 4999 serverMode :: (serverStarted.take 3).map .act

/-- The client connects to port 4464, and the server is bound to 255.255.255.255. -/
theorem badEndpoints_not_faithful :
    (∃ tr t, (lifetimeMachine (inetAddr readQuad)).run
        (.constructed () (some (.new myCallback)) Sys.standardStreams) portTooLarge =
          some (tr, t) ∧ ¬ Every (Faithful readQuad) tr) ∧
      ∃ tr t, (lifetimeMachine (inetAddr readQuad)).run
        (.constructed () (some (.new myCallback)) Sys.standardStreams) hostName =
          some (tr, t) ∧ ¬ Every (Faithful readQuad) tr :=
  ⟨Machine.run_not_every (by decide +kernel), Machine.run_not_every (by decide +kernel)⟩

end Runs

section Sample

variable {got : ℤ} {ifaddr : List (Ifaddrs × ℤ)} {host : CString}

/-- `Sample::Sample` initialises both interfaces soundly, unless the text it takes for the local
address is what the buffer held at the start. -/
theorem sample_sound (h : ∀ e ∈ (inets ifaddr).head?, e.2 = 0) (k : Endpoint)
    (calls : List UserCall) :
    Sound readQuad
      (.init (k.ip (getLocalIPv4 got ifaddr host).1) 4999 k.mode :: calls) := by
  intro e he _ _
  cases he
  have hport : (4999 : UInt32).toNat ≤ 65535 := by decide
  have hserver : (readQuad "0.0.0.0".toList).isSome = true := by decide
  refine ⟨hport, ?_⟩
  cases k with
  | autotestServer => exact hserver
  | autotestClient =>
    obtain ⟨q, hq, -⟩ := answer_text got host h
    have hclient : readQuad (getLocalIPv4 got ifaddr host).1 = some q := by
      rw [hq, readQuad_text]
    exact Option.isSome_iff_exists.mpr ⟨q, hclient⟩

/-- So the server is bound to port 4999 of 0.0.0.0, and the client connects to port 4999 of the
local address, in every run. -/
theorem sample_faithful [DecidableEq ι] (h : ∀ e ∈ (inets ifaddr).head?, e.2 = 0) (k : Endpoint)
    {me : ι} {cb : Option AutoTestInterfaceCallback} {fds : FdTable ι} {tr : List (LifeStep ι)}
    {t : Sys ι} {calls : List UserCall}
    (htrace : (lifetimeMachine (inetAddr readQuad)).Trace (.constructed me cb fds) tr t)
    (hcalls : userCalls tr =
      .init (k.ip (getLocalIPv4 got ifaddr host).1) 4999 k.mode :: calls) :
    Every (Faithful readQuad) tr :=
  faithful_of_sound htrace (hcalls ▸ sample_sound h k calls)

end Sample

end AutoTest.EndpointFidelity
