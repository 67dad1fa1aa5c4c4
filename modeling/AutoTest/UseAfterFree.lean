import AutoTest.TeardownMachine

/-!
# Destroying an interface while its worker runs

Nothing in the destructor waits for a worker. Wherever a worker stands, it touches the interface
at least once more before it returns, and the destructor may be over by then.
-/

namespace AutoTest.UseAfterFree

open OutputMachines ThreadPools

variable {ι : Type*}

/-- The steps of the runs of `teardownMachine`. -/
abbrev TeardownStep (ι : Type*) := Transition (Teardown ι) TeardownAction Cell

/-- A worker touches nothing that the destructor has freed. -/
def UsesLive (x : TeardownStep ι) : Prop := ∀ c ∈ x.outputs, c ∉ x.source.freed

instance (x : TeardownStep ι) : Decidable (UsesLive x) := inferInstanceAs (Decidable (∀ _ ∈ _, _))

variable [DecidableEq ι] (inetAddr : CString → UInt32)

section Idle

/-- Before the destructor is called nothing is freed. -/
structure Before (tr : List (TeardownStep ι)) (s : Teardown ι) : Prop where
  freed : s.freed = []
  safe : ∀ x ∈ tr, UsesLive x

theorem before_step {tr : List (TeardownStep ι)} {s t : Teardown ι} {a : TeardownAction}
    {out : List Cell} (h : s.destructor = none → Before tr s) (hen : TeardownEnabled s a)
    (heff : teardownEffect inetAddr s a = (t, out)) (hnone : t.destructor = none) :
    Before (tr ++ [⟨s, a, out, t⟩]) t := by
  have hkept : s.destructor = none ∧ t.freed = s.freed := by
    cases a with
    | worker k o =>
      simp only [teardownEffect] at heff
      split at heff <;> cases heff <;> exact ⟨hnone, rfl⟩
    | destroy =>
      cases heff
      cases hnone
    | destructor =>
      obtain ⟨pc, hpc, -⟩ := hen
      simp only [teardownEffect, Option.mem_def.mp hpc] at heff
      cases heff
      cases hnone
    | _ =>
      cases heff
      exact ⟨hnone, rfl⟩
  obtain ⟨hfreed, hsafe⟩ := h hkept.1
  refine ⟨hkept.2.trans hfreed, fun x hx => ?_⟩
  rcases List.mem_append.mp hx with hold | hnew
  · exact hsafe x hold
  · rw [List.mem_singleton.mp hnew]
    intro c _
    rw [hfreed]
    exact List.not_mem_nil

/-- The destructor runs alone. -/
structure Alone (tr : List (TeardownStep ι)) (s : Teardown ι) : Prop where
  begun : s.destructor ≠ none
  idle : s.workers = []
  safe : ∀ x ∈ tr, UsesLive x

theorem alone_step {tr : List (TeardownStep ι)} {s t : Teardown ι} {a : TeardownAction}
    {out : List Cell} (h : Alone tr s) (hen : TeardownEnabled s a)
    (heff : teardownEffect inetAddr s a = (t, out)) : Alone (tr ++ [⟨s, a, out, t⟩]) t := by
  have hstep : t.destructor ≠ none ∧ t.workers = [] ∧ out = [] := by
    cases a with
    | start created => exact absurd hen h.begun
    | destroy => exact absurd hen h.begun
    | worker k o =>
      obtain ⟨pc, hpc, -⟩ := hen
      rw [h.idle] at hpc
      cases hpc
    | callback k base pc | arrive k base bev chunk =>
      have hpc := hen.1
      rw [h.idle] at hpc
      cases hpc
    | destructor =>
      obtain ⟨pc, hpc, -⟩ := hen
      simp only [teardownEffect, Option.mem_def.mp hpc] at heff
      cases heff
      exact ⟨Option.some_ne_none _, h.idle, rfl⟩
  obtain ⟨hbegun, hidle, rfl⟩ := hstep
  refine ⟨hbegun, hidle, fun x hx => ?_⟩
  rcases List.mem_append.mp hx with hold | hnew
  · exact h.safe x hold
  · rw [List.mem_singleton.mp hnew]
    intro c hc
    cases hc

end Idle

section Busy

/-- How many steps the destructor has left, at most. -/
def remaining : DestructorPc → ℕ
  | .test p => 4 * rank p + 5
  | .loopexit p => 4 * rank p + 4
  | .free p => 4 * rank p + 3
  | .clear p => 4 * rank p + 2
  | .endOfLife => 1
  | .returned => 0
where
  rank : Pointer → ℕ
    | .mCallback => 4
    | .conn => 3
    | .mBaselistener => 2
    | .serverBase => 1
    | .clientBase => 0

omit [DecidableEq ι] in
theorem remaining_step (w : World ι) {pc : DestructorPc} (h : pc ≠ .returned) :
    remaining (destructorStep w pc).1 < remaining pc := by
  cases pc with
  | test p => cases p <;> simp only [destructorStep] <;> split <;> decide
  | loopexit p | free p => simp [destructorStep, remaining]
  | clear p => cases p <;> simp [destructorStep, remaining, remaining.rank, Pointer.next]
  | endOfLife => simp [destructorStep, remaining]
  | returned => exact absurd rfl h

omit [DecidableEq ι] in
theorem interface_freed (w : World ι) {pc : DestructorPc} (h : pc ≠ .returned)
    (hnext : (destructorStep w pc).1 = .returned) : .interface ∈ (destructorStep w pc).2.2 := by
  cases pc with
  | test p =>
    simp only [destructorStep] at hnext
    cases p <;> split at hnext <;> cases hnext
  | clear p => cases p <;> cases hnext
  | loopexit p | free p => cases hnext
  | endOfLife => exact List.mem_singleton_self _
  | returned => exact absurd rfl h

/-- How far a worker is from touching the interface, when every call fails that can fail. -/
def distance : ThreadPc → ℕ
  | .function (.serverBind _ _) => 2
  | .function (.serverSetErrorCb _ _) => 1
  | .function (.clientBaseNew _ _) => 3
  | .function (.clientSocketNew _ _ _) => 2
  | .function (.clientConnect _ _ _) => 1
  | .function (.clientSetcb _ _) => 2
  | .function (.clientEnable _ _) => 1
  | .function (.dispatch _) => 2
  | .function (.loop _) => 1
  | .callback _ (.acceptGetBase _ _) => 5
  | .callback _ (.acceptSocketNew _ _) => 4
  | .callback _ (.acceptSetcb _) => 3
  | .callback _ (.readTest _ _ _) | .callback _ (.eventTest _ _) => 0
  | .callback _ _ => 2
  | _ => 0

omit [DecidableEq ι] in
theorem distance_step (w : World ι) {pc : ThreadPc} (h : .interface ∉ pc.uses) :
    ∃ pc' ∈ (threadStep inetAddr w pc ⟨false, 0⟩).1, distance pc' < distance pc := by
  cases pc with
  | function pc =>
    cases pc with
    | serverEntry | clientEntry | serverPublishBase | serverPublishListener | clientPublishBase
    | clientPublishConn | onStop => exact absurd (List.mem_singleton_self _) h
    | serverSetErrorCb base listener =>
      cases listener <;> simp [threadStep, workerStep, distance]
    | clientConnect addr base conn =>
      simp [threadStep, workerStep, World.buffereventSocketConnect, distance]
    | _ => simp [threadStep, workerStep, distance]
  | callback base pc =>
    cases pc with
    | readTest | eventTest | errorTest | acceptTest =>
      exact absurd (List.mem_singleton_self _) h
    | readGetFd | readOnRecv | eventSetFd | eventOnConnect | eventOnError | errorOnError
    | acceptSetFd | acceptOnConnect => exact absurd List.mem_cons_self h
    | readEntry bev =>
      by_cases hlen : (w.buffereventInput bev).length > 0 <;>
        simp [threadStep, callbackStep, World.malloc, distance, hlen]
    | _ => simp [threadStep, callbackStep, World.malloc, distance]

/-- The destructor runs to its end while the workers wait. -/
theorem destructor_ends {s : Teardown ι} (h : s.destructor = some .entry) :
    ∃ tr t, (teardownMachine inetAddr).Trace s tr t ∧
      t.workers = s.workers ∧ .interface ∈ t.freed := by
  have hreach := Machine.reaches (m := teardownMachine inetAddr)
    (I := fun v => v.workers = s.workers ∧
      ∃ pc, v.destructor = some pc ∧ (pc = .returned → Cell.interface ∈ v.freed))
    (Q := fun v => Cell.interface ∈ v.freed)
    (fun v => (v.destructor.map remaining).getD 0) ?_
    (s := s) ⟨rfl, .entry, h, fun hend => by cases hend⟩
  · obtain ⟨tr, t, htr, ⟨hworkers, -⟩, hfreed⟩ := hreach
    exact ⟨tr, t, htr, hworkers, hfreed⟩
  · rintro v ⟨hworkers, pc, hpc, hfreed⟩
    by_cases hend : pc = .returned
    · exact .inl (hfreed hend)
    · refine .inr ⟨.destructor, (teardownEffect inetAddr v .destructor).1, [], ?_, ?_, ?_⟩
      · refine (teardownMachine_step inetAddr).mpr ⟨⟨pc, hpc, hend⟩, ?_⟩
        simp only [teardownEffect, hpc]
      · simp only [teardownEffect, hpc]
        refine ⟨hworkers, _, rfl, fun hnext => ?_⟩
        exact List.mem_append_right _ (interface_freed v.world hend hnext)
      · simp only [teardownEffect, hpc]
        exact remaining_step v.world hend

/-- A worker gets to a step in which it touches the interface. -/
theorem worker_touches {s : Teardown ι} (hfreed : .interface ∈ s.freed) (h : s.workers ≠ []) :
    ∃ tr t, (teardownMachine inetAddr).Trace s tr t ∧ ∃ x ∈ tr, ¬ UsesLive x := by
  have hfirst : ∃ pc, s.workers[0]? = some pc := by
    obtain ⟨pc, rest, hw⟩ := List.exists_cons_of_ne_nil h
    exact ⟨pc, by simp [hw]⟩
  have hstep (v : Teardown ι) {pc : ThreadPc} (hpc : v.workers[0]? = some pc) :
      (teardownMachine inetAddr).step v (.worker 0 ⟨false, 0⟩) =
        some (⟨(threadStep inetAddr v.world pc ⟨false, 0⟩).2,
          setThread v.workers 0 (threadStep inetAddr v.world pc ⟨false, 0⟩).1,
          v.destructor, v.freed⟩, pc.uses) := by
    refine (teardownMachine_step inetAddr).mpr ⟨⟨pc, hpc, ?_⟩, ?_⟩
    · unfold ThreadPc.OutcomeOk
      split
      · exact fun hok => absurd hok Bool.false_ne_true
      · exact fun hok => absurd hok Bool.false_ne_true
      · trivial
    · simp only [teardownEffect, hpc]
  have hreach := Machine.reaches (m := teardownMachine inetAddr)
    (I := fun v => Cell.interface ∈ v.freed ∧ ∃ pc, v.workers[0]? = some pc)
    (Q := fun v => ∃ pc, v.workers[0]? = some pc ∧ Cell.interface ∈ pc.uses)
    (fun v => (v.workers[0]?.map distance).getD 0) ?_ (s := s) ⟨hfreed, hfirst⟩
  · obtain ⟨tr, t, htr, ⟨hfreed', -⟩, pc, hpc, huse⟩ := hreach
    refine ⟨_, _, .snoc htr (hstep t hpc), _, List.mem_append_right _ (List.mem_singleton_self _),
      fun hlive => ?_⟩
    exact hlive _ huse hfreed'
  · rintro v ⟨hfreed', pc, hpc⟩
    by_cases huse : Cell.interface ∈ pc.uses
    · exact .inl ⟨pc, hpc, huse⟩
    · obtain ⟨pc', hpc', hlt⟩ := distance_step inetAddr v.world huse
      have hnext : (setThread v.workers 0
          (threadStep inetAddr v.world pc ⟨false, 0⟩).1)[0]? = some pc' := by
        rw [Option.mem_def.mp hpc']
        obtain ⟨hlt0, -⟩ := List.getElem?_eq_some_iff.mp hpc
        simp [setThread, hlt0]
      refine .inr ⟨_, _, _, hstep v hpc, ⟨hfreed', pc', hnext⟩, ?_⟩
      simp only [hnext, hpc, Option.map_some, Option.getD_some]
      exact hlt

end Busy

/-- Whatever happened before and wherever its workers stand: from the call of the destructor on,
in every interleaving, no worker touches anything that was freed exactly when there is no worker
at the time of the call. -/
theorem uses_live_iff {me : ι} {cb : Option AutoTestInterfaceCallback} {ip : CString}
    {port : UInt32} {mode : ℤ} {fds : FdTable ι} {tr : List (TeardownStep ι)} {s t : Teardown ι}
    {out : List Cell}
    (h : (teardownMachine inetAddr).Trace (.initial me (.initialised cb ip port mode) fds) tr s)
    (hs : (teardownMachine inetAddr).step s .destroy = some (t, out)) :
    (∀ tr' u, (teardownMachine inetAddr).Trace t tr' u →
      ∀ x ∈ tr ++ ⟨s, .destroy, out, t⟩ :: tr', UsesLive x) ↔ s.workers = [] := by
  obtain ⟨hen, heff⟩ := (teardownMachine_step inetAddr).mp hs
  have hbegun : t.destructor = some .entry ∧ t.workers = s.workers := by
    cases heff
    exact ⟨rfl, rfl⟩
  constructor
  · intro hsafe
    by_contra hbusy
    obtain ⟨tr₁, v, h₁, hworkers, hfreed⟩ := destructor_ends inetAddr hbegun.1
    have hbusy' : v.workers ≠ [] := by rwa [hworkers, hbegun.2]
    obtain ⟨tr₂, u, h₂, x, hx, hdead⟩ := worker_touches inetAddr hfreed hbusy'
    refine hdead (hsafe (tr₁ ++ tr₂) u (h₁.append h₂) x ?_)
    exact List.mem_append_right _ (List.mem_cons_of_mem _ (List.mem_append_right _ hx))
  · intro hidle tr' u h' x hx
    have hbefore : s.destructor = none → Before tr s := by
      refine h.invariant (I := fun tr s => s.destructor = none → Before tr s) ?_ ?_
      · exact fun _ => ⟨rfl, fun x hx => absurd hx List.not_mem_nil⟩
      · intro tr t a out u hI hs hnone
        obtain ⟨hen, heff⟩ := (teardownMachine_step inetAddr).mp hs
        exact before_step inetAddr hI hen heff hnone
    have halone : Alone tr' u := by
      refine h'.invariant (I := Alone) ⟨?_, hbegun.2.trans hidle, ?_⟩ ?_
      · rw [hbegun.1]
        exact Option.some_ne_none _
      · exact fun x hx => absurd hx List.not_mem_nil
      · intro tr t a out u hI hs
        obtain ⟨hen, heff⟩ := (teardownMachine_step inetAddr).mp hs
        exact alone_step inetAddr hI hen heff
    rcases List.mem_append.mp hx with hold | hnew
    · exact (hbefore hen).safe x hold
    · rcases List.mem_cons.mp hnew with rfl | hlater
      · cases heff
        exact fun c hc => absurd hc List.not_mem_nil
      · exact halone.safe x hlater

section Runs

/-- The worker of a client, up to its loop. -/
def clientLoops : List TeardownAction :=
  [.start true, .worker 0 ⟨true, 3⟩, .worker 0 ⟨true, 0⟩, .worker 0 ⟨true, 0⟩,
    .worker 0 ⟨true, 0⟩, .worker 0 ⟨true, 0⟩, .worker 0 ⟨true, 0⟩, .worker 0 ⟨true, 0⟩,
    .worker 0 ⟨true, 0⟩, .worker 0 ⟨true, 0⟩]

/-- A client with `MyCallback`, before any action. -/
def client : Teardown Unit :=
  .initial () (.configured myCallback [] 4999 clientMode) Sys.standardStreams

/-- The worker has returned from its loop and ended when the destructor is called. -/
theorem endedFirst_uses_live :
    ∃ tr s t out, (teardownMachine fun _ => 0).run client
        (clientLoops ++ [.worker 0 ⟨true, 0⟩, .worker 0 ⟨true, 0⟩]) = some (tr, s) ∧
      (teardownMachine fun _ => 0).step s .destroy = some (t, out) ∧
      ∀ tr' u, (teardownMachine fun _ => 0).Trace t tr' u →
        ∀ x ∈ tr ++ ⟨s, .destroy, out, t⟩ :: tr', UsesLive x := by
  have hrun : ∃ tr s, (teardownMachine fun _ => 0).run client
      (clientLoops ++ [.worker 0 ⟨true, 0⟩, .worker 0 ⟨true, 0⟩]) = some (tr, s) ∧
        s.destructor = none ∧ s.workers = [] :=
    Machine.run_satisfies (by decide +kernel)
  obtain ⟨tr, s, hr, hnone, hidle⟩ := hrun
  have hs : (teardownMachine fun _ => 0).step s .destroy =
      some (teardownEffect (fun _ => 0) s .destroy) := if_pos hnone
  exact ⟨tr, s, _, _, hr, hs, (uses_live_iff _ (Machine.run_trace hr) hs).mpr hidle⟩

/-- The destructor deletes the callback object between the test of `m_callback` and the call. -/
def deletedInCallback : List TeardownAction :=
  clientLoops ++ [.arrive 0 0 1 [104, 105], .callback 0 0 (.readEntry 1), .worker 0 ⟨true, 0⟩,
    .worker 0 ⟨true, 0⟩, .worker 0 ⟨true, 0⟩, .destroy, .destructor, .destructor,
    .worker 0 ⟨true, 0⟩]

theorem deletedInCallback_use_after_free :
    ∃ tr t, (teardownMachine fun _ => 0).run client deletedInCallback = some (tr, t) ∧
      ∃ x ∈ tr, ¬ UsesLive x :=
  Machine.run_satisfies (by decide +kernel)

end Runs
end AutoTest.UseAfterFree
