import AutoTest.WorkerLifecycle

/-!
# The flag `m_stoped`

`start` clears the flag before it creates the worker, and the worker sets it again with its last
call. Two paths leave it cleared without a worker: a `pthread_create` that fails, and the early
return of `start_client` after `socket` failed.
-/

namespace AutoTest.LifecycleFlag

open OutputMachines

variable {ι : Type*}

/-- The flag is false exactly when a worker was created that has neither made its `onStop` call
nor returned. -/
def Exact (s : Sys ι) : Prop := s.world.ati.mStoped = false ↔ s.workers ≠ []

/-- After the step the flag is exact, and the step creates a worker if it is a `start` whose
`pthread_create` succeeds at a time when there is none. -/
def FlagExact (_ : List (Step ι)) (x : Step ι) : Prop :=
  Exact x.target ∧
    match x.action with
    | .start true => x.source.workers = [] → x.target.workers ≠ []
    | _ => True

/-- The step is not a `start` that finds the interface stopped and cannot create its thread, and
no worker step in which `socket` fails. -/
def SetupSucceeds (_ : List (Step ι)) (x : Step ι) : Prop :=
  match x.action with
  | .start created => x.source.world.ati.mStoped = true → created = true
  | .worker k o => x.source.workers[k]? = some .clientEntry → o.ok = true
  | _ => True

instance (s : Sys ι) : Decidable (Exact s) := inferInstanceAs (Decidable (_ ↔ _))

instance (hist : List (Step ι)) (x : Step ι) : Decidable (FlagExact hist x) := by
  rcases x with ⟨s, ⟨_ | _⟩ | _, out, t⟩ <;> dsimp only [FlagExact] <;>
    infer_instance

instance (hist : List (Step ι)) (x : Step ι) : Decidable (SetupSucceeds hist x) := by
  rcases x with ⟨s, _ | _, out, t⟩ <;> dsimp only [SetupSucceeds] <;> infer_instance

/-- What the runs keep up to the first step that leaves the flag wrong. -/
structure Tracked (s : Sys ι) : Prop where
  mode : KnownMode s.world.ati.mMode
  oneWorker : OneWorker s
  exact : Exact s

theorem tracked_initial (me : ι) (cb : Option AutoTestInterfaceCallback) (ip : CString)
    (port : UInt32) {mode : ℤ} (hmode : KnownMode mode) (fds : FdTable ι) :
    Tracked (.initial me (.initialised cb ip port mode) fds) where
  mode := hmode
  oneWorker := oneWorker_initial me cb ip port mode fds
  exact := ⟨fun h => (by cases h), fun h => absurd rfl h⟩

/-- A worker returns without `onStop` in one case only. -/
theorem workerStep_continues (inetAddr : CString → UInt32) (w : World ι) {pc : WorkerPc}
    {o : Outcome} (hstop : pc ≠ .onStop) (hentry : pc = .clientEntry → o.ok = true ∧ o.fd ≠ -1) :
    (workerStep inetAddr w pc o).1 ≠ none := by
  cases pc with
  | onStop => exact absurd rfl hstop
  | clientEntry =>
    obtain ⟨hok, hfd⟩ := hentry rfl
    simp [workerStep, hok, hfd.symm]
  | serverSetErrorCb base listener => cases listener <;> simp [workerStep]
  | clientConnect addr base conn =>
    simp only [workerStep]
    split <;> simp
  | _ => simp [workerStep]

variable [DecidableEq ι] (inetAddr : CString → UInt32)

/-- A `start` that finds the interface stopped leaves the flag exact when it gets its thread. -/
theorem exact_start {s t : Sys ι} {created : Bool} {out : List Call} (h : Tracked s)
    (heff : effect inetAddr s (.start created) = (t, out)) :
    (Exact t ↔ (s.world.ati.mStoped = true → created = true)) ∧
      (created = true → s.workers = [] → t.workers ≠ []) := by
  have hati := effect_ati inetAddr s (.start created)
  have hworkers := effect_workers inetAddr s (.start created)
  rw [heff] at hati hworkers
  simp only [atiAfter, h.mode, and_true] at hati
  dsimp only at hworkers
  rw [start_thread] at hworkers
  cases hs : s.world.ati.mStoped with
  | false =>
    have hw : t.workers = s.workers := by simpa [hs] using hworkers
    have hsame : t.world.ati = s.world.ati := by simpa [hs] using hati
    have hrun := h.exact.mp hs
    refine ⟨?_, fun _ hnone => absurd hnone hrun⟩
    simp [Exact, hw, hsame, hs, hrun]
  | true =>
    have hnone := h.oneWorker.stopped hs
    have hcleared : t.world.ati.mStoped = false := by
      rw [hs, if_pos rfl] at hati
      rw [hati]
    cases created with
    | false =>
      have hw : t.workers = [] := by simpa [hs, hnone] using hworkers
      simp [Exact, hw, hcleared]
    | true =>
      have hw : t.workers ≠ [] := by
        rcases h.mode with hm | hm <;>
          simp [hworkers, hs, hm, hnone, clientMode, serverMode]
      simp [Exact, hw, hcleared]

/-- A worker step leaves the flag exact unless it is a failing `socket`. -/
theorem exact_worker {s t : Sys ι} {k : ℕ} {o : Outcome} {out : List Call} (h : Tracked s)
    (hen : Enabled s (.worker k o)) (heff : effect inetAddr s (.worker k o) = (t, out)) :
    Exact t ↔ (s.workers[k]? = some .clientEntry → o.ok = true) := by
  obtain ⟨-, pc, hk, hout⟩ := hen
  have hk' : s.workers[k]? = some pc := hk
  have hworkers := workers_of_step inetAddr h.oneWorker hk heff
  have hati := effect_ati inetAddr s (.worker k o)
  rw [heff] at hati
  simp only [atiAfter, hk'] at hati
  have hrun : s.world.ati.mStoped = false :=
    h.oneWorker.running (List.ne_nil_of_mem (List.mem_of_getElem? hk))
  by_cases hstop : pc = .onStop
  · subst hstop
    have hset : t.world.ati.mStoped = true := by rw [hati]; rfl
    have hw : t.workers = [] := hworkers
    simp [Exact, hset, hw, hk']
  · have hcleared : t.world.ati.mStoped = false := by
      have hkept := workerStep_mStoped inetAddr { s.world with calls := [] } o hstop
      rw [hati, hkept]
      exact hrun
    by_cases hfail : pc = .clientEntry ∧ o.ok = false
    · obtain ⟨rfl, hok⟩ := hfail
      have hw : t.workers = [] := by
        rw [hworkers]
        simp [workerStep, hok]
      simp [Exact, hw, hcleared, hk', hok]
    · have hgo : (workerStep inetAddr { s.world with calls := [] } pc o).1 ≠ none := by
        refine workerStep_continues inetAddr _ hstop ?_
        rintro rfl
        have hok : o.ok = true := by simpa using hfail
        exact ⟨hok, Fd.ne_failure (hout hok).1⟩
      obtain ⟨pc', hpc'⟩ := Option.ne_none_iff_exists'.mp hgo
      have hw : t.workers ≠ [] := by simp [hworkers, hpc']
      have hok : pc = .clientEntry → o.ok = true := by simpa using hfail
      simpa [Exact, hw, hcleared, hk'] using hok

theorem flagExact_iff {hist : List (Step ι)} {s t : Sys ι} {a : Action} {out : List Call}
    (h : Tracked s) (hs : (interfaceMachine inetAddr).step s a = some (t, out)) :
    FlagExact hist ⟨s, a, out, t⟩ ↔ SetupSucceeds hist ⟨s, a, out, t⟩ := by
  obtain ⟨hen, heff⟩ := (interfaceMachine_step inetAddr).mp hs
  cases a with
  | start created =>
    obtain ⟨hiff, hnext⟩ := exact_start inetAddr h heff
    cases created with
    | false => simpa [FlagExact, SetupSucceeds] using hiff
    | true =>
      have hexact := hiff.mpr fun _ => rfl
      exact iff_of_true ⟨hexact, hnext rfl⟩ fun _ => rfl
  | worker k o => simpa [FlagExact, SetupSucceeds] using exact_worker inetAddr h hen heff
  | _ =>
    obtain ⟨hflag, hpool⟩ := lifecycle_kept inetAddr heff (fun _ he => by cases he)
      fun _ _ he => by cases he
    simpa [FlagExact, SetupSucceeds, Exact, hflag, hpool] using h.exact

/-- In every run of an interface with a known mode, with a callback object or without, the flag is
exact after each step, and each `start` without a worker creates one, exactly when no thread
creation and no `socket` fails. -/
theorem flag_exact_iff {me : ι} {cb : Option AutoTestInterfaceCallback} {ip : CString}
    {port : UInt32} {mode : ℤ} (hmode : KnownMode mode) {fds : FdTable ι} {tr : List (Step ι)}
    {t : Sys ι}
    (h : (interfaceMachine inetAddr).Trace
      (.initial me (.initialised cb ip port mode) fds) tr t) :
    Every FlagExact tr ↔ Every SetupSucceeds tr := by
  refine h.every_iff_of_guarded (I := fun _ s => Tracked s)
    (tracked_initial me cb ip port hmode fds) ?_ ?_
  · intro hist s a out u hinv hG hs
    obtain ⟨hen, heff⟩ := (interfaceMachine_step inetAddr).mp hs
    have hm := effect_mMode inetAddr s a
    rw [heff] at hm
    refine ⟨?_, oneWorker_step inetAddr hinv.oneWorker hen heff,
      ((flagExact_iff inetAddr hinv hs).mpr hG).1⟩
    rw [hm]
    exact hinv.mode
  · intro hist s a out u hinv hs
    exact flagExact_iff inetAddr hinv hs

section Runs

/-- A server cannot bind, ends, and is started again. -/
def bindFailsOnce : List Action :=
  [.start true, .worker 0 ⟨true, 0⟩, .worker 0 ⟨false, 0⟩, .worker 0 ⟨true, 0⟩,
    .worker 0 ⟨true, 0⟩] ++ serverStarted

theorem bindFailsOnce_flag_exact :
    ∃ tr t, (interfaceMachine fun _ => 0).run .server bindFailsOnce = some (tr, t) ∧
      Every FlagExact tr := by
  have hsetup : ∃ tr t, (interfaceMachine fun _ => 0).run .server bindFailsOnce = some (tr, t) ∧
      Every SetupSucceeds tr := Machine.run_satisfies (by decide +kernel)
  obtain ⟨tr, t, hr, hsetup⟩ := hsetup
  exact ⟨tr, t, hr, (flag_exact_iff _ (by decide) (Machine.run_trace hr)).mpr hsetup⟩

/-- The client cannot make its socket, and `start` is called again. -/
def socketFails : List Action := [.start true, .worker 0 ⟨false, 0⟩, .start true]

/-- The flag stays false without a worker, and the second `start` creates none. -/
theorem socketFails_flag_stuck :
    ∃ tr t, (interfaceMachine fun _ => 0).run .client socketFails = some (tr, t) ∧
      ¬ Every FlagExact tr :=
  Machine.run_not_every (by decide +kernel)

end Runs
end AutoTest.LifecycleFlag
