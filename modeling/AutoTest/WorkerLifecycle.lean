import AutoTest.InterfaceSteps

/-!
# The worker of an interface

When the calls of `start` come one after another there is at most one worker, and it runs with
`m_stoped` false.
-/

namespace AutoTest

open OutputMachines

variable {ι : Type*}

structure OneWorker (s : Sys ι) : Prop where
  atMostOne : s.workers.length ≤ 1
  running : s.workers ≠ [] → s.world.ati.mStoped = false

theorem oneWorker_initial (me : ι) (cb : Option AutoTestInterfaceCallback) (ip : CString)
    (port : UInt32) (mode : ℤ) (fds : FdTable ι) :
    OneWorker (.initial me (.initialised cb ip port mode) fds) where
  atMostOne := Nat.zero_le 1
  running := fun h => absurd rfl h

namespace OneWorker

theorem eq_singleton {s : Sys ι} (h : OneWorker s) {k : ℕ} {pc : WorkerPc}
    (hk : s.workers[k]? = some pc) : k = 0 ∧ s.workers = [pc] := by
  obtain ⟨hlt, hget⟩ := List.getElem?_eq_some_iff.mp hk
  have hk0 : k = 0 := by
    have hlen := h.atMostOne
    omega
  subst hk0
  refine ⟨rfl, ?_⟩
  have hlen : s.workers.length = 1 := by
    have hle := h.atMostOne
    omega
  obtain ⟨pc', hw⟩ := List.length_eq_one_iff.mp hlen
  simp only [hw, List.getElem_cons_zero] at hget
  rw [hw, hget]

theorem stopped {s : Sys ι} (h : OneWorker s) (hs : s.world.ati.mStoped = true) :
    s.workers = [] := by
  by_contra hne
  have hrun := h.running hne
  rw [hs] at hrun
  cases hrun

end OneWorker

variable [DecidableEq ι] (inetAddr : CString → UInt32)

omit [DecidableEq ι] in
theorem workerStep_mStoped (w : World ι) {pc : WorkerPc} (o : Outcome) (h : pc ≠ .onStop) :
    (workerStep inetAddr w pc o).2.ati.mStoped = w.ati.mStoped := by
  cases pc with
  | onStop => exact absurd rfl h
  | _ => rfl

/-- The worker after a step of the only worker. -/
theorem workers_of_step {s t : Sys ι} {out : List Call} {k : ℕ} {o : Outcome} {pc : WorkerPc}
    (h : OneWorker s) (hk : s.workers[k]? = some pc)
    (heff : effect inetAddr s (.worker k o) = (t, out)) :
    t.workers = (workerStep inetAddr { s.world with calls := [] } pc o).1.toList := by
  obtain ⟨rfl, hw⟩ := h.eq_singleton hk
  have ht := effect_onlyWorker inetAddr s (o := o) hw
  rw [heff] at ht
  exact ht

/-- Besides `start` and the worker nobody touches the flag and the pool. -/
theorem lifecycle_kept {s t : Sys ι} {a : Action} {out : List Call}
    (heff : effect inetAddr s a = (t, out)) (hstart : ∀ created, a ≠ .start created)
    (hworker : ∀ k o, a ≠ .worker k o) :
    t.world.ati.mStoped = s.world.ati.mStoped ∧ t.workers = s.workers := by
  have hati := effect_ati inetAddr s a
  have hworkers := effect_workers inetAddr s a
  rw [heff] at hati hworkers
  cases a with
  | start created => exact absurd rfl (hstart created)
  | worker k o => exact absurd rfl (hworker k o)
  | event bev what =>
    refine ⟨?_, hworkers⟩
    rw [hati]
    simp only [atiAfter]
    split <;> rfl
  | _ => exact ⟨by rw [hati]; rfl, hworkers⟩

theorem oneWorker_step {s t : Sys ι} {a : Action} {out : List Call} (h : OneWorker s)
    (hen : Enabled s a) (heff : effect inetAddr s a = (t, out)) : OneWorker t := by
  have hati := effect_ati inetAddr s a
  have hworkers := effect_workers inetAddr s a
  rw [heff] at hati hworkers
  cases a with
  | start created =>
    dsimp only [atiAfter] at hati hworkers
    rw [start_thread] at hworkers
    by_cases hs : s.world.ati.mStoped = true ∧ created = true
    · have hnone := h.stopped hs.1
      rw [hnone, if_pos hs] at hworkers
      by_cases hc : s.world.ati.mMode = clientMode
      · rw [if_pos hc] at hworkers
        rw [if_pos ⟨hs.1, .inl hc⟩] at hati
        exact ⟨by simp [hworkers], fun _ => by rw [hati]⟩
      · by_cases hm : s.world.ati.mMode = serverMode
        · rw [if_neg hc, if_pos hm] at hworkers
          rw [if_pos ⟨hs.1, .inr hm⟩] at hati
          exact ⟨by simp [hworkers], fun _ => by rw [hati]⟩
        · rw [if_neg hc, if_neg hm] at hworkers
          exact ⟨by simp [hworkers], fun hne => absurd (by simpa using hworkers) hne⟩
    · rw [if_neg hs] at hworkers
      have hw : t.workers = s.workers := by simpa using hworkers
      refine ⟨by rw [hw]; exact h.atMostOne, fun hne => ?_⟩
      have hrun := h.running (by rwa [hw] at hne)
      rw [hati, hrun, if_neg (by simp)]
      exact hrun
  | worker k o =>
    obtain ⟨-, pc, hk, -⟩ := hen
    have hw := workers_of_step inetAddr h hk heff
    refine ⟨?_, fun hne => ?_⟩
    · rw [hw]
      cases (workerStep inetAddr { s.world with calls := [] } pc o).1 <;> simp
    · have hpc : pc ≠ .onStop := by
        rintro rfl
        exact hne hw
      have hstop := workerStep_mStoped inetAddr { s.world with calls := [] } o hpc
      have hrun := h.running (List.ne_nil_of_mem (List.mem_of_getElem? hk))
      simp only [atiAfter, Option.mem_def.mp hk] at hati
      rw [hati, hstop]
      exact hrun
  | _ =>
    obtain ⟨hflag, hpool⟩ := lifecycle_kept inetAddr heff (fun _ he => by cases he)
      fun _ _ he => by cases he
    refine ⟨by rw [hpool]; exact h.atMostOne, fun hne => ?_⟩
    rw [hpool] at hne
    rw [hflag]
    exact h.running hne

end AutoTest
