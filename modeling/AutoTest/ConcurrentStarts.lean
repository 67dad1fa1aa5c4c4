import AutoTest.WorkerLifecycle

/-!
# Several threads inside `start`

`start` is cut at its accesses to `m_stoped` and at the creation of the worker. Any number of
threads may be between two of these points. They can all have seen the flag true before one of
them clears it, and then each of them creates a worker.
-/

namespace AutoTest.ConcurrentStarts

open OutputMachines ThreadPools

variable {ι : Type*}

/-- The program points of `start`: it reads the flag, clears it and creates the worker. The mode
never changes once it is set, and is read together with the flag. -/
inductive StartPc
  | test
  | clear (entry : WorkerPc)
  | create (entry : WorkerPc)
  deriving DecidableEq

/-- One step of a call of `start`: its next point, the thread it creates, the world after it. -/
def startStep (w : World ι) (created : Bool) :
    StartPc → Option StartPc × Option WorkerPc × World ι
  | .test =>
    if w.ati.mStoped then
      if w.ati.mMode = clientMode then (some (.clear .clientEntry), none, w)
      else if w.ati.mMode = serverMode then (some (.clear .serverEntry), none, w)
      else (none, none, w)
    else (none, none, w)
  | .clear entry => (some (.create entry), none, { w with ati := { w.ati with mStoped := false } })
  | .create entry => (none, initThread w entry created)

/-- The steps of `start` from a point to its return, without a step of another thread. -/
def finishStart (w : World ι) (created : Bool) : StartPc → Option WorkerPc × World ι
  | .create entry => (startStep w created (.create entry)).2
  | .clear entry =>
    (startStep (startStep w created (.clear entry)).2.2 created (.create entry)).2
  | .test => match (startStep w created .test).1 with
    | some (.clear entry) =>
      (startStep (startStep w created (.clear entry)).2.2 created (.create entry)).2
    | _ => (startStep w created .test).2

/-- Run without interruption, the steps are the function `start`. -/
theorem finishStart_eq_start (w : World ι) (created : Bool) :
    finishStart w created .test = (start w created).2 := by
  unfold finishStart start
  by_cases hs : w.ati.mStoped = true
  · by_cases hc : w.ati.mMode = clientMode
    · simp [startStep, hs, hc, initClientThread]
    · by_cases hm : w.ati.mMode = serverMode
      · simp [startStep, hs, hm, clientMode, serverMode, initServerThread]
      · simp [startStep, hs, hc, hm]
  · simp [startStep, hs]

/-- An interface and the calls of `start` that have not returned. -/
structure Starts (ι : Type*) where
  sys : Sys ι
  callers : List StartPc

inductive ThreadAction
  | call
  | caller (i : ℕ) (created : Bool)
  | other (a : Action)
  deriving DecidableEq

def isStart : Action → Bool
  | .start _ => true
  | _ => false

variable [DecidableEq ι] (inetAddr : CString → UInt32)

def threadEffect (s : Starts ι) : ThreadAction → Starts ι × List Call
  | .call => ({ s with callers := s.callers ++ [.test] }, [])
  | .caller i created =>
    match s.callers[i]? with
    | none => (s, [])
    | some pc =>
      let r := startStep { s.sys.world with calls := [] } created pc
      (⟨{ s.sys with world := r.2.2, workers := s.sys.workers ++ r.2.1.toList },
        setThread s.callers i r.1⟩, r.2.2.calls)
  | .other a =>
    let r := effect inetAddr s.sys a
    ({ s with sys := r.1 }, r.2)

/-- The object is not destroyed while a thread is inside one of its member functions. -/
def ThreadEnabled (s : Starts ι) : ThreadAction → Prop
  | .call => s.sys.destroyed = false
  | .caller i _ => s.sys.destroyed = false ∧ i < s.callers.length
  | .other a => Enabled s.sys a ∧ isStart a = false ∧ (a = .destroy → s.callers = [])

instance (s : Starts ι) (a : ThreadAction) : Decidable (ThreadEnabled s a) := by
  cases a <;> unfold ThreadEnabled <;> infer_instance

/-- The machine of one interface with any number of threads that call `start`. -/
def startsMachine : Machine (Starts ι) ThreadAction Call where
  step s a := if ThreadEnabled s a then some (threadEffect inetAddr s a) else none

theorem startsMachine_step {s t : Starts ι} {a : ThreadAction} {out : List Call} :
    (startsMachine inetAddr).step s a = some (t, out) ↔
      ThreadEnabled s a ∧ threadEffect inetAddr s a = (t, out) := by
  simp [startsMachine]

abbrev StartsStep (ι : Type*) := Transition (Starts ι) ThreadAction Call

/-- After the step there is at most one worker. -/
def AtMostOneWorker (_ : List (StartsStep ι)) (x : StartsStep ι) : Prop :=
  x.target.sys.workers.length ≤ 1

/-- The call has seen the flag true and not cleared it yet. -/
def StartPc.tested : StartPc → Bool
  | .clear _ => true
  | _ => false

/-- No call sees the flag true while another one has seen it true and not cleared it yet. -/
def TestsAlone (_ : List (StartsStep ι)) (x : StartsStep ι) : Prop :=
  match x.action with
  | .caller i _ => x.source.callers[i]? = some .test → x.source.sys.world.ati.mStoped = true →
      ∀ pc ∈ x.source.callers, pc.tested = false
  | _ => True

instance (hist : List (StartsStep ι)) (x : StartsStep ι) : Decidable (AtMostOneWorker hist x) :=
  inferInstanceAs (Decidable (_ ≤ _))

instance (hist : List (StartsStep ι)) (x : StartsStep ι) : Decidable (TestsAlone hist x) := by
  rcases x with ⟨s, _ | _, out, t⟩ <;> dsimp only [TestsAlone] <;> infer_instance

/-- The call will create a worker, unless `pthread_create` fails. -/
def StartPc.committed : StartPc → Bool
  | .test => false
  | _ => true

/-- The worker that runs or the call that will create it is the only one, and the flag is false
from the moment it was cleared for it. -/
structure Exclusive (callers : List StartPc) (workers : List WorkerPc) (mStoped : Bool) :
    Prop where
  one : callers.countP StartPc.committed + workers.length ≤ 1
  cleared : (∃ entry, .create entry ∈ callers) ∨ workers ≠ [] → mStoped = false

namespace Exclusive

theorem initial : Exclusive [] [] true where
  one := Nat.zero_le 1
  cleared := by
    rintro (⟨entry, h⟩ | h)
    · cases h
    · exact absurd rfl h

variable {callers : List StartPc} {workers : List WorkerPc} {mStoped : Bool} {i : ℕ}

/-- While the flag is true no worker runs and none is about to be created. -/
theorem idle (h : Exclusive callers workers true) :
    (∀ entry, .create entry ∉ callers) ∧ workers = [] := by
  constructor
  · intro entry hmem
    have hfalse := h.cleared (.inl ⟨entry, hmem⟩)
    cases hfalse
  · by_contra hne
    have hfalse := h.cleared (.inr hne)
    cases hfalse

theorem call (h : Exclusive callers workers mStoped) :
    Exclusive (callers ++ [.test]) workers mStoped := by
  refine ⟨by simpa [StartPc.committed] using h.one, ?_⟩
  rintro (⟨entry, hmem⟩ | hne)
  · rcases List.mem_append.mp hmem with hmem | hmem
    · exact h.cleared (.inl ⟨entry, hmem⟩)
    · cases List.mem_singleton.mp hmem
  · exact h.cleared (.inr hne)

/-- A call that does not see the flag true returns. -/
theorem test_returns (h : Exclusive callers workers mStoped) (hi : callers[i]? = some .test) :
    Exclusive (setThread callers i none) workers mStoped := by
  have hone := h.one
  have hcount := countP_setThread StartPc.committed hi none
  have htest : StartPc.committed .test = false := rfl
  simp only [htest, Option.toList_none, List.countP_nil, Bool.false_eq_true, if_false,
    Nat.add_zero] at hcount
  refine ⟨by omega, ?_⟩
  rintro (⟨entry, hmem⟩ | hne)
  · rcases mem_setThread hi hmem with hmem | hmem
    · exact h.cleared (.inl ⟨entry, hmem⟩)
    · cases hmem
  · exact h.cleared (.inr hne)

/-- A call that sees the flag true is the only one that has. -/
theorem test_passes (h : Exclusive callers workers true) (hi : callers[i]? = some .test)
    (halone : ∀ pc ∈ callers, pc.tested = false) (entry : WorkerPc) :
    Exclusive (setThread callers i (some (.clear entry))) workers true := by
  obtain ⟨hcreate, hnone⟩ := h.idle
  have hzero : callers.countP StartPc.committed = 0 := by
    refine List.countP_eq_zero.mpr fun pc hmem => ?_
    have htested := halone pc hmem
    cases pc with
    | test => simp [StartPc.committed]
    | clear entry => cases htested
    | create entry => exact absurd hmem (hcreate entry)
  have hcount := countP_setThread StartPc.committed hi (some (.clear entry))
  rw [hzero] at hcount
  simp only [StartPc.committed, Option.toList_some, List.countP_singleton, Bool.false_eq_true,
    if_false, if_true, Nat.add_zero, Nat.zero_add] at hcount
  refine ⟨by rw [hcount, hnone, List.length_nil], ?_⟩
  rintro (⟨entry', hmem⟩ | hne)
  · rcases mem_setThread hi hmem with hmem | hmem
    · exact absurd hmem (hcreate entry')
    · cases hmem
  · exact absurd hnone hne

theorem clear {entry : WorkerPc} (h : Exclusive callers workers mStoped)
    (hi : callers[i]? = some (.clear entry)) :
    Exclusive (setThread callers i (some (.create entry))) workers false := by
  have hone := h.one
  have hcount := countP_setThread StartPc.committed hi (some (.create entry))
  simp only [StartPc.committed, Option.toList_some, List.countP_singleton, if_true] at hcount
  exact ⟨by omega, fun _ => rfl⟩

/-- The call turns into the worker it creates, or is gone. -/
theorem create {entry : WorkerPc} (h : Exclusive callers workers mStoped)
    (hi : callers[i]? = some (.create entry)) (thread : Option WorkerPc) :
    Exclusive (setThread callers i none) (workers ++ thread.toList) mStoped := by
  have hone := h.one
  have hcount := countP_setThread StartPc.committed hi none
  have hthread : thread.toList.length ≤ 1 := by cases thread <;> simp
  simp only [StartPc.committed, Option.toList_none, List.countP_nil, if_true] at hcount
  refine ⟨?_, fun _ => h.cleared (.inl ⟨entry, List.mem_of_getElem? hi⟩)⟩
  rw [List.length_append]
  omega

/-- A worker step other than `onStop` leaves the flag alone, and `onStop` ends the only worker. -/
theorem worker {k : ℕ} {pc : WorkerPc} {next : Option WorkerPc} {mStoped' : Bool}
    (h : Exclusive callers workers mStoped) (hk : workers[k]? = some pc)
    (hflag : next = none ∨ mStoped' = mStoped) :
    Exclusive callers (setThread workers k next) mStoped' := by
  have hone := h.one
  have hlen := length_setThread hk next
  have hnext : next.toList.length ≤ 1 := by cases next <;> simp
  refine ⟨by omega, ?_⟩
  rcases hflag with rfl | rfl
  · rintro (⟨entry, hmem⟩ | hne)
    · have hpos : 0 < callers.countP StartPc.committed :=
        List.countP_pos_iff.mpr ⟨_, hmem, rfl⟩
      rw [Option.toList_none, List.length_nil] at hlen
      omega
    · have hpos := List.length_pos_iff.mpr hne
      rw [Option.toList_none, List.length_nil] at hlen
      omega
  · intro _
    exact h.cleared (.inr (List.ne_nil_of_mem (List.mem_of_getElem? hk)))

end Exclusive

/-- The invariant of the runs whose calls test alone. -/
def Starts.Exclusive (s : Starts ι) : Prop :=
  ConcurrentStarts.Exclusive s.callers s.sys.workers s.sys.world.ati.mStoped

omit [DecidableEq ι] in
theorem exclusive_caller {s : Starts ι} {i : ℕ} {pc : StartPc} (created : Bool)
    (h : s.Exclusive) (hi : s.callers[i]? = some pc)
    (halone : pc = .test → s.sys.world.ati.mStoped = true →
      ∀ pc ∈ s.callers, pc.tested = false) :
    let r := startStep { s.sys.world with calls := [] } created pc
    Exclusive (setThread s.callers i r.1) (s.sys.workers ++ r.2.1.toList) r.2.2.ati.mStoped := by
  cases pc with
  | test =>
    have hreturns : Exclusive (setThread s.callers i none) (s.sys.workers ++ [])
        s.sys.world.ati.mStoped := by
      rw [List.append_nil]
      exact h.test_returns hi
    have hpasses (entry : WorkerPc) (hs : s.sys.world.ati.mStoped = true) :
        Exclusive (setThread s.callers i (some (.clear entry))) (s.sys.workers ++ [])
          s.sys.world.ati.mStoped := by
      unfold Starts.Exclusive at h
      rw [List.append_nil, hs]
      rw [hs] at h
      exact h.test_passes hi (halone rfl hs) entry
    simp only [startStep]
    split
    · rename_i hs
      split
      · exact hpasses .clientEntry hs
      · split
        · exact hpasses .serverEntry hs
        · exact hreturns
    · exact hreturns
  | clear entry =>
    have hcleared := h.clear hi
    simpa [startStep] using hcleared
  | create entry => exact h.create hi _

/-- The actions besides the calls of `start` keep the exclusion. -/
theorem exclusive_other {s : Starts ι} {t : Sys ι} {a : Action} {out : List Call}
    (h : s.Exclusive) (hen : Enabled s.sys a) (hstart : isStart a = false)
    (heff : effect inetAddr s.sys a = (t, out)) :
    Exclusive s.callers t.workers t.world.ati.mStoped := by
  by_cases hworker : ∃ k o, a = .worker k o
  · obtain ⟨k, o, rfl⟩ := hworker
    obtain ⟨-, pc, hk, -⟩ := hen
    have hk' : s.sys.workers[k]? = some pc := hk
    have hworkers := effect_workers inetAddr s.sys (.worker k o)
    have hati := effect_ati inetAddr s.sys (.worker k o)
    rw [heff] at hworkers hati
    simp only [hk', atiAfter] at hworkers hati
    rw [hworkers, hati]
    refine h.worker hk' ?_
    by_cases hstop : pc = .onStop
    · subst hstop
      exact .inl rfl
    · exact .inr (workerStep_mStoped inetAddr { s.sys.world with calls := [] } o hstop)
  · obtain ⟨hflag, hpool⟩ := lifecycle_kept inetAddr heff
      (fun c he => by subst he; cases hstart) fun k o he => hworker ⟨k, o, he⟩
    rw [hflag, hpool]
    exact h

theorem exclusive_step {hist : List (StartsStep ι)} {s t : Starts ι} {a : ThreadAction}
    {out : List Call} (h : s.Exclusive) (halone : TestsAlone hist ⟨s, a, out, t⟩)
    (hs : (startsMachine inetAddr).step s a = some (t, out)) : t.Exclusive := by
  obtain ⟨hen, heff⟩ := (startsMachine_step inetAddr).mp hs
  have ht : t = (threadEffect inetAddr s a).1 := by rw [heff]
  subst ht
  cases a with
  | call => exact h.call
  | caller i created =>
    obtain ⟨pc, hi⟩ : ∃ pc, s.callers[i]? = some pc := ⟨_, List.getElem?_eq_getElem hen.2⟩
    simp only [threadEffect, hi]
    refine exclusive_caller created h hi ?_
    rintro rfl
    exact halone hi
  | other a => exact exclusive_other inetAddr (s := s) h hen.1 hen.2.1 rfl

/-- In every run with any number of threads inside `start`, there is at most one worker after
each step, if no call sees the flag true while another has seen it true and not cleared it. -/
theorem at_most_one_worker {me : ι} {cb : Option AutoTestInterfaceCallback} {ip : CString}
    {port : UInt32} {mode : ℤ} {fds : FdTable ι} {tr : List (StartsStep ι)} {t : Starts ι}
    (h : (startsMachine inetAddr).Trace ⟨.initial me (.initialised cb ip port mode) fds, []⟩ tr t)
    (halone : Every TestsAlone tr) : Every AtMostOneWorker tr := by
  refine h.every_of_guarded (I := fun _ s => s.Exclusive) halone Exclusive.initial ?_ ?_
  · intro hist s a out u hinv hG hs
    exact exclusive_step inetAddr hinv hG hs
  · intro hist s a out u hinv hG hs
    have hone := (exclusive_step inetAddr hinv hG hs).one
    exact (Nat.le_add_left _ _).trans hone

section Race

theorem caller_step {s : Starts ι} (hd : s.sys.destroyed = false) {i : ℕ} {pc : StartPc}
    (hi : s.callers[i]? = some pc) :
    (startsMachine inetAddr).step s (.caller i true) =
      some (threadEffect inetAddr s (.caller i true)) := by
  rw [startsMachine_step]
  exact ⟨⟨hd, (List.getElem?_eq_some_iff.mp hi).1⟩, rfl⟩

/-- A call that has seen the flag true can go on to create its worker. -/
theorem committed_creates {s : Starts ι} (hd : s.sys.destroyed = false) {i : ℕ} {pc : StartPc}
    (hi : s.callers[i]? = some pc) (hc : pc.committed = true) :
    ∃ tr t, (startsMachine inetAddr).Trace s tr t ∧ t.sys.destroyed = false ∧
      t.sys.workers.length = s.sys.workers.length + 1 ∧
      t.callers.countP StartPc.committed + 1 = s.callers.countP StartPc.committed := by
  have hcreate {s : Starts ι} {entry : WorkerPc} (hd : s.sys.destroyed = false)
      (hi : s.callers[i]? = some (.create entry)) :
      ∃ tr t, (startsMachine inetAddr).Trace s tr t ∧ t.sys.destroyed = false ∧
        t.sys.workers.length = s.sys.workers.length + 1 ∧
        t.callers.countP StartPc.committed + 1 = s.callers.countP StartPc.committed := by
    have hcount := countP_setThread StartPc.committed hi none
    simp only [StartPc.committed, if_true, Option.toList_none, List.countP_nil] at hcount
    refine ⟨_, _, .snoc .nil (caller_step inetAddr hd hi), ?_⟩
    simp only [hi, startStep, initThread, if_true]
    exact ⟨hd, by simp, hcount⟩
  cases pc with
  | test => cases hc
  | create entry => exact hcreate hd hi
  | clear entry =>
    have hcount := countP_setThread StartPc.committed hi (some (.create entry))
    simp only [StartPc.committed, if_true, Option.toList_some, List.countP_singleton] at hcount
    have hfirst := caller_step inetAddr hd hi
    set s₁ := (threadEffect inetAddr s (.caller i true)).1 with hs₁
    have hcallers : s₁.callers = setThread s.callers i (some (.create entry)) := by
      simp [hs₁, threadEffect, hi, startStep]
    have hworkers : s₁.sys.workers = s.sys.workers := by
      simp [hs₁, threadEffect, hi, startStep]
    have hgone : s₁.sys.destroyed = false := by
      simpa [hs₁, threadEffect, hi, startStep] using hd
    have hnext : s₁.callers[i]? = some (.create entry) := by
      have hlt := (List.getElem?_eq_some_iff.mp hi).1
      simp [hcallers, setThread, hlt]
    obtain ⟨tr, t, htr, ht, hlen, hleft⟩ := hcreate hgone hnext
    refine ⟨_, t, .cons hfirst htr, ht, by rw [hlen, hworkers], ?_⟩
    rw [hcallers] at hleft
    omega

/-- Two calls that have both seen the flag true can both create a worker. -/
theorem two_committed_reach {s : Starts ι} (hd : s.sys.destroyed = false)
    (htwo : 2 ≤ s.callers.countP StartPc.committed) :
    ∃ tr t, (startsMachine inetAddr).Trace s tr t ∧ 2 ≤ t.sys.workers.length := by
  have hfind {s : Starts ι} (hpos : 0 < s.callers.countP StartPc.committed) :
      ∃ (i : ℕ) (pc : StartPc), s.callers[i]? = some pc ∧ pc.committed = true := by
    obtain ⟨pc, hmem, hpc⟩ := List.countP_pos_iff.mp hpos
    obtain ⟨i, hi⟩ := List.mem_iff_getElem?.mp hmem
    exact ⟨i, pc, hi, hpc⟩
  obtain ⟨i, pc, hi, hpc⟩ := hfind (s := s) (by omega)
  obtain ⟨tr, t, htr, ht, hlen, hcount⟩ := committed_creates inetAddr hd hi hpc
  obtain ⟨j, qc, hj, hqc⟩ := hfind (s := t) (by omega)
  obtain ⟨tr', u, htr', -, hlen', -⟩ := committed_creates inetAddr ht hj hqc
  exact ⟨tr ++ tr', u, htr.append htr', by omega⟩

/-- A step that misses the condition leaves two such calls: the run it is in can go on to a
state with two workers. -/
theorem race_reaches_two_workers {hist : List (StartsStep ι)} {s t : Starts ι}
    {a : ThreadAction} {out : List Call} (hmode : KnownMode s.sys.world.ati.mMode)
    (hs : (startsMachine inetAddr).step s a = some (t, out))
    (hrace : ¬ TestsAlone hist ⟨s, a, out, t⟩) :
    ∃ tr u, (startsMachine inetAddr).Trace t tr u ∧ 2 ≤ u.sys.workers.length := by
  obtain ⟨hen, heff⟩ := (startsMachine_step inetAddr).mp hs
  cases a with
  | caller i created =>
    simp only [TestsAlone, Classical.not_imp, not_forall] at hrace
    obtain ⟨hi, hflag, pc, hmem, htested⟩ := hrace
    have hpc : pc.committed = true := by cases pc <;> simp_all [StartPc.tested, StartPc.committed]
    have hpos : 0 < s.callers.countP StartPc.committed :=
      List.countP_pos_iff.mpr ⟨pc, hmem, hpc⟩
    obtain ⟨entry, hpass⟩ : ∃ entry, startStep { s.sys.world with calls := [] } created .test =
        (some (.clear entry), none, { s.sys.world with calls := [] }) := by
      rcases hmode with hm | hm
      · exact ⟨.clientEntry, by simp [startStep, hflag, hm]⟩
      · exact ⟨.serverEntry, by simp [startStep, hflag, hm, clientMode, serverMode]⟩
    have hcount := countP_setThread StartPc.committed hi (some (.clear entry))
    simp only [StartPc.committed, Bool.false_eq_true, if_false, if_true, Option.toList_some,
      List.countP_singleton] at hcount
    simp only [threadEffect, hi, hpass] at heff
    cases heff
    refine two_committed_reach inetAddr hen.1 ?_
    simp only []
    omega
  | _ => exact absurd trivial hrace

end Race

section Runs

/-- Two threads call `start`, the second one while the first is inside it. -/
def secondCallLate : List ThreadAction :=
  [.call, .call, .caller 0 true, .caller 0 true, .caller 1 true, .caller 0 true,
    .other (.worker 0 ⟨true, 3⟩), .call, .caller 0 true]

theorem secondCallLate_one_worker :
    ∃ tr t, (startsMachine fun _ => 0).run ⟨.client, []⟩ secondCallLate = some (tr, t) ∧
      Every AtMostOneWorker tr := by
  have halone : ∃ tr t, (startsMachine fun _ => 0).run ⟨.client, []⟩ secondCallLate =
      some (tr, t) ∧ Every TestsAlone tr := Machine.run_satisfies (by decide +kernel)
  obtain ⟨tr, t, hr, halone⟩ := halone
  exact ⟨tr, t, hr, at_most_one_worker _ (Machine.run_trace hr) halone⟩

/-- Both threads see the flag true before one of them clears it. -/
def bothSeeTrue : List ThreadAction :=
  [.call, .call, .caller 0 true, .caller 1 true, .caller 0 true, .caller 1 true,
    .caller 0 true, .caller 0 true]

theorem bothSeeTrue_two_workers :
    ∃ tr t, (startsMachine fun _ => 0).run ⟨.client, []⟩ bothSeeTrue = some (tr, t) ∧
      ¬ Every AtMostOneWorker tr :=
  Machine.run_not_every (by decide +kernel)

end Runs
end AutoTest.ConcurrentStarts
