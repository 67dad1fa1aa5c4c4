import AutoTest.DescriptorOwnership
import AutoTest.ProcessMachine

/-!
# Which descriptors the interfaces of a process close

Each interface owns what it keeps, and while every interface closes only what it keeps, no
interleaving lets one of them disturb what another one keeps.
-/

namespace AutoTest.ProcessDescriptors

open OutputMachines SharedMachines DescriptorOwnership

variable {κ : Type*}

/-- The step closes only descriptors that its interface obtained and has not closed since. -/
def ClosesOnlyOwn (_ : List (ProcessStep κ)) (x : ProcessStep κ) : Prop :=
  ∀ c ∈ x.outputs, ClosesOwn (x.source.interface x.action.1) c

variable [DecidableEq κ]

/-- The step is no listener error, no second end of one connection, and no destructor of an
interface whose `conn` had its connection ended. -/
def EndsOnce (hist : List (ProcessStep κ)) (x : ProcessStep κ) : Prop :=
  ClosesOnce (actionsOf x.action.1 hist) (x.source.interface x.action.1) x.action.2

instance (hist : List (ProcessStep κ)) (x : ProcessStep κ) : Decidable (ClosesOnlyOwn hist x) :=
  inferInstanceAs (Decidable (∀ c ∈ x.outputs, ClosesOwn (x.source.interface x.action.1) c))

instance (hist : List (ProcessStep κ)) (x : ProcessStep κ) : Decidable (EndsOnce hist x) :=
  inferInstanceAs (Decidable (ClosesOnce _ _ _))

/-- What the runs keep for the interface `j`. -/
structure Undisturbed (j : κ) (hist : List (ProcessStep κ)) (s : Sys κ) : Prop where
  me : s.world.me = j
  owning : s.destroyed = false → Owning (actionsOf j hist) s

theorem undisturbed_initial (ip : κ → CString) (port : κ → UInt32) (mode : κ → ℤ)
    (fds : FdTable κ) (j : κ) :
    Undisturbed j [] ((Process.initial
      (fun k => .configured myCallback (ip k) (port k) (mode k)) fds).interface j) where
  me := rfl
  owning := fun _ => owning_initial j (ip j) (port j) (mode j) fds

omit [DecidableEq κ] in
/-- The steps of the other interfaces do not disturb what an interface keeps. -/
theorem owning_of_foreignKept {k : κ} {as : List Action} {s : Sys κ} {fds : FdTable κ}
    (h : Owning as s) (hk : s.world.me ≠ k) (hfds : ForeignKept k s.world.fds fds) :
    Owning as (sharedFds.put fds s) where
  oneWorker := ⟨h.oneWorker.atMostOne, h.oneWorker.running⟩
  callback := h.callback
  held := by
    intro slot fd hslot
    have hkeeps : Keeps as s slot fd := by cases slot <;> exact hslot
    rcases h.held slot fd hkeeps with hs | hs
    · exact .inl (hfds fd _ _ hs rfl hk)
    · exact .inr (hfds fd _ _ hs rfl hk)
  unique := by
    intro slot slot' fd hslot hslot'
    refine h.unique slot slot' fd ?_ ?_
    · cases slot <;> exact hslot
    · cases slot' <;> exact hslot'
  listeners := fun l r hl => hfds r.fd _ _ (h.listeners l r hl) rfl hk

variable (inetAddr : CString → UInt32)

/-- After the destructor only the rest of the process opens and closes descriptors. -/
theorem foreignKept_of_destroyed {s t : Sys κ} {a : Action} {out : List Call}
    (hd : s.destroyed = true) (hen : Enabled s a) (heff : effect inetAddr s a = (t, out)) :
    ForeignKept s.world.me s.world.fds t.world.fds := by
  have ht : t = (effect inetAddr s a).1 := by rw [heff]
  have hgone : s.destroyed ≠ false := by simp [hd]
  subst ht
  intro fd h j hfd hj hne
  cases a with
  | openOther d =>
    have hother : fd ≠ d := by
      rintro rfl
      rw [Option.isNone_iff_eq_none.mp hen.2] at hfd
      cases hfd
    exact (Function.update_of_ne hother _ _).trans hfd
  | closeOther d =>
    have hother : fd ≠ d := by
      rintro rfl
      have hrest : s.world.fds fd = some .rest := hen
      rw [hrest] at hfd
      cases hfd
      cases hj
    exact (Function.update_of_ne hother _ _).trans hfd
  | start created => exact absurd hen hgone
  | _ => exact absurd hen.1 hgone

/-- The interface that acts keeps what it owns and leaves the others alone. -/
theorem own_step {hist : List (ProcessStep κ)} {q p : Process κ} {k : κ} {a : Action}
    {out : List Call} (h : Undisturbed k hist (q.interface k))
    (hends : EndsOnce hist ⟨q, (k, a), out, p⟩)
    (hstep : (interfaceMachine inetAddr).step (q.interface k) a = some (p.interface k, out)) :
    Undisturbed k (hist ++ [⟨q, (k, a), out, p⟩]) (p.interface k) ∧
      ForeignKept k (q.interface k).world.fds (p.interface k).world.fds := by
  obtain ⟨hen, heff⟩ := (interfaceMachine_step inetAddr).mp hstep
  have hme := effect_me inetAddr (q.interface k) a
  have hdestroyed := effect_destroyed inetAddr (q.interface k) a
  rw [heff] at hme hdestroyed
  have hkept : ForeignKept (q.interface k).world.me (q.interface k).world.fds
      (p.interface k).world.fds := by
    cases hq : (q.interface k).destroyed with
    | false => exact foreign_kept inetAddr (h.owning hq) hen hends heff
    | true => exact foreignKept_of_destroyed inetAddr hq hen heff
  rw [h.me] at hkept
  refine ⟨⟨hme.trans h.me, fun hp => ?_⟩, hkept⟩
  rw [hdestroyed, Bool.or_eq_false_iff, decide_eq_false_iff_not] at hp
  rw [actionsOf_snoc_self]
  exact owning_step inetAddr (h.owning hp.1) hen hends hp.2 heff

theorem undisturbed_step {hist : List (ProcessStep κ)} {q p : Process κ} {a : κ × Action}
    {out : List Call} (h : ∀ j, Undisturbed j hist (q.interface j))
    (hends : EndsOnce hist ⟨q, a, out, p⟩)
    (hstep : (processMachine inetAddr).step q a = some (p, out)) :
    ∀ j, Undisturbed j (hist ++ [⟨q, a, out, p⟩]) (p.interface j) := by
  obtain ⟨k, a⟩ := a
  refine rely_guarantee (G := EndsOnce) (R := ForeignKept) hstep h hends ?_ ?_
  · intro hk hG hs
    exact own_step inetAddr hk hG hs
  · intro j fds hj hI hfds
    refine ⟨hI.me, fun hd => ?_⟩
    rw [actionsOf_snoc_other hj]
    exact owning_of_foreignKept (hI.owning hd) (by rw [hI.me]; exact hj) hfds

/-- In every run of any number of interfaces with `MyCallback` in one process, all whose steps
end connections at most once, every close is of a descriptor that the closing interface
obtained and has not closed since. -/
theorem closes_only_own {ip : κ → CString} {port : κ → UInt32} {mode : κ → ℤ} {fds : FdTable κ}
    {tr : List (ProcessStep κ)} {t : Process κ}
    (h : (processMachine inetAddr).Trace
      (.initial (fun k => .configured myCallback (ip k) (port k) (mode k)) fds) tr t)
    (hends : Every EndsOnce tr) : Every ClosesOnlyOwn tr := by
  refine h.every_of_guarded (I := fun hist q => ∀ j, Undisturbed j hist (q.interface j)) hends
    (undisturbed_initial ip port mode fds) ?_ ?_
  · intro hist q a out p hI hG hstep
    exact undisturbed_step inetAddr hI hG hstep
  · rintro hist q ⟨k, a⟩ out p hI hG hstep
    obtain ⟨hown, -⟩ := family_step hstep
    obtain ⟨hen, heff⟩ := (interfaceMachine_step inetAddr).mp hown
    cases hd : (q.interface k).destroyed with
    | false =>
      have hcloses := closesOwn_step inetAddr ((hI k).owning hd) hen hG
      rwa [heff] at hcloses
    | true =>
      have hout : out = (effect inetAddr (q.interface k) a).2 := by rw [heff]
      have hgone : (q.interface k).destroyed ≠ false := by simp [hd]
      rw [ClosesOnlyOwn, hout]
      cases a with
      | openOther | closeOther => simp [effect, Sys.exec, World.setFds]
      | start created => exact absurd hen hgone
      | _ => exact absurd hen.1 hgone

section Runs

/-- The server loses a connection, and the client is destroyed while it is connected. -/
def serverLosesClient : List (Endpoint × Action) :=
  bothStarted ++ [(.autotestServer, .accept 1 5 true), (.autotestServer, .event 2 bevEventEof),
    (.autotestClient, .worker 0 ⟨true, 0⟩), (.autotestClient, .worker 0 ⟨true, 0⟩),
    (.autotestClient, .destroy)]

theorem serverLosesClient_closes_only_own :
    ∃ tr t, (processMachine fun _ => 0).run sampleProcess serverLosesClient = some (tr, t) ∧
      Every ClosesOnlyOwn tr := by
  have hends : ∃ tr t, (processMachine fun _ => 0).run sampleProcess serverLosesClient =
      some (tr, t) ∧ Every EndsOnce tr := Machine.run_satisfies (by decide +kernel)
  obtain ⟨tr, t, hr, hends⟩ := hends
  exact ⟨tr, t, hr, closes_only_own _ (Machine.run_trace hr) hends⟩

/-- The client loses its connection, the server accepts one on the same number, and the client
is destroyed. -/
def clientClosesTwice : List (Endpoint × Action) :=
  bothStarted ++ [(.autotestClient, .event 1 bevEventEof), (.autotestServer, .accept 1 4 true),
    (.autotestClient, .worker 0 ⟨true, 0⟩), (.autotestClient, .worker 0 ⟨true, 0⟩),
    (.autotestClient, .destroy)]

/-- The destructor of the client closes the connection of the server. -/
theorem clientClosesTwice_closes_foreign :
    ∃ tr t, (processMachine fun _ => 0).run sampleProcess clientClosesTwice = some (tr, t) ∧
      ¬ Every ClosesOnlyOwn tr :=
  Machine.run_not_every (by decide +kernel)

end Runs
end AutoTest.ProcessDescriptors
