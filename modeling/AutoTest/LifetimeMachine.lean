import AutoTest.InterfaceSteps

/-!
# The runs of an interface from its construction on

In the machine of one interface `init` has been called before the run begins. Here the calls of
`init` are steps of the run as well, in any number and at any time. The first one configures the
interface; from then on a run is a run of the interface machine, with idle steps in between.
-/

namespace AutoTest

open OutputMachines

variable {ι : Type*}

inductive Operation
  | init (ip : CString) (port : UInt32) (mode : ℤ)
  | act (a : Action)
  deriving DecidableEq

/-- The steps of the runs from the construction on. -/
abbrev LifeStep (ι : Type*) := Transition (Sys ι) Operation Call

namespace Sys

/-- A constructed interface, with a callback object or without. -/
def constructed (me : ι) (cb : Option AutoTestInterfaceCallback) (fds : FdTable ι) : Sys ι :=
  .initial me { AutoTestInterface.new with mCallback := cb } fds

/-- A call of `init`. -/
def init (s : Sys ι) (ip : CString) (port : UInt32) (mode : ℤ) : Sys ι :=
  { s with world := { s.world with ati := (s.world.ati.init ip port mode).2 } }

theorem init_constructed (me : ι) (cb : Option AutoTestInterfaceCallback) (fds : FdTable ι)
    (ip : CString) (port : UInt32) (mode : ℤ) :
    (constructed me cb fds).init ip port mode =
      .initial me (.initialised cb ip port mode) fds := rfl

theorem init_fresh {s : Sys ι} (h : s.world.ati.mInited = false) (ip : CString)
    (port : UInt32) (mode : ℤ) :
    (s.init ip port mode).world.ati =
      { s.world.ati with mInited := true, mMode := mode, hi := ⟨ip, port⟩ } := by
  simp [init, AutoTestInterface.init, h]

theorem init_again {s : Sys ι} (h : s.world.ati.mInited = true) (ip : CString) (port : UInt32)
    (mode : ℤ) : s.init ip port mode = s := by
  simp [init, AutoTestInterface.init, h]

end Sys

variable [DecidableEq ι] (inetAddr : CString → UInt32)

def lifetimeMachine : Machine (Sys ι) Operation Call where
  step s
    | .init ip port mode => if s.destroyed = false then some (s.init ip port mode, []) else none
    | .act a => (interfaceMachine inetAddr).step s a

theorem lifetimeMachine_init {s t : Sys ι} {ip : CString} {port : UInt32} {mode : ℤ}
    {out : List Call} :
    (lifetimeMachine inetAddr).step s (.init ip port mode) = some (t, out) ↔
      s.destroyed = false ∧ t = s.init ip port mode ∧ out = [] := by
  by_cases hd : s.destroyed = false
  · simp only [lifetimeMachine, hd, if_true, Option.some.injEq, Prod.mk.injEq, true_and]
    exact and_congr eq_comm eq_comm
  · simp [lifetimeMachine, hd]

theorem lifetimeMachine_act {s t : Sys ι} {a : Action} {out : List Call} :
    (lifetimeMachine inetAddr).step s (.act a) = some (t, out) ↔
      Enabled s a ∧ effect inetAddr s a = (t, out) :=
  interfaceMachine_step inetAddr

theorem init_step {s : Sys ι} (h : s.destroyed = false) (ip : CString) (port : UInt32)
    (mode : ℤ) :
    (lifetimeMachine inetAddr).step s (.init ip port mode) = some (s.init ip port mode, []) :=
  (lifetimeMachine_init inetAddr).mpr ⟨h, rfl, rfl⟩

theorem act_step {s : Sys ι} {a : Action} (h : Enabled s a) :
    (lifetimeMachine inetAddr).step s (.act a) =
      some ((effect inetAddr s a).1, (effect inetAddr s a).2) :=
  (lifetimeMachine_act inetAddr).mpr ⟨h, rfl⟩

section Refinement

/-- The actions of a run, without the calls of `init`. -/
def actsOf (tr : List (LifeStep ι)) : List (Step ι) :=
  tr.filterMap fun x => match x.action with
    | .init _ _ _ => none
    | .act a => some ⟨x.source, a, x.outputs, x.target⟩

omit [DecidableEq ι] in
@[simp] theorem actsOf_snoc_init (tr : List (LifeStep ι)) (s t : Sys ι) (ip : CString)
    (port : UInt32) (mode : ℤ) (out : List Call) :
    actsOf (tr ++ [⟨s, .init ip port mode, out, t⟩]) = actsOf tr := by
  simp [actsOf]

omit [DecidableEq ι] in
@[simp] theorem actsOf_snoc_act (tr : List (LifeStep ι)) (s t : Sys ι) (a : Action)
    (out : List Call) :
    actsOf (tr ++ [⟨s, .act a, out, t⟩]) = actsOf tr ++ [⟨s, a, out, t⟩] := by
  simp [actsOf]

/-- Once it is initialised, the later calls of `init` can be left out of a run. -/
theorem actsOf_trace {s t : Sys ι} {tr : List (LifeStep ι)}
    (hinit : s.world.ati.mInited = true) (h : (lifetimeMachine inetAddr).Trace s tr t) :
    (interfaceMachine inetAddr).Trace s (actsOf tr) t ∧ t.world.ati.mInited = true := by
  induction h with
  | nil => exact ⟨.nil, hinit⟩
  | @snoc tr t a out u _ hs ih =>
    obtain ⟨htr, ht⟩ := ih
    cases a with
    | init ip port mode =>
      obtain ⟨-, rfl, rfl⟩ := (lifetimeMachine_init inetAddr).mp hs
      rw [Sys.init_again ht, actsOf_snoc_init]
      exact ⟨htr, ht⟩
    | act a =>
      obtain ⟨-, heff⟩ := (lifetimeMachine_act inetAddr).mp hs
      have hkept := (effect_configuration inetAddr t a).2.1
      rw [heff] at hkept
      rw [actsOf_snoc_act]
      exact ⟨htr.snoc hs, hkept.trans ht⟩

/-- A run that begins with a call of `init` is a run of the initialised interface. -/
theorem initialised_trace {me : ι} {cb : Option AutoTestInterfaceCallback} {fds : FdTable ι}
    {ip : CString} {port : UInt32} {mode : ℤ} {x : LifeStep ι} {tr : List (LifeStep ι)} {t : Sys ι}
    (hx : x.action = .init ip port mode)
    (h : (lifetimeMachine inetAddr).Trace (.constructed me cb fds) (x :: tr) t) :
    (interfaceMachine inetAddr).Trace (.initial me (.initialised cb ip port mode) fds)
      (actsOf tr) t := by
  have hsplit : (lifetimeMachine inetAddr).Trace (.constructed me cb fds)
      ([] ++ x :: tr) t := h
  obtain ⟨hpre, hs, hpost⟩ := hsplit.split
  have hsource : x.source = .constructed me cb fds := hpre.eq_of_nil
  rw [hx] at hs
  obtain ⟨-, htarget, -⟩ := (lifetimeMachine_init inetAddr).mp hs
  rw [htarget, hsource, Sys.init_constructed] at hpost
  exact (actsOf_trace inetAddr rfl hpost).1

end Refinement
end AutoTest
