import AutoTest.InterfaceSteps

/-!
# The descriptor stored in the callback object

`setFd` is offered the descriptor of every connection, in the order in which they are made, and
nothing else changes the cell. So it holds the first nonzero one, open or not.
-/

namespace AutoTest

open OutputMachines WriteOnceCells

variable {ι : Type*}

/-- The descriptors of the connections made in a run, in order. -/
def connected (tr : List (Step ι)) : List Fd :=
  tr.filterMap fun x => match x.action with
    | .accept _ fd _ => some fd
    | .event bev what =>
      if hasFlag what bevEventConnected then some (x.source.world.buffereventGetfd bev) else none
    | _ => none

/-- The descriptor that `getFd` answers after a run. -/
def storedFd (hist : List (Step ι)) : Fd := firstOther 0 (connected hist)

theorem connected_snoc (hist : List (Step ι)) (x : Step ι) :
    connected (hist ++ [x]) = connected hist ++ connected [x] := by
  simp [connected]

/-- The callback object is there until the destructor runs, with the class it was created with
and the first nonzero descriptor of a connection. -/
def Stored (cls : CallbackClass) (hist : List (Step ι)) (s : Sys ι) : Prop :=
  s.destroyed = false →
    ∃ cb, s.world.ati.mCallback = some cb ∧ cb.cls = cls ∧ cb.fd = storedFd hist

theorem stored_initial (me : ι) (cls : CallbackClass) (ip : CString) (port : UInt32)
    (mode : ℤ) (fds : FdTable ι) :
    Stored cls [] (.initial me (.configured cls ip port mode) fds) :=
  fun _ => ⟨.new cls, rfl, rfl, rfl⟩

variable [DecidableEq ι] (inetAddr : CString → UInt32)

theorem stored_step {cls : CallbackClass} {hist : List (Step ι)} {s t : Sys ι} {a : Action}
    {out : List Call} (h : Stored cls hist s) (heff : effect inetAddr s a = (t, out)) :
    Stored cls (hist ++ [⟨s, a, out, t⟩]) t := by
  intro ht
  have hcb := effect_mCallback inetAddr s a
  have hd := effect_destroyed inetAddr s a
  rw [heff] at hcb hd
  rw [hd, Bool.or_eq_false_iff, decide_eq_false_iff_not] at ht
  obtain ⟨cb, hs, hcls, hfd⟩ := h ht.1
  have hkept : connected [⟨s, a, out, t⟩] = [] → cb.fd = storedFd (hist ++ [⟨s, a, out, t⟩]) := by
    intro hnew
    rw [storedFd, connected_snoc, hnew, List.append_nil]
    exact hfd
  have hset (fd : Fd) (hnew : connected [⟨s, a, out, t⟩] = [fd]) :
      (cb.setFd fd).fd = storedFd (hist ++ [⟨s, a, out, t⟩]) := by
    rw [storedFd, connected_snoc, hnew, firstOther_snoc, AutoTestInterfaceCallback.setFd_fd, hfd]
    rfl
  rw [hcb]
  cases a with
  | accept listener fd ok =>
    exact ⟨cb.setFd fd, by rw [hs]; rfl, by simpa using hcls, hset fd rfl⟩
  | event bev what =>
    by_cases hc : hasFlag what bevEventConnected = true
    · refine ⟨cb.setFd (s.world.buffereventGetfd bev), ?_, by simpa using hcls, hset _ ?_⟩
      · simp [hs, hc]
      · simp [connected, hc]
    · refine ⟨cb, ?_, hcls, hkept ?_⟩
      · simp [hs, hc]
      · simp [connected, hc]
  | destroy => exact absurd rfl ht.2
  | _ => exact ⟨cb, hs, hcls, hkept rfl⟩

end AutoTest
