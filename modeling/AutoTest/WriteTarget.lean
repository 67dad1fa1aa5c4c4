import AutoTest.StoredDescriptor

/-!
# Where the writes of `write_message` go

With `MyCallback`, `write_message` writes to the stored descriptor whatever has happened to it
since it was stored: nothing, when no connection was made yet and the cell holds 0, or a close
and a reuse by another file.
-/

namespace AutoTest.WriteTarget

open OutputMachines

variable {ι : Type*} [DecidableEq ι]

/-- The descriptors written to. -/
def writeTargets (out : List Call) : List Fd :=
  out.filterMap fun c => match c with
    | .os (.write fd _ _ _) => some fd
    | _ => none

/-- The descriptor is an open connection of the interface itself. -/
def OwnConnection (s : Sys ι) (fd : Fd) : Prop :=
  s.world.fds fd = some (.connection s.world.me)

instance (s : Sys ι) (fd : Fd) : Decidable (OwnConnection s fd) :=
  inferInstanceAs (Decidable (_ = _))

/-- Every write of a `write_message` goes to an open connection of the interface. -/
def Targeted (_ : List (Step ι)) (x : Step ι) : Prop :=
  match x.action with
  | .writeMessage _ _ _ => ∀ fd ∈ writeTargets x.outputs, OwnConnection x.source fd
  | _ => True

/-- `write_message` is called only while the first nonzero descriptor of a connection (0 when
there is none) is an open connection of the interface. -/
def StoredOpen (hist : List (Step ι)) (x : Step ι) : Prop :=
  match x.action with
  | .writeMessage _ _ _ => OwnConnection x.source (storedFd hist)
  | _ => True

instance (hist : List (Step ι)) (x : Step ι) : Decidable (Targeted hist x) := by
  rcases x with ⟨s, _ | _, out, t⟩ <;> dsimp only [Targeted] <;> infer_instance

instance (hist : List (Step ι)) (x : Step ι) : Decidable (StoredOpen hist x) := by
  rcases x with ⟨s, _ | _, out, t⟩ <;> dsimp only [StoredOpen] <;> infer_instance

variable (inetAddr : CString → UInt32)

theorem writeMessage_targets {s : Sys ι} {cb : AutoTestInterfaceCallback}
    (hcb : s.world.ati.mCallback = some cb) (hcls : cb.cls = myCallback) (msg : Bytes) (len : ℕ)
    (ret : ℤ) :
    writeTargets (effect inetAddr s (.writeMessage msg len ret)).2 = [cb.fd] := by
  rw [writeMessage_outputs inetAddr hcb, hcls]
  rfl

omit [DecidableEq ι] in
/-- Without an open connection a targeted `write_message` writes nothing. -/
theorem targeted_without_connection {hist : List (Step ι)} {x : Step ι} {msg : Bytes} {len : ℕ}
    {ret : ℤ} (ha : x.action = .writeMessage msg len ret)
    (hnone : ∀ fd, ¬ OwnConnection x.source fd) (h : Targeted hist x) :
    writeTargets x.outputs = [] := by
  rw [Targeted, ha] at h
  refine List.eq_nil_iff_forall_not_mem.mpr fun fd hfd => hnone fd (h fd hfd)

/-- In every run, in either mode, all writes of `write_message` go to open connections of the
interface exactly when it is always called while the stored descriptor is one. -/
theorem writes_targeted_iff {me : ι} {ip : CString} {port : UInt32} {mode : ℤ}
    {fds : FdTable ι} {tr : List (Step ι)} {t : Sys ι}
    (h : (interfaceMachine inetAddr).Trace
      (.initial me (.configured myCallback ip port mode) fds) tr t) :
    Every Targeted tr ↔ Every StoredOpen tr := by
  refine h.every_iff (stored_initial me myCallback ip port mode fds) ?_ ?_
  · intro hist s a out u hinv hs
    exact stored_step inetAddr hinv ((interfaceMachine_step inetAddr).mp hs).2
  · intro hist s a out u hinv hs
    obtain ⟨hen, heff⟩ := (interfaceMachine_step inetAddr).mp hs
    cases a with
    | writeMessage msg len ret =>
      obtain ⟨cb, hcb, hcls, hfd⟩ := hinv hen.1
      have htargets := writeMessage_targets inetAddr hcb hcls msg len ret
      rw [heff] at htargets
      simp only [Targeted, StoredOpen, htargets, List.forall_mem_singleton, hfd]
    | _ => exact Iff.rfl

section Runs

/-- A client connects through descriptor 3 and sends a message. -/
def connectAndSend : List Action :=
  clientStarted 3 ++ [.event 1 bevEventConnected, .writeMessage [65, 66] 2 2]

theorem connectAndSend_targeted :
    ∃ tr t, (interfaceMachine fun _ => 0).run .client connectAndSend = some (tr, t) ∧
      Every Targeted tr := by
  have hopen : ∃ tr t, (interfaceMachine fun _ => 0).run .client connectAndSend =
      some (tr, t) ∧ Every StoredOpen tr := Machine.run_satisfies (by decide +kernel)
  obtain ⟨tr, t, hr, hopen⟩ := hopen
  exact ⟨tr, t, hr, (writes_targeted_iff _ (Machine.run_trace hr)).mpr hopen⟩

/-- The connection is lost, another file gets descriptor 3, and a message is sent. -/
def sendAfterReuse : List Action :=
  connectAndSend ++ [.event 1 bevEventEof, .openOther 3, .writeMessage [67] 1 1]

/-- The message is written into the other file. -/
theorem sendAfterReuse_not_targeted :
    ∃ tr t, (interfaceMachine fun _ => 0).run .client sendAfterReuse = some (tr, t) ∧
      ¬ Every Targeted tr :=
  Machine.run_not_every (by decide +kernel)

end Runs
end AutoTest.WriteTarget
