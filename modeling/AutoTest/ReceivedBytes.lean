import AutoTest.ResourceSteps

/-!
# What becomes of the bytes a connection receives

The bytes that arrive on a bufferevent are delivered by its read callback, wait in its input
buffer, or are drained by its write callback and are gone.
-/

namespace AutoTest.ReceivedBytes

open OutputMachines

variable {ι : Type*}

/-- The first `len` bytes of what a call of `on_recv` is given. -/
def payload : Call → Bytes
  | .onRecv _ msg len => msg.take len
  | _ => []

/-- The bytes that the read callbacks of `b` delivered in a run. -/
def delivered (b : Handle) (tr : List (Step ι)) : Bytes :=
  tr.flatMap fun x => match x.action with
    | .readcb bev _ => if bev = b then x.outputs.flatMap payload else []
    | _ => []

/-- The bytes that arrived on `b` in a run. -/
def arrived (b : Handle) (tr : List (Step ι)) : Bytes :=
  tr.flatMap fun x => match x.action with
    | .arrive bev chunk => if bev = b then chunk else []
    | _ => []

/-- After the step, what was delivered from `b` and what is in its input buffer is what arrived
on it. The destructor is the end of the connection. -/
def Intact (b : Handle) (hist : List (Step ι)) (x : Step ι) : Prop :=
  x.target.destroyed = false →
    delivered b (hist ++ [x]) ++ x.target.world.buffereventInput b = arrived b (hist ++ [x])

/-- A write callback of `b` that gets its buffer finds no bytes. -/
def DrainsNothing (b : Handle) (_ : List (Step ι)) (x : Step ι) : Prop :=
  match x.action with
  | .writecb bev true => bev = b → x.source.world.buffereventInput b = []
  | _ => True

instance (b : Handle) (hist : List (Step ι)) (x : Step ι) : Decidable (Intact b hist x) :=
  inferInstanceAs (Decidable (_ → _))

instance (b : Handle) (hist : List (Step ι)) (x : Step ι) : Decidable (DrainsNothing b hist x) := by
  rcases x with ⟨s, _ | _ | _ | _ | _ | ⟨bev, _ | _⟩ | _, out, t⟩ <;> dsimp only [DrainsNothing] <;>
    infer_instance

theorem delivered_snoc (b : Handle) (hist : List (Step ι)) (x : Step ι) :
    delivered b (hist ++ [x]) = delivered b hist ++ delivered b [x] := by
  simp [delivered]

theorem arrived_snoc (b : Handle) (hist : List (Step ι)) (x : Step ι) :
    arrived b (hist ++ [x]) = arrived b hist ++ arrived b [x] := by
  simp [arrived]

/-- The input buffer of `b` when the record of `b'` is changed. -/
theorem input_modify (h : Heap) (b b' : Handle) (f : Bufferevent → Bufferevent) :
    ((h.modify b' f).bufferevents b).map Bufferevent.input =
      if b = b' then (h.bufferevents b).map fun r => (f r).input
      else (h.bufferevents b).map Bufferevent.input := by
  by_cases hb : b = b'
  · subst hb
    simp [Heap.modify, Function.comp_def]
  · simp [Heap.modify, hb]

variable [DecidableEq ι] (inetAddr : CString → UInt32) {s : Sys ι}

/-- The input buffer of a bufferevent after an action. -/
theorem effect_input {a : Action} (hen : Enabled s a) (ha : a ≠ .destroy) (b : Handle) :
    (effect inetAddr s a).1.world.buffereventInput b = match a with
      | .arrive bev chunk =>
        if bev = b then s.world.buffereventInput b ++ chunk else s.world.buffereventInput b
      | .readcb bev ok | .writecb bev ok =>
        if bev = b ∧ ok = true then [] else s.world.buffereventInput b
      | _ => s.world.buffereventInput b := by
  have hfresh : s.world.heap.bufferevents s.world.heap.fresh = none :=
    (s.world.heap.unused _ le_rfl).2.2.1
  have hnew (r : Bufferevent) (hr : r.input = []) :
      ((Function.update s.world.heap.bufferevents s.world.heap.fresh (some r) b).map
        Bufferevent.input).getD [] = s.world.buffereventInput b := by
    by_cases hb : b = s.world.heap.fresh
    · subst hb
      simp [World.buffereventInput, hfresh, hr]
    · simp [World.buffereventInput, hb]
  have hclear (bev : Handle) (ok : Bool) :
      (((if ok then (s.world.heap.modify bev fun r => { r with input := [] }).bufferevents
        else s.world.heap.bufferevents) b).map Bufferevent.input).getD [] =
      if bev = b ∧ ok = true then [] else s.world.buffereventInput b := by
    cases ok with
    | false => simp [World.buffereventInput]
    | true =>
      simp only [if_true, and_true, input_modify, eq_comm (a := b)]
      by_cases hb : bev = b
      · rw [if_pos hb, if_pos hb]
        cases s.world.heap.bufferevents b <;> rfl
      · rw [if_neg hb, if_neg hb]
        rfl
  rw [World.buffereventInput, effect_bufferevents]
  cases a with
  | worker k o =>
    obtain ⟨-, pc, hk, -⟩ := hen
    simp only [Option.mem_def.mp hk, workerStep_bufferevents]
    cases pc with
    | clientSocketNew addr fd base =>
      cases base with
      | none => rfl
      | some base =>
        dsimp only
        split
        · exact hnew _ rfl
        · rfl
    | clientConnect addr base conn =>
      cases conn with
      | none => rfl
      | some c =>
        dsimp only
        split
        · rw [input_modify, ite_self]
          rfl
        · rfl
    | _ => rfl
  | accept listener fd ok =>
    dsimp only
    cases hr : acceptedBufferevent s.world.heap listener fd ok with
    | none => rfl
    | some r =>
      refine hnew r ?_
      unfold acceptedBufferevent at hr
      split at hr
      · obtain ⟨l, -, rfl⟩ := Option.map_eq_some_iff.mp hr
        rfl
      · cases hr
  | arrive bev chunk =>
    obtain ⟨-, r, hr, -⟩ := hen
    simp only [input_modify, eq_comm (a := b)]
    by_cases hb : bev = b
    · subst hb
      simp [World.buffereventInput, Option.mem_def.mp hr]
    · simp [World.buffereventInput, hb]
  | readcb bev ok | writecb bev ok => exact hclear bev ok
  | event bev what =>
    simp only [input_modify, ite_self]
    rfl
  | destroy => exact absurd rfl ha
  | _ => rfl

/-- A read callback that gets its buffer delivers all the bytes there are. -/
theorem readcb_payload {cb : AutoTestInterfaceCallback} (hcb : s.world.ati.mCallback = some cb)
    (bev : Handle) (ok : Bool) :
    (effect inetAddr s (.readcb bev ok)).2.flatMap payload =
      if ok then s.world.buffereventInput bev else [] := by
  have hos (body : List OsCall) : (body.map Call.os).flatMap payload = [] := by simp [payload]
  rw [readcb_outputs inetAddr hcb]
  by_cases hin : s.world.buffereventInput bev = []
  · cases ok <;> simp [hin]
  · cases ok with
    | false => simp [hin, payload]
    | true => simp [hin, payload, hos]

/-- The ledger of one step: only a write callback that drains bytes takes some without
delivering them. -/
theorem balance_iff {cb : AutoTestInterfaceCallback} (hcb : s.world.ati.mCallback = some cb)
    {t : Sys ι} {a : Action} {out : List Call} (hen : Enabled s a) (ha : a ≠ .destroy)
    (heff : effect inetAddr s a = (t, out)) (b : Handle) (hist : List (Step ι)) :
    delivered b [⟨s, a, out, t⟩] ++ t.world.buffereventInput b =
        s.world.buffereventInput b ++ arrived b [⟨s, a, out, t⟩] ↔
      DrainsNothing b hist ⟨s, a, out, t⟩ := by
  have hinput := effect_input inetAddr hen ha b
  rw [heff] at hinput
  rw [hinput]
  cases a with
  | arrive bev chunk =>
    by_cases hb : bev = b <;> simp [delivered, arrived, DrainsNothing, hb]
  | readcb bev ok =>
    have hpayload := readcb_payload inetAddr hcb bev ok
    rw [heff] at hpayload
    by_cases hb : bev = b
    · subst hb
      cases ok <;> simp [delivered, arrived, DrainsNothing, hpayload]
    · cases ok <;> simp [delivered, arrived, DrainsNothing, hb]
  | writecb bev ok =>
    by_cases hb : bev = b
    · subst hb
      cases ok <;> simp [delivered, arrived, DrainsNothing]
    · cases ok <;> simp [delivered, arrived, DrainsNothing, hb]
  | destroy => exact absurd rfl ha
  | _ => simp [delivered, arrived, DrainsNothing]

/-- What holds as long as no byte was lost. -/
structure Balanced (b : Handle) (hist : List (Step ι)) (s : Sys ι) : Prop where
  callback : ∃ cb, s.world.ati.mCallback = some cb
  balance : delivered b hist ++ s.world.buffereventInput b = arrived b hist

/-- In every run, for every connection, what was delivered followed by what is still in the
input buffer is after each step what arrived, exactly when no write callback of the connection
drained bytes. -/
theorem received_bytes_iff {me : ι} {cls : CallbackClass} {ip : CString} {port : UInt32}
    {mode : ℤ} {fds : FdTable ι} {tr : List (Step ι)} {t : Sys ι}
    (h : (interfaceMachine inetAddr).Trace
      (.initial me (.configured cls ip port mode) fds) tr t) (b : Handle) :
    Every (Intact b) tr ↔ Every (DrainsNothing b) tr := by
  have hiff {hist : List (Step ι)} {s u : Sys ι} {a : Action} {out : List Call}
      (hinv : s.destroyed = false → Balanced b hist s)
      (hs : (interfaceMachine inetAddr).step s a = some (u, out)) :
      Intact b hist ⟨s, a, out, u⟩ ↔ DrainsNothing b hist ⟨s, a, out, u⟩ := by
    obtain ⟨hen, heff⟩ := (interfaceMachine_step inetAddr).mp hs
    have hdestroyed := effect_destroyed inetAddr s a
    rw [heff] at hdestroyed
    cases hd : u.destroyed with
    | true =>
      rw [hd, Eq.comm, Bool.or_eq_true, decide_eq_true_iff] at hdestroyed
      simp only [Intact, hd, Bool.true_eq_false, false_imp_iff, true_iff]
      cases a with
      | writecb =>
        rcases hdestroyed with hgone | hgone
        · exact absurd hen.1 (by simp [hgone])
        · cases hgone
      | _ => trivial
    | false =>
      rw [hd, Eq.comm, Bool.or_eq_false_iff, decide_eq_false_iff_not] at hdestroyed
      obtain ⟨⟨cb, hcb⟩, hbalance⟩ := hinv hdestroyed.1
      rw [← balance_iff inetAddr hcb hen hdestroyed.2 heff b hist]
      simp only [Intact, hd, forall_const, delivered_snoc, arrived_snoc, ← hbalance,
        List.append_assoc, List.append_cancel_left_eq]
  refine h.every_iff_of_guarded (I := fun hist s => s.destroyed = false → Balanced b hist s)
    (fun _ => ⟨⟨.new cls, rfl⟩, rfl⟩) ?_ (fun _ _ _ _ _ => hiff)
  intro hist s a out u hinv hG hs hd
  obtain ⟨hen, heff⟩ := (interfaceMachine_step inetAddr).mp hs
  have hdestroyed := effect_destroyed inetAddr s a
  have hcallback := effect_mCallback inetAddr s a
  rw [heff] at hdestroyed hcallback
  rw [hd, Eq.comm, Bool.or_eq_false_iff, decide_eq_false_iff_not] at hdestroyed
  obtain ⟨cb, hcb⟩ := (hinv hdestroyed.1).callback
  refine ⟨?_, (hiff hinv hs).mpr hG hd⟩
  rw [hcallback, hcb]
  cases a with
  | event bev what =>
    by_cases hc : hasFlag what bevEventConnected = true
    · exact ⟨_, if_pos hc⟩
    · exact ⟨_, if_neg hc⟩
  | destroy => exact absurd rfl hdestroyed.2
  | _ => exact ⟨_, rfl⟩

section Runs

/-- A read callback that gets no buffer leaves the bytes to the next one. -/
def readAgain : List Action :=
  serverStarted ++ [.accept 1 5 true, .arrive 2 [65, 0], .readcb 2 false, .arrive 2 [66],
    .readcb 2 true, .writecb 2 true]

theorem readAgain_intact :
    ∃ tr t, (interfaceMachine fun _ => 0).run .server readAgain = some (tr, t) ∧
      Every (Intact 2) tr := by
  have hdrains : ∃ tr t, (interfaceMachine fun _ => 0).run .server readAgain = some (tr, t) ∧
      Every (DrainsNothing 2) tr := Machine.run_satisfies (by decide +kernel)
  obtain ⟨tr, t, hr, hdrains⟩ := hdrains
  exact ⟨tr, t, hr, (received_bytes_iff _ (Machine.run_trace hr) 2).mpr hdrains⟩

/-- A write callback runs while bytes wait for the read callback. -/
def writeCallbackFirst : List Action :=
  serverStarted ++ [.accept 1 5 true, .arrive 2 [65], .writecb 2 true]

/-- The byte is gone. -/
theorem writeCallbackFirst_not_intact :
    ∃ tr t, (interfaceMachine fun _ => 0).run .server writeCallbackFirst = some (tr, t) ∧
      ¬ Every (Intact 2) tr :=
  Machine.run_not_every (by decide +kernel)

end Runs
end AutoTest.ReceivedBytes
