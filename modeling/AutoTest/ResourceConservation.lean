import AutoTest.ResourceAccounts

/-!
# Releasing what was acquired

A resource can be released as long as a field of the interface refers to it, or a local variable
of a worker that is going to be stored in a field. What nobody refers to is lost: the destructor
releases what the fields refer to, and nothing else.
-/

namespace AutoTest.ResourceConservation

open OutputMachines ReleaseLedgers ThreadPools
open Resource (atBase atListener atBufferevent)

variable {ι : Type*}

/-- The calls of a run, in order. -/
def callsOf (tr : List (Step ι)) : List Call := tr.flatMap Transition.outputs

/-- All that was created was released exactly once, each bufferevent before its base. -/
structure Conserved (log : List Call) : Prop where
  releasedOnce : callEffects.ReleasedOnce log
  buffereventFirst : ∀ base fd bev,
    .event (.buffereventSocketNew (some base) fd (some bev)) ∈ log →
      ∀ pre post, log.filterMap callEffects.released = pre ++ .base base :: post →
        .bufferevent bev ∈ pre

/-- The points of a worker that allocate, bind or connect. -/
def acquires : WorkerPc → Bool
  | .serverEntry | .serverBind _ _ | .clientBaseNew _ _ | .clientSocketNew _ _ _
  | .clientConnect _ _ _ => true
  | _ => false

/-- Every allocation, bind and connect succeeds. -/
def Succeeds (_ : List (Step ι)) (x : Step ι) : Prop :=
  match x.action with
  | .worker k o => ∀ pc ∈ x.source.workers[k]?, acquires pc → o.ok = true
  | .accept _ _ ok | .readcb _ ok | .writecb _ ok => ok = true
  | _ => True

/-- What a field refers to just before a worker stores another pointer there. -/
def overwritten (a : AutoTestInterface) : WorkerPc → List Resource
  | .serverPublishBase _ _ => atBase a.serverBase
  | .serverPublishListener _ _ => atListener a.mBaselistener
  | .clientPublishBase _ _ => atBase a.clientBase
  | .clientPublishConn _ _ => atBufferevent a.conn
  | _ => []

/-- No connection is accepted, no write callback runs, and no worker stores a pointer in a field
that still refers to what an earlier worker acquired. -/
def NothingLost (_ : List (Step ι)) (x : Step ι) : Prop :=
  match x.action with
  | .accept _ _ _ | .writecb _ _ => False
  | .worker k _ => ∀ pc ∈ x.source.workers[k]?, overwritten x.source.world.ati pc = []
  | _ => True

instance (hist : List (Step ι)) (x : Step ι) : Decidable (Succeeds hist x) := by
  rcases x with ⟨s, _ | _, out, t⟩ <;> dsimp only [Succeeds] <;> infer_instance

instance (hist : List (Step ι)) (x : Step ι) : Decidable (NothingLost hist x) := by
  rcases x with ⟨s, _ | _, out, t⟩ <;> dsimp only [NothingLost] <;> infer_instance

section Workers

/-- What the local variables of a worker refer to that it has not stored yet. -/
def carried : WorkerPc → List Resource
  | .serverBind _ base | .clientSocketNew _ _ base => atBase base
  | .serverSetErrorCb base listener => atBase base ++ atListener listener
  | .serverPublishBase base listener => atBase base ++ atListener (some listener)
  | .serverPublishListener _ listener => atListener (some listener)
  | .clientConnect _ base conn | .clientSetcb base conn | .clientEnable base conn
  | .clientPublishBase base conn => atBase base ++ atBufferevent conn
  | .clientPublishConn _ conn => atBufferevent conn
  | _ => []

/-- The calls a worker made so far succeeded, as far as the next step depends on it. -/
def Acquired : WorkerPc → Prop
  | .serverBind _ base | .clientSocketNew _ _ base => base.isSome
  | .serverSetErrorCb _ listener => listener.isSome
  | .clientConnect _ _ conn => conn.isSome
  | _ => True

variable (inetAddr : CString → UInt32) (w : World ι) {pc : WorkerPc} {o : Outcome}

theorem workerStep_acquired (hpc : Acquired pc) (ho : acquires pc → o.ok = true) :
    ∀ pc' ∈ (workerStep inetAddr w pc o).1, Acquired pc' := by
  cases pc with
  | serverEntry | clientBaseNew => simp [workerStep, Acquired, World.eventBaseNew, ho rfl]
  | serverBind addr base =>
    obtain ⟨b, rfl⟩ := Option.isSome_iff_exists.mp hpc
    simp [workerStep, Acquired, World.evconnlistenerNewBind, ho rfl]
  | serverSetErrorCb base listener => cases listener <;> simp [workerStep, Acquired]
  | clientEntry => simp [workerStep, Acquired]
  | clientSocketNew addr fd base =>
    obtain ⟨b, rfl⟩ := Option.isSome_iff_exists.mp hpc
    simp [workerStep, Acquired, World.buffereventSocketNew, ho rfl]
  | clientConnect addr base conn =>
    intro pc' hpc'
    simp only [workerStep] at hpc'
    split at hpc' <;> cases hpc' <;> trivial
  | _ => simp [workerStep, Acquired]

/-- A worker step keeps track of everything but what it overwrites. -/
theorem workerStep_live (hpc : Acquired pc) (ho : acquires pc → o.ok = true) (r : Resource) :
    (workerStep inetAddr w pc o).2.heap.live r + w.ati.stored.count r + (carried pc).count r =
      w.heap.live r + (workerStep inetAddr w pc o).2.ati.stored.count r +
        ((workerStep inetAddr w pc o).1.toList.flatMap carried).count r +
        (overwritten w.ati pc).count r := by
  cases pc with
  | serverEntry | clientBaseNew =>
    simp [workerStep, World.eventBaseNew, Heap.live_addBase, ho rfl, carried, overwritten]
    omega
  | serverBind addr base =>
    obtain ⟨b, rfl⟩ := Option.isSome_iff_exists.mp hpc
    simp [workerStep, World.evconnlistenerNewBind, Heap.live_addListener, ho rfl, carried,
      overwritten]
    omega
  | serverSetErrorCb base listener =>
    obtain ⟨l, rfl⟩ := Option.isSome_iff_exists.mp hpc
    simp [workerStep, World.evconnlistenerSetErrorCb, World.emit, carried, overwritten]
  | clientEntry =>
    simp only [workerStep]
    generalize (if o.ok then o.fd else -1) = fd
    by_cases h : -1 = fd <;> simp [World.socket, carried, overwritten, h]
  | clientSocketNew addr fd base =>
    obtain ⟨b, rfl⟩ := Option.isSome_iff_exists.mp hpc
    simp [workerStep, World.buffereventSocketNew, Heap.live_addBufferevent, ho rfl, carried,
      overwritten]
    omega
  | clientConnect addr base conn =>
    obtain ⟨b, rfl⟩ := Option.isSome_iff_exists.mp hpc
    simp [workerStep, World.buffereventSocketConnect, Heap.live_modify, ho rfl, carried,
      overwritten]
  | _ =>
    simp [workerStep, World.buffereventSetcb, World.buffereventEnable, World.eventBaseDispatch,
      World.emit, AutoTestInterface.onStop, AutoTestInterface.stored, carried, overwritten]
    try omega

end Workers

section Callbacks

variable (w : World ι)

theorem readcb_live (bev : Handle) (mallocOk : Bool) (r : Resource) :
    (autoTestOnReadcb w bev true mallocOk).heap.live r = w.heap.live r := by
  by_cases hinput : w.buffereventInput bev = []
  · rw [autoTestOnReadcb_empty hinput]
  · cases mallocOk with
    | false =>
      rw [autoTestOnReadcb_noMemory hinput]
      simp [World.malloc, Heap.live_addBuffer, Resource.atBuffer]
    | true =>
      cases hcb : w.ati.mCallback with
      | none =>
        rw [autoTestOnReadcb_noCallback hinput hcb]
        simp [World.free, World.evbufferRemove, World.malloc, Heap.live_removeBuffer,
          Heap.live_modify, Heap.live_addBuffer, Resource.atBuffer]
      | some cb =>
        rw [autoTestOnReadcb_delivers hinput hcb]
        simp [World.free, World.invoke, World.evbufferRemove, World.malloc,
          Heap.live_removeBuffer, Heap.live_modify, Heap.live_addBuffer, Resource.atBuffer]

/-- The buffer of a write callback stays allocated. -/
theorem writecb_live (bev : Handle) (r : Resource) :
    (autoTestWriteCb w bev true true).heap.live r =
      w.heap.live r + [Resource.buffer w.heap.fresh].count r := by
  rw [autoTestWriteCb_drains]
  simp [World.malloc, World.evbufferRemove, Heap.live_modify, Heap.live_addBuffer,
    Resource.atBuffer]

/-- The bufferevent of an accepted connection is stored nowhere. -/
theorem accept_live {listener : Handle} {l : Evconnlistener}
    (hl : w.heap.listeners listener = some l) (fd : Fd) (r : Resource) :
    (serverOnAccept w listener fd true true).heap.live r =
      w.heap.live r + [Resource.bufferevent w.heap.fresh].count r := by
  have hrest (v : World ι) (hv : v.heap = w.heap) :
      ((v.evconnlistenerGetBase (some listener)).2.buffereventSocketNew (some l.base) fd
        true).2.heap.live r = w.heap.live r + [Resource.bufferevent w.heap.fresh].count r := by
    simp [World.buffereventSocketNew, World.evconnlistenerGetBase, World.emit,
      Heap.live_addBufferevent, atBufferevent, hv]
  cases hcb : w.ati.mCallback with
  | none =>
    rw [serverOnAccept_noCallback hcb, hl]
    exact hrest w rfl
  | some cb =>
    rw [serverOnAccept_eq hcb, hl]
    exact hrest _ rfl

end Callbacks

section Steps

variable [DecidableEq ι] (inetAddr : CString → UInt32)

/-- What can still be released. -/
def owned (s : Sys ι) : List Resource := s.world.ati.stored ++ s.workers.flatMap carried

/-- What is allocated and cannot be released any more. -/
def debt (s : Sys ι) (r : Resource) : ℕ := s.world.heap.live r - (owned s).count r

/-- Whatever can be released is allocated, and can be released from one place only. -/
structure Sound (s : Sys ι) : Prop where
  held : ∀ r, (owned s).count r ≤ s.world.heap.live r
  acquired : ∀ pc ∈ s.workers, Acquired pc
  ended : s.destroyed = true → owned s = []

/-- What an action leaves allocated without anyone to release it. -/
def lost (s : Sys ι) : Action → List Resource
  | .worker k _ => match s.workers[k]? with
    | some pc => overwritten s.world.ati pc
    | none => []
  | .accept _ _ _ => [.bufferevent s.world.heap.fresh]
  | .writecb _ _ => [.buffer s.world.heap.fresh]
  | _ => []

omit [DecidableEq ι] in
theorem nothingLost_iff (hist : List (Step ι)) (x : Step ι) :
    NothingLost hist x ↔ lost x.source x.action = [] := by
  unfold NothingLost lost
  cases x.action with
  | worker k o => cases hk : x.source.workers[k]? <;> simp [hk]
  | _ => simp

/-- Only workers and the destructor change what can be released. -/
theorem owned_kept {s t : Sys ι} {a : Action} {out : List Call}
    (heff : effect inetAddr s a = (t, out)) (hworker : ∀ k o, a ≠ .worker k o)
    (hdestroy : a ≠ .destroy) (r : Resource) : (owned t).count r = (owned s).count r := by
  have hati := effect_ati inetAddr s a
  have hworkers := effect_workers inetAddr s a
  rw [heff] at hati hworkers
  cases a with
  | start created =>
    have hstored : t.world.ati.stored = s.world.ati.stored := by
      rw [hati]
      simp only [atiAfter]
      split <;> rfl
    have hnew : ∀ pc ∈ (start { s.world with calls := [] } created).2.1, carried pc = [] := by
      intro pc hpc
      rcases start_entry _ hpc with rfl | rfl <;> rfl
    dsimp only at hworkers
    simp only [owned, hstored, hworkers, List.flatMap_append, List.count_append]
    cases hpc : (start { s.world with calls := [] } created).2.1 with
    | none => simp
    | some pc => simp [hnew pc hpc]
  | worker k o => exact absurd rfl (hworker k o)
  | destroy => exact absurd rfl hdestroy
  | event bev what =>
    have hstored : t.world.ati.stored = s.world.ati.stored := by
      rw [hati]
      simp only [atiAfter]
      split <;> rfl
    rw [owned, hstored, hworkers, owned]
  | _ =>
    have hstored : t.world.ati.stored = s.world.ati.stored := by
      rw [hati]
      rfl
    rw [owned, hstored, hworkers, owned]

/-- Every action but the destructor: what can be released changes with what is allocated, but
for what is lost. -/
theorem effect_live {s t : Sys ι} {a : Action} {out : List Call} (hsound : Sound s)
    (hen : Enabled s a) (heff : effect inetAddr s a = (t, out)) (hist : List (Step ι))
    (hok : Succeeds hist ⟨s, a, out, t⟩) (ha : a ≠ .destroy) (r : Resource) :
    t.world.heap.live r + (owned s).count r =
      s.world.heap.live r + (owned t).count r + (lost s a).count r := by
  by_cases hworker : ∃ k o, a = .worker k o
  · obtain ⟨k, o, rfl⟩ := hworker
    obtain ⟨-, pc, hk, -⟩ := hen
    have hk' : s.workers[k]? = some pc := hk
    have hlive := workerStep_live inetAddr { s.world with calls := [] }
      (hsound.acquired pc (List.mem_of_getElem? hk')) (hok pc hk) r
    have hpool := count_flatMap_setThread carried hk'
      (workerStep inetAddr { s.world with calls := [] } pc o).1 r
    simp only [effect, hk'] at heff
    cases heff
    simp only [owned, lost, hk', List.count_append] at hlive hpool ⊢
    omega
  · have hworker' (k : ℕ) (o : Outcome) : a ≠ .worker k o := fun h => hworker ⟨k, o, h⟩
    rw [owned_kept inetAddr heff hworker' ha r]
    suffices hlive : t.world.heap.live r = s.world.heap.live r + (lost s a).count r by omega
    cases a with
    | start created =>
      obtain rfl := (Prod.mk.inj heff).1
      have hheap := (start_kept { s.world with calls := [] } created).2.1
      exact congrFun (congrArg Heap.live hheap) r
    | worker k o => exact absurd rfl (hworker' k o)
    | accept listener fd bevOk =>
      obtain ⟨-, ⟨l, hl, -⟩, -⟩ := hen
      cases hok
      obtain rfl := (Prod.mk.inj heff).1
      exact accept_live (World.setFds { s.world with calls := [] } fd
        (some (.connection s.world.me))) hl fd r
    | arrive bev chunk =>
      obtain rfl := (Prod.mk.inj heff).1
      exact Heap.live_modify _ _ _ r
    | readcb bev mallocOk =>
      obtain rfl := (Prod.mk.inj heff).1
      exact readcb_live _ bev mallocOk r
    | writecb bev mallocOk =>
      cases hok
      obtain rfl := (Prod.mk.inj heff).1
      exact writecb_live _ bev r
    | event bev what =>
      obtain rfl := (Prod.mk.inj heff).1
      simp only [autoTestEventCb_heap]
      exact Heap.live_modify _ _ _ r
    | listenerError listener err =>
      obtain rfl := (Prod.mk.inj heff).1
      simp only [serverEvconnlistenerErrorcb]
      cases hcb : s.world.ati.mCallback <;> rfl
    | writeMessage msg len ret =>
      obtain rfl := (Prod.mk.inj heff).1
      simp only [writeMessage]
      cases hcb : s.world.ati.mCallback <;> rfl
    | destroy => exact absurd rfl ha
    | openOther fd | closeOther fd =>
      obtain rfl := (Prod.mk.inj heff).1
      rfl

/-- The destructor releases whatever can be released: no worker is left. -/
theorem destroy_owned {s t : Sys ι} {out : List Call} (hen : Enabled s .destroy)
    (heff : effect inetAddr s .destroy = (t, out)) :
    owned s = s.world.ati.stored ∧ owned t = [] ∧
      ∀ r, t.world.heap.live r = s.world.heap.live r - (owned s).count r := by
  have hati := effect_ati inetAddr s .destroy
  have hworkers := effect_workers inetAddr s .destroy
  rw [heff] at hati hworkers
  have hnone : s.workers = [] := hen.2
  have howned : owned s = s.world.ati.stored := by simp [owned, hnone]
  refine ⟨howned, ?_, fun r => ?_⟩
  · rw [owned, hworkers, hati]
    simp only [hnone]
    rfl
  · rw [howned]
    obtain rfl := (Prod.mk.inj heff).1
    exact destroy_live { s.world with calls := [] } r

omit [DecidableEq ι] in
theorem sound_initial (me : ι) (cb : Option AutoTestInterfaceCallback) (ip : CString)
    (port : UInt32) (mode : ℤ) (fds : FdTable ι) :
    Sound (.initial me (.initialised cb ip port mode) fds) where
  held _ := Nat.zero_le _
  acquired := fun _ h => absurd h List.not_mem_nil
  ended := fun h => by cases h

theorem sound_step {s t : Sys ι} {a : Action} {out : List Call} (hsound : Sound s)
    (hen : Enabled s a) (heff : effect inetAddr s a = (t, out)) {hist : List (Step ι)}
    (hok : Succeeds hist ⟨s, a, out, t⟩) : Sound t := by
  have hworkers := effect_workers inetAddr s a
  have hdestroyed := effect_destroyed inetAddr s a
  rw [heff] at hworkers hdestroyed
  by_cases ha : a = .destroy
  · subst ha
    obtain ⟨-, hnone, -⟩ := destroy_owned inetAddr hen heff
    refine ⟨fun r => by simp [hnone], fun pc hpc => ?_, fun _ => hnone⟩
    have hempty : s.workers = [] := hen.2
    rw [hworkers] at hpc
    simp [hempty] at hpc
  · refine ⟨fun r => ?_, fun pc hpc => ?_, fun hend => ?_⟩
    · have hlive := effect_live inetAddr hsound hen heff hist hok ha r
      have hheld := hsound.held r
      omega
    · rw [hworkers] at hpc
      cases a with
      | start created =>
        rcases List.mem_append.mp hpc with hold | hnew
        · exact hsound.acquired pc hold
        · rcases start_entry _ (Option.mem_toList.mp hnew) with rfl | rfl <;> trivial
      | worker k o =>
        obtain ⟨-, pc₀, hk, -⟩ := hen
        have hk' : s.workers[k]? = some pc₀ := hk
        simp only [hk'] at hpc
        rcases mem_setThread hk' hpc with hold | hnext
        · exact hsound.acquired pc hold
        · exact workerStep_acquired inetAddr _ (hsound.acquired pc₀ (List.mem_of_getElem? hk'))
            (hok pc₀ hk) pc hnext
      | _ => exact hsound.acquired pc hpc
    · have hbefore : s.destroyed = true := by simpa [ha] using hdestroyed.symm.trans hend
      have hnone := hsound.ended hbefore
      obtain ⟨fd, rfl | rfl⟩ := enabled_of_destroyed s hen hbefore
      · obtain rfl := (Prod.mk.inj heff).1
        exact hnone
      · obtain rfl := (Prod.mk.inj heff).1
        exact hnone

/-- What is lost is never regained. -/
theorem debt_step {s t : Sys ι} {a : Action} {out : List Call} (hsound : Sound s)
    (hen : Enabled s a) (heff : effect inetAddr s a = (t, out)) {hist : List (Step ι)}
    (hok : Succeeds hist ⟨s, a, out, t⟩) (r : Resource) :
    debt t r = debt s r + (lost s a).count r := by
  have hheld := hsound.held r
  have hheld' := (sound_step inetAddr hsound hen heff hok).held r
  by_cases ha : a = .destroy
  · subst ha
    obtain ⟨-, hnone, hlive⟩ := destroy_owned inetAddr hen heff
    simp [debt, hnone, hlive, lost]
  · have hlive := effect_live inetAddr hsound hen heff hist hok ha r
    unfold debt
    omega

/-- No bufferevent is released after a base. -/
def BasesLast (x y : Resource) : Prop := ∀ b, x = .base b → ∀ bev, y ≠ .bufferevent bev

theorem stored_basesLast (a : AutoTestInterface) : a.stored.Pairwise BasesLast := by
  unfold AutoTestInterface.stored
  cases a.conn <;> cases a.mBaselistener <;> cases a.serverBase <;> cases a.clientBase <;>
    simp [atBufferevent, atListener, atBase, BasesLast]

/-- What the books say after a run: they agree with the heap, and bases are released last. -/
structure Books (hist : List (Step ι)) (s : Sys ι) : Prop where
  sound : Sound s
  booked : World.Booked (callsOf hist) { s.world with calls := [] }
  basesLast : ((callsOf hist).filterMap callEffects.released).Pairwise BasesLast
  basesAlive : s.destroyed = false → ∀ b, .base b ∉ (callsOf hist).filterMap callEffects.released

omit [DecidableEq ι] in
theorem callsOf_snoc (hist : List (Step ι)) (x : Step ι) :
    callsOf (hist ++ [x]) = callsOf hist ++ x.outputs := by
  simp [callsOf]

omit [DecidableEq ι] in
theorem books_initial (me : ι) (cb : Option AutoTestInterfaceCallback) (ip : CString)
    (port : UInt32) (mode : ℤ) (fds : FdTable ι) :
    Books [] (.initial me (.initialised cb ip port mode) fds) where
  sound := sound_initial me cb ip port mode fds
  booked := by
    refine ⟨?_, fun r hr => absurd hr (lt_irrefl 0)⟩
    have hlive : Heap.empty.live = fun _ => 0 := funext Heap.live_empty
    exact hlive ▸ Effects.Ledger.nil
  basesLast := .nil
  basesAlive _ _ := List.not_mem_nil

theorem books_step {hist : List (Step ι)} {s t : Sys ι} {a : Action} {out : List Call}
    (h : Books hist s) (hen : Enabled s a) (heff : effect inetAddr s a = (t, out))
    (hok : Succeeds hist ⟨s, a, out, t⟩) : Books (hist ++ [⟨s, a, out, t⟩]) t := by
  have hsound := sound_step inetAddr h.sound hen heff hok
  have hdestroyed := effect_destroyed inetAddr s a
  rw [heff] at hdestroyed
  by_cases ha : a = .destroy
  · subst ha
    obtain ⟨howned, -, -⟩ := destroy_owned inetAddr hen heff
    have hheld (r : Resource) : s.world.ati.stored.count r ≤ s.world.heap.live r :=
      howned ▸ h.sound.held r
    have hbooked := (destroy_booked h.booked hheld).returned
    have hreleased := destroy_released { s.world with calls := [] } rfl
    cases heff
    refine ⟨hsound, ?_, ?_, fun hfalse => by cases hfalse⟩
    · rw [callsOf_snoc]
      exact hbooked
    · rw [callsOf_snoc, List.filterMap_append]
      refine List.pairwise_append.mpr ⟨h.basesLast, ?_, ?_⟩
      · exact hreleased ▸ stored_basesLast _
      · rintro x hx y - b rfl
        exact absurd hx (h.basesAlive hen.1 b)
  · obtain ⟨hbooked, hcalls⟩ :=
      (World.Booked.keptByCalls (callsOf hist)).effect inetAddr h.booked hen heff ha
    obtain ⟨hbuffers, -⟩ := World.ReleasesBuffers.keptByCalls.effect inetAddr
      (fun c hc => absurd hc List.not_mem_nil) hen heff ha
    have hreleased : ∀ r ∈ out.filterMap callEffects.released, ∃ p, r = .buffer p := by
      intro r hr
      obtain ⟨c, hc, hcr⟩ := List.mem_filterMap.mp hr
      exact hbuffers c (hcalls ▸ hc) r hcr
    refine ⟨hsound, ?_, ?_, fun hlive b hb => ?_⟩
    · rw [callsOf_snoc]
      exact hcalls ▸ hbooked.returned
    · rw [callsOf_snoc, List.filterMap_append]
      refine List.pairwise_append.mpr ⟨h.basesLast, ?_, ?_⟩
      · refine List.pairwise_of_forall_mem_list fun x _ y hy b _ bev => ?_
        obtain ⟨p, rfl⟩ := hreleased y hy
        exact fun hbev => by cases hbev
      · intro x _ y hy b _ bev
        obtain ⟨p, rfl⟩ := hreleased y hy
        exact fun hbev => by cases hbev
    · rw [callsOf_snoc, List.filterMap_append] at hb
      rcases List.mem_append.mp hb with hold | hnew
      · have hbefore : s.destroyed = false := by simpa [ha] using hdestroyed.symm.trans hlive
        exact h.basesAlive hbefore b hold
      · obtain ⟨p, hp⟩ := hreleased _ hnew
        cases hp

omit [DecidableEq ι] in
/-- Once everything is released, each bufferevent was released before its base. -/
theorem Books.conserved {hist : List (Step ι)} {s : Sys ι} (h : Books hist s)
    (honce : callEffects.ReleasedOnce (callsOf hist)) : Conserved (callsOf hist) := by
  refine ⟨honce, fun base fd bev hnew pre post hsplit => ?_⟩
  have hcreated : Resource.bufferevent bev ∈ (callsOf hist).filterMap callEffects.created :=
    List.mem_filterMap.mpr ⟨_, hnew, rfl⟩
  have hreleased : Resource.bufferevent bev ∈ (callsOf hist).filterMap callEffects.released := by
    have hone := honce _ hcreated
    have hpos : 0 < callEffects.releasedIn (callsOf hist) (.bufferevent bev) := by
      rw [hone]
      exact Nat.one_pos
    exact List.count_pos_iff.mp hpos
  have hlast := h.basesLast
  rw [hsplit] at hreleased hlast
  rcases List.mem_append.mp hreleased with hpre | hpost
  · exact hpre
  · rcases List.mem_cons.mp hpost with heq | hpost
    · cases heq
    · obtain ⟨-, hbase, -⟩ := List.pairwise_append.mp hlast
      exact absurd rfl ((List.pairwise_cons.mp hbase).1 _ hpost base rfl bev)

end Steps

variable [DecidableEq ι] (inetAddr : CString → UInt32)

/-- Take any run of one interface, with a callback object or without, in which every allocation,
bind and connect succeeds, from its set-up to its destructor: any number of restarts, connections
and callbacks, in any order. All it created was released exactly once, each bufferevent before its
base, exactly when no connection was accepted, no write callback ran, and no field that still
referred to something was overwritten. -/
theorem conserved_iff {me : ι} {cb : Option AutoTestInterfaceCallback} {ip : CString}
    {port : UInt32} {mode : ℤ} {fds : FdTable ι} {tr : List (Step ι)} {t : Sys ι}
    (h : (interfaceMachine inetAddr).Trace (.initial me (.initialised cb ip port mode) fds) tr t)
    (hok : Every Succeeds tr) (hend : t.destroyed = true) :
    Conserved (callsOf tr) ↔ Every NothingLost tr := by
  have hbooks : Books tr t := by
    refine h.guarded_invariant (I := Books) hok (books_initial me cb ip port mode fds) ?_
    intro tr t a out u hI hx hs
    obtain ⟨hen, heff⟩ := (interfaceMachine_step inetAddr).mp hs
    exact books_step inetAddr hI hen heff hx
  have hsteps : Every (fun hist x => debt x.source ≤ debt x.target ∧
      (debt x.target = debt x.source ↔ NothingLost hist x)) tr := by
    refine h.every_of_guarded (I := fun _ s => Sound s) hok
      (sound_initial me cb ip port mode fds) ?_ ?_
    · intro tr t a out u hI hx hs
      obtain ⟨hen, heff⟩ := (interfaceMachine_step inetAddr).mp hs
      exact sound_step inetAddr hI hen heff hx
    · intro tr t a out u hI hx hs
      obtain ⟨hen, heff⟩ := (interfaceMachine_step inetAddr).mp hs
      have hdebt := debt_step inetAddr hI hen heff hx
      rw [nothingLost_iff]
      refine ⟨fun r => by rw [hdebt]; exact Nat.le_add_right _ _, ?_⟩
      constructor
      · intro hsame
        refine List.eq_nil_iff_forall_not_mem.mpr fun r hr => ?_
        have hpos := List.count_pos_iff.mpr hr
        have hr' := congrFun hsame r
        rw [hdebt] at hr'
        dsimp only at hr' hpos
        omega
      · intro hnone
        dsimp only at hnone
        funext r
        rw [hdebt, hnone, List.count_nil, Nat.add_zero]
  have hdebt : debt t = debt (.initial me (.initialised cb ip port mode) fds) ↔
      Every NothingLost tr :=
    (h.constant_iff (hsteps.mono fun _ _ hx => hx.1)).trans
      (Every.congr (hsteps.mono fun _ _ hx => hx.2))
  have hall : debt t = debt (.initial me (.initialised cb ip port mode) fds) ↔
      ∀ r, t.world.heap.live r = 0 := by
    have howned := hbooks.sound.ended hend
    have hbefore (r : Resource) : debt (.initial me (.initialised cb ip port mode) fds) r = 0 := by
      simp [debt, Sys.initial]
    have hafter (r : Resource) : debt t r = t.world.heap.live r := by simp [debt, howned]
    simp only [funext_iff, hbefore, hafter]
  have hledger := hbooks.booked.ledger.releasedOnce_iff
  rw [List.append_nil] at hledger
  rw [← hdebt, hall, ← hledger]
  exact ⟨fun hc => hc.releasedOnce, hbooks.conserved⟩

section Runs

/-- A client connects, reads what arrives, and is destroyed after the other side is gone. -/
def clientSession : List Action :=
  clientStarted 3 ++ [.event 1 bevEventConnected, .arrive 1 [104, 105], .readcb 1 true,
    .event 1 bevEventEof, .worker 0 ⟨true, 0⟩, .worker 0 ⟨true, 0⟩, .destroy]

theorem clientSession_conserved :
    ∃ tr t, (interfaceMachine fun _ => 0).run .client clientSession = some (tr, t) ∧
      Conserved (callsOf tr) := by
  have hrun : ∃ tr t, (interfaceMachine fun _ => 0).run .client clientSession = some (tr, t) ∧
      t.destroyed = true ∧ Every Succeeds tr ∧ Every NothingLost tr :=
    Machine.run_satisfies (by decide +kernel)
  obtain ⟨tr, t, hr, hend, hok, hkept⟩ := hrun
  exact ⟨tr, t, hr, (conserved_iff _ (Machine.run_trace hr) hok hend).mpr hkept⟩

/-- A server has one connection and is destroyed after its worker has ended. -/
def serverSession : List Action :=
  serverStarted ++ [.accept 1 4 true, .worker 0 ⟨true, 0⟩, .worker 0 ⟨true, 0⟩, .destroy]

/-- A client is started again after its worker has ended, and destroyed in the end. -/
def clientReconnects : List Action :=
  clientStarted 3 ++ [.worker 0 ⟨true, 0⟩, .worker 0 ⟨true, 0⟩] ++ clientStarted 4 ++
    [.worker 0 ⟨true, 0⟩, .worker 0 ⟨true, 0⟩, .destroy]

/-- The accepted connection is never released, nor are the first base and connection of a client
that reconnects. -/
theorem sessions_not_conserved :
    (∃ tr t, (interfaceMachine fun _ => 0).run .server serverSession = some (tr, t) ∧
        t.destroyed = true ∧ Every Succeeds tr ∧ ¬ Conserved (callsOf tr)) ∧
      ∃ tr t, (interfaceMachine fun _ => 0).run .client clientReconnects = some (tr, t) ∧
        t.destroyed = true ∧ Every Succeeds tr ∧ ¬ Conserved (callsOf tr) := by
  constructor
  · have hrun : ∃ tr t, (interfaceMachine fun _ => 0).run .server serverSession = some (tr, t) ∧
        t.destroyed = true ∧ Every Succeeds tr ∧ ¬ callEffects.ReleasedOnce (callsOf tr) :=
      Machine.run_satisfies (by decide +kernel)
    obtain ⟨tr, t, hr, hend, hok, honce⟩ := hrun
    exact ⟨tr, t, hr, hend, hok, fun h => honce h.releasedOnce⟩
  · have hrun : ∃ tr t, (interfaceMachine fun _ => 0).run .client clientReconnects = some (tr, t) ∧
        t.destroyed = true ∧ Every Succeeds tr ∧ ¬ callEffects.ReleasedOnce (callsOf tr) :=
      Machine.run_satisfies (by decide +kernel)
    obtain ⟨tr, t, hr, hend, hok, honce⟩ := hrun
    exact ⟨tr, t, hr, hend, hok, fun h => honce h.releasedOnce⟩

end Runs
end AutoTest.ResourceConservation
